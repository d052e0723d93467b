import SupraSeal.Lib.Transition
import SupraSeal.Nvme.Ring

/-!
# Runs of ring buffers

The calls of `ring_buffer_t` in `nvme/ring_t.hpp` in any order. The counter of the head slot is always
zero: it is cleared one step ahead of the reservation of the slot. So a reserved slot starts with
counter zero, and the loops over valid slots stop at the head at the latest.
-/

namespace SupraSeal

open Transition

namespace RingBuffer

variable {size : ℕ}

/-- Returns `a - b`, taking into account wraparound. -/
def sub (size a b : ℕ) : ℕ := if a ≥ b then a - b else size + a - b

/-- `advance_valid`, with how far it came; `none` when the fuel does not suffice. -/
def advanceValid (threshold : ℕ) : ℕ → RingBuffer size → Option (ℕ × RingBuffer size)
  | 0, _ => none
  | fuel + 1, r =>
    if r.isValid threshold r.headValid then
      (advanceValid threshold fuel { r with headValid := incr size r.headValid }).map
        fun (cnt, r) => (cnt + 1, r)
    else some (0, r)

/-- `release_valid`, with how many elements it released. -/
def releaseValid (threshold : ℕ) : ℕ → RingBuffer size → Option (ℕ × RingBuffer size)
  | 0, _ => none
  | fuel + 1, r =>
    if r.isValid threshold r.tail then
      (releaseValid threshold fuel
        { r with
          valid := Function.update r.valid r.tail 0
          tail := incr size r.tail
          curSize := r.curSize - 1 }).map fun (count, r) => (count + 1, r)
    else some (0, r)

/-- The slot is one of those from the tail up to the head. -/
def Reserved (r : RingBuffer size) (idx : ℕ) : Prop := idx < size ∧ sub size idx r.tail < r.curSize

/-! ### Calls -/

inductive Op
  | reserve
  | reserveBatchNocheck (count : ℕ)
  | incrValid (idx amount : ℕ)
  | release
  | releaseValid
  | advanceValid

/-- What a caller has to see to. -/
def Allowed (r : RingBuffer size) : Op → Prop
  | .reserve => True
  | .reserveBatchNocheck count => count ≤ r.freeCount
  | .incrValid idx _ => r.Reserved idx
  | .release => r.curSize ≠ 0
  | .releaseValid => True
  | .advanceValid => True

/-- A call; a loop of more than `size` rounds has no result. -/
def step (threshold : ℕ) (r : RingBuffer size) : Op → Option (RingBuffer size)
  | .reserve => some (match r.reserve with
    | some (_, r') => r'
    | none => r)
  | .reserveBatchNocheck count => some (r.reserveBatchNocheck count).2
  | .incrValid idx amount => some (r.incrValid idx amount)
  | .release => some r.release
  | .releaseValid => (r.releaseValid threshold size).map Prod.snd
  | .advanceValid => (r.advanceValid threshold size).map Prod.snd

/-! ### Indices -/

lemma add_eq_mod {a b : ℕ} (ha : a < size) (hb : b < size) : add size a b = (a + b) % size := by
  rw [← add_mod (Nat.zero_lt_of_lt ha) a hb.le, Nat.mod_eq_of_lt ha]

lemma sub_eq_mod {a b : ℕ} (ha : a < size) (hb : b < size) :
    sub size a b = (a + (size - b)) % size := by
  rw [sub]
  split_ifs with h
  · rw [show a + (size - b) = a - b + size by omega, Nat.add_mod_right, Nat.mod_eq_of_lt (by omega)]
  · rw [show size + a - b = a + (size - b) by omega, Nat.mod_eq_of_lt (by omega)]

lemma sub_mod {t m : ℕ} (htm : t ≤ m) (hlt : m < t + size) :
    sub size (m % size) (t % size) = m - t :=
  Wrap.sub_mod_of_lt htm hlt

lemma sub_lt {a b : ℕ} (ha : a < size) (hb : b < size) : sub size a b < size := by
  rw [sub_eq_mod ha hb]
  exact Nat.mod_lt _ (Nat.zero_lt_of_lt ha)

/-- Going as far as the difference leads there. -/
lemma add_sub_mod (t : ℕ) {a : ℕ} (ha : a < size) : (t + sub size a (t % size)) % size = a := by
  have hlt : t % size < size := Nat.mod_lt t (Nat.zero_lt_of_lt ha)
  rw [← Nat.mod_add_mod, sub_eq_mod ha hlt, Nat.add_mod_mod,
    show t % size + (a + (size - t % size)) = a + size by omega, Nat.add_mod_right, Nat.mod_eq_of_lt ha]

lemma incr_lt {a : ℕ} (ha : a < size) : incr size a < size := by
  rw [incr]
  split_ifs <;> omega

/-- An index that moves on comes closer to any other one. -/
lemma sub_incr {a b : ℕ} (ha : a < size) (hb : b < size) (hne : b ≠ a) :
    sub size a b = sub size a (incr size b) + 1 := by
  rw [sub, sub, incr]
  split_ifs <;> omega

lemma sub_self (a : ℕ) : sub size a a = 0 := by simp [sub]

/-! ### The invariant -/

/-- The buffer holds the elements `t, …, h - 1`, and the counter of the head slot is cleared. -/
structure Inv (r : RingBuffer size) (t h : ℕ) : Prop where
  spans : r.Spans t h
  headValid_lt : r.headValid < size
  valid_head : r.valid (h % size) = 0

variable {r r' : RingBuffer size} {t h threshold : ℕ}

lemma Spans.reserved_iff (hr : r.Spans t h) {idx : ℕ} :
    r.Reserved idx ↔ ∃ m, t ≤ m ∧ m < h ∧ m % size = idx := by
  have hlt := hr.lt
  have hle := hr.le
  rw [Reserved, hr.tail, hr.curSize]
  constructor
  · rintro ⟨hidx, hsub⟩
    exact ⟨t + sub size idx (t % size), Nat.le_add_right t _, by omega, add_sub_mod t hidx⟩
  · rintro ⟨m, htm, hmh, rfl⟩
    refine ⟨Nat.mod_lt m hr.pos, ?_⟩
    rw [sub_mod htm (by omega)]
    omega

lemma Spans.sub_head_tail (hr : r.Spans t h) : r.curSize = sub size r.head r.tail := by
  rw [hr.head, hr.tail, sub_mod hr.le hr.lt, hr.curSize]

lemma Spans.curSize_le (hr : r.Spans t h) : r.curSize ≤ size - 1 := by
  have := hr.lt
  rw [hr.curSize]
  omega

lemma empty_inv (hs : 0 < size) : (empty : RingBuffer size).Inv 0 0 := ⟨empty_spans hs, hs, rfl⟩

namespace Inv

/-- A reserved slot is not the head slot, which is the next one to be handed out. -/
lemma not_reserved_head (hr : r.Inv t h) : ¬r.Reserved (h % size) := by
  intro hres
  obtain ⟨m, htm, hmh, heq⟩ := hr.spans.reserved_iff.mp hres
  have := hr.spans.lt
  exact Wrap.mod_ne_of_lt hmh (by omega) heq

lemma reserveBatchNocheck (hr : r.Inv t h) {count : ℕ} (hcount : count ≤ r.freeCount) :
    (r.reserveBatchNocheck count).2.Inv t (h + count) := by
  have hpos := hr.spans.pos
  have hlt : h + count < t + size := by
    have := hr.spans.lt
    have := hr.spans.le
    rw [hr.spans.freeCount_eq] at hcount
    omega
  refine ⟨hr.spans.reserveBatchNocheck hlt, ?_, ?_⟩
  · have hkept : ∀ n, (advanceHead^[n] r).headValid = r.headValid := by
      intro n
      induction n with
      | zero => rfl
      | succ n ih => rwa [Function.iterate_succ_apply']
    exact (hkept count).trans_lt hr.headValid_lt
  · cases count with
    | zero => exact hr.valid_head
    | succ n => exact hr.spans.reserveBatchNocheck_valid_new (by omega) le_rfl

lemma incrValid (hr : r.Inv t h) {idx : ℕ} (hidx : r.Reserved idx) (amount : ℕ) :
    (r.incrValid idx amount).Inv t h := by
  refine ⟨hr.spans.incrValid idx amount, hr.headValid_lt, ?_⟩
  have hne : h % size ≠ idx := by
    intro heq
    exact hr.not_reserved_head (heq ▸ hidx)
  rw [incrValid_valid, Function.update_of_ne hne]
  exact hr.valid_head

lemma release (hr : r.Inv t h) (hsize : r.curSize ≠ 0) : r.release.Inv (t + 1) h := by
  have hlt : t < h := by
    rw [hr.spans.curSize] at hsize
    omega
  exact ⟨hr.spans.release hlt, hr.headValid_lt, hr.valid_head⟩

/-! ### The loops -/

/-- The head slot is not valid. -/
lemma not_isValid_head (hr : r.Inv t h) (hthr : 1 ≤ threshold) :
    ¬r.isValid threshold (h % size) = true := by
  rw [isValid, decide_eq_true_iff, hr.valid_head]
  omega

/-- `head_valid` comes to the head at most. -/
lemma advanceValid (hthr : 1 ≤ threshold) (hr : r.Inv t h) {fuel : ℕ}
    (hfuel : sub size r.head r.headValid < fuel) :
    ∃ cnt r', r.advanceValid threshold fuel = some (cnt, r') ∧
      cnt ≤ sub size r.head r.headValid ∧ r' = { r with headValid := (r.headValid + cnt) % size } ∧
      r'.isValid threshold r'.headValid = false ∧ r'.Inv t h := by
  have hpos := hr.spans.pos
  induction fuel generalizing r with
  | zero => exact absurd hfuel (Nat.not_lt_zero _)
  | succ fuel ih =>
    rw [RingBuffer.advanceValid]
    by_cases hvalid : r.isValid threshold r.headValid = true
    · have hne : r.headValid ≠ r.head := by
        intro heq
        rw [heq, hr.spans.head] at hvalid
        exact hr.not_isValid_head hthr hvalid
      have hhead : r.head < size := hr.spans.head ▸ Nat.mod_lt h hpos
      have hsub := sub_incr hhead hr.headValid_lt hne
      have hinv : ({ r with headValid := incr size r.headValid } : RingBuffer size).Inv t h :=
        ⟨⟨hr.spans.head, hr.spans.tail, hr.spans.curSize, hr.spans.le, hr.spans.lt⟩,
          incr_lt hr.headValid_lt, hr.valid_head⟩
      obtain ⟨cnt, r', hloop, hcnt, rfl, hstop, hinv'⟩ := ih hinv (by
        show sub size r.head (incr size r.headValid) < fuel
        omega)
      have hcnt : cnt ≤ sub size r.head (incr size r.headValid) := hcnt
      have hmod : (incr size r.headValid + cnt) % size = (r.headValid + (cnt + 1)) % size := by
        conv_lhs => rw [← Nat.mod_eq_of_lt hr.headValid_lt, incr_mod hpos, Nat.mod_add_mod]
        rw [Nat.add_assoc, Nat.add_comm 1]
      refine ⟨cnt + 1, _, ?_, by omega, ?_, hstop, hinv'⟩
      · rw [if_pos hvalid, hloop]
        rfl
      · rw [hmod]
    · refine ⟨0, r, if_neg hvalid, Nat.zero_le _, ?_, Bool.eq_false_of_not_eq_true hvalid, hr⟩
      rw [Nat.add_zero, Nat.mod_eq_of_lt hr.headValid_lt]

/-- The tail comes to the head at most. -/
lemma releaseValid (hthr : 1 ≤ threshold) (hr : r.Inv t h) {fuel : ℕ} (hfuel : r.curSize < fuel) :
    ∃ cnt r', r.releaseValid threshold fuel = some (cnt, r') ∧ cnt ≤ r.curSize ∧
      r'.head = r.head ∧ r'.isValid threshold r'.tail = false ∧ r'.Inv (t + cnt) h := by
  have hpos := hr.spans.pos
  induction fuel generalizing r t with
  | zero => exact absurd hfuel (Nat.not_lt_zero _)
  | succ fuel ih =>
    rw [RingBuffer.releaseValid]
    by_cases hvalid : r.isValid threshold r.tail = true
    · have hlt : t < h := by
        refine Nat.lt_of_le_of_ne hr.spans.le fun heq => ?_
        rw [hr.spans.tail, heq] at hvalid
        exact hr.not_isValid_head hthr hvalid
      have hsize := hr.spans.curSize
      have hne : h % size ≠ r.tail := by
        rw [hr.spans.tail]
        exact (Wrap.mod_ne_of_lt hlt hr.spans.lt).symm
      have hinv : ({ r with
          valid := Function.update r.valid r.tail 0
          tail := incr size r.tail
          curSize := r.curSize - 1 } : RingBuffer size).Inv (t + 1) h := by
        have hrel := hr.spans.release hlt
        refine ⟨⟨hrel.head, hrel.tail, hrel.curSize, hrel.le, hrel.lt⟩, hr.headValid_lt, ?_⟩
        exact (Function.update_of_ne hne 0 r.valid).trans hr.valid_head
      obtain ⟨cnt, r', hloop, hcnt, hhead, hstop, hinv'⟩ := ih hinv (by
        show r.curSize - 1 < fuel
        omega)
      have hcnt : cnt ≤ r.curSize - 1 := hcnt
      refine ⟨cnt + 1, r', ?_, by omega, hhead, hstop, ?_⟩
      · rw [if_pos hvalid, hloop]
        rfl
      · rwa [Nat.add_assoc, Nat.add_comm 1] at hinv'
    · exact ⟨0, r, if_neg hvalid, Nat.zero_le _, rfl, Bool.eq_false_of_not_eq_true hvalid, hr⟩

/-! ### Runs -/

lemma curSize_lt (hr : r.Inv t h) : r.curSize < size :=
  hr.spans.curSize_le.trans_lt (Nat.sub_lt hr.spans.pos Nat.one_pos)

lemma sub_headValid_lt (hr : r.Inv t h) : sub size r.head r.headValid < size :=
  sub_lt (hr.spans.head ▸ Nat.mod_lt h hr.spans.pos) hr.headValid_lt

lemma one_le_freeCount (hfull : r.isFull ≠ true) (hr : r.Inv t h) : 1 ≤ r.freeCount := by
  have hle := hr.spans.curSize_le
  have hne : r.curSize ≠ size - 1 := by
    intro heq
    exact hfull (beq_iff_eq.mpr heq)
  rw [freeCount, capacity]
  omega

/-- One call. -/
lemma step (hthr : 1 ≤ threshold) (hr : r.Inv t h) {op : Op} (hop : r.Allowed op)
    (hstep : r.step threshold op = some r') : ∃ t' h', r'.Inv t' h' := by
  cases op with
  | reserve =>
    rw [RingBuffer.step, reserve_eq] at hstep
    by_cases hfull : r.isFull = true
    · rw [if_pos hfull] at hstep
      cases hstep
      exact ⟨t, h, hr⟩
    · rw [if_neg hfull] at hstep
      cases hstep
      exact ⟨t, h + 1, hr.reserveBatchNocheck (one_le_freeCount hfull hr)⟩
  | reserveBatchNocheck count =>
    cases hstep
    exact ⟨t, h + count, hr.reserveBatchNocheck hop⟩
  | incrValid idx amount =>
    cases hstep
    exact ⟨t, h, hr.incrValid hop amount⟩
  | release =>
    cases hstep
    exact ⟨t + 1, h, hr.release hop⟩
  | releaseValid =>
    obtain ⟨cnt, r₁, hloop, -, -, -, hinv⟩ := hr.releaseValid hthr hr.curSize_lt
    rw [RingBuffer.step, hloop] at hstep
    cases hstep
    exact ⟨t + cnt, h, hinv⟩
  | advanceValid =>
    obtain ⟨cnt, r₁, hloop, -, -, -, hinv⟩ := hr.advanceValid hthr hr.sub_headValid_lt
    rw [RingBuffer.step, hloop] at hstep
    cases hstep
    exact ⟨t, h, hinv⟩

end Inv

/-- A reservation of `count` slots: what is cleared is never reserved, the new slots start with
counter zero, and those reserved before are kept. -/
structure ReservesClean (r : RingBuffer size) (count : ℕ) : Prop where
  cleared : ∀ k < count, ¬(r.reserveBatchNocheck (k + 1)).2.Reserved
    (incr size (r.reserveBatchNocheck k).2.head)
  fresh : ∀ k < count, ¬r.Reserved ((incr size)^[k] r.head) ∧
    (r.reserveBatchNocheck count).2.Reserved ((incr size)^[k] r.head) ∧
    (r.reserveBatchNocheck count).2.valid ((incr size)^[k] r.head) = 0
  kept : ∀ idx, r.Reserved idx → (r.reserveBatchNocheck count).2.Reserved idx ∧
    (r.reserveBatchNocheck count).2.valid idx = r.valid idx

lemma Inv.reservesClean (hr : r.Inv t h) {count : ℕ} (hcount : count ≤ r.freeCount) :
    r.ReservesClean count := by
  have hpos := hr.spans.pos
  have hle := hr.spans.le
  have hnew := hr.reserveBatchNocheck hcount
  have hlt := hnew.spans.lt
  refine ⟨fun k hk => ?_, fun k hk => ?_, fun idx hidx => ?_⟩
  · -- the slot that round `k` clears is the head slot after it
    have hk' := hr.reserveBatchNocheck (Nat.le_trans hk hcount)
    have hhead : (r.reserveBatchNocheck k).2.head = (h + k) % size :=
      (hr.reserveBatchNocheck (hk.le.trans hcount)).spans.head
    rw [hhead, incr_mod hpos]
    exact hk'.not_reserved_head
  · rw [hr.spans.head, incr_iterate_mod hpos]
    refine ⟨?_, ?_, ?_⟩
    · intro hres
      obtain ⟨m, htm, hmh, heq⟩ := hr.spans.reserved_iff.mp hres
      exact Wrap.mod_ne_of_lt (by omega) (by omega) heq
    · exact hnew.spans.reserved_iff.mpr ⟨h + k, by omega, by omega, rfl⟩
    · rcases Nat.eq_zero_or_pos k with rfl | hk0
      · rw [Nat.add_zero, hr.spans.reserveBatchNocheck_valid_old hlt hle le_rfl]
        exact hr.valid_head
      · exact hr.spans.reserveBatchNocheck_valid_new (by omega) (by omega)
  · obtain ⟨m, htm, hmh, rfl⟩ := hr.spans.reserved_iff.mp hidx
    refine ⟨hnew.spans.reserved_iff.mpr ⟨m, htm, by omega, rfl⟩, ?_⟩
    exact hr.spans.reserveBatchNocheck_valid_old hlt htm hmh.le

/-- What holds of a ring buffer at any time. -/
structure Sound (threshold : ℕ) (r : RingBuffer size) : Prop where
  head_lt : r.head < size
  tail_lt : r.tail < size
  headValid_lt : r.headValid < size
  curSize_eq : r.curSize = sub size r.head r.tail
  curSize_le : r.curSize ≤ size - 1
  valid_head : r.valid r.head = 0
  reserve : ∀ idx r', r.reserve = some (idx, r') → idx = r.head ∧ r' = (r.reserveBatchNocheck 1).2 ∧
    r.ReservesClean 1
  reserveBatchNocheck : ∀ count ≤ r.freeCount, r.ReservesClean count
  /-- With any fuel from `size` on the loops return, and before they pass the head. -/
  advanceValid : ∀ fuel, size ≤ fuel → ∃ cnt, r.advanceValid threshold fuel =
    some (cnt, { r with headValid := (r.headValid + cnt) % size }) ∧ cnt ≤ sub size r.head r.headValid
  releaseValid : ∀ fuel, size ≤ fuel → ∃ cnt r', r.releaseValid threshold fuel = some (cnt, r') ∧
    cnt ≤ sub size r.head r.tail ∧ r'.head = r.head ∧ r'.tail = (r.tail + cnt) % size

lemma Inv.soundState (hthr : 1 ≤ threshold) (hr : r.Inv t h) : r.Sound threshold where
  head_lt := hr.spans.head ▸ Nat.mod_lt h hr.spans.pos
  tail_lt := hr.spans.tail ▸ Nat.mod_lt t hr.spans.pos
  headValid_lt := hr.headValid_lt
  curSize_eq := hr.spans.sub_head_tail
  curSize_le := hr.spans.curSize_le
  valid_head := by
    rw [hr.spans.head]
    exact hr.valid_head
  reserve := by
    intro idx r' hreserve
    rw [reserve_eq] at hreserve
    split at hreserve
    next => cases hreserve
    next hfull =>
      cases hreserve
      exact ⟨rfl, rfl, hr.reservesClean (one_le_freeCount hfull hr)⟩
  reserveBatchNocheck := fun _ hcount => hr.reservesClean hcount
  advanceValid := by
    intro fuel hfuel
    obtain ⟨cnt, r', hloop, hcnt, rfl, -, -⟩ :=
      hr.advanceValid hthr (hr.sub_headValid_lt.trans_le hfuel)
    exact ⟨cnt, hloop, hcnt⟩
  releaseValid := by
    intro fuel hfuel
    obtain ⟨cnt, r', hloop, hcnt, hhead, -, hinv⟩ :=
      hr.releaseValid hthr (hr.curSize_lt.trans_le hfuel)
    refine ⟨cnt, r', hloop, hr.spans.sub_head_tail ▸ hcnt, hhead, ?_⟩
    rw [hinv.spans.tail, hr.spans.tail, Nat.mod_add_mod]

/-- Whatever the order of the calls, a ring buffer is sound, and its differences and sums of indices
are those modulo its size. -/
theorem sound (hsize : 2 ≤ size) (hthr : 1 ≤ threshold)
    (hr : ReachableVia Allowed (step threshold) (empty : RingBuffer size) r) :
    r.Sound threshold ∧ ∀ a < size, ∀ b < size,
      add size a b = (a + b) % size ∧ sub size a b = (a + (size - b)) % size := by
  obtain ⟨t, h, hinv⟩ : ∃ t h, r.Inv t h :=
    hr.invariant (P := fun r => ∃ t h, r.Inv t h) ⟨0, 0, empty_inv (by omega)⟩
      fun _ _ _ ⟨_, _, hinv⟩ hop hstep => hinv.step hthr hop hstep
  exact ⟨hinv.soundState hthr, fun a ha b hb => ⟨add_eq_mod ha hb, sub_eq_mod ha hb⟩⟩

/-- A slot is reserved, made valid, and released while another one is reserved. -/
theorem sound_three : ∃ r : RingBuffer 3, runList (step 1) empty
    [.reserveBatchNocheck 2, .incrValid 0 1, .advanceValid, .releaseValid] = some r ∧
    r.Sound 1 ∧ ∀ a < 3, ∀ b < 3, add 3 a b = (a + b) % 3 ∧ sub 3 a b = (a + (3 - b)) % 3 := by
  have h₁ : ReachableVia Allowed (step 1) (empty : RingBuffer 3) (empty.reserveBatchNocheck 2).2 :=
    ReachableVia.start.next (a := Op.reserveBatchNocheck 2) (le_refl 2) rfl
  have h₂ := h₁.next (a := Op.incrValid 0 1) ⟨by decide, by decide⟩ rfl
  have h₃ := h₂.next (a := Op.advanceValid) trivial rfl
  have h₄ := h₃.next (a := Op.releaseValid) trivial rfl
  exact ⟨_, rfl, sound (by decide) (by decide) h₄⟩

end RingBuffer

end SupraSeal
