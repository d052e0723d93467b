import SupraSeal.Lib.Wrap
import Mathlib.Logic.Function.Iterate

/-!
# Ring buffers

`ring_buffer_t` and `ring_counter_t` of `nvme/ring_t.hpp`. A ring buffer is modelled by its
indices and its array of valid counters; the entries themselves belong to the arrays that are
parallel to it.

The indices wrap around. `RingBuffer.Spans r t h` says which part of an ever growing sequence of
elements the ring holds: the elements `t, …, h - 1`, element `m` in slot `m % size`.
-/

namespace SupraSeal

/-- `ring_buffer_t<T, _VALID_THRESHOLD, SIZE>` without its entries. -/
structure RingBuffer (size : ℕ) where
  head : ℕ
  headValid : ℕ
  tail : ℕ
  curSize : ℕ
  valid : ℕ → ℕ

namespace RingBuffer

variable {size : ℕ}

def empty : RingBuffer size := ⟨0, 0, 0, 0, fun _ => 0⟩

def capacity (_ : RingBuffer size) : ℕ := size - 1

def freeCount (r : RingBuffer size) : ℕ := r.capacity - r.curSize

def isFull (r : RingBuffer size) : Bool := r.curSize == r.capacity

def incr (size idx : ℕ) : ℕ := if idx = size - 1 then 0 else idx + 1

/-- Returns `a + b`, taking into account wraparound. -/
def add (size a b : ℕ) : ℕ := if a + b ≥ size then a + b - size else a + b

/-- One round of the loop of `reserve_batch_nocheck`: clear the counter of the next head and
move there. -/
def advanceHead (r : RingBuffer size) : RingBuffer size :=
  { r with
    head := incr size r.head
    valid := Function.update r.valid (incr size r.head) 0 }

/-- Reserve the next free element, with its index; `none` for a full buffer. -/
def reserve (r : RingBuffer size) : Option (ℕ × RingBuffer size) :=
  if r.isFull then none
  else some (r.head, { r.advanceHead with curSize := r.curSize + 1 })

/-- Reserve `count` elements, with the index of the first. -/
def reserveBatchNocheck (count : ℕ) (r : RingBuffer size) : ℕ × RingBuffer size :=
  (r.head, { advanceHead^[count] r with curSize := r.curSize + count })

def incrValid (r : RingBuffer size) (idx amount : ℕ) : RingBuffer size :=
  { r with valid := Function.update r.valid idx (r.valid idx + amount) }

def isValid (threshold : ℕ) (r : RingBuffer size) (idx : ℕ) : Bool := threshold ≤ r.valid idx

/-- Release the tail element to unused state. -/
def release (r : RingBuffer size) : RingBuffer size :=
  { r with tail := incr size r.tail, curSize := r.curSize - 1 }

/-! ### Indices as counters -/

/-- The ring holds the elements `t, …, h - 1` of the sequence of all reserved elements. -/
structure Spans (r : RingBuffer size) (t h : ℕ) : Prop where
  head : r.head = h % size
  tail : r.tail = t % size
  curSize : r.curSize = h - t
  le : t ≤ h
  lt : h < t + size

lemma incr_mod (hs : 0 < size) (x : ℕ) : incr size (x % size) = (x + 1) % size :=
  Wrap.succ_mod hs

lemma incr_iterate_mod (hs : 0 < size) (k x : ℕ) :
    (incr size)^[k] (x % size) = (x + k) % size := by
  induction k with
  | zero => rfl
  | succ k ih => rw [Function.iterate_succ_apply', ih, incr_mod hs, Nat.add_assoc]

lemma add_mod {b : ℕ} (hs : 0 < size) (x : ℕ) (hb : b ≤ size) :
    add size (x % size) b = (x + b) % size :=
  Wrap.add_mod_of_le hs hb

lemma empty_spans (hs : 0 < size) : (empty : RingBuffer size).Spans 0 0 :=
  ⟨by simp [empty], by simp [empty], rfl, le_rfl, by omega⟩

variable {r : RingBuffer size} {t h : ℕ}

lemma Spans.pos (hr : r.Spans t h) : 0 < size := by
  have := hr.le
  have := hr.lt
  omega

lemma Spans.freeCount_eq (hr : r.Spans t h) : r.freeCount = size - 1 - (h - t) := by
  rw [freeCount, capacity, hr.curSize]

/-- The slots of the held elements are pairwise distinct, and distinct from the head slot. -/
lemma Spans.slot_inj (hr : r.Spans t h) {x y : ℕ} (hx : t ≤ x) (hxh : x ≤ h) (hy : t ≤ y)
    (hyh : y ≤ h) (hxy : x % size = y % size) : x = y := by
  have := hr.lt
  rcases Nat.le_total x y with hle | hle
  · exact Wrap.eq_of_mod_eq hle (by omega) hxy
  · exact (Wrap.eq_of_mod_eq hle (by omega) hxy.symm).symm

lemma Spans.release (hr : r.Spans t h) (hlt : t < h) : r.release.Spans (t + 1) h where
  head := hr.head
  tail := by
    show incr size r.tail = _
    rw [hr.tail, incr_mod hr.pos]
  curSize := by
    show r.curSize - 1 = _
    rw [hr.curSize]
    omega
  le := hlt
  lt := by
    have := hr.lt
    omega

@[simp] lemma release_valid (r : RingBuffer size) : r.release.valid = r.valid := rfl

@[simp] lemma release_head (r : RingBuffer size) : r.release.head = r.head := rfl

lemma Spans.incrValid (hr : r.Spans t h) (idx amount : ℕ) : (r.incrValid idx amount).Spans t h :=
  ⟨hr.head, hr.tail, hr.curSize, hr.le, hr.lt⟩

lemma incrValid_valid (r : RingBuffer size) (idx amount : ℕ) :
    (r.incrValid idx amount).valid = Function.update r.valid idx (r.valid idx + amount) := rfl

/-! ### Reservation -/

@[simp] lemma advanceHead_iterate_tail (c : ℕ) (r : RingBuffer size) :
    (advanceHead^[c] r).tail = r.tail := by
  induction c generalizing r with
  | zero => rfl
  | succ c ih => rw [Function.iterate_succ_apply, ih]; rfl

lemma advanceHead_iterate_head (hs : 0 < size) (c : ℕ) {r : RingBuffer size}
    (hr : r.head = h % size) : (advanceHead^[c] r).head = (h + c) % size := by
  induction c generalizing r h with
  | zero => simpa using hr
  | succ c ih =>
    have hstep : r.advanceHead.head = (h + 1) % size := by
      show incr size r.head = _
      rw [hr, incr_mod hs]
    rw [Function.iterate_succ_apply, ih hstep]
    congr 1
    omega

/-- The counter of a slot that the head does not enter is unchanged. -/
lemma advanceHead_iterate_valid_of_ne (hs : 0 < size) (c : ℕ) {r : RingBuffer size}
    (hr : r.head = h % size) {i : ℕ} (hi : ∀ m, h < m → m ≤ h + c → m % size ≠ i) :
    (advanceHead^[c] r).valid i = r.valid i := by
  induction c with
  | zero => rfl
  | succ c ih =>
    rw [Function.iterate_succ_apply']
    show Function.update _ (incr size _) 0 i = _
    rw [advanceHead_iterate_head hs c hr, incr_mod hs,
      Function.update_of_ne (hi (h + c + 1) (by omega) (by omega)).symm]
    exact ih fun m hm hmc => hi m hm (by omega)

/-- The counter of a slot that the head enters is cleared. -/
lemma advanceHead_iterate_valid (hs : 0 < size) (c : ℕ) {r : RingBuffer size}
    (hr : r.head = h % size) {m : ℕ} (hm : h < m) (hmc : m ≤ h + c) :
    (advanceHead^[c] r).valid (m % size) = 0 := by
  induction c with
  | zero => omega
  | succ c ih =>
    rw [Function.iterate_succ_apply']
    show Function.update _ (incr size _) 0 _ = _
    rw [advanceHead_iterate_head hs c hr, incr_mod hs, Function.update_apply]
    split_ifs with heq
    · rfl
    · refine ih ?_
      rcases Nat.lt_or_ge m (h + c + 1) with hlt | hge
      · omega
      · exact absurd (by rw [show m = h + c + 1 by omega]) heq

variable {c : ℕ}

lemma Spans.reserveBatchNocheck (hr : r.Spans t h) (hc : h + c < t + size) :
    (r.reserveBatchNocheck c).2.Spans t (h + c) where
  head := advanceHead_iterate_head hr.pos c hr.head
  tail := by
    show (advanceHead^[c] r).tail = _
    rw [advanceHead_iterate_tail, hr.tail]
  curSize := by
    show r.curSize + c = _
    rw [hr.curSize]
    have := hr.le
    omega
  le := hr.le.trans (Nat.le_add_right _ _)
  lt := hc

lemma Spans.reserveBatchNocheck_idx (hr : r.Spans t h) :
    (r.reserveBatchNocheck c).1 = h % size := hr.head

/-- A reserved slot, and the new head slot, start with a cleared counter unless it was the head
slot before, whose counter is kept. -/
lemma Spans.reserveBatchNocheck_valid_new (hr : r.Spans t h) {m : ℕ} (hm : h < m)
    (hmc : m ≤ h + c) : (r.reserveBatchNocheck c).2.valid (m % size) = 0 := by
  show (advanceHead^[c] r).valid (m % size) = 0
  exact advanceHead_iterate_valid hr.pos c hr.head hm hmc

/-- The counters of the elements already held, and of the old head slot, are kept. -/
lemma Spans.reserveBatchNocheck_valid_old (hr : r.Spans t h) (hc : h + c < t + size) {m : ℕ}
    (ht : t ≤ m) (hm : m ≤ h) :
    (r.reserveBatchNocheck c).2.valid (m % size) = r.valid (m % size) := by
  show (advanceHead^[c] r).valid (m % size) = _
  refine advanceHead_iterate_valid_of_ne hr.pos c hr.head fun m' h1 h2 heq => ?_
  exact Wrap.mod_ne_of_lt (x := m) (y := m') (by omega) (by omega) heq.symm

lemma reserve_eq (r : RingBuffer size) :
    r.reserve = if r.isFull then none else some (r.reserveBatchNocheck 1) := rfl

end RingBuffer

/-! ### Ring counters -/

/-- `ring_counter_t`: an absolute position with its index in a ring of `ringSize` elements. -/
structure RingCounter where
  abs : ℕ
  rawIdx : ℕ

namespace RingCounter

/-- `ring_counter_t::idx()`: the page of the index. -/
def idx (divisor : ℕ) (r : RingCounter) : ℕ := r.rawIdx / divisor

/-- `ring_counter_t::operator+=`. -/
def addAssign (ringSize : ℕ) (r : RingCounter) (rhs : ℕ) : RingCounter where
  abs := r.abs + rhs
  rawIdx := if r.rawIdx + rhs ≥ ringSize then r.rawIdx + rhs - ringSize else r.rawIdx + rhs

lemma addAssign_rawIdx {ringSize rhs : ℕ} {r : RingCounter} (hs : 0 < ringSize)
    (hr : r.rawIdx = r.abs % ringSize) (hrhs : rhs ≤ ringSize) :
    (r.addAssign ringSize rhs).rawIdx = (r.addAssign ringSize rhs).abs % ringSize := by
  show (if r.rawIdx + rhs ≥ ringSize then _ else _) = (r.abs + rhs) % ringSize
  rw [hr]
  exact Wrap.add_mod_of_le hs hrhs

/-- The page index of a counter is its page number modulo the number of pages. -/
lemma idx_eq {pages divisor : ℕ} {r : RingCounter} (hr : r.rawIdx = r.abs % (pages * divisor)) :
    r.idx divisor = r.abs / divisor % pages := by
  rw [idx, hr, Nat.mul_comm, Nat.mod_mul_right_div_self]

end RingCounter

end SupraSeal
