import Mathlib.Data.List.Nodup
import Mathlib.Data.List.Perm.Basic
import Mathlib.Data.List.Range

/-!
# Grids of threads

The threads of a grid share the elements of an array. In a grid-stride loop thread `t` takes the
elements `t`, `t + n`, `t + 2 * n`, … for a grid of `n` threads. Each element is taken once, so that a
loop whose rounds change only their own element has the same result in every order of the rounds. The
same holds for blocks or threads that change only their own part of the array.
-/

namespace SupraSeal.GridStride

/-- Indices of `for (i = start; i < limit; i += stride)`. -/
def indices (stride limit start : ℕ) : List ℕ :=
  if start < limit ∧ 0 < stride then start :: indices stride limit (start + stride) else []
termination_by limit - start

variable {stride limit : ℕ}

lemma mem_indices (hs : 0 < stride) {start i : ℕ} :
    i ∈ indices stride limit start ↔ i < limit ∧ ∃ q, i = start + q * stride := by
  induction start using indices.induct stride limit with
  | case1 start h ih =>
    rw [indices, if_pos h, List.mem_cons, ih]
    constructor
    · rintro (rfl | ⟨hlt, q, rfl⟩)
      · exact ⟨h.1, 0, by simp⟩
      · exact ⟨hlt, q + 1, by rw [Nat.succ_mul]; omega⟩
    · rintro ⟨hlt, q, rfl⟩
      cases q with
      | zero =>
        left
        simp
      | succ q =>
        right
        exact ⟨hlt, q, by rw [Nat.succ_mul]; omega⟩
  | case2 start h =>
    rw [indices, if_neg h]
    simp only [List.not_mem_nil, false_iff, not_and, not_exists]
    intro hlt q hq
    refine h ⟨?_, hs⟩
    omega

lemma nodup_indices (start : ℕ) : (indices stride limit start).Nodup := by
  induction start using indices.induct stride limit with
  | case1 start h ih =>
    rw [indices, if_pos h]
    refine List.nodup_cons.mpr ⟨fun hmem => ?_, ih⟩
    obtain ⟨-, q, hq⟩ := (mem_indices h.2).mp hmem
    have := h.2
    omega
  | case2 start h =>
    rw [indices, if_neg h]
    exact List.nodup_nil

/-- What every iteration keeps holds behind the loop. -/
theorem foldl_indices {S : Type*} {Inv : ℕ → S → Prop} {body : S → ℕ → S}
    (hstep : ∀ i s, i < limit → stride ∣ i → Inv i s → Inv (min (i + stride) limit) (body s i))
    {s : S} (hs : 0 < stride) (h : Inv 0 s) : Inv limit ((indices stride limit 0).foldl body s) := by
  have key : ∀ start s, stride ∣ start → Inv (min start limit) s →
      Inv limit ((indices stride limit start).foldl body s) := by
    intro start
    induction start using indices.induct stride limit with
    | case1 start hlt ih =>
      intro s hdvd hInv
      rw [indices, if_pos hlt, List.foldl_cons]
      rw [min_eq_left hlt.1.le] at hInv
      exact ih _ (Nat.dvd_add hdvd (Nat.dvd_refl stride)) (hstep start s hlt.1 hdvd hInv)
    | case2 start hlt =>
      intro s _ hInv
      rw [indices, if_neg hlt]
      rwa [min_eq_right (Nat.le_of_not_lt fun h => hlt ⟨h, hs⟩)] at hInv
  exact key 0 s (Nat.dvd_zero stride) (by rwa [Nat.zero_min])

lemma foldl_range {S : Type*} {Inv : ℕ → S → Prop} {body : S → ℕ → S} {n : ℕ}
    (hstep : ∀ j s, j < n → Inv j s → Inv (j + 1) (body s j)) {s : S} (h : Inv 0 s) :
    Inv n ((List.range n).foldl body s) := by
  induction n with
  | zero => exact h
  | succ n ih =>
    rw [List.range_succ, List.foldl_append]
    exact hstep n _ (Nat.lt_succ_self n) (ih fun j s hj => hstep j s (hj.trans (Nat.lt_succ_self n)))

/-- The threads of a grid, by their numbers in it. -/
def threads (blockDim gridDim : ℕ) : List ℕ :=
  (List.range gridDim).flatMap fun b => (List.range blockDim).map fun t => t + b * blockDim

lemma threads_eq (blockDim gridDim : ℕ) :
    threads blockDim gridDim = List.range (blockDim * gridDim) := by
  induction gridDim with
  | zero => rfl
  | succ n ih =>
    have hsplit : threads blockDim (n + 1) =
        threads blockDim n ++ (List.range blockDim).map fun t => t + n * blockDim := by
      rw [threads, List.range_succ, List.flatMap_append, List.flatMap_singleton, threads]
    rw [hsplit, ih, Nat.mul_succ, List.range_add]
    congr 1
    refine List.map_congr_left fun t _ => ?_
    rw [Nat.mul_comm, Nat.add_comm]

/-- Every element is taken by exactly one thread. -/
theorem flatMap_indices_perm (hs : 0 < stride) :
    ((List.range stride).flatMap (indices stride limit)).Perm (List.range limit) := by
  refine (List.perm_ext_iff_of_nodup ?_ List.nodup_range).mpr fun i => ?_
  · refine List.nodup_flatMap.mpr ⟨fun t _ => nodup_indices t, ?_⟩
    refine List.Pairwise.imp_of_mem ?_ List.pairwise_lt_range
    intro t t' ht ht' hlt i hi hi'
    obtain ⟨-, q, hq⟩ := (mem_indices hs).mp hi
    obtain ⟨-, q', hq'⟩ := (mem_indices hs).mp hi'
    -- the thread is the index modulo the stride
    have hmod : t % stride = t' % stride := by
      rw [← Nat.add_mul_mod_self_right t q, ← Nat.add_mul_mod_self_right t' q', ← hq, ← hq']
    rw [Nat.mod_eq_of_lt (List.mem_range.mp ht), Nat.mod_eq_of_lt (List.mem_range.mp ht')] at hmod
    omega
  · rw [List.mem_flatMap, List.mem_range]
    constructor
    · rintro ⟨t, -, hi⟩
      exact ((mem_indices hs).mp hi).1
    · intro hi
      refine ⟨i % stride, List.mem_range.mpr (Nat.mod_lt _ hs), (mem_indices hs).mpr ⟨hi, i / stride, ?_⟩⟩
      rw [Nat.mul_comm, Nat.mod_add_div]

/-! ### Rounds on their own elements -/

section Rounds

variable {L V : Type*} [DecidableEq L] {addr : ℕ → L} {f : ℕ → (L → V) → V}

/-- Round `i` of a loop that sets the element at `addr i`. -/
def round (addr : ℕ → L) (f : ℕ → (L → V) → V) (m : L → V) (i : ℕ) : L → V :=
  Function.update m (addr i) (f i m)

lemma foldl_round_of_ne {l : List ℕ} {x : L} (hx : ∀ i ∈ l, addr i ≠ x) (m : L → V) :
    l.foldl (round addr f) m x = m x := by
  induction l generalizing m with
  | nil => rfl
  | cons i l ih =>
    rw [List.foldl_cons, ih fun j hj => hx j (List.mem_cons_of_mem i hj)]
    exact Function.update_of_ne (hx i (List.mem_cons_self ..)).symm ..

/-- Each element gets what its round computes from the memory before the loop. -/
theorem foldl_round {l : List ℕ} (hl : l.Nodup) (haddr : Function.Injective addr)
    (hf : ∀ i m m', (∀ x, (∀ j ≠ i, addr j ≠ x) → m x = m' x) → f i m = f i m') (m : L → V)
    {i : ℕ} (hi : i ∈ l) : l.foldl (round addr f) m (addr i) = f i m := by
  induction l generalizing m with
  | nil => cases hi
  | cons j l ih =>
    obtain ⟨hj, hl⟩ := List.nodup_cons.mp hl
    rw [List.foldl_cons]
    rcases List.mem_cons.mp hi with rfl | hi
    · have hne : ∀ k ∈ l, addr k ≠ addr i := by
        intro k hk h
        rw [haddr h] at hk
        exact hj hk
      rw [foldl_round_of_ne hne]
      exact Function.update_self ..
    · rw [ih hl _ hi]
      have hij : j ≠ i := by
        rintro rfl
        exact hj hi
      exact hf i _ _ fun x hx => Function.update_of_ne (hx j hij).symm ..

end Rounds

/-! ### Parts of an array -/

variable {L V : Type*}

/-- Units that each read and change their own part of the memory leave in every part what its unit
makes of the memory before, in every order of the units. -/
theorem foldl_parts {ι : Type*} [DecidableEq ι] {owner : L → ι} {body : ι → (L → V) → L → V}
    (hframe : ∀ i m x, owner x ≠ i → body i m x = m x)
    (hlocal : ∀ i m m', (∀ x, owner x = i → m x = m' x) → ∀ x, owner x = i →
      body i m x = body i m' x) {l : List ι} (hl : l.Nodup) (m : L → V) (x : L) :
    l.foldl (fun m i => body i m) m x = if owner x ∈ l then body (owner x) m x else m x := by
  induction l generalizing m with
  | nil => rfl
  | cons i l ih =>
    obtain ⟨hi, hl⟩ := List.nodup_cons.mp hl
    rw [List.foldl_cons, ih hl]
    by_cases hx : owner x = i
    · subst hx
      rw [if_neg hi, if_pos (List.mem_cons_self ..)]
    · simp only [List.mem_cons, hx, false_or]
      split_ifs
      · refine hlocal _ _ _ (fun y hy => ?_) x rfl
        exact hframe _ _ _ fun h => hx (hy ▸ h)
      · exact hframe _ _ _ hx

/-- Threads that store at consecutive elements. -/
lemma foldl_store {p : ℕ → Prop} [DecidablePred p] (base : ℕ) (v : ℕ → V) (n : ℕ)
    (m : ℕ → V) (k : ℕ) :
    (List.range n).foldl (fun m i => if p i then Function.update m (base + i) (v i) else m) m k =
      if base ≤ k ∧ k < base + n ∧ p (k - base) then v (k - base) else m k := by
  induction n with
  | zero =>
    rw [if_neg (by omega)]
    rfl
  | succ n ih =>
    rw [List.range_succ, List.foldl_append]
    simp only [List.foldl_cons, List.foldl_nil]
    by_cases hk : k = base + n
    · subst hk
      have hsub : base + n - base = n := Nat.add_sub_cancel_left ..
      rw [hsub] at ih ⊢
      by_cases hp : p n
      · rw [if_pos hp, Function.update_self, if_pos ⟨by omega, by omega, hp⟩]
      · rw [if_neg hp, ih, if_neg (by omega), if_neg (by tauto)]
    · have hold : ∀ m' : ℕ → V, (if p n then Function.update m' (base + n) (v n) else m') k = m' k := by
        intro m'
        split_ifs
        · exact Function.update_of_ne hk ..
        · rfl
      rw [hold, ih]
      have hiff : k < base + n ↔ k < base + (n + 1) := by omega
      simp only [hiff]

lemma foldl_store_all (base : ℕ) (v : ℕ → V) (n : ℕ) (m : ℕ → V) (k : ℕ) :
    (List.range n).foldl (fun m i => Function.update m (base + i) (v i)) m k =
      if base ≤ k ∧ k < base + n then v (k - base) else m k := by
  simpa using @foldl_store V (fun _ => True) _ base v n m k

end SupraSeal.GridStride
