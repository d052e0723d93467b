import Mathlib.Algebra.BigOperators.Group.Finset.Basic
import Mathlib.Data.List.GetD
import Mathlib.Data.Nat.Count
import SupraSeal.Lib.GridStride

/-!
# Packed bits

Bits in 64-bit words, the first bit of a word being its lowest. A writer collects bits in a register
and stores it when it is full; what is left at the end is stored by `flush`. Buffers keep the indices
at which they are accessed.
-/

namespace SupraSeal.PackedBits

/-- An array with the indices of the accesses to it. -/
structure Buffer (V : Type*) where
  data : ℕ → V
  accesses : List ℕ

namespace Buffer

variable {V : Type*}

def ofData (data : ℕ → V) : Buffer V := ⟨data, []⟩

def store (b : Buffer V) (i : ℕ) (v : V) : Buffer V := ⟨Function.update b.data i v, i :: b.accesses⟩

def InRange (b : Buffer V) (size : ℕ) : Prop := ∀ i ∈ b.accesses, i < size

variable {b : Buffer V} {size : ℕ}

@[simp]
lemma store_data (b : Buffer V) (i : ℕ) (v : V) : (b.store i v).data = Function.update b.data i v := rfl

lemma inRange_ofData (data : ℕ → V) (size : ℕ) : (ofData data).InRange size := by
  intro i hi
  cases hi

lemma InRange.store (h : b.InRange size) {i : ℕ} (hi : i < size) (v : V) :
    (b.store i v).InRange size := by
  intro j hj
  rcases List.mem_cons.mp hj with rfl | hj
  · exact hi
  · exact h j hj

lemma InRange.mono {size' : ℕ} (h : b.InRange size) (hle : size ≤ size') : b.InRange size' :=
  fun i hi => (h i hi).trans_le hle

end Buffer

/-! ### Bits of words -/

def bitAt (words : ℕ → BitVec 64) (pos : ℕ) : Bool := (words (pos / 64)).getLsbD (pos % 64)

/-- Number of words for some bits. -/
def numWords (n : ℕ) : ℕ := (n + 63) / 64

/-- Number of set bits. -/
def popcount (word : BitVec 64) : ℕ := Nat.count (fun j => word.getLsbD j) 64

lemma and_ne_zero_iff (word : BitVec 64) {j : ℕ} (hj : j < 64) :
    word &&& 1#64 <<< j ≠ 0#64 ↔ word.getLsbD j := by
  rw [← BitVec.twoPow_eq, BitVec.and_twoPow]
  split_ifs with h
  · simp only [h, iff_true]
    intro hzero
    have hbit := congrArg (fun w => BitVec.getLsbD w j) hzero
    simp [hj] at hbit
  · simp [h]

lemma or_shiftLeft_getLsbD (word : BitVec 64) {j : ℕ} (hj : j < 64) (bit : Bool) (i : ℕ) :
    (if bit then word ||| 1#64 <<< j else word).getLsbD i =
      if i = j then bit || word.getLsbD j else word.getLsbD i := by
  by_cases hi : i = j
  · subst hi
    cases bit <;> simp [hj]
  · cases bit with
    | false => simp [hi]
    | true =>
      rw [if_pos rfl, if_neg hi, BitVec.getLsbD_or, ← BitVec.twoPow_eq, BitVec.getLsbD_twoPow]
      simp [Ne.symm hi]

lemma bitAt_mul_add (words : ℕ → BitVec 64) (w : ℕ) {j : ℕ} (hj : j < 64) :
    bitAt words (64 * w + j) = (words w).getLsbD j := by
  rw [bitAt, Nat.mul_add_div (by decide), Nat.div_eq_of_lt hj, Nat.add_zero, Nat.mul_add_mod,
    Nat.mod_eq_of_lt hj]

lemma bitAt_update (words : ℕ → BitVec 64) (w : ℕ) (word : BitVec 64) (pos : ℕ) :
    bitAt (Function.update words w word) pos =
      if pos / 64 = w then word.getLsbD (pos % 64) else bitAt words pos := by
  rw [bitAt]
  split_ifs with h
  · rw [h, Function.update_self]
  · rw [Function.update_of_ne h, bitAt]

/-- The set bits of some words. -/
lemma sum_popcount (words : ℕ → BitVec 64) (n : ℕ) :
    ∑ w ∈ Finset.range n, popcount (words w) = Nat.count (fun pos => bitAt words pos) (64 * n) := by
  induction n with
  | zero => simp
  | succ n ih =>
    rw [Finset.sum_range_succ, ih, Nat.mul_succ, Nat.count_add, popcount]
    congr 1
    rw [Nat.count_eq_card_filter_range, Nat.count_eq_card_filter_range]
    congr 1
    refine Finset.filter_congr fun j hj => ?_
    rw [bitAt_mul_add _ _ (Finset.mem_range.mp hj)]

lemma le_numWords (n : ℕ) : n ≤ 64 * numWords n := by
  rw [numWords]
  omega

lemma div_lt_numWords {n pos : ℕ} (h : pos < n) : pos / 64 < numWords n := by
  rw [numWords]
  omega

/-- The word of a chunk that starts before the end. -/
lemma lt_numWords_of_mul_lt {n w : ℕ} (h : 64 * w < n) : w < numWords n := by
  have hlt := div_lt_numWords h
  rwa [Nat.mul_div_cancel_left w (by decide)] at hlt

lemma div_lt_numWords_iff {n : ℕ} : n / 64 < numWords n ↔ n % 64 ≠ 0 := by
  rw [numWords]
  omega

/-- Bits behind the last one are not counted. -/
lemma count_eq_of_not {p : ℕ → Prop} [DecidablePred p] {n m : ℕ} (hle : n ≤ m)
    (hnot : ∀ pos, n ≤ pos → pos < m → ¬p pos) : Nat.count p m = Nat.count p n := by
  obtain ⟨k, rfl⟩ := Nat.exists_eq_add_of_le hle
  rw [Nat.count_add, Nat.add_eq_left, Nat.count_iff_forall_not]
  exact fun j hj => hnot _ (Nat.le_add_right ..) (Nat.add_lt_add_left hj n)

/-! ### One word after the other -/

/-- The words before `w` hold the bits of a list, and a register those of word `w`. -/
structure Chunk (data : ℕ → BitVec 64) (bits : BitVec 64) (w : ℕ) (l : List Bool) : Prop where
  stored : ∀ pos, pos / 64 < w → bitAt data pos = l.getD pos false
  pending : ∀ j, bits.getLsbD j = if j < 64 then l.getD (64 * w + j) false else false

namespace Chunk

variable {data : ℕ → BitVec 64} {bits : BitVec 64} {w : ℕ} {l : List Bool}

lemma getD_concat (l : List Bool) (bit : Bool) (pos : ℕ) :
    (l ++ [bit]).getD pos false = if pos = l.length then bit else l.getD pos false := by
  rcases Nat.lt_trichotomy pos l.length with hlt | rfl | hlt
  · rw [if_neg hlt.ne, List.getD_append _ _ _ _ hlt]
  · simp
  · have hle : (l ++ [bit]).length ≤ pos := by
      rw [List.length_append]
      exact hlt
    rw [if_neg hlt.ne', List.getD_eq_default _ _ hle, List.getD_eq_default _ _ hlt.le]

/-- An empty register. -/
lemma next (h : ∀ pos, pos / 64 < w → bitAt data pos = l.getD pos false)
    (hlen : l.length ≤ 64 * w) : Chunk data 0#64 w l where
  stored := h
  pending j := by
    rw [List.getD_eq_default _ _ (hlen.trans (Nat.le_add_right ..))]
    simp

/-- One more bit in the register. -/
lemma setBit (h : Chunk data bits w l) {j : ℕ} (hlen : l.length = 64 * w + j) (hj : j < 64)
    (bit : Bool) : Chunk data (if bit then bits ||| 1#64 <<< j else bits) w (l ++ [bit]) where
  stored pos hpos := by
    have hne : pos ≠ l.length := by omega
    rw [h.stored pos hpos, getD_concat, if_neg hne]
  pending k := by
    rw [or_shiftLeft_getLsbD _ hj, getD_concat, h.pending, h.pending, if_pos hj, hlen]
    by_cases hk : k = j
    · subst hk
      have hlast : l.getD (64 * w + k) false = false := List.getD_eq_default _ _ hlen.le
      rw [if_pos rfl, if_pos hj, if_pos rfl, hlast, Bool.or_false]
    · have hne : 64 * w + k ≠ 64 * w + j := by omega
      rw [if_neg hk, if_neg hne]

/-- The register is stored. -/
lemma store (h : Chunk data bits w l) {pos : ℕ} (hpos : pos / 64 ≤ w) :
    bitAt (Function.update data w bits) pos = l.getD pos false := by
  rw [bitAt_update]
  split_ifs with hword
  · have hmod : pos % 64 < 64 := Nat.mod_lt _ (by decide)
    rw [h.pending, if_pos hmod, ← hword, Nat.div_add_mod]
  · exact h.stored pos (Nat.lt_of_le_of_ne hpos hword)

end Chunk

/-! ### Writers -/

/-- A vector of words, with the cursor behind its last full word and the bits that come next. -/
structure BitWriter where
  vector : Buffer (BitVec 64)
  cursor : ℕ
  bits : BitVec 64
  bitOff : ℕ

namespace BitWriter

/-- The next bit. -/
def push (bit : Bool) (w : BitWriter) : BitWriter :=
  let bits := if bit then w.bits ||| 1#64 <<< w.bitOff else w.bits
  if w.bitOff + 1 = 64 then
    { vector := w.vector.store w.cursor bits, cursor := w.cursor + 1, bits := 0#64, bitOff := 0 }
  else { w with bits := bits, bitOff := w.bitOff + 1 }

/-- The vector with the last word. -/
def flush (w : BitWriter) : Buffer (BitVec 64) :=
  if w.bitOff ≠ 0 then w.vector.store w.cursor w.bits else w.vector

/-- The bits of a list have been written. -/
structure Holds (w : BitWriter) (l : List Bool) : Prop where
  cursor : w.cursor = l.length / 64
  bitOff : w.bitOff = l.length % 64
  chunk : Chunk w.vector.data w.bits (l.length / 64) l
  inRange : w.vector.InRange (numWords l.length)

variable {w : BitWriter} {l : List Bool}

lemma Holds.nil (data : ℕ → BitVec 64) : Holds ⟨.ofData data, 0, 0#64, 0⟩ [] where
  cursor := rfl
  bitOff := rfl
  chunk := Chunk.next (fun _ h => absurd h (Nat.not_lt_zero _)) le_rfl
  inRange := Buffer.inRange_ofData data _

/-- One more bit. -/
lemma Holds.push (h : Holds w l) (bit : Bool) : Holds (w.push bit) (l ++ [bit]) := by
  have hlen : (l ++ [bit]).length = l.length + 1 := by simp
  have hrange : numWords l.length ≤ numWords (l.length + 1) := by
    simp only [numWords]
    omega
  have hoff := h.bitOff
  have hset := h.chunk.setBit (Nat.div_add_mod l.length 64).symm (Nat.mod_lt _ (by decide)) bit
  rw [← hoff] at hset
  rw [BitWriter.push]
  by_cases hfull : w.bitOff + 1 = 64
  · -- the register is full
    have hdiv : (l.length + 1) / 64 = l.length / 64 + 1 := by omega
    rw [if_pos hfull]
    refine ⟨?_, ?_, ?_, ?_⟩
    · rw [hlen, hdiv, h.cursor]
    · rw [hlen]
      show 0 = _
      omega
    · rw [hlen, hdiv, Buffer.store_data, h.cursor]
      refine Chunk.next (fun pos hpos => hset.store (Nat.le_of_lt_succ hpos)) ?_
      rw [hlen]
      omega
    · rw [hlen]
      refine (h.inRange.mono hrange).store ?_ _
      rw [h.cursor]
      exact div_lt_numWords (Nat.lt_succ_self _)
  · have hlt : l.length % 64 < 64 := Nat.mod_lt _ (by decide)
    have hdiv : (l.length + 1) / 64 = l.length / 64 := by omega
    rw [if_neg hfull]
    refine ⟨?_, ?_, ?_, ?_⟩
    · rw [hlen, hdiv, h.cursor]
    · rw [hlen]
      show w.bitOff + 1 = _
      omega
    · rw [hlen, hdiv]
      exact hset
    · rw [hlen]
      exact h.inRange.mono hrange

/-- All the bits. -/
lemma Holds.bitAt_flush (h : Holds w l) {pos : ℕ} (hpos : pos / 64 < numWords l.length) :
    bitAt w.flush.data pos = l.getD pos false := by
  have hoff := h.bitOff
  rw [numWords] at hpos
  rw [flush]
  split_ifs with hzero
  · rw [Buffer.store_data, h.cursor]
    exact h.chunk.store (by omega)
  · exact h.chunk.stored pos (by omega)

lemma Holds.inRange_flush (h : Holds w l) : w.flush.InRange (numWords l.length) := by
  have hoff := h.bitOff
  rw [flush]
  split_ifs with hzero
  · refine h.inRange.store ?_ _
    rw [h.cursor, div_lt_numWords_iff, ← hoff]
    exact hzero
  · exact h.inRange

end BitWriter

end SupraSeal.PackedBits
