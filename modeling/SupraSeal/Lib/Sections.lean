import Mathlib.Data.List.Basic
import Mathlib.Algebra.Order.Group.Nat
import Mathlib.Tactic.Ring

/-!
# Files written section by section

A writer gives the bytes of its section, or fails. Sections follow each other in a file, and a
reader that knows the size of each section takes them apart again with a cursor.
-/

namespace Sections

abbrev Byte : Type := BitVec 8

/-- The `n` low bytes of a number, the least significant one first. -/
def leBytes (n x : ℕ) : List Byte := (List.range n).map fun i => BitVec.ofNat 8 (x >>> (8 * i))

@[simp] lemma length_leBytes (n x : ℕ) : (leBytes n x).length = n := by simp [leBytes]

variable {β : Type*}

/-- One section after the other. -/
def concat : List (Option (List β)) → Option (List β)
  | [] => some []
  | s :: ss => s.bind fun bytes => (concat ss).map (bytes ++ ·)

/-- `memcpy` of `n` elements from position `idx` on; reading past the end fails. -/
def slice (buf : List β) (idx n : ℕ) : Option (List β) :=
  if idx + n ≤ buf.length then some ((buf.drop idx).take n) else none

/-- The section is written, and has `n` elements. -/
def Sized (s : Option (List β)) (n : ℕ) : Prop := ∃ bytes, s = some bytes ∧ bytes.length = n

/-! ### Writing -/

@[simp] lemma concat_nil : concat ([] : List (Option (List β))) = some [] := rfl

lemma concat_map_some {γ : Type*} (f : γ → List β) (xs : List γ) :
    concat (xs.map fun x => some (f x)) = some (xs.flatMap f) := by
  induction xs with
  | nil => rfl
  | cons x xs ih => simp [concat, ih]

lemma Sized.concat {ss : List (Option (List β))} {n : ℕ} (h : ∀ s ∈ ss, Sized s n) :
    Sized (concat ss) (ss.length * n) := by
  induction ss with
  | nil => exact ⟨[], rfl, by simp⟩
  | cons s ss ih =>
    obtain ⟨bytes, rfl, hlen⟩ := h s List.mem_cons_self
    obtain ⟨rest, hrest, hlen'⟩ := ih fun s hs => h s (List.mem_cons_of_mem _ hs)
    refine ⟨bytes ++ rest, ?_, ?_⟩
    · simp [Sections.concat, hrest]
    · rw [List.length_append, hlen, hlen', List.length_cons, Nat.succ_mul, Nat.add_comm]

lemma length_flatMap_const {γ : Type*} {f : γ → List β} {n : ℕ} (h : ∀ x, (f x).length = n)
    (xs : List γ) : (xs.flatMap f).length = xs.length * n := by
  simp [List.length_flatMap, h]

/-- An element of sections of equal size. -/
lemma getElem?_flatMap_range {f : ℕ → List β} {n k l q : ℕ} (h : ∀ i, (f i).length = n) (hl : l < k)
    (hq : q < n) : ((List.range k).flatMap f)[q + l * n]? = (f l)[q]? := by
  have hlen : ∀ k, ((List.range k).flatMap f).length = k * n := by
    intro k
    rw [length_flatMap_const h, List.length_range]
  induction k with
  | zero => omega
  | succ k ih =>
    rw [List.range_succ, List.flatMap_append, List.flatMap_singleton]
    rcases Nat.lt_succ_iff_lt_or_eq.mp hl with hl | rfl
    · have hle : (l + 1) * n ≤ k * n := Nat.mul_le_mul_right n hl
      rw [Nat.succ_mul] at hle
      rw [List.getElem?_append_left (by rw [hlen]; omega)]
      exact ih hl
    · rw [List.getElem?_append_right (by rw [hlen]; omega), hlen, Nat.add_sub_cancel]

/-! ### Reading -/

/-- The cursor is at position `idx` of the file, with `rest` still to read. -/
def Ahead (buf : List β) (idx : ℕ) (rest : List β) : Prop :=
  ∃ done, buf = done ++ rest ∧ done.length = idx

lemma Ahead.start (buf : List β) : Ahead buf 0 buf := ⟨[], rfl, rfl⟩

lemma Ahead.eof {buf : List β} {idx : ℕ} (h : Ahead buf idx []) : idx = buf.length := by
  obtain ⟨done, rfl, rfl⟩ := h
  rw [List.append_nil]

lemma Ahead.skip {buf s rest : List β} {idx n : ℕ} (h : Ahead buf idx (s ++ rest))
    (hn : s.length = n) : Ahead buf (idx + n) rest := by
  obtain ⟨done, rfl, rfl⟩ := h
  refine ⟨done ++ s, ?_, ?_⟩
  · rw [List.append_assoc]
  · rw [List.length_append, hn]

lemma Ahead.slice {buf s rest : List β} {idx n : ℕ} (h : Ahead buf idx (s ++ rest))
    (hn : s.length = n) : slice buf idx n = some s := by
  obtain ⟨done, rfl, rfl⟩ := h
  have hle : done.length + n ≤ (done ++ (s ++ rest)).length := by
    rw [List.length_append, List.length_append, hn]
    exact Nat.add_le_add_left (Nat.le_add_right _ _) _
  rw [Sections.slice, if_pos hle, List.drop_left, ← hn, List.take_left]

end Sections
