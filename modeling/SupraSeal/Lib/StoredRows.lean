import Mathlib.Data.List.Nodup
import Mathlib.Data.List.Perm.Basic
import SupraSeal.Lib.MerkleTree

/-!
# Rows that are written in pieces

The rows of a tree from row `kept` on follow each other in a file. When pieces of rows are written in
any order, the file is the one with all rows as soon as every node of every row is in one piece.
-/

namespace MerkleTree

/-- Every position below `size` is written once, with what `file` has there. -/
def Fills {α : Type*} (file : ℕ → α) (size : ℕ) (writes : List (ℕ × α)) : Prop :=
  (writes.map Prod.fst).Perm (List.range size) ∧ ∀ w ∈ writes, w.2 = file w.1

variable {α β γ : Type*} (hash : List α → α) (arity : ℕ)

/-- Node `p.2` of row `p.1` at its position. -/
def place (leaves : ℕ → α) (kept k : ℕ) (p : ℕ × ℕ) : ℕ × α :=
  (rowStart arity (k - kept) (p.1 - kept) + p.2, row hash arity leaves p.1 p.2)

variable {hash arity} {leaves file : ℕ → α} {kept k : ℕ} {writes writes' : List (ℕ × α)}

lemma Fills.perm (h : Fills file k writes) (hperm : writes'.Perm writes) : Fills file k writes' :=
  ⟨(hperm.map Prod.fst).trans h.1, fun w hw => h.2 w (hperm.mem_iff.mp hw)⟩

/-- What is filled stores the rows. -/
lemma Fills.stores {file' : ℕ → α} (h : Fills file (rowStart arity k (k + 1)) writes)
    (hfile' : ∀ w ∈ writes, file' w.1 = w.2) (hstores : Stores hash arity file leaves k) :
    Stores hash arity file' leaves k := by
  intro l hl j hj
  have hlt : rowStart arity k l + j < rowStart arity k (k + 1) := by
    calc rowStart arity k l + j < rowStart arity k (l + 1) := by
          rw [rowStart_succ]
          exact Nat.add_lt_add_left hj _
      _ ≤ rowStart arity k (k + 1) := rowStart_mono (Nat.succ_le_succ hl)
  obtain ⟨w, hw, hpos⟩ := List.mem_map.mp (h.1.mem_iff.mpr (List.mem_range.mpr hlt))
  rw [← hpos, hfile' w hw, h.2 w hw, hpos]
  exact hstores l hl j hj

/-- Pieces that tell where they come from do not meet. -/
lemma nodup_flatMap_of_owner {xs : List β} {f : β → List γ} (owner : γ → β) (hxs : xs.Nodup)
    (hf : ∀ x ∈ xs, (f x).Nodup) (howner : ∀ x ∈ xs, ∀ y ∈ f x, owner y = x) :
    (xs.flatMap f).Nodup := by
  refine List.nodup_flatMap.mpr ⟨hf, ?_⟩
  refine hxs.imp_of_mem ?_
  intro a b ha hb hne y hya hyb
  exact hne ((howner a ha y hya).symm.trans (howner b hb y hyb))

/-- A position is in one row. -/
lemma rowStart_add_inj {l l' j j' : ℕ} (hj : j < arity ^ (k - l)) (hj' : j' < arity ^ (k - l'))
    (h : rowStart arity k l + j = rowStart arity k l' + j') : l = l' ∧ j = j' := by
  have hlt : ∀ {l l' j j'}, j < arity ^ (k - l) → l < l' →
      rowStart arity k l + j < rowStart arity k l' + j' := by
    intro l l' j j' hj hl
    calc rowStart arity k l + j < rowStart arity k (l + 1) := by
          rw [rowStart_succ]
          exact Nat.add_lt_add_left hj _
      _ ≤ rowStart arity k l' := rowStart_mono hl
      _ ≤ rowStart arity k l' + j' := Nat.le_add_right _ _
  rcases Nat.lt_trichotomy l l' with hl | rfl | hl
  · exact absurd h (hlt hj hl).ne
  · exact ⟨rfl, Nat.add_left_cancel h⟩
  · exact absurd h (hlt hj' hl).ne'

/-- All nodes of the kept rows, each once and in any order, fill a file that stores the rows. -/
theorem fills_of_nodes {keys : List (ℕ × ℕ)} (hkept : kept ≤ k) (hnodup : keys.Nodup)
    (hmem : ∀ l j, (l, j) ∈ keys ↔ kept ≤ l ∧ l ≤ k ∧ j < arity ^ (k - l))
    (hfile : Stores hash arity file (row hash arity leaves kept) (k - kept)) :
    Fills file (rowStart arity (k - kept) (k - kept + 1))
      (keys.map (place hash arity leaves kept k)) := by
  have hexp : ∀ {l}, kept ≤ l → k - kept - (l - kept) = k - l := by
    intro l hl
    rw [Nat.sub_sub, Nat.add_sub_cancel' hl]
  constructor
  · rw [List.map_map]
    refine (List.perm_ext_iff_of_nodup (hnodup.map_on ?_) List.nodup_range).mpr ?_
    · rintro ⟨l, j⟩ hlj ⟨l', j'⟩ hlj' h
      obtain ⟨hl, -, hj⟩ := (hmem l j).mp hlj
      obtain ⟨hl', -, hj'⟩ := (hmem l' j').mp hlj'
      rw [← hexp hl] at hj
      rw [← hexp hl'] at hj'
      obtain ⟨hrow, rfl⟩ := rowStart_add_inj hj hj' h
      rw [Prod.mk.injEq]
      exact ⟨by omega, rfl⟩
    · intro x
      rw [List.mem_range, List.mem_map]
      constructor
      · rintro ⟨⟨l, j⟩, hlj, rfl⟩
        obtain ⟨hl, hlk, hj⟩ := (hmem l j).mp hlj
        calc rowStart arity (k - kept) (l - kept) + j
            < rowStart arity (k - kept) (l - kept + 1) := by
              rw [rowStart_succ, hexp hl]
              exact Nat.add_lt_add_left hj _
          _ ≤ _ := rowStart_mono (Nat.succ_le_succ (Nat.sub_le_sub_right hlk kept))
      · intro hx
        obtain ⟨l, hl, j, hj, rfl⟩ := exists_row_of_lt hx
        refine ⟨(kept + l, j), (hmem _ _).mpr ⟨Nat.le_add_right .., by omega, ?_⟩, ?_⟩
        · rwa [Nat.sub_add_eq]
        · rw [Function.comp_apply, place, Nat.add_sub_cancel_left]
  · intro w hw
    obtain ⟨⟨l, j⟩, hlj, rfl⟩ := List.mem_map.mp hw
    obtain ⟨hl, hlk, hj⟩ := (hmem l j).mp hlj
    have h := hfile (l - kept) (Nat.sub_le_sub_right hlk kept) j (by rwa [hexp hl])
    rw [← row_add, Nat.add_sub_cancel' hl] at h
    exact h.symm

end MerkleTree
