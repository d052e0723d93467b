import Mathlib.Algebra.BigOperators.Group.Finset.Basic
import Mathlib.Data.List.InsertIdx
import Mathlib.Tactic.Ring

/-!
# Merkle trees

Trees of any arity over an abstract hash, row by row: row `0` holds the leaves, and an element of
row `k + 1` is the hash of a group of `arity` neighbours of row `k`. A step of an inclusion path
gives a position in a group and the other elements of the group; folding a leaf with the steps of
its opening gives the element of the last row above the leaf.

Rows are functions of the position, so that a subtree is a shift of the leaves. A tree with
`arity ^ k` leaves that is stored row after row has row `l` at `rowStart arity k l`.
-/

namespace MerkleTree

variable {α : Type*} (hash : List α → α) (arity : ℕ)

/-- The `arity` elements from position `start` on. -/
def group (f : ℕ → α) (start : ℕ) : List α := (List.range arity).map fun i => f (start + i)

/-- Row `k` of the tree over `leaves`. -/
def row (leaves : ℕ → α) : ℕ → ℕ → α
  | 0, j => leaves j
  | k + 1, j => hash (group arity (row leaves k) (arity * j))

/-- One step of an inclusion path. -/
structure Step (α : Type*) where
  index : ℕ
  hashes : List α

/-- Hash a value with the steps of a path, from the first one up. -/
def fold (v : α) (path : List (Step α)) : α :=
  path.foldl (fun v e => hash (e.hashes.insertIdx e.index v)) v

/-- The elements of a group without the one at position `index`. -/
def siblings (f : ℕ → α) (start index : ℕ) : List α :=
  ((List.range arity).filter (· ≠ index)).map fun a => f (start + a)

/-- The step from row `l` to row `l + 1` above leaf `c`. -/
def opening (leaves : ℕ → α) (c l : ℕ) : Step α where
  index := c / arity ^ l % arity
  hashes := siblings arity (row hash arity leaves l) (arity * (c / arity ^ (l + 1)))
    (c / arity ^ l % arity)

/-- Where row `l` starts when the rows of a tree with `arity ^ k` leaves follow each other. -/
def rowStart (k l : ℕ) : ℕ := ∑ i ∈ Finset.range l, arity ^ (k - i)

/-- The rows of the tree over `arity ^ k` leaves follow each other in a file. -/
def Stores (file leaves : ℕ → α) (k : ℕ) : Prop :=
  ∀ l ≤ k, ∀ j < arity ^ (k - l), file (rowStart arity k l + j) = row hash arity leaves l j

/-! ### Rows -/

variable {hash arity} {f g leaves : ℕ → α} {k l m n : ℕ}

lemma group_congr {s t : ℕ} (h : ∀ a < arity, f (s + a) = g (t + a)) :
    group arity f s = group arity g t :=
  List.map_congr_left fun a ha => h a (List.mem_range.mp ha)

/-- The rows above row `k` are those of the tree over row `k`. -/
lemma row_add (leaves : ℕ → α) (k l : ℕ) :
    row hash arity leaves (k + l) = row hash arity (row hash arity leaves k) l := by
  induction l with
  | zero => rfl
  | succ l ih =>
    funext j
    rw [← Nat.add_assoc, row, row, ih]

/-- A subtree has the rows of the tree, from its own position on. -/
lemma row_shift (leaves : ℕ → α) (s : ℕ) :
    ∀ {k l : ℕ}, l ≤ k → ∀ j, row hash arity (fun i => leaves (s * arity ^ k + i)) l j =
      row hash arity leaves l (s * arity ^ (k - l) + j) := by
  intro k l
  induction l with
  | zero => exact fun _ j => rfl
  | succ l ih =>
    intro hl j
    rw [row, row]
    refine congrArg hash (group_congr fun a _ => ?_)
    rw [ih (by omega), show k - l = k - (l + 1) + 1 by omega, pow_succ]
    congr 1
    ring

/-- A row depends only on the leaves below it. -/
lemma row_congr (h : ∀ i < arity ^ k, f i = g i) :
    ∀ {l : ℕ}, l ≤ k → ∀ j < arity ^ (k - l), row hash arity f l j = row hash arity g l j := by
  intro l
  induction l with
  | zero => exact fun _ j hj => h j hj
  | succ l ih =>
    intro hl j hj
    rw [row, row]
    refine congrArg hash (group_congr fun a ha => ih (by omega) _ ?_)
    calc arity * j + a < arity * (j + 1) := by rw [Nat.mul_add, Nat.mul_one]; omega
      _ ≤ arity * arity ^ (k - (l + 1)) := Nat.mul_le_mul_left _ hj
      _ = arity ^ (k - l) := by rw [← pow_succ', show k - (l + 1) + 1 = k - l by omega]

/-! ### Openings -/

lemma filter_ne_range {n i : ℕ} (hi : i < n) :
    (List.range n).filter (· ≠ i) = (List.range n).eraseIdx i := by
  have hidx : (List.range n).idxOf i = i := by
    have hlt : i < (List.range n).length := by rwa [List.length_range]
    conv_lhs => rw [← List.getElem_range hlt]
    exact List.nodup_range.idxOf_getElem i hlt
  rw [← List.erase_eq_eraseIdx_of_idxOf hidx, List.nodup_range.erase_eq_filter]
  exact List.filter_congr fun a _ => by rw [bne, beq_eq_decide, decide_not]

/-- A value put back among its siblings completes the group. -/
lemma insertIdx_siblings {start i : ℕ} (hi : i < arity) :
    (siblings arity f start i).insertIdx i (f (start + i)) = group arity f start := by
  rw [siblings, filter_ne_range hi, ← List.map_insertIdx (fun a => f (start + a))]
  have hlt : i < (List.range arity).length := by rwa [List.length_range]
  have h := List.insertIdx_eraseIdx_getElem hlt
  rw [List.getElem_range] at h
  rw [h, group]

lemma fold_append (v : α) (p q : List (Step α)) :
    fold hash v (p ++ q) = fold hash (fold hash v p) q :=
  List.foldl_append ..

/-- Folding a leaf with the openings of the first `n` rows gives the element of row `n` above
it. -/
theorem fold_opening (hpos : 0 < arity) (leaves : ℕ → α) (c n : ℕ) :
    fold hash (leaves c) ((List.range n).map (opening hash arity leaves c)) =
      row hash arity leaves n (c / arity ^ n) := by
  induction n with
  | zero => rw [pow_zero, Nat.div_one]; rfl
  | succ n ih =>
    -- the element folded so far is the one that the step leaves out
    have hc : c / arity ^ n = arity * (c / arity ^ (n + 1)) + c / arity ^ n % arity := by
      rw [pow_succ, ← Nat.div_div_eq_div_mul, Nat.div_add_mod]
    rw [List.range_succ, List.map_append, fold_append, ih, hc]
    exact congrArg hash (insertIdx_siblings (Nat.mod_lt _ hpos))

/-! ### Stored rows -/

@[simp] lemma rowStart_zero (k : ℕ) : rowStart arity k 0 = 0 := rfl

lemma rowStart_succ (k l : ℕ) :
    rowStart arity k (l + 1) = rowStart arity k l + arity ^ (k - l) :=
  Finset.sum_range_succ _ _

/-- The rows after the first are stored as a tree with one row less. -/
lemma rowStart_succ_succ (k l : ℕ) :
    rowStart arity (k + 1) (l + 1) = arity ^ (k + 1) + rowStart arity k l := by
  rw [rowStart, Finset.sum_range_succ', Nat.add_comm]
  congr 1
  exact Finset.sum_congr rfl fun i _ => by rw [Nat.add_sub_add_right]

lemma rowStart_mono (h : l ≤ m) : rowStart arity k l ≤ rowStart arity k m := by
  induction m, h using Nat.le_induction with
  | base => exact le_rfl
  | succ m _ ih =>
    rw [rowStart_succ]
    exact Nat.le_add_right_of_le ih

/-- The rows from row `l` on are stored as a tree of their own. -/
lemma rowStart_add (k l n : ℕ) :
    rowStart arity k (l + n) = rowStart arity k l + rowStart arity (k - l) n := by
  induction n with
  | zero => rfl
  | succ n ih => rw [← Nat.add_assoc, rowStart_succ, ih, rowStart_succ, Nat.sub_sub, Nat.add_assoc]

/-- Every stored position belongs to a row. -/
lemma exists_row_of_lt {x : ℕ} (h : x < rowStart arity k n) :
    ∃ l < n, ∃ j < arity ^ (k - l), x = rowStart arity k l + j := by
  induction n with
  | zero => exact absurd h (Nat.not_lt_zero x)
  | succ n ih =>
    by_cases hn : x < rowStart arity k n
    · obtain ⟨l, hl, hj⟩ := ih hn
      exact ⟨l, Nat.lt_succ_of_lt hl, hj⟩
    · rw [rowStart_succ] at h
      exact ⟨n, Nat.lt_succ_self n, x - rowStart arity k n, by omega, by omega⟩

/-- What a file stores depends only on the leaves of the tree. -/
lemma Stores.congr {file : ℕ → α} (h : Stores hash arity file f k) (hfg : ∀ i < arity ^ k, f i = g i) :
    Stores hash arity file g k :=
  fun l hl j hj => (h l hl j hj).trans (row_congr hfg hl j hj)

end MerkleTree
