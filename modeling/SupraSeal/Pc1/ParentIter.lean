import SupraSeal.Sealing.Constants
import Mathlib.Tactic.Ring

/-!
# The parent graph and its iterator

The parents file holds `PARENT_COUNT` node numbers for each node of a layer, base parents first.
`parent_iter_t` of `pc1/parent_iter_t.hpp` walks through it once per layer.
-/

namespace SupraSeal

/-- A parents file: every entry is a node of the layer and base parents come before their node. -/
structure ParentGraph (C : Config) where
  buf : ℕ → ℕ
  lt_numNodes : ∀ v < C.numNodes, ∀ j < parentCount, buf (v * parentCount + j) < C.numNodes
  base_lt : ∀ v < C.numNodes, 0 < v → ∀ j < parentCountBase, buf (v * parentCount + j) < v

/-- A graph for small runs: below node `n₀` of a layer every parent is the node before, and from
`n₀` on it is `p`. -/
def ParentGraph.switch (C : Config) (n₀ p : ℕ) (hp : p < n₀) (hn : n₀ ≤ C.numNodes) :
    ParentGraph C where
  buf := fun i => if i / parentCount < n₀ then i / parentCount - 1 else p
  lt_numNodes := by
    intro v hv j hj
    have hdiv : (v * parentCount + j) / parentCount = v := by
      rw [Nat.mul_comm, Nat.mul_add_div (by decide), Nat.div_eq_of_lt hj, Nat.add_zero]
    rw [hdiv]
    split_ifs <;> omega
  base_lt := by
    intro v hv hpos j hj
    have hj : j < parentCount := hj.trans (by decide)
    have hdiv : (v * parentCount + j) / parentCount = v := by
      rw [Nat.mul_comm, Nat.mul_add_div (by decide), Nat.div_eq_of_lt hj, Nat.add_zero]
    rw [hdiv]
    split_ifs <;> omega

/-- `parent_iter_t`. -/
@[ext]
structure ParentIter where
  node : ℕ
  parent : ℕ
  ptr : ℕ

namespace ParentIter

variable (C : Config)

/-- `parent_iter_t::operator++`. -/
def next (it : ParentIter) : ParentIter :=
  let node := if it.parent + 1 = parentCount then it.node + 1 else it.node
  let parent := if it.parent + 1 = parentCount then 0 else it.parent + 1
  ⟨node, parent, if C.node node = 0 ∧ parent = 0 then 0 else it.ptr + 1⟩

def isPrevLayer (it : ParentIter) : Bool := parentCountBase ≤ it.parent

/-- `parent_iter_t::operator*`. -/
def deref (G : ParentGraph C) (it : ParentIter) : ℕ :=
  let layer :=
    if C.layer it.node = 0 then 0
    else if it.isPrevLayer then C.layer it.node - 1 else C.layer it.node
  C.nodeId layer (G.buf it.ptr)

/-- The iterator standing at parent `j` of node `n`. -/
def atParent (n j : ℕ) : ParentIter := ⟨n, j, C.node n * parentCount + j⟩

variable {C}

lemma next_atParent {j : ℕ} (n : ℕ) (hj : j + 1 < parentCount) :
    (atParent C n j).next C = atParent C n (j + 1) := by
  have hne : j + 1 ≠ parentCount := hj.ne
  simp [next, atParent, hne, Nat.add_assoc]

lemma node_succ (n : ℕ) : C.node (n + 1) = 0 ∨ C.node (n + 1) = C.node n + 1 := by
  rw [C.node_eq_mod, C.node_eq_mod]
  rcases Nat.lt_or_ge (n % C.numNodes + 1) C.numNodes with h | h
  · right
    rw [← Nat.mod_add_mod, Nat.mod_eq_of_lt h]
  · left
    have hlt := Nat.mod_lt n C.numNodes_pos
    rw [← Nat.mod_add_mod, show n % C.numNodes + 1 = C.numNodes by omega, Nat.mod_self]

/-- The last parent of a node is followed by the first parent of the next node, which is at the
start of the file when the next node starts a layer. -/
lemma next_atParent_last (n : ℕ) :
    (atParent C n (parentCount - 1)).next C = atParent C (n + 1) 0 := by
  have hlast : parentCount - 1 + 1 = parentCount := rfl
  rcases node_succ (C := C) n with h | h
  · simp [next, atParent, hlast, h]
  · have hne : C.node (n + 1) ≠ 0 := by omega
    ext
    · simp [next, atParent, hlast]
    · simp [next, atParent, hlast]
    · simp only [next, atParent, hlast, if_true, hne, false_and, if_false]
      rw [h, Nat.add_assoc, hlast]
      ring

@[simp] lemma isPrevLayer_atParent (n j : ℕ) :
    (atParent C n j).isPrevLayer = true ↔ parentCountBase ≤ j :=
  decide_eq_true_iff

lemma deref_atParent (G : ParentGraph C) (n j : ℕ) : (atParent C n j).deref C G =
    C.nodeId (if C.layer n = 0 then 0
      else if parentCountBase ≤ j then C.layer n - 1 else C.layer n)
      (G.buf (C.node n * parentCount + j)) := by
  simp only [deref, isPrevLayer_atParent]
  rfl

end ParentIter

variable {C : Config}

/-- The node that `read_batch` reads as parent `j` of node `n`. There are no expander parents in
the first layer, which uses the previous node in their place. -/
def ParentGraph.parentNode (G : ParentGraph C) (n j : ℕ) : ℕ :=
  if C.layer n = 0 ∧ (ParentIter.atParent C n j).isPrevLayer then n - 1
  else (ParentIter.atParent C n j).deref C G

lemma ParentGraph.parentNode_lt (G : ParentGraph C) {n j : ℕ} (hj : j < parentCount)
    (hn : n ≠ 0) (hbase : C.node n = 0 → parentCountBase ≤ j) : G.parentNode n j < n := by
  have hv := C.node_lt n
  have hdecomp := C.layer_mul_add_node n
  have hbuf := G.lt_numNodes _ hv j hj
  simp only [parentNode, ParentIter.isPrevLayer_atParent, ParentIter.deref_atParent]
  split_ifs with hfirst hl hprev
  · omega
  · -- only base parents are left in the first layer
    have hj' : j < parentCountBase := by
      by_contra hge
      exact hfirst ⟨hl, not_lt.mp hge⟩
    have hpos : 0 < C.node n := Nat.pos_of_ne_zero fun h => absurd (hbase h) (by omega)
    have := G.base_lt _ hv hpos j hj'
    rw [C.nodeId_eq _ hbuf]
    omega
  · have hmul : (C.layer n - 1) * C.numNodes + C.numNodes = C.layer n * C.numNodes := by
      rw [← Nat.succ_mul]
      congr 1
      omega
    rw [C.nodeId_eq _ hbuf]
    omega
  · have hpos : 0 < C.node n := Nat.pos_of_ne_zero fun h => hprev (hbase h)
    have := G.base_lt _ hv hpos j (not_le.mp hprev)
    rw [C.nodeId_eq _ hbuf]
    omega

end SupraSeal
