import Mathlib.Data.List.Range
import Mathlib.Logic.Function.Basic

/-!
# The order of the work of a stream

`scheduler_t` of `pc2/planner.cpp` gives a stream the nodes of its tree one after the other: the
leaves, each a batch of nodes, in their order, and a node of a higher layer as soon as its inputs are
there. The buffers of the nodes are left out.
-/

namespace SupraSeal

/-- `scheduler_t`: the nodes that are ready, and the inputs that are there for the others. Nodes are
given by layer and index. -/
structure Scheduler where
  stack : List (ℕ × ℕ)
  wip : ℕ × ℕ → ℕ

namespace Scheduler

/-- `reset`. Layer one is that of the hashes of the leaves. -/
def reset (initialNodes : ℕ) : Scheduler where
  stack := (List.range initialNodes).map fun node => (1, node)
  wip _ := 0

/-- `next`: whether there is more work, and the work item. -/
def next (arity : ℕ) (s : Scheduler) (work : ℕ × ℕ) : Bool × (ℕ × ℕ) × Scheduler :=
  match s.stack with
  | [] => (false, work, s)
  | w :: stack =>
    let nextLayerId := (w.1 + 1, w.2 / arity)
    let ready := s.wip nextLayerId + 1
    let s : Scheduler :=
      if ready = arity then
        { stack := nextLayerId :: stack, wip := Function.update s.wip nextLayerId 0 }
      else { stack := stack, wip := Function.update s.wip nextLayerId ready }
    (!s.stack.isEmpty, w, s)

/-- The leaves from `k` on are left, below the nodes that are ready. The inputs of layer two are
those of the leaves before `k`. -/
def LeavesFrom (arity initialNodes : ℕ) (s : Scheduler) : Prop :=
  ∃ inner k, s.stack = inner ++ (List.range' k (initialNodes - k)).map (fun node => (1, node)) ∧
    (∀ w ∈ inner, 1 < w.1) ∧ ∀ j, s.wip (2, j) = if j = k / arity then k % arity else 0

variable {arity initialNodes : ℕ} {s : Scheduler}

lemma leavesFrom_reset (arity initialNodes : ℕ) :
    LeavesFrom arity initialNodes (reset initialNodes) := by
  refine ⟨[], 0, ?_, by simp, ?_⟩
  · simp [reset, List.range_eq_range']
  · intro j
    simp [reset]

/-- The number of inputs after the last leaf of a node. -/
lemma succ_mod_of_last {k : ℕ} (hlast : k % arity + 1 = arity) : (k + 1) % arity = 0 := by
  have hk : k + 1 = arity * (k / arity) + (k % arity + 1) := by
    rw [← Nat.add_assoc, Nat.div_add_mod]
  rw [hk, hlast, Nat.mul_add_mod, Nat.mod_self]

/-- The number of inputs after another leaf of a node. -/
lemma succ_mod_div_of_ne {k : ℕ} (harity : 0 < arity) (hne : k % arity + 1 ≠ arity) :
    (k + 1) % arity = k % arity + 1 ∧ (k + 1) / arity = k / arity := by
  have hlt : k % arity + 1 < arity := lt_of_le_of_ne (Nat.mod_lt k harity) hne
  have hk : k + 1 = arity * (k / arity) + (k % arity + 1) := by
    rw [← Nat.add_assoc, Nat.div_add_mod]
  constructor
  · rw [hk, Nat.mul_add_mod, Nat.mod_eq_of_lt hlt]
  · rw [hk, Nat.mul_add_div harity, Nat.div_eq_of_lt hlt, Nat.add_zero]

lemma succ_mod_ne_zero {k : ℕ} (harity : 0 < arity) (hne : k % arity + 1 ≠ arity) :
    (k + 1) % arity ≠ 0 := by
  rw [(succ_mod_div_of_ne harity hne).1]
  exact Nat.succ_ne_zero _

/-- Counting a leaf. -/
lemma wip_of_leaf {wip : ℕ × ℕ → ℕ} {k : ℕ} (harity : 0 < arity)
    (hwip : ∀ j, wip (2, j) = if j = k / arity then k % arity else 0) (j : ℕ) :
    Function.update wip (2, k / arity)
        (if wip (2, k / arity) + 1 = arity then 0 else wip (2, k / arity) + 1) (2, j) =
      if j = (k + 1) / arity then (k + 1) % arity else 0 := by
  have hk : wip (2, k / arity) = k % arity := by rw [hwip, if_pos rfl]
  rw [hk]
  by_cases hlast : k % arity + 1 = arity
  · rw [succ_mod_of_last hlast, if_pos hlast, ite_self]
    by_cases hj : j = k / arity
    · rw [hj, Function.update_self]
    · rw [Function.update_of_ne (by simpa using hj), hwip, if_neg hj]
  · obtain ⟨hmod, hdiv⟩ := succ_mod_div_of_ne harity hlast
    rw [hmod, hdiv, if_neg hlast]
    by_cases hj : j = k / arity
    · rw [hj, Function.update_self, if_pos rfl]
    · rw [Function.update_of_ne (by simpa using hj), hwip, if_neg hj, if_neg hj]

/-- The scheduler after it has given the work `w`. -/
def after (arity : ℕ) (s : Scheduler) (w : ℕ × ℕ) (stack : List (ℕ × ℕ)) : Scheduler where
  stack := if s.wip (w.1 + 1, w.2 / arity) + 1 = arity then (w.1 + 1, w.2 / arity) :: stack else stack
  wip := Function.update s.wip (w.1 + 1, w.2 / arity)
    (if s.wip (w.1 + 1, w.2 / arity) + 1 = arity then 0 else s.wip (w.1 + 1, w.2 / arity) + 1)

lemma next_cons {w : ℕ × ℕ} {stack : List (ℕ × ℕ)} (hs : s.stack = w :: stack) (work : ℕ × ℕ) :
    s.next arity work = (!(s.after arity w stack).stack.isEmpty, w, s.after arity w stack) := by
  simp only [next, hs, after]
  split_ifs <;> rfl

lemma LeavesFrom.after_inner {w : ℕ × ℕ} {inner : List (ℕ × ℕ)} {k : ℕ}
    (hinner : ∀ v ∈ w :: inner, 1 < v.1)
    (hwip : ∀ j, s.wip (2, j) = if j = k / arity then k % arity else 0) :
    LeavesFrom arity initialNodes (s.after arity w
      (inner ++ (List.range' k (initialNodes - k)).map fun node => (1, node))) := by
  have hw := hinner w (List.mem_cons_self ..)
  refine ⟨if s.wip (w.1 + 1, w.2 / arity) + 1 = arity then (w.1 + 1, w.2 / arity) :: inner else inner,
    k, ?_, ?_, ?_⟩
  · simp only [after]
    split_ifs <;> rfl
  · intro v hv
    split_ifs at hv
    · rcases List.mem_cons.mp hv with rfl | hv
      · exact Nat.lt_succ_of_lt hw
      · exact hinner v (List.mem_cons_of_mem w hv)
    · exact hinner v (List.mem_cons_of_mem w hv)
  · intro j
    have hne : (2, j) ≠ (w.1 + 1, w.2 / arity) := by
      intro heq
      have := (Prod.mk.inj heq).1
      omega
    simp only [after]
    rw [Function.update_of_ne hne, hwip]

lemma LeavesFrom.after_leaf {k : ℕ} (harity : 0 < arity)
    (hwip : ∀ j, s.wip (2, j) = if j = k / arity then k % arity else 0) :
    LeavesFrom arity initialNodes (s.after arity (1, k)
      ((List.range' (k + 1) (initialNodes - (k + 1))).map fun node => (1, node))) := by
  refine ⟨if s.wip (2, k / arity) + 1 = arity then [(2, k / arity)] else [], k + 1, ?_, ?_, ?_⟩
  · simp only [after]
    split_ifs <;> rfl
  · intro v hv
    split_ifs at hv
    · rw [List.mem_singleton.mp hv]
      exact Nat.one_lt_two
    · cases hv
  · intro j
    exact wip_of_leaf harity hwip j

/-- A step of the scheduler. A leaf is never the last work: it is not the last one, or it is the last
input of a node. -/
lemma LeavesFrom.next (h : LeavesFrom arity initialNodes s) (harity : 0 < arity)
    (hdvd : arity ∣ initialNodes) (hstack : s.stack ≠ []) (work : ℕ × ℕ) :
    LeavesFrom arity initialNodes (s.next arity work).2.2 ∧
      ((s.next arity work).1 = false → (s.next arity work).2.1.1 ≠ 1) ∧
      ((s.next arity work).1 = true → (s.next arity work).2.2.stack ≠ []) := by
  obtain ⟨inner, k, hs, hinner, hwip⟩ := h
  cases inner with
  | cons w inner =>
    rw [List.cons_append] at hs
    rw [next_cons hs]
    refine ⟨LeavesFrom.after_inner hinner hwip, ?_, by simp⟩
    intro _ hw
    have hlt := hinner w (List.mem_cons_self ..)
    rw [hw] at hlt
    exact Nat.lt_irrefl 1 hlt
  | nil =>
    have hk : k < initialNodes := by
      by_contra hk
      apply hstack
      simp [hs, Nat.sub_eq_zero_of_le (Nat.le_of_not_lt hk)]
    have hrange : initialNodes - k = initialNodes - (k + 1) + 1 := by omega
    rw [List.nil_append, hrange, List.range'_succ, List.map_cons] at hs
    rw [next_cons hs]
    refine ⟨LeavesFrom.after_leaf harity hwip, ?_, by simp⟩
    intro hmore
    -- the last leaf is the last input of its node, which is ready then
    exfalso
    simp only [after, Bool.not_eq_false', List.isEmpty_iff] at hmore
    split_ifs at hmore with hready
    have hlast : initialNodes = k + 1 := by
      simp at hmore
      omega
    rw [hwip, if_pos rfl] at hready
    rw [hlast] at hdvd
    exact succ_mod_ne_zero harity hready (Nat.mod_eq_zero_of_dvd hdvd)

end Scheduler

end SupraSeal
