import Mathlib.Data.List.Perm.Basic
import Mathlib.Data.List.Nodup
import Mathlib.Data.List.Range

/-!
# Reordered commands

Commands `0, …, n - 1` that need not take effect in the order in which they were issued: only some
pairs are ordered. When the commands of any other pair commute, every order that keeps the ordered
pairs has the effect of the order of issue.
-/

namespace Reorder

variable {σ : Type*} (exec : ℕ → σ → σ) (before : ℕ → ℕ → Prop)

/-- The commands take effect one after the other, none after one that it is ordered before. -/
structure IsOrder (n : ℕ) (order : List ℕ) : Prop where
  perm : order.Perm (List.range n)
  respects : order.Pairwise fun i k => ¬before k i

def run (order : List ℕ) (s : σ) : σ := order.foldl (fun s k => exec k s) s

variable {exec before} {n : ℕ} {order : List ℕ}

lemma run_append (l l' : List ℕ) (s : σ) : run exec (l ++ l') s = run exec l' (run exec l s) :=
  List.foldl_append ..

/-- A command that commutes with the others can be the last one. -/
lemma run_cons_of_comm {k : ℕ} {l : List ℕ}
    (h : ∀ i ∈ l, ∀ s, exec i (exec k s) = exec k (exec i s)) (s : σ) :
    run exec (k :: l) s = run exec (l ++ [k]) s := by
  induction l generalizing s with
  | nil => rfl
  | cons i l ih =>
    have hi := h i List.mem_cons_self s
    have hl := ih (fun j hj => h j (List.mem_cons_of_mem i hj)) (exec i s)
    calc run exec (k :: i :: l) s = run exec l (exec i (exec k s)) := rfl
      _ = run exec (k :: l) (exec i s) := by rw [hi]; rfl
      _ = run exec (i :: l ++ [k]) s := hl

theorem run_eq (hcomm : ∀ k < n, ∀ i < k, ¬before i k → ∀ s, exec i (exec k s) = exec k (exec i s))
    (h : IsOrder before n order) (s : σ) : run exec order s = run exec (List.range n) s := by
  induction n generalizing order with
  | zero =>
    obtain rfl : order = [] := List.perm_nil.mp h.perm
    rfl
  | succ n ih =>
    -- the last command commutes with those that took effect after it
    have hmem : n ∈ order := h.perm.mem_iff.mpr (List.mem_range.mpr (Nat.lt_succ_self n))
    obtain ⟨l, l', rfl⟩ := List.append_of_mem hmem
    have hperm : (l ++ l').Perm (List.range n) := by
      have hcons := List.perm_middle.symm.trans h.perm
      rw [List.range_succ] at hcons
      exact (hcons.trans (List.perm_append_singleton n _)).cons_inv
    have hlast : ∀ i ∈ l', ∀ s, exec i (exec n s) = exec n (exec i s) := by
      intro i hi
      have hlt : i < n := List.mem_range.mp (hperm.mem_iff.mp (List.mem_append_right l hi))
      have hresp := (List.pairwise_append.mp h.respects).2.1
      exact hcomm n (Nat.lt_succ_self n) i hlt (List.rel_of_pairwise_cons hresp hi)
    have hrest : IsOrder before n (l ++ l') := by
      refine ⟨hperm, h.respects.sublist ?_⟩
      exact List.Sublist.append_left (List.sublist_cons_self n l') l
    calc run exec (l ++ n :: l') s = run exec (l' ++ [n]) (run exec l s) := by
          rw [run_append, run_cons_of_comm hlast]
      _ = exec n (run exec (l ++ l') s) := by
          rw [run_append, run_append]
          rfl
      _ = run exec (List.range (n + 1)) s := by
          rw [ih (fun k hk => hcomm k (Nat.lt_succ_of_lt hk)) hrest, List.range_succ, run_append]
          rfl

/-- The order of issue is one of them. -/
lemma isOrder_range (hbefore : ∀ i k, before i k → i < k) (n : ℕ) :
    IsOrder before n (List.range n) := by
  refine ⟨List.Perm.refl _, List.pairwise_lt_range.imp fun hlt hk => ?_⟩
  exact Nat.lt_asymm hlt (hbefore _ _ hk)

end Reorder
