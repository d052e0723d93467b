import Mathlib.Algebra.Order.Group.Nat
import Mathlib.Data.Finset.Card
import Mathlib.Data.Finset.Range
import Mathlib.Order.Interval.Finset.Nat
import Mathlib.Data.Finset.Prod
import Mathlib.Data.List.Perm.Subperm
import Mathlib.Data.List.Nodup
import SupraSeal.Pc2.WorkItems

/-!
# The traversal of the tree

Whatever buffers the pool hands out, the items of a scheduler are the nodes of the tree, each once,
after its children, with the buffers of the children as inputs. The invariant relates the items that
were given out to those on the stack and to those that wait for inputs.
-/

namespace SupraSeal

namespace TreeScheduler

variable {arity k : ℕ} {done stack : List WorkItem} {s : TreeScheduler} {w e : WorkItem} {idx : ℕ × ℕ}
  {out : ℕ × ℕ → ℕ} {i buf : ℕ}

/-! ### The nodes of the tree -/

/-- The nodes of a tree with `arity ^ k` leaves; layer one holds the leaves. -/
def InTree (arity k : ℕ) (idx : ℕ × ℕ) : Prop :=
  1 ≤ idx.1 ∧ idx.1 ≤ k + 1 ∧ idx.2 < arity ^ (k + 1 - idx.1)

def child (arity : ℕ) (idx : ℕ × ℕ) (i : ℕ) : ℕ × ℕ := (idx.1 - 1, arity * idx.2 + i)

def parent (arity : ℕ) (idx : ℕ × ℕ) : ℕ × ℕ := (idx.1 + 1, idx.2 / arity)

lemma child_parent (arity : ℕ) (idx : ℕ × ℕ) : child arity (parent arity idx) (idx.2 % arity) = idx := by
  rw [child, parent, Nat.add_sub_cancel, Nat.div_add_mod]

lemma parent_child (hi : i < arity) (hidx : 1 ≤ idx.1) : parent arity (child arity idx i) = idx := by
  rw [child, parent, Nat.sub_add_cancel hidx, Nat.mul_add_div (Nat.zero_lt_of_lt hi),
    Nat.div_eq_of_lt hi, Nat.add_zero]

lemma child_eq_iff (hi : i < arity) (hidx : 1 ≤ (child arity (parent arity idx) i).1) :
    child arity (parent arity idx) i = idx ↔ i = idx.2 % arity := by
  constructor
  · intro h
    rw [← congrArg Prod.snd h, child, Nat.mul_add_mod, Nat.mod_eq_of_lt hi]
  · rintro rfl
    exact child_parent arity idx

lemma child_mod (hi : i < arity) : (child arity idx i).2 % arity = i := by
  rw [child, Nat.mul_add_mod, Nat.mod_eq_of_lt hi]

lemma InTree.parent (h : InTree arity k idx) :
    parent arity idx = (k + 2, 0) ∨ InTree arity k (parent arity idx) := by
  obtain ⟨h1, hk, hlt⟩ := h
  rcases Nat.eq_or_lt_of_le hk with heq | hlt'
  · rw [heq, Nat.sub_self, pow_zero, Nat.lt_one_iff] at hlt
    left
    rw [TreeScheduler.parent, heq, hlt, Nat.zero_div]
  · right
    refine ⟨Nat.le_add_left 1 _, hlt', ?_⟩
    refine Nat.div_lt_of_lt_mul ?_
    have hexp : k + 1 - idx.1 = k + 1 - (idx.1 + 1) + 1 := by omega
    rwa [hexp, pow_succ'] at hlt

lemma InTree.child (h : InTree arity k idx) (hidx : 1 < idx.1) (hi : i < arity) :
    InTree arity k (child arity idx i) := by
  obtain ⟨-, hk, hlt⟩ := h
  refine ⟨Nat.le_sub_one_of_lt hidx, (Nat.sub_le _ _).trans hk, ?_⟩
  have hexp : k + 1 - (idx.1 - 1) = k + 1 - idx.1 + 1 := by omega
  show arity * idx.2 + i < arity ^ (k + 1 - (idx.1 - 1))
  rw [hexp, pow_succ']
  calc arity * idx.2 + i < arity * idx.2 + arity := Nat.add_lt_add_left hi _
    _ = arity * (idx.2 + 1) := (Nat.mul_succ ..).symm
    _ ≤ _ := Nat.mul_le_mul_left _ hlt

/-! ### The invariant -/

/-- The buffer with the output of a node, zero before there is one. -/
def outOf : List WorkItem → ℕ × ℕ → ℕ
  | [], _ => 0
  | e :: done, idx => if e.idx = idx then e.buf else outOf done idx

/-- The inputs of an item are those outputs of its children that are there. -/
def InputsOf (arity : ℕ) (out : ℕ × ℕ → ℕ) (w : WorkItem) : Prop :=
  ∀ i, w.inputs i = if 1 < w.idx.1 ∧ i < arity then out (child arity w.idx i) else 0

/-- The items `done` were given out, in this order. -/
structure Traversal (arity k : ℕ) (done : List WorkItem) (s : TreeScheduler) : Prop where
  nodup : ((done ++ s.stack ++ s.wip).map WorkItem.idx).Nodup
  leaves : ∀ v < arity ^ k, ∃ w ∈ done ++ s.stack, w.idx = (1, v)
  inTree : ∀ w ∈ done ++ s.stack, InTree arity k w.idx
  wipInTree : ∀ w ∈ s.wip, w.idx = (k + 2, 0) ∨ 1 < w.idx.1 ∧ InTree arity k w.idx
  isLeaf : ∀ w ∈ done ++ s.stack, w.isLeaf = true ↔ w.idx.1 = 1
  wipLeaf : ∀ w ∈ s.wip, w.isLeaf = false
  buf : ∀ w ∈ done, w.buf ≠ 0
  inputs : ∀ w ∈ s.stack ++ s.wip, InputsOf arity (outOf done) w
  /-- The children of an item that is ready were given out. -/
  full : ∀ w ∈ done ++ s.stack, 1 < w.idx.1 → ∀ i < arity, outOf done (child arity w.idx i) ≠ 0
  ready : ∀ w ∈ s.wip, w.dependenciesReady < arity ∧ w.dependenciesReady =
    ((Finset.range arity).filter fun i => outOf done (child arity w.idx i) ≠ 0).card
  parent : ∀ e ∈ done, ∃ w ∈ done ++ s.stack ++ s.wip, w.idx = TreeScheduler.parent arity e.idx
  /-- An item comes after its children. -/
  ordered : ∀ pre w post, done = pre ++ w :: post → InputsOf arity (outOf pre) w ∧
    (1 < w.idx.1 → ∀ i < arity, outOf pre (child arity w.idx i) ≠ 0)

lemma outOf_eq_zero (h : idx ∉ done.map WorkItem.idx) : outOf done idx = 0 := by
  induction done with
  | nil => rfl
  | cons e done ih =>
    rw [List.map_cons, List.mem_cons, not_or] at h
    rw [outOf, if_neg (Ne.symm h.1), ih h.2]

lemma outOf_ne_zero (hbuf : ∀ w ∈ done, w.buf ≠ 0) (h : idx ∈ done.map WorkItem.idx) :
    outOf done idx ≠ 0 := by
  induction done with
  | nil => cases h
  | cons e done ih =>
    rw [outOf]
    split_ifs with heq
    · exact hbuf e (List.mem_cons_self ..)
    · rw [List.map_cons, List.mem_cons] at h
      exact ih (fun w hw => hbuf w (List.mem_cons_of_mem e hw)) (h.resolve_left (Ne.symm heq))

lemma outOf_of_mem (hnodup : (done.map WorkItem.idx).Nodup) (he : e ∈ done) : outOf done e.idx = e.buf := by
  induction done with
  | nil => cases he
  | cons d done ih =>
    rw [List.map_cons, List.nodup_cons] at hnodup
    rw [outOf]
    rcases List.mem_cons.mp he with rfl | he
    · exact if_pos rfl
    · rw [if_neg, ih hnodup.2 he]
      intro heq
      exact hnodup.1 (heq ▸ List.mem_map_of_mem he)

lemma outOf_append (h : w.idx ∉ done.map WorkItem.idx) :
    outOf (done ++ [w]) = Function.update (outOf done) w.idx w.buf := by
  funext idx
  induction done with
  | nil =>
    simp only [List.nil_append, outOf, Function.update_apply, eq_comm]
  | cons e done ih =>
    rw [List.map_cons, List.mem_cons, not_or] at h
    simp only [List.cons_append, outOf, ih h.2, Function.update_apply]
    by_cases heq : e.idx = idx
    · rw [if_pos heq, if_pos heq, if_neg (by rw [← heq]; exact Ne.symm h.1)]
    · rw [if_neg heq, if_neg heq]

lemma mem_of_outOf_ne_zero (h : outOf done idx ≠ 0) : idx ∈ done.map WorkItem.idx := by
  by_contra hnot
  exact h (outOf_eq_zero hnot)

lemma traversal_reset (arity k : ℕ) : Traversal arity k [] (reset (arity ^ k)) := by
  have hstack : ∀ w ∈ (reset (arity ^ k)).stack, ∃ v < arity ^ k, w = .new (1, v) true := by
    intro w hw
    obtain ⟨v, hv, rfl⟩ := List.mem_map.mp hw
    exact ⟨v, List.mem_range.mp hv, rfl⟩
  refine ⟨?_, ?_, ?_, nofun, ?_, nofun, nofun, ?_, ?_, nofun, nofun, ?_⟩
  · show ((List.map _ (List.range (arity ^ k)) ++ []).map WorkItem.idx).Nodup
    rw [List.append_nil, List.map_map]
    refine List.nodup_range.map ?_
    intro v v' h
    exact (Prod.mk.inj h).2
  · intro v hv
    exact ⟨.new (1, v) true, List.mem_map.mpr ⟨v, List.mem_range.mpr hv, rfl⟩, rfl⟩
  · intro w hw
    obtain ⟨v, hv, rfl⟩ := hstack w hw
    exact ⟨le_rfl, Nat.le_add_left 1 k, hv⟩
  · intro w hw
    obtain ⟨v, -, rfl⟩ := hstack w hw
    simp [WorkItem.new]
  · intro w hw i
    rw [show (reset (arity ^ k)).wip = [] from rfl, List.append_nil] at hw
    obtain ⟨v, -, rfl⟩ := hstack w hw
    simp [WorkItem.new]
  · intro w hw hlayer
    obtain ⟨v, -, rfl⟩ := hstack w hw
    exact absurd hlayer (Nat.lt_irrefl 1)
  · intro pre w post h
    cases pre <;> cases h

/-! ### A step -/

/-- The item of a node that waits for inputs. -/
def waiting (wip : List WorkItem) (idx : ℕ × ℕ) : WorkItem :=
  (wip.find? (·.idx = idx)).getD (.new idx false)

/-- The item of the parent with the output of `w`. -/
def dependant (arity : ℕ) (wip : List WorkItem) (w : WorkItem) : WorkItem :=
  { waiting wip (parent arity w.idx) with
    inputs := Function.update (waiting wip (parent arity w.idx)).inputs (w.leafNum arity) w.buf
    dependenciesReady := (waiting wip (parent arity w.idx)).dependenciesReady + 1 }

lemma waiting_idx (wip : List WorkItem) (idx : ℕ × ℕ) : (waiting wip idx).idx = idx := by
  unfold waiting
  cases hfind : wip.find? (·.idx = idx) with
  | none => rfl
  | some v => simpa using List.find?_some hfind

lemma dependant_idx (arity : ℕ) (wip : List WorkItem) (w : WorkItem) :
    (dependant arity wip w).idx = parent arity w.idx :=
  waiting_idx ..

lemma dependant_inputs (arity : ℕ) (wip : List WorkItem) (w : WorkItem) (i : ℕ) :
    (dependant arity wip w).inputs i =
      Function.update (waiting wip (parent arity w.idx)).inputs (w.leafNum arity) w.buf i := rfl

/-- The other items that wait. -/
def others (arity : ℕ) (wip : List WorkItem) (w : WorkItem) : List WorkItem :=
  wip.filter (·.idx ≠ parent arity w.idx)

lemma record_eq (s : TreeScheduler) (w : WorkItem) (stack : List WorkItem) :
    s.record arity w stack =
      if (dependant arity s.wip w).dependenciesReady = arity then
        ⟨dependant arity s.wip w :: stack, others arity s.wip w⟩
      else ⟨stack, dependant arity s.wip w :: others arity s.wip w⟩ := rfl

lemma mem_stack_record {v : WorkItem} : v ∈ (s.record arity w stack).stack ↔
    v = dependant arity s.wip w ∧ (dependant arity s.wip w).dependenciesReady = arity ∨ v ∈ stack := by
  rw [record_eq]
  split_ifs with hready
  · simp [hready]
  · simp [hready]

lemma mem_wip_record {v : WorkItem} : v ∈ (s.record arity w stack).wip ↔
    v = dependant arity s.wip w ∧ (dependant arity s.wip w).dependenciesReady ≠ arity ∨
      v ∈ s.wip ∧ v.idx ≠ parent arity w.idx := by
  rw [record_eq]
  split_ifs with hready
  · simp [hready, others]
  · simp [hready, others]

lemma perm_record (s : TreeScheduler) (w : WorkItem) (stack : List WorkItem) :
    ((s.record arity w stack).stack ++ (s.record arity w stack).wip).Perm
      (dependant arity s.wip w :: (stack ++ others arity s.wip w)) := by
  rw [record_eq]
  split_ifs
  · exact List.Perm.refl _
  · exact List.perm_middle

lemma leafNum_eq {lg : ℕ} (harity : arity = 2 ^ lg) (w : WorkItem) : w.leafNum arity = w.idx.2 % arity := by
  rw [WorkItem.leafNum, harity, Nat.and_two_pow_sub_one_eq_mod]

namespace Traversal

variable {lg : ℕ}

lemma idx_notMem (h : Traversal arity k done s) (hs : s.stack = w :: stack) :
    w.idx ∉ done.map WorkItem.idx := by
  have hnodup := h.nodup
  rw [hs, List.append_assoc, List.map_append, List.nodup_append] at hnodup
  intro hmem
  exact hnodup.2.2 _ hmem _ (List.mem_map_of_mem (List.mem_cons_self ..)) rfl

/-- The parent of the next item is not ready. -/
lemma ne_parent (h : Traversal arity k done s) (harity : 1 < arity) (hs : s.stack = w :: stack)
    {v : WorkItem} (hv : v ∈ done ++ s.stack) : v.idx ≠ TreeScheduler.parent arity w.idx := by
  intro heq
  have hw := h.inTree w (List.mem_append_right _ (hs ▸ List.mem_cons_self ..))
  have hlayer : 1 < v.idx.1 := by
    rw [heq]
    exact Nat.lt_succ_of_le hw.1
  apply h.full v hv hlayer (w.idx.2 % arity) (Nat.mod_lt _ (Nat.zero_lt_of_lt harity))
  rw [heq, child_parent]
  exact outOf_eq_zero (h.idx_notMem hs)

/-- What the item of the parent has got so far. -/
lemma waiting_spec (h : Traversal arity k done s) (harity : 1 < arity) (hs : s.stack = w :: stack) :
    (waiting s.wip (TreeScheduler.parent arity w.idx)).isLeaf = false ∧
      InputsOf arity (outOf done) (waiting s.wip (TreeScheduler.parent arity w.idx)) ∧
      (waiting s.wip (TreeScheduler.parent arity w.idx)).dependenciesReady =
        ((Finset.range arity).filter fun i =>
          outOf done (child arity (TreeScheduler.parent arity w.idx) i) ≠ 0).card := by
  unfold waiting
  cases hfind : s.wip.find? (·.idx = TreeScheduler.parent arity w.idx) with
  | some v =>
    have hv := List.mem_of_find?_eq_some hfind
    have hidx : v.idx = TreeScheduler.parent arity w.idx := by simpa using List.find?_some hfind
    exact ⟨h.wipLeaf v hv, h.inputs v (List.mem_append_right _ hv), hidx ▸ (h.ready v hv).2⟩
  | none =>
    have hnone : ∀ i < arity, outOf done (child arity (TreeScheduler.parent arity w.idx) i) = 0 := by
      intro i hi
      by_contra hout
      obtain ⟨e, he, hidx⟩ := List.mem_map.mp (mem_of_outOf_ne_zero hout)
      obtain ⟨v, hv, hparent⟩ := h.parent e he
      rw [hidx, parent_child hi (Nat.le_add_left 1 _)] at hparent
      rcases List.mem_append.mp hv with hv | hv
      · exact h.ne_parent harity hs hv hparent
      · have := List.find?_eq_none.mp hfind v hv
        simp [hparent] at this
    refine ⟨rfl, ?_, ?_⟩
    · intro i
      show 0 = _
      split_ifs with hi
      · exact (hnone i hi.2).symm
      · rfl
    · show 0 = _
      rw [eq_comm, Finset.card_eq_zero, Finset.filter_eq_empty_iff]
      intro i hi
      rw [not_not]
      exact hnone i (Finset.mem_range.mp hi)

/-- The outputs that are there after the next item. -/
lemma outOf_next (h : Traversal arity k done s) (hs : s.stack = w :: stack) (buf : ℕ) :
    outOf (done ++ [{ w with buf := buf }]) = Function.update (outOf done) w.idx buf := by
  have hnot : ({ w with buf := buf } : WorkItem).idx ∉ done.map WorkItem.idx :=
    h.idx_notMem (w := w) hs
  exact outOf_append hnot

/-- The output of the next item is no input of another item than that of its parent. -/
lemma outOf_child (h : Traversal arity k done s) (hs : s.stack = w :: stack) (hidx : 1 ≤ idx.1)
    (hne : idx ≠ TreeScheduler.parent arity w.idx) (hi : i < arity) :
    outOf (done ++ [{ w with buf := buf }]) (child arity idx i) = outOf done (child arity idx i) := by
  rw [h.outOf_next hs]
  apply Function.update_of_ne
  intro heq
  apply hne
  rw [← heq, parent_child hi hidx]

lemma outOf_sibling (h : Traversal arity k done s) (hs : s.stack = w :: stack) (hi : i < arity) :
    outOf (done ++ [{ w with buf := buf }]) (child arity (TreeScheduler.parent arity w.idx) i) =
      if i = w.idx.2 % arity then buf
      else outOf done (child arity (TreeScheduler.parent arity w.idx) i) := by
  rw [h.outOf_next hs, Function.update_apply]
  have hw := h.inTree w (List.mem_append_right _ (hs ▸ List.mem_cons_self ..))
  simp only [child_eq_iff hi (show 1 ≤ (child arity (TreeScheduler.parent arity w.idx) i).1 from hw.1)]

/-- What the item of the parent has got with the output of the next item. -/
lemma dependant_spec (h : Traversal arity k done s) (hlg : arity = 2 ^ lg) (harity : 1 < arity)
    (hs : s.stack = w :: stack) (hbuf : buf ≠ 0) :
    (dependant arity s.wip { w with buf := buf }).isLeaf = false ∧
      InputsOf arity (outOf (done ++ [{ w with buf := buf }]))
        (dependant arity s.wip { w with buf := buf }) ∧
      (dependant arity s.wip { w with buf := buf }).dependenciesReady =
        ((Finset.range arity).filter fun i => outOf (done ++ [{ w with buf := buf }])
          (child arity (TreeScheduler.parent arity w.idx) i) ≠ 0).card := by
  obtain ⟨hleaf, hinputs, hready⟩ := h.waiting_spec harity hs
  have hw := h.inTree w (List.mem_append_right _ (hs ▸ List.mem_cons_self ..))
  have hmod : w.idx.2 % arity < arity := Nat.mod_lt _ (Nat.zero_lt_of_lt harity)
  refine ⟨hleaf, ?_, ?_⟩
  · intro i
    rw [dependant_inputs, leafNum_eq hlg, Function.update_apply, dependant_idx, hinputs i, waiting_idx]
    by_cases hi : i < arity
    · have hlayer : 1 < (TreeScheduler.parent arity w.idx).1 ∧ i < arity := ⟨Nat.lt_succ_of_le hw.1, hi⟩
      rw [if_pos hlayer, if_pos hlayer, h.outOf_sibling hs hi]
    · rw [if_neg (fun heq : i = w.idx.2 % arity => hi (heq ▸ hmod)), if_neg (fun hand => hi hand.2),
        if_neg (fun hand => hi hand.2)]
  · have hfilter : ((Finset.range arity).filter fun i => outOf (done ++ [{ w with buf := buf }])
          (child arity (TreeScheduler.parent arity w.idx) i) ≠ 0) =
        insert (w.idx.2 % arity) ((Finset.range arity).filter fun i =>
          outOf done (child arity (TreeScheduler.parent arity w.idx) i) ≠ 0) := by
      ext i
      rw [Finset.mem_insert, Finset.mem_filter, Finset.mem_filter, Finset.mem_range]
      constructor
      · rintro ⟨hi, hout⟩
        rw [h.outOf_sibling hs hi] at hout
        split_ifs at hout with heq
        · exact .inl heq
        · exact .inr ⟨hi, hout⟩
      · rintro (rfl | ⟨hi, hout⟩)
        · exact ⟨hmod, by rwa [h.outOf_sibling hs hmod, if_pos rfl]⟩
        · refine ⟨hi, ?_⟩
          rw [h.outOf_sibling hs hi]
          split_ifs
          · exact hbuf
          · exact hout
    have hnot : w.idx.2 % arity ∉ (Finset.range arity).filter fun i =>
        outOf done (child arity (TreeScheduler.parent arity w.idx) i) ≠ 0 := by
      rw [Finset.mem_filter, child_parent, not_and, not_not]
      intro _
      exact outOf_eq_zero (h.idx_notMem hs)
    rw [hfilter, Finset.card_insert_of_notMem hnot, ← hready]
    rfl

/-- An item that was given out or is ready after the next item. -/
lemma mem_record {v : WorkItem} (hs : s.stack = w :: stack)
    (hv : v ∈ done ++ [{ w with buf := buf }] ++ (s.record arity { w with buf := buf } stack).stack) :
    (∃ v' ∈ done ++ s.stack, v'.idx = v.idx ∧ v'.isLeaf = v.isLeaf) ∨
      v = dependant arity s.wip { w with buf := buf } ∧
        (dependant arity s.wip { w with buf := buf }).dependenciesReady = arity := by
  simp only [List.mem_append, List.mem_singleton, mem_stack_record] at hv
  rw [hs]
  rcases hv with (hv | rfl) | hv | hv
  · exact .inl ⟨v, List.mem_append_left _ hv, rfl, rfl⟩
  · exact .inl ⟨w, List.mem_append_right _ (List.mem_cons_self ..), rfl, rfl⟩
  · exact .inr hv
  · exact .inl ⟨v, List.mem_append_right _ (List.mem_cons_of_mem w hv), rfl, rfl⟩

lemma nodup_record (h : Traversal arity k done s) (harity : 1 < arity) (hs : s.stack = w :: stack) :
    ((done ++ [{ w with buf := buf }] ++ (s.record arity { w with buf := buf } stack).stack ++
      (s.record arity { w with buf := buf } stack).wip).map WorkItem.idx).Nodup := by
  have hperm : (done ++ [{ w with buf := buf }] ++ (s.record arity { w with buf := buf } stack).stack ++
      (s.record arity { w with buf := buf } stack).wip).Perm
      (dependant arity s.wip { w with buf := buf } ::
        (done ++ [{ w with buf := buf }] ++ (stack ++ others arity s.wip { w with buf := buf }))) := by
    rw [List.append_assoc]
    exact ((perm_record ..).append_left _).trans List.perm_middle
  rw [(hperm.map _).nodup_iff, List.map_cons, List.nodup_cons, dependant_idx]
  constructor
  · intro hmem
    obtain ⟨v, hv, hidx⟩ := List.mem_map.mp hmem
    simp only [List.mem_append, List.mem_singleton, others, List.mem_filter, decide_eq_true_eq] at hv
    have hne := fun v hv => h.ne_parent harity hs (v := v) hv
    rw [hs] at hne
    rcases hv with (hv | rfl) | hv | hv
    · exact hne v (List.mem_append_left _ hv) hidx
    · exact hne w (List.mem_append_right _ (List.mem_cons_self ..)) hidx
    · exact hne v (List.mem_append_right _ (List.mem_cons_of_mem w hv)) hidx
    · exact hv.2 hidx
  · have hnodup := h.nodup
    rw [hs] at hnodup
    refine hnodup.sublist ?_
    simp only [List.map_append, List.map_cons, List.append_assoc, List.cons_append, List.nil_append]
    refine (List.Sublist.refl _).append (List.Sublist.cons_cons _ ((List.Sublist.refl _).append ?_))
    exact List.filter_sublist.map _

/-- The node of the parent, when the node of the next item is in the tree. -/
lemma parent_inTree (h : Traversal arity k done s) (hs : s.stack = w :: stack) :
    TreeScheduler.parent arity w.idx = (k + 2, 0) ∨
      1 < (TreeScheduler.parent arity w.idx).1 ∧ InTree arity k (TreeScheduler.parent arity w.idx) := by
  have hw := h.inTree w (List.mem_append_right _ (hs ▸ List.mem_cons_self ..))
  exact hw.parent.imp_right fun hin => ⟨Nat.lt_succ_of_le hw.1, hin⟩

/-- An item that is ready is one of the tree: the node above the root gets a single input. -/
lemma inTree_of_ready (h : Traversal arity k done s) (hlg : arity = 2 ^ lg) (harity : 1 < arity)
    (hs : s.stack = w :: stack) (hbuf : buf ≠ 0)
    (hready : (dependant arity s.wip { w with buf := buf }).dependenciesReady = arity) :
    (∀ i < arity, outOf (done ++ [{ w with buf := buf }])
      (child arity (TreeScheduler.parent arity w.idx) i) ≠ 0) ∧
      InTree arity k (TreeScheduler.parent arity w.idx) := by
  have hcard := (h.dependant_spec hlg harity hs hbuf).2.2
  rw [hready] at hcard
  have hfull : ∀ i < arity, outOf (done ++ [{ w with buf := buf }])
      (child arity (TreeScheduler.parent arity w.idx) i) ≠ 0 := by
    have hfilter := Finset.filter_card_eq (hcard.symm.trans (Finset.card_range arity).symm)
    intro i hi
    exact hfilter i (Finset.mem_range.mpr hi)
  refine ⟨hfull, (h.parent_inTree hs).elim ?_ And.right⟩
  intro htop
  exfalso
  -- the second child of the node above the root would be a node of the tree
  have hw := h.inTree w (List.mem_append_right _ (hs ▸ List.mem_cons_self ..))
  have hlayer : w.idx.1 = k + 1 := Nat.succ.inj (congrArg Prod.fst htop)
  have hnode : w.idx.2 = 0 := by
    have hlt := hw.2.2
    rwa [hlayer, Nat.sub_self, pow_zero, Nat.lt_one_iff] at hlt
  have hout := hfull 1 harity
  rw [h.outOf_sibling hs harity, hnode, Nat.zero_mod, if_neg Nat.one_ne_zero, htop] at hout
  obtain ⟨e, he, hidx⟩ := List.mem_map.mp (mem_of_outOf_ne_zero hout)
  have hin := (h.inTree e (List.mem_append_left _ he)).2.2
  rw [hidx] at hin
  simp [child] at hin

/-- A step of the traversal. -/
theorem record (h : Traversal arity k done s) (hlg : arity = 2 ^ lg) (harity : 1 < arity)
    (hs : s.stack = w :: stack) (hbuf : buf ≠ 0) :
    Traversal arity k (done ++ [{ w with buf := buf }]) (s.record arity { w with buf := buf } stack) := by
  have hw := List.mem_append_right done (hs ▸ List.mem_cons_self .. : w ∈ s.stack)
  obtain ⟨hleaf, hinputs, hcard⟩ := h.dependant_spec hlg harity hs hbuf
  have hready := h.inTree_of_ready hlg harity hs hbuf
  have hne := fun v hv => h.ne_parent harity hs (v := v) hv
  have hout : ∀ v : WorkItem, 1 ≤ v.idx.1 → v.idx ≠ TreeScheduler.parent arity w.idx → ∀ i < arity,
      outOf (done ++ [{ w with buf := buf }]) (child arity v.idx i) = outOf done (child arity v.idx i) :=
    fun v hv hne i hi => h.outOf_child hs hv hne hi
  have hinputs' : ∀ v, 1 ≤ v.idx.1 → v.idx ≠ TreeScheduler.parent arity w.idx →
      InputsOf arity (outOf done) v →
        InputsOf arity (outOf (done ++ [{ w with buf := buf }])) v := by
    intro v hv hne hin i
    rw [hin i]
    split_ifs with hi
    · exact (hout v hv hne i hi.2).symm
    · rfl
  have hwip : ∀ v ∈ s.wip, 1 ≤ v.idx.1 := by
    intro v hv
    rcases h.wipInTree v hv with htop | hin
    · rw [htop]
      exact Nat.le_add_left 1 _
    · exact hin.2.1
  refine ⟨h.nodup_record harity hs, ?_, ?_, ?_, ?_, ?_, ?_, ?_, ?_, ?_, ?_, ?_⟩
  · intro v hv
    obtain ⟨u, hu, hidx⟩ := h.leaves v hv
    rw [hs, List.mem_append, List.mem_cons] at hu
    simp only [List.mem_append, List.mem_singleton, mem_stack_record]
    rcases hu with hu | rfl | hu
    · exact ⟨u, .inl (.inl hu), hidx⟩
    · exact ⟨_, .inl (.inr rfl), hidx⟩
    · exact ⟨u, .inr (.inr hu), hidx⟩
  · intro v hv
    rcases mem_record hs hv with ⟨v', hv', hidx, -⟩ | ⟨rfl, hfull⟩
    · exact hidx ▸ h.inTree v' hv'
    · rw [dependant_idx]
      exact (hready hfull).2
  · intro v hv
    rcases mem_wip_record.mp hv with ⟨rfl, -⟩ | ⟨hv, -⟩
    · rw [dependant_idx]
      exact h.parent_inTree (w := w) hs
    · exact h.wipInTree v hv
  · intro v hv
    rcases mem_record hs hv with ⟨v', hv', hidx, hisLeaf⟩ | ⟨rfl, -⟩
    · rw [← hidx, ← hisLeaf]
      exact h.isLeaf v' hv'
    · rw [hleaf, dependant_idx]
      have hlayer : (TreeScheduler.parent arity w.idx).1 ≠ 1 :=
        Nat.ne_of_gt (Nat.lt_succ_of_le (h.inTree w hw).1)
      exact iff_of_false Bool.false_ne_true hlayer
  · intro v hv
    rcases mem_wip_record.mp hv with ⟨rfl, -⟩ | ⟨hv, -⟩
    · exact hleaf
    · exact h.wipLeaf v hv
  · intro v hv
    rcases List.mem_append.mp hv with hv | hv
    · exact h.buf v hv
    · rw [List.mem_singleton.mp hv]
      exact hbuf
  · intro v hv
    rw [List.mem_append, mem_stack_record, mem_wip_record] at hv
    rcases hv with (⟨rfl, -⟩ | hv) | ⟨rfl, -⟩ | ⟨hv, hidx⟩
    · exact hinputs
    · have hv' : v ∈ s.stack := hs ▸ List.mem_cons_of_mem w hv
      exact hinputs' v (h.inTree v (List.mem_append_right _ hv')).1
        (hne v (List.mem_append_right _ hv')) (h.inputs v (List.mem_append_left _ hv'))
    · exact hinputs
    · exact hinputs' v (hwip v hv) hidx (h.inputs v (List.mem_append_right _ hv))
  · intro v hv hlayer i hi
    rcases mem_record hs hv with ⟨v', hv', hidx, -⟩ | ⟨rfl, hfull⟩
    · rw [← hidx] at hlayer ⊢
      rw [hout v' (Nat.le_of_lt hlayer) (hne v' hv') i hi]
      exact h.full v' hv' hlayer i hi
    · rw [dependant_idx]
      exact (hready hfull).1 i hi
  · intro v hv
    rcases mem_wip_record.mp hv with ⟨rfl, hfull⟩ | ⟨hv, hidx⟩
    · rw [dependant_idx]
      refine ⟨lt_of_le_of_ne ?_ hfull, hcard⟩
      rw [hcard]
      exact (Finset.card_filter_le ..).trans_eq (Finset.card_range arity)
    · obtain ⟨hlt, hdeps⟩ := h.ready v hv
      refine ⟨hlt, hdeps.trans (congrArg Finset.card (Finset.filter_congr ?_))⟩
      intro i hi
      rw [hout v (hwip v hv) hidx i (Finset.mem_range.mp hi)]
  · intro v hv
    simp only [List.mem_append, List.mem_singleton, mem_stack_record, mem_wip_record]
    have hd : ∀ idx, idx = TreeScheduler.parent arity w.idx →
        (dependant arity s.wip { w with buf := buf }).idx = idx := by
      rintro _ rfl
      exact dependant_idx ..
    by_cases hp : TreeScheduler.parent arity v.idx = TreeScheduler.parent arity w.idx
    · by_cases hfull : (dependant arity s.wip { w with buf := buf }).dependenciesReady = arity
      · exact ⟨_, .inl (.inr (.inl ⟨rfl, hfull⟩)), hd _ hp⟩
      · exact ⟨_, .inr (.inl ⟨rfl, hfull⟩), hd _ hp⟩
    · have hv' : v ∈ done := by
        refine (List.mem_append.mp hv).resolve_right ?_
        intro hv
        rw [List.mem_singleton.mp hv] at hp
        exact hp rfl
      obtain ⟨u, hu, hidx⟩ := h.parent v hv'
      rw [hs, List.mem_append, List.mem_append, List.mem_cons] at hu
      rcases hu with (hu | rfl | hu) | hu
      · exact ⟨u, .inl (.inl (.inl hu)), hidx⟩
      · exact ⟨_, .inl (.inl (.inr rfl)), hidx⟩
      · exact ⟨u, .inl (.inr (.inr hu)), hidx⟩
      · exact ⟨u, .inr (.inr ⟨hu, hidx ▸ hp⟩), hidx⟩
  · intro pre v post hsplit
    rcases List.eq_nil_or_concat post with rfl | ⟨post, u, rfl⟩
    · obtain ⟨rfl, hv⟩ := List.append_inj' hsplit rfl
      rw [← List.head_eq_of_cons_eq hv]
      exact ⟨h.inputs w (List.mem_append_left _ (hs ▸ List.mem_cons_self ..)), h.full w hw⟩
    · rw [List.concat_eq_append, ← List.cons_append, ← List.append_assoc] at hsplit
      exact h.ordered pre v post (List.append_inj' hsplit rfl).1

/-! ### The end -/

/-- A bound for the number of nodes. -/
lemma length_le (h : Traversal arity k done s) (harity : 1 < arity) :
    (done ++ s.stack).length ≤ (k + 1) * arity ^ k := by
  have hnodup : ((done ++ s.stack).map WorkItem.idx).Nodup := by
    have hall := h.nodup
    rw [List.map_append] at hall
    exact hall.of_append_left
  have hsub : ((done ++ s.stack).map WorkItem.idx).toFinset ⊆
      Finset.Icc 1 (k + 1) ×ˢ Finset.range (arity ^ k) := by
    intro idx hidx
    obtain ⟨w, hw, rfl⟩ := List.mem_map.mp (List.mem_toFinset.mp hidx)
    obtain ⟨h1, hk, hlt⟩ := h.inTree w hw
    refine Finset.mem_product.mpr ⟨Finset.mem_Icc.mpr ⟨h1, hk⟩, Finset.mem_range.mpr (hlt.trans_le ?_)⟩
    exact Nat.pow_le_pow_right (Nat.zero_lt_of_lt harity) (by omega)
  have hcard := Finset.card_le_card hsub
  rw [List.toFinset_card_of_nodup hnodup, List.length_map, Finset.card_product, Nat.card_Icc,
    Finset.card_range, Nat.add_sub_cancel] at hcard
  exact hcard

/-- When no item is ready, every node was given out. A layer is complete with the one below. -/
lemma mem_of_stack_nil (h : Traversal arity k done s) (harity : 1 < arity) (hs : s.stack = [])
    (hin : InTree arity k idx) : idx ∈ done.map WorkItem.idx := by
  obtain ⟨layer, node⟩ := idx
  induction layer generalizing node with
  | zero => exact absurd hin.1 (Nat.not_succ_le_zero 0)
  | succ layer ih =>
    cases layer with
    | zero =>
      obtain ⟨w, hw, hidx⟩ := h.leaves node hin.2.2
      rw [hs, List.append_nil] at hw
      exact List.mem_map.mpr ⟨w, hw, hidx⟩
    | succ layer =>
      have hlayer : 1 < layer + 1 + 1 := Nat.succ_lt_succ (Nat.succ_pos layer)
      have hchild : ∀ i < arity, outOf done (child arity (layer + 1 + 1, node) i) ≠ 0 := by
        intro i hi
        exact outOf_ne_zero h.buf (ih _ (hin.child hlayer hi))
      have h0 : 0 < arity := Nat.zero_lt_of_lt harity
      obtain ⟨e, he, hidx⟩ := List.mem_map.mp (mem_of_outOf_ne_zero (hchild 0 h0))
      obtain ⟨w, hw, hparent⟩ := h.parent e he
      rw [hidx, parent_child h0 hin.1] at hparent
      rw [hs, List.append_nil] at hw
      rcases List.mem_append.mp hw with hw | hw
      · exact List.mem_map.mpr ⟨w, hw, hparent⟩
      · -- an item with all its inputs does not wait
        obtain ⟨hlt, hdeps⟩ := h.ready w hw
        rw [hparent, Finset.filter_true_of_mem (fun i hi => hchild i (Finset.mem_range.mp hi)),
          Finset.card_range] at hdeps
        exact absurd hdeps (Nat.ne_of_lt hlt)

lemma root_inTree (arity k : ℕ) : InTree arity k (k + 1, 0) := by
  refine ⟨Nat.le_add_left 1 k, le_rfl, ?_⟩
  rw [Nat.sub_self, pow_zero]
  exact Nat.one_pos

/-- The item that is left has the output of the root as its only input. -/
lemma wip_of_stack_nil (h : Traversal arity k done s) (harity : 1 < arity) (hs : s.stack = []) :
    ∃ work, s.wip = [work] ∧ work.idx = (k + 2, 0) ∧
      ∀ i, work.inputs i = if i = 0 then outOf done (k + 1, 0) else 0 := by
  have htop : ∀ w ∈ s.wip, w.idx = (k + 2, 0) := by
    intro w hw
    refine (h.wipInTree w hw).resolve_right ?_
    rintro ⟨-, hin⟩
    have hnodup := h.nodup
    rw [hs, List.append_nil, List.map_append, List.nodup_append] at hnodup
    exact hnodup.2.2 _ (h.mem_of_stack_nil harity hs hin) _ (List.mem_map_of_mem hw) rfl
  obtain ⟨e, he, hidx⟩ := List.mem_map.mp (h.mem_of_stack_nil harity hs (root_inTree arity k))
  obtain ⟨work, hwork, hparent⟩ := h.parent e he
  rw [hs, List.append_nil] at hwork
  have hroot : work.idx = (k + 2, 0) := by
    rw [hparent, hidx, TreeScheduler.parent, Nat.zero_div]
  have hwip : work ∈ s.wip := by
    refine (List.mem_append.mp hwork).resolve_left ?_
    intro hmem
    have hle := (h.inTree work (List.mem_append_left _ hmem)).2.1
    rw [hroot] at hle
    exact absurd hle (Nat.not_succ_le_self (k + 1))
  refine ⟨work, ?_, hroot, ?_⟩
  · -- the nodes of the items that wait are different
    have hnodup := h.nodup
    rw [List.map_append] at hnodup
    have hsingle := hnodup.of_append_right
    have hrep : s.wip.map WorkItem.idx = List.replicate s.wip.length (k + 2, 0) := by
      refine List.eq_replicate_iff.mpr ⟨List.length_map .., ?_⟩
      intro idx hmem
      obtain ⟨w, hw, rfl⟩ := List.mem_map.mp hmem
      exact htop w hw
    rw [hrep, List.nodup_replicate] at hsingle
    have hlen : s.wip.length = 1 := le_antisymm hsingle (List.length_pos_of_mem hwip)
    obtain ⟨w, hw⟩ := List.length_eq_one_iff.mp hlen
    rw [hw, List.mem_singleton] at hwip
    rw [hw, hwip]
  · intro i
    rw [h.inputs work (List.mem_append_right _ hwip) i, hroot]
    by_cases hi : i = 0
    · rw [if_pos hi, hi, if_pos ⟨Nat.le_add_left 2 k, Nat.zero_lt_of_lt harity⟩]
      rfl
    · rw [if_neg hi]
      split_ifs with hand
      · -- there is one node in the layer of the root
        by_contra hout
        obtain ⟨e', he', hidx'⟩ := List.mem_map.mp (mem_of_outOf_ne_zero hout)
        have hin := (h.inTree e' (List.mem_append_left _ he')).2.2
        rw [hidx'] at hin
        simp [child] at hin
        exact hi hin
      · rfl

end Traversal

end TreeScheduler

end SupraSeal
