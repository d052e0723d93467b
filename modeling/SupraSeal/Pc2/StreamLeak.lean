import SupraSeal.Pc2.StreamRun

/-!
# The buffers that are lost

The output of the root stays in the scheduler, and `reset` forgets it. So each partition loses two
buffers, and each partition after the first one makes two new ones.
-/

namespace SupraSeal

/-! ### The number of buffers -/

namespace Buffers

variable {bufs : Buffers} {held : Multiset ℕ}

/-- All buffers that were made are in the pool, where the destructor finds them. -/
def Conserved (bufs : Buffers) : Prop :=
  ∀ buf, 1 ≤ buf → buf ≤ bufs.numBuffers → buf ∈ bufs.buffers

lemma Owns.not_conserved (howns : bufs.Owns held) (hheld : held ≠ 0) : ¬ bufs.Conserved := by
  intro hall
  obtain ⟨buf, hbuf⟩ := Multiset.exists_mem_of_ne_zero hheld
  have hmem : buf ∈ (bufs.buffers : Multiset ℕ) + held := Multiset.mem_add.mpr (.inr hbuf)
  have hnodup := howns.nodup
  rw [Owns] at howns
  rw [howns] at hmem
  obtain ⟨n, hn, rfl⟩ := Multiset.mem_map.mp hmem
  have hfree := hall (n + 1) (Nat.le_add_left 1 n) (Multiset.mem_range.mp hn)
  exact Multiset.disjoint_left.mp (Multiset.nodup_add.mp hnodup).2.2 (Multiset.mem_coe.mpr hfree) hbuf

lemma Owns.numBuffers_eq (howns : bufs.Owns held) : bufs.numBuffers = bufs.buffers.length + held.card := by
  have hcard := congrArg Multiset.card howns
  rw [Multiset.card_add, Multiset.coe_card, Multiset.card_map, Multiset.card_range] at hcard
  exact hcard.symm

/-- `get` makes a buffer when all of them are held. -/
lemma Owns.get_numBuffers (howns : bufs.Owns held) :
    bufs.get.2.numBuffers = max bufs.numBuffers (held.card + 1) := by
  have hnum := howns.numBuffers_eq
  obtain ⟨buffers, numBuffers⟩ := bufs
  cases buffers with
  | nil =>
    rw [List.length_nil, Nat.zero_add] at hnum
    rw [← hnum, max_eq_right (Nat.le_succ _)]
    rfl
  | cons buf buffers =>
    rw [List.length_cons] at hnum
    rw [max_eq_left (by rw [hnum]; omega)]
    rfl

lemma numBuffers_puts {α : Type*} (f : α → ℕ) (l : List α) (bufs : Buffers) :
    (l.foldl (fun bufs a => bufs.put (f a)) bufs).numBuffers = bufs.numBuffers := by
  induction l generalizing bufs with
  | nil => rfl
  | cons a l ih => exact ih (bufs.put (f a))

end Buffers

namespace TreeScheduler

variable {arity k lg : ℕ} {done stack : List WorkItem} {s s' : TreeScheduler} {w : WorkItem}
  {bufs bufs' : Buffers}

lemma next_numBuffers (hs : s.stack = w :: stack) :
    (s.next arity bufs).2.2.2.numBuffers = bufs.get.2.numBuffers := by
  simp only [next, hs]
  split_ifs
  · rfl
  · exact Buffers.numBuffers_puts ..

lemma SameShape.next (h : SameShape s s') :
    SameShape (s.next arity bufs).2.2.1 (s'.next arity bufs').2.2.1 := by
  have hstack := h.stack
  cases hs : s.stack with
  | nil =>
    rw [hs, List.map_nil] at hstack
    have hs' := List.map_eq_nil_iff.mp hstack.symm
    simp only [TreeScheduler.next, hs, hs']
    exact h
  | cons w stack =>
    rw [hs, List.map_cons] at hstack
    obtain ⟨w', stack', hs', hw, hrest⟩ := List.map_eq_cons_iff.mp hstack.symm
    simp only [TreeScheduler.next, hs, hs']
    exact h.record hw.symm hrest.symm

lemma card_inputsHeld (w : WorkItem) :
    (inputsHeld arity w).card = ((Finset.range arity).filter (w.inputs · ≠ 0)).card := by
  rw [inputsHeld, Multiset.filter_map, Multiset.card_map]
  rfl

/-- The number of buffers that are held does not depend on the buffers. -/
lemma Traversal.card_held (h : Traversal arity k done s) : (s.held arity).card =
    ((s.stack.map shape).map fun x => if x.2.2 then 0 else arity).sum +
      ((s.wip.map shape).map (·.2.1)).sum := by
  have hstack : ∀ w ∈ s.stack, (inputsHeld arity w).card = if w.isLeaf then 0 else arity := by
    intro w hw
    split_ifs with hleaf
    · rw [inputsHeld_eq_zero (h.inputs_leaf hw hleaf), Multiset.card_zero]
    · rw [inputsHeld_full (h.inputs_full hw hleaf), Multiset.coe_card, List.length_map, List.length_range]
  have hwip : ∀ w ∈ s.wip, (inputsHeld arity w).card = w.dependenciesReady := by
    intro w hw
    have hlayer : 1 < w.idx.1 := by
      rcases h.wipInTree w hw with htop | hin
      · rw [htop]
        exact Nat.le_add_left 2 k
      · exact hin.1
    rw [card_inputsHeld, (h.ready w hw).2]
    refine congrArg Finset.card (Finset.filter_congr ?_)
    intro i hi
    rw [h.inputs w (List.mem_append_right _ hw) i, if_pos ⟨hlayer, Finset.mem_range.mp hi⟩]
  rw [held, Multiset.card_bind, Multiset.map_coe, Multiset.sum_coe, List.map_append, List.sum_append,
    List.map_map, List.map_map]
  congr 2
  · exact List.map_congr_left hstack
  · exact List.map_congr_left hwip

end TreeScheduler

/-! ### The partitions -/

namespace TreeResource

open TreeScheduler

variable {arity k lg : ℕ} {items items' : List (WorkItem × WorkItem)}
  {resource resource' : TreeResource} {rest rest' : Multiset ℕ}

/-- The most buffers in use at a visit. -/
def visitPeak (arity : ℕ) (resource : TreeResource) : ℕ :=
  max ((resource.schedulerC.held arity).card + (resource.schedulerR.held arity).card + 1)
    (((resource.idle arity).schedulerC.held arity).card + (resource.schedulerR.held arity).card + 1)

lemma LockStep.idle_numBuffers (h : LockStep arity k rest items resource) (hlg : arity = 2 ^ lg)
    (harity : 1 < arity) (hs : resource.schedulerC.stack ≠ []) :
    (resource.idle arity).buffers.numBuffers =
      max resource.buffers.numBuffers (visitPeak arity resource + rest.card) := by
  obtain ⟨wc, stackC, hC⟩ := List.exists_cons_of_ne_nil hs
  have hshape := h.shape.stack
  rw [hC, List.map_cons] at hshape
  obtain ⟨wr, stackR, hR, -, -⟩ := List.map_eq_cons_iff.mp hshape.symm
  obtain ⟨bufC, bufs, hnextC, -, -, -, hownsC⟩ := h.c.next_spec hlg harity hC h.owns
  rw [add_left_comm] at hownsC
  have hnumC : bufs.numBuffers = _ :=
    (congrArg (·.2.2.2.numBuffers) hnextC).symm.trans ((next_numBuffers hC).trans h.owns.get_numBuffers)
  have hnumR : ((resource.schedulerR.next arity bufs).2.2.2).numBuffers = _ :=
    (next_numBuffers hR).trans hownsC.get_numBuffers
  have hidle : (resource.idle arity).buffers = (resource.schedulerR.next arity bufs).2.2.2 := by
    simp only [TreeResource.idle, hnextC]
  have hscheduler : (resource.idle arity).schedulerC =
      resource.schedulerC.record arity { wc with buf := bufC } stackC := by
    simp only [TreeResource.idle, hnextC]
  rw [hidle, hnumR, hnumC, visitPeak, hscheduler]
  simp only [Multiset.card_add]
  omega

/-- Two streams of the same shape. -/
def SameShapes (resource resource' : TreeResource) : Prop :=
  SameShape resource.schedulerC resource'.schedulerC ∧ SameShape resource.schedulerR resource'.schedulerR

lemma SameShapes.idle (h : SameShapes resource resource') :
    SameShapes (resource.idle arity) (resource'.idle arity) :=
  ⟨h.1.next, h.2.next⟩

lemma SameShapes.stack_eq_nil (h : SameShapes resource resource') :
    resource.schedulerC.stack = [] ↔ resource'.schedulerC.stack = [] := by
  rw [← List.map_eq_nil_iff (f := TreeScheduler.shape), h.1.stack, List.map_eq_nil_iff]

lemma visitPeak_eq (h : LockStep arity k rest items resource)
    (h' : LockStep arity k rest' items' resource') (hshape : SameShapes resource resource')
    (hlg : arity = 2 ^ lg) (harity : 1 < arity) (hs : resource.schedulerC.stack ≠ []) :
    visitPeak arity resource = visitPeak arity resource' := by
  obtain ⟨_, _, -, -, -, hidle⟩ := h.idle hlg harity hs
  obtain ⟨_, _, -, -, -, hidle'⟩ := h'.idle hlg harity (mt hshape.stack_eq_nil.mpr hs)
  have hnext : SameShapes (resource.idle arity) (resource'.idle arity) := hshape.idle
  rw [visitPeak, visitPeak, h.c.card_held, h.r.card_held, hidle.c.card_held, h'.c.card_held,
    h'.r.card_held, hidle'.c.card_held, hshape.1.stack, hshape.1.wip, hshape.2.stack, hshape.2.wip,
    hnext.1.stack, hnext.1.wip]

/-- Two partitions use the same number of buffers beside those that are lost. -/
lemma hashLoop_numBuffers {fuel : ℕ} (h : LockStep arity k rest items resource)
    (h' : LockStep arity k rest' items' resource') (hshape : SameShapes resource resource')
    (hlg : arity = 2 ^ lg) (harity : 1 < arity) (hs : resource.schedulerC.stack ≠ [])
    {out out' : List (WorkItem × WorkItem) × TreeResource}
    (hrun : hashLoop arity fuel resource = some out) (hrun' : hashLoop arity fuel resource' = some out') :
    ∃ peak, out.2.buffers.numBuffers = max resource.buffers.numBuffers (peak + rest.card) ∧
      out'.2.buffers.numBuffers = max resource'.buffers.numBuffers (peak + rest'.card) := by
  induction fuel generalizing items items' resource resource' out out' with
  | zero => cases hrun
  | succ fuel ih =>
    have hs' := mt hshape.stack_eq_nil.mpr hs
    have hpeak := visitPeak_eq h h' hshape hlg harity hs
    have hnum := h.idle_numBuffers hlg harity hs
    have hnum' := h'.idle_numBuffers hlg harity hs'
    rw [← hpeak] at hnum'
    obtain ⟨c, r, hworkC, hworkR, hlast, hidle⟩ := h.idle hlg harity hs
    obtain ⟨c', r', hworkC', hworkR', hlast', hidle'⟩ := h'.idle hlg harity hs'
    have hnext : SameShapes (resource.idle arity) (resource'.idle arity) := hshape.idle
    simp only [hashLoop, hworkC, hworkR, hworkC', hworkR', hlast, hlast', List.isEmpty_iff] at hrun hrun'
    by_cases hstack : (resource.idle arity).schedulerC.stack = []
    · rw [if_pos hstack, Option.some.injEq] at hrun
      rw [if_pos (hnext.stack_eq_nil.mp hstack), Option.some.injEq] at hrun'
      refine ⟨visitPeak arity resource, ?_, ?_⟩
      · rw [← hrun, ← hnum]
      · rw [← hrun', ← hnum']
    · rw [if_neg hstack, Option.map_eq_some_iff] at hrun
      rw [if_neg (mt hnext.stack_eq_nil.mpr hstack), Option.map_eq_some_iff] at hrun'
      obtain ⟨out₁, hout, rfl⟩ := hrun
      obtain ⟨out₁', hout', rfl⟩ := hrun'
      obtain ⟨peak, heq, heq'⟩ := ih hidle hidle' hnext hstack hout hout'
      refine ⟨max (visitPeak arity resource) peak, ?_, ?_⟩
      · show out₁.2.buffers.numBuffers = _
        rw [heq, hnum, max_assoc, Nat.add_max_add_right]
      · show out₁'.2.buffers.numBuffers = _
        rw [heq', hnum', max_assoc, Nat.add_max_add_right]

/-- The buffers that a partition makes, compared with the first one. -/
lemma hashGpu_numBuffers {fuel : ℕ} (hlg : arity = 2 ^ lg) (harity : 1 < arity)
    (howns : resource.buffers.Owns rest) {out first : List (WorkItem × WorkItem) × TreeResource}
    (hrun : hashGpu arity (arity ^ k) fuel resource = some out)
    (hfirst : hashGpu arity (arity ^ k) fuel (init (arity ^ k)) = some first) :
    out.2.buffers.numBuffers =
      max resource.buffers.numBuffers (first.2.buffers.numBuffers + rest.card) := by
  have howns₀ : (init (arity ^ k)).buffers.Owns 0 := Buffers.owns_init
  have hshape : SameShapes ((init (arity ^ k)).reset (arity ^ k)) (resource.reset (arity ^ k)) :=
    ⟨⟨rfl, rfl⟩, ⟨rfl, rfl⟩⟩
  obtain ⟨peak, hpeak, hout⟩ := hashLoop_numBuffers (lockStep_reset arity k howns₀)
    (lockStep_reset arity k howns) hshape hlg harity (reset_stack_ne_nil harity k) hfirst hrun
  have hfirst' : first.2.buffers.numBuffers = peak := by
    rw [hpeak, Multiset.card_zero, Nat.add_zero]
    exact max_eq_right (Nat.zero_le peak)
  rw [hout, hfirst']
  rfl

/-- A partition after the first one makes the two buffers again that the one before lost. -/
lemma hashPartitions_numBuffers {fuel : ℕ} (hlg : arity = 2 ^ lg) (harity : 1 < arity)
    (hfuel : (k + 1) * arity ^ k ≤ fuel) {first : List (WorkItem × WorkItem) × TreeResource}
    (hfirst : hashGpu arity (arity ^ k) fuel (init (arity ^ k)) = some first) (partitions : ℕ)
    (howns : resource.buffers.Owns rest)
    (hnum : resource.buffers.numBuffers ≤ first.2.buffers.numBuffers + rest.card)
    {out : List (List (WorkItem × WorkItem)) × TreeResource}
    (hrun : hashPartitions arity (arity ^ k) fuel (partitions + 1) resource = some out) :
    out.2.buffers.numBuffers = first.2.buffers.numBuffers + rest.card + 2 * partitions := by
  induction partitions generalizing resource rest out with
  | zero =>
    obtain ⟨items, resource₁, -, -, hgpu, -⟩ := hashGpu_spec hlg harity howns hfuel
    simp only [hashPartitions, hgpu, Option.bind_eq_bind, Option.bind_some, Option.some.injEq] at hrun
    rw [← hrun, Nat.mul_zero, Nat.add_zero]
    exact (hashGpu_numBuffers hlg harity howns hgpu hfirst).trans (max_eq_right hnum)
  | succ partitions ih =>
    obtain ⟨items, resource₁, c, r, hgpu, -, howns₁⟩ := hashGpu_spec hlg harity howns hfuel
    have hnum₁ := (hashGpu_numBuffers hlg harity howns hgpu hfirst).trans (max_eq_right hnum)
    rw [hashPartitions, hgpu, Option.bind_eq_bind, Option.bind_some] at hrun
    obtain ⟨out₁, hrun₁, hout⟩ := Option.bind_eq_some_iff.mp hrun
    obtain rfl := Option.some.inj hout
    have hcard : (c ::ₘ r ::ₘ rest).card = rest.card + 2 := by
      rw [Multiset.card_cons, Multiset.card_cons]
    show out₁.2.buffers.numBuffers = _
    rw [ih howns₁ (by rw [hcard]; exact hnum₁.trans_le (by omega)) hrun₁, hcard]
    omega

/-- After any number of partitions two buffers for each are in no pool. -/
lemma hashPartitions_lost {fuel : ℕ} (hlg : arity = 2 ^ lg) (harity : 1 < arity)
    (hfuel : (k + 1) * arity ^ k ≤ fuel) (partitions : ℕ) :
    ∃ runs resource, hashPartitions arity (arity ^ k) fuel (partitions + 1) (init (arity ^ k)) =
        some (runs, resource) ∧ ¬ (resource.reset (arity ^ k)).buffers.Conserved ∧
      (resource.reset (arity ^ k)).buffers.numBuffers =
        (resource.reset (arity ^ k)).buffers.buffers.length + 2 * (partitions + 1) := by
  have howns₀ : (init (arity ^ k)).buffers.Owns 0 := Buffers.owns_init
  obtain ⟨runs, resource, leaked, hrun, -, -, hcard, howns⟩ :=
    hashPartitions_spec hlg harity hfuel (partitions + 1) howns₀
  rw [add_zero] at howns
  refine ⟨runs, resource, hrun, howns.not_conserved ?_, ?_⟩
  · intro hzero
    rw [hzero, Multiset.card_zero] at hcard
    omega
  · rw [← hcard]
    exact howns.numBuffers_eq

/-- The partitions lose two buffers each, and each one after the first makes two new ones. The pool of
the last part of the tree loses the buffer of the root. -/
theorem buffers_lost (lg k : ℕ) (hlg : 1 ≤ lg) (fuel : ℕ) (hfuel : (k + 1) * (2 ^ lg) ^ k ≤ fuel) :
    (∃ first, ∀ partitions, ∃ runs resource,
      hashPartitions (2 ^ lg) ((2 ^ lg) ^ k) fuel (partitions + 1) (init ((2 ^ lg) ^ k)) =
        some (runs, resource) ∧ ¬ (resource.reset ((2 ^ lg) ^ k)).buffers.Conserved ∧
      (resource.reset ((2 ^ lg) ^ k)).buffers.numBuffers = first + 2 * partitions ∧
      (resource.reset ((2 ^ lg) ^ k)).buffers.numBuffers =
        (resource.reset ((2 ^ lg) ^ k)).buffers.buffers.length + 2 * (partitions + 1)) ∧
    ∃ items s bufs, runLoop (2 ^ lg) fuel (.reset ((2 ^ lg) ^ k)) .init = some (items, s, bufs) ∧
      ¬ bufs.Conserved := by
  have harity : 1 < 2 ^ lg := Nat.one_lt_two_pow (Nat.ne_of_gt hlg)
  have howns₀ : (init ((2 ^ lg) ^ k)).buffers.Owns 0 := Buffers.owns_init
  constructor
  · obtain ⟨items, first, -, -, hfirst, -⟩ := hashGpu_spec rfl harity howns₀ hfuel
    refine ⟨first.buffers.numBuffers, ?_⟩
    intro partitions
    obtain ⟨runs, resource, hrun, hconserved, hlost⟩ := hashPartitions_lost rfl harity hfuel partitions
    refine ⟨runs, resource, hrun, hconserved, ?_, hlost⟩
    exact hashPartitions_numBuffers rfl harity hfuel hfirst partitions howns₀ (Nat.zero_le _) hrun
  · obtain ⟨items, s, bufs, e, hrun, -, -, -, howns⟩ :=
      runLoop_reset rfl harity Buffers.owns_init hfuel
    exact ⟨items, s, bufs, hrun, howns.not_conserved Multiset.cons_ne_zero⟩

/-- A tree with eight leaves. -/
theorem buffers_lost_eight : ∃ items s bufs,
    runLoop (2 ^ 3) 16 (.reset ((2 ^ 3) ^ 1)) .init = some (items, s, bufs) ∧ ¬ bufs.Conserved :=
  (buffers_lost 3 1 (by decide) 16 (by decide)).2

/-- One partition with eight leaves. -/
theorem not_conserved_eight : ∃ runs resource,
    hashPartitions 8 (8 ^ 1) 16 1 (init (8 ^ 1)) = some (runs, resource) ∧
      ¬ (resource.reset (8 ^ 1)).buffers.Conserved := by
  have harity : 8 = 2 ^ 3 := rfl
  obtain ⟨runs, resource, hrun, hconserved, -⟩ :=
    hashPartitions_lost harity (by decide) (by decide : (1 + 1) * 8 ^ 1 ≤ 16) 0
  exact ⟨runs, resource, hrun, hconserved⟩

end TreeResource

end SupraSeal
