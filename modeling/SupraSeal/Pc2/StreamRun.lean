import SupraSeal.Pc2.LockStep

/-!
# The runs of a stream

A scheduler gives out a complete traversal of its tree. For the two schedulers of a stream, no hash
writes a buffer with a result that a later hash reads, over any number of partitions.
-/

namespace SupraSeal

namespace TreeScheduler

variable {arity k lg : ℕ} {done stack : List WorkItem} {s : TreeScheduler} {w e : WorkItem}
  {bufs : Buffers} {rest : Multiset ℕ}

/-! ### One scheduler -/

/-- The items are the nodes of the tree, each once and after its children, with their outputs. -/
structure TraversalOf (arity k : ℕ) (items : List WorkItem) : Prop where
  nodup : (items.map WorkItem.idx).Nodup
  mem : ∀ idx, idx ∈ items.map WorkItem.idx ↔ InTree arity k idx
  isLeaf : ∀ w ∈ items, w.isLeaf = true ↔ w.idx.1 = 1
  children : ∀ pre w post, items = pre ++ w :: post → 1 < w.idx.1 → ∀ i < arity,
    ∃ e ∈ pre, e.idx = child arity w.idx i ∧ w.inputs i = e.buf

lemma Traversal.traversalOf (h : Traversal arity k done s) (harity : 1 < arity) (hs : s.stack = []) :
    TraversalOf arity k done := by
  have hnodup := h.nodup
  rw [hs, List.append_nil, List.map_append] at hnodup
  refine ⟨hnodup.of_append_left, ?_, ?_, ?_⟩
  · intro idx
    refine ⟨?_, h.mem_of_stack_nil harity hs⟩
    rintro hidx
    obtain ⟨w, hw, rfl⟩ := List.mem_map.mp hidx
    exact h.inTree w (List.mem_append_left _ hw)
  · intro w hw
    exact h.isLeaf w (List.mem_append_left _ hw)
  · intro pre w post hsplit hlayer i hi
    obtain ⟨hinputs, hfull⟩ := h.ordered pre w post hsplit
    obtain ⟨e, he, hidx⟩ := List.mem_map.mp (mem_of_outOf_ne_zero (hfull hlayer i hi))
    refine ⟨e, he, hidx, ?_⟩
    have hpre : (pre.map WorkItem.idx).Nodup := by
      have hdone := hnodup.of_append_left
      rw [hsplit, List.map_append] at hdone
      exact hdone.of_append_left
    rw [hinputs i, if_pos ⟨hlayer, hi⟩, ← hidx, outOf_of_mem hpre he]

/-- The rest of a run from any state of a traversal. -/
theorem Traversal.runLoop_spec {fuel : ℕ} (h : Traversal arity k done s) (hlg : arity = 2 ^ lg)
    (harity : 1 < arity) (hs : s.stack ≠ []) (howns : bufs.Owns (s.held arity + rest))
    (hfuel : (k + 1) * arity ^ k ≤ done.length + fuel) :
    ∃ items s' bufs', runLoop arity fuel s bufs = some (items, s', bufs') ∧
      Traversal arity k (done ++ items) s' ∧ s'.stack = [] ∧ bufs'.Owns (s'.held arity + rest) := by
  induction fuel generalizing done s bufs with
  | zero =>
    have hlen := (h.length_le harity).trans hfuel
    rw [List.length_append, Nat.add_zero] at hlen
    have hpos := List.length_pos_of_ne_nil hs
    omega
  | succ fuel ih =>
    obtain ⟨w, stack, hw⟩ := List.exists_cons_of_ne_nil hs
    obtain ⟨buf, bufs', hnext, -, -, htrav, howns'⟩ := h.next_spec hlg harity hw howns
    rw [runLoop, hnext]
    cases hstack : (s.record arity { w with buf := buf } stack).stack with
    | nil => exact ⟨_, _, _, rfl, htrav, hstack, howns'⟩
    | cons v stack' =>
      have hne : (s.record arity { w with buf := buf } stack).stack ≠ [] := by
        rw [hstack]
        exact List.cons_ne_nil _ _
      obtain ⟨items, s', bufs'', hrun, htrav', hs', howns''⟩ := ih htrav hne howns' (by
        rw [List.length_append, List.length_singleton]
        omega)
      rw [List.append_assoc] at htrav'
      refine ⟨_, s', bufs'', ?_, htrav', hs', howns''⟩
      simp only [List.isEmpty_cons, Bool.not_false, hrun]
      rfl

/-- At the end the scheduler holds the output of the root. -/
lemma Traversal.result_eq (h : Traversal arity k done s) (harity : 1 < arity) (hs : s.stack = []) :
    s.IsDone ∧ ∃ e ∈ done, e.idx = (k + 1, 0) ∧ s.result = e.buf ∧ s.held arity = {e.buf} := by
  obtain ⟨work, hwip, -, hinputs⟩ := h.wip_of_stack_nil harity hs
  obtain ⟨e, he, hidx⟩ := List.mem_map.mp (h.mem_of_stack_nil harity hs (Traversal.root_inTree arity k))
  have hnodup := h.nodup
  rw [hs, List.append_nil, List.map_append] at hnodup
  have hroot : outOf done (k + 1, 0) = e.buf := hidx ▸ outOf_of_mem hnodup.of_append_left he
  have hbuf := h.buf e he
  refine ⟨⟨work, hwip, ?_, ?_⟩, e, he, hidx, ?_, ?_⟩
  · rwa [hinputs, if_pos rfl, hroot]
  · rw [hinputs, if_neg Nat.one_ne_zero]
  · rw [result, hwip]
    show work.inputs 0 = e.buf
    rw [hinputs, if_pos rfl, hroot]
  · have hupdate : inputsHeld arity work = e.buf ::ₘ inputsHeld arity (.new (k + 2, 0) false) := by
      refine inputsHeld_update (Nat.zero_lt_of_lt harity) rfl hbuf ?_
      funext i
      rw [hinputs i, Function.update_apply, hroot]
      rfl
    rw [held, hs, hwip, List.nil_append, Multiset.coe_singleton, Multiset.singleton_bind, hupdate,
      inputsHeld_eq_zero (w := .new _ _) fun i => rfl]
    rfl

lemma reset_stack_ne_nil (harity : 1 < arity) (k : ℕ) : (reset (arity ^ k)).stack ≠ [] := by
  refine List.ne_nil_of_length_pos ?_
  show 0 < ((List.range (arity ^ k)).map _).length
  rw [List.length_map, List.length_range]
  exact Nat.pow_pos (Nat.zero_lt_of_lt harity)

/-- A run on a pool some of whose buffers are in use elsewhere. -/
lemma runLoop_reset {fuel : ℕ} (hlg : arity = 2 ^ lg) (harity : 1 < arity) (howns : bufs.Owns rest)
    (hfuel : (k + 1) * arity ^ k ≤ fuel) :
    ∃ items s bufs' e, runLoop arity fuel (.reset (arity ^ k)) bufs = some (items, s, bufs') ∧
      TraversalOf arity k items ∧ s.IsDone ∧ (e ∈ items ∧ e.idx = (k + 1, 0) ∧ s.result = e.buf) ∧
      bufs'.Owns (e.buf ::ₘ rest) := by
  have howns' : bufs.Owns ((reset (arity ^ k)).held arity + rest) := by
    rwa [held_reset, zero_add]
  have hfuel' : (k + 1) * arity ^ k ≤ ([] : List WorkItem).length + fuel := by
    rwa [List.length_nil, Nat.zero_add]
  obtain ⟨items, s, bufs', hrun, htrav, hnil, hown⟩ :=
    (traversal_reset arity k).runLoop_spec hlg harity (reset_stack_ne_nil harity k) howns' hfuel'
  rw [List.nil_append] at htrav
  obtain ⟨hdone, e, he, hidx, hresult, hheld⟩ := htrav.result_eq harity hnil
  rw [hheld, Multiset.singleton_add] at hown
  exact ⟨items, s, bufs', e, hrun, htrav.traversalOf harity hnil, hdone, ⟨he, hidx, hresult⟩, hown⟩

/-- An input of an item that was not given out is held. -/
lemma Traversal.inputs_mem_held (h : Traversal arity k done s) (hw : w ∈ s.stack ++ s.wip) {i : ℕ}
    (hi : w.inputs i ≠ 0) : w.inputs i ∈ s.held arity := by
  refine mem_held.mpr ⟨w, hw, mem_inputsHeld.mpr ⟨⟨i, ?_, rfl⟩, hi⟩⟩
  have hinputs := h.inputs w hw i
  by_contra hlt
  rw [if_neg fun hand => hlt hand.2] at hinputs
  exact hi hinputs

/-- The output of an item is held until the parent is given out. -/
lemma Traversal.buf_mem_held (h : Traversal arity k done s) (harity : 1 < arity) (he : e ∈ done)
    (hparent : TreeScheduler.parent arity e.idx ∉ done.map WorkItem.idx) : e.buf ∈ s.held arity := by
  obtain ⟨w, hw, hidx⟩ := h.parent e he
  rw [List.append_assoc, List.mem_append] at hw
  have hw' : w ∈ s.stack ++ s.wip := by
    refine hw.resolve_left ?_
    intro hmem
    exact hparent (hidx ▸ List.mem_map_of_mem hmem)
  have hlayer := (h.inTree e (List.mem_append_left _ he)).1
  have hnodup := h.nodup
  rw [List.append_assoc, List.map_append] at hnodup
  have hinput : w.inputs (e.idx.2 % arity) = e.buf := by
    rw [h.inputs w hw', hidx, child_parent, outOf_of_mem hnodup.of_append_left he, if_pos]
    exact ⟨Nat.lt_succ_of_le hlayer, Nat.mod_lt _ (Nat.zero_lt_of_lt harity)⟩
  rw [← hinput]
  refine h.inputs_mem_held hw' ?_
  rw [hinput]
  exact h.buf e he

end TreeScheduler

/-! ### Two schedulers -/

namespace TreeResource

open TreeScheduler

variable {arity k lg : ℕ} {items pre post : List (WorkItem × WorkItem)} {c r : WorkItem}
  {resource : TreeResource} {rest : Multiset ℕ}

/-- The buffers of the items `c` and `r`, which are hashed after those of `pre`. -/
structure Visit (arity : ℕ) (pre : List (WorkItem × WorkItem)) (c r : WorkItem) : Prop where
  idx : c.idx = r.idx
  isLeaf : c.isLeaf = r.isLeaf
  outC_inputsC : ∀ i, c.inputs i ≠ c.buf
  outC_inputsR : ∀ i, r.inputs i ≠ c.buf
  outR_inputsR : ∀ i, r.inputs i ≠ r.buf
  outC_outR : c.buf ≠ r.buf
  /-- A result of tree-c that no earlier hash has read. -/
  unreadC : ∀ e ∈ pre, parent arity e.1.idx ∉ pre.map (·.1.idx) →
    e.1.buf ≠ c.buf ∧ (parent arity e.1.idx ≠ c.idx → e.1.buf ≠ r.buf)
  unreadR : ∀ e ∈ pre, parent arity e.2.idx ∉ pre.map (·.2.idx) → e.2.buf ≠ c.buf ∧ e.2.buf ≠ r.buf

/-- The items were given out by the two schedulers. The buffers of `rest` are in neither of them. -/
structure LockStep (arity k : ℕ) (rest : Multiset ℕ) (items : List (WorkItem × WorkItem))
    (resource : TreeResource) : Prop where
  c : Traversal arity k (items.map Prod.fst) resource.schedulerC
  r : Traversal arity k (items.map Prod.snd) resource.schedulerR
  shape : SameShape resource.schedulerC resource.schedulerR
  owns : resource.buffers.Owns
    (resource.schedulerC.held arity + (resource.schedulerR.held arity + rest))
  visits : ∀ pre c r post, items = pre ++ (c, r) :: post → Visit arity pre c r

lemma lockStep_reset (arity k : ℕ) (howns : resource.buffers.Owns rest) :
    LockStep arity k rest [] (resource.reset (arity ^ k)) := by
  refine ⟨traversal_reset arity k, traversal_reset arity k, ⟨rfl, rfl⟩, ?_, ?_⟩
  · show resource.buffers.Owns ((TreeScheduler.reset _).held arity + ((TreeScheduler.reset _).held arity + _))
    rwa [held_reset, zero_add, zero_add]
  · intro pre c r post hsplit
    cases pre <;> cases hsplit

/-- The outputs of a visit are in no buffer that is held. The output of tree-c is held when the one
of tree-r is taken. -/
lemma LockStep.visit {wc wr : WorkItem} {stackC stackR : List WorkItem} {bufC bufR : ℕ}
    {schedulerC : TreeScheduler} (h : LockStep arity k rest items resource) (harity : 1 < arity)
    (hC : resource.schedulerC.stack = wc :: stackC) (hR : resource.schedulerR.stack = wr :: stackR)
    (hshape : TreeScheduler.shape wc = TreeScheduler.shape wr) (hneC : bufC ≠ 0) (hneR : bufR ≠ 0)
    (hfreshC : bufC ∉ resource.schedulerC.held arity + (resource.schedulerR.held arity + rest))
    (hfreshR : bufR ∉ resource.schedulerR.held arity + (schedulerC.held arity + rest))
    (htravC : Traversal arity k (items.map Prod.fst ++ [{ wc with buf := bufC }]) schedulerC) :
    Visit arity items { wc with buf := bufC } { wr with buf := bufR } := by
  simp only [Multiset.mem_add, not_or] at hfreshC hfreshR
  obtain ⟨hCC, hCR, -⟩ := hfreshC
  obtain ⟨hRR, hRC, -⟩ := hfreshR
  have hmemC : wc ∈ resource.schedulerC.stack ++ resource.schedulerC.wip :=
    List.mem_append_left _ (hC ▸ List.mem_cons_self ..)
  have hmemR : wr ∈ resource.schedulerR.stack ++ resource.schedulerR.wip :=
    List.mem_append_left _ (hR ▸ List.mem_cons_self ..)
  have hlastC : parent arity wc.idx ≠ wc.idx := by
    intro heq
    exact absurd (congrArg Prod.fst heq) (Nat.succ_ne_self _)
  refine ⟨congrArg Prod.fst hshape, congrArg (·.2.2) hshape, ?_, ?_, ?_, ?_, ?_, ?_⟩
  · intro i (heq : wc.inputs i = bufC)
    have hne : wc.inputs i ≠ 0 := fun h0 => hneC (heq.symm.trans h0)
    exact hCC (heq ▸ h.c.inputs_mem_held hmemC hne)
  · intro i (heq : wr.inputs i = bufC)
    have hne : wr.inputs i ≠ 0 := fun h0 => hneC (heq.symm.trans h0)
    exact hCR (heq ▸ h.r.inputs_mem_held hmemR hne)
  · intro i (heq : wr.inputs i = bufR)
    have hne : wr.inputs i ≠ 0 := fun h0 => hneR (heq.symm.trans h0)
    exact hRR (heq ▸ h.r.inputs_mem_held hmemR hne)
  · intro (heq : bufC = bufR)
    apply hRC
    rw [← heq]
    refine htravC.buf_mem_held (e := { wc with buf := bufC }) harity
      (List.mem_append_right _ (List.mem_singleton_self _)) ?_
    rw [List.map_append, List.mem_append, not_or]
    constructor
    · intro hmem
      obtain ⟨e, he, hidx⟩ := List.mem_map.mp hmem
      exact h.c.ne_parent harity hC (List.mem_append_left _ he) hidx
    · intro hmem
      exact hlastC (List.mem_singleton.mp hmem)
  · intro e he hparent
    have hmap : items.map (·.1.idx) = (items.map Prod.fst).map WorkItem.idx := (List.map_map ..).symm
    rw [hmap] at hparent
    have hmem := List.mem_map_of_mem (f := Prod.fst) he
    constructor
    · intro (heq : e.1.buf = bufC)
      exact hCC (heq ▸ h.c.buf_mem_held harity hmem hparent)
    · intro hne (heq : e.1.buf = bufR)
      apply hRC
      rw [← heq]
      refine htravC.buf_mem_held harity (List.mem_append_left _ hmem) ?_
      rw [List.map_append, List.mem_append, not_or]
      refine ⟨hparent, ?_⟩
      intro hsingle
      exact hne (List.mem_singleton.mp hsingle)
  · intro e he hparent
    have hmap : items.map (·.2.idx) = (items.map Prod.snd).map WorkItem.idx := (List.map_map ..).symm
    rw [hmap] at hparent
    have hheld := h.r.buf_mem_held harity (List.mem_map_of_mem (f := Prod.snd) he) hparent
    constructor
    · intro (heq : e.2.buf = bufC)
      exact hCR (heq ▸ hheld)
    · intro (heq : e.2.buf = bufR)
      exact hRR (heq ▸ hheld)

/-- A visit of the state `IDLE`. -/
theorem LockStep.idle (h : LockStep arity k rest items resource) (hlg : arity = 2 ^ lg)
    (harity : 1 < arity) (hs : resource.schedulerC.stack ≠ []) :
    ∃ c r, (resource.idle arity).workC = some c ∧ (resource.idle arity).workR = some r ∧
      (resource.idle arity).last = (resource.idle arity).schedulerC.stack.isEmpty ∧
      LockStep arity k rest (items ++ [(c, r)]) (resource.idle arity) := by
  obtain ⟨wc, stackC, hC⟩ := List.exists_cons_of_ne_nil hs
  have hshape := h.shape.stack
  rw [hC, List.map_cons] at hshape
  obtain ⟨wr, stackR, hR, hw, hstack⟩ := List.map_eq_cons_iff.mp hshape.symm
  obtain ⟨bufC, bufs, hnextC, hneC, hfreshC, htravC, hownsC⟩ := h.c.next_spec hlg harity hC h.owns
  rw [add_left_comm] at hownsC
  obtain ⟨bufR, bufs', hnextR, hneR, hfreshR, htravR, hownsR⟩ := h.r.next_spec hlg harity hR hownsC
  rw [add_left_comm] at hownsR
  have hidle : resource.idle arity = {
      buffers := bufs'
      schedulerC := resource.schedulerC.record arity { wc with buf := bufC } stackC
      schedulerR := resource.schedulerR.record arity { wr with buf := bufR } stackR
      workC := some { wc with buf := bufC }
      workR := some { wr with buf := bufR }
      last := (resource.schedulerC.record arity { wc with buf := bufC } stackC).stack.isEmpty } := by
    simp only [TreeResource.idle, hnextC, hnextR, Option.some_or, Bool.not_not]
  rw [hidle]
  refine ⟨_, _, rfl, rfl, rfl, ?_, ?_, ?_, hownsR, ?_⟩
  · rwa [List.map_append]
  · rwa [List.map_append]
  · exact h.shape.record hw.symm hstack.symm
  · intro pre c r post hsplit
    rcases List.eq_nil_or_concat post with rfl | ⟨post, u, rfl⟩
    · obtain ⟨rfl, hv⟩ := List.append_inj' hsplit rfl
      obtain ⟨rfl, rfl⟩ := Prod.mk.inj (List.cons.inj hv).1
      exact h.visit harity hC hR hw.symm hneC hneR hfreshC hfreshR htravC
    · rw [List.concat_eq_append, ← List.cons_append, ← List.append_assoc] at hsplit
      exact h.visits pre c r post (List.append_inj' hsplit rfl).1

/-- The rest of a partition from any state of it. -/
lemma LockStep.hashLoop_spec {fuel : ℕ} (h : LockStep arity k rest items resource)
    (hlg : arity = 2 ^ lg) (harity : 1 < arity) (hs : resource.schedulerC.stack ≠ [])
    (hfuel : (k + 1) * arity ^ k ≤ items.length + fuel) :
    ∃ items' resource', hashLoop arity fuel resource = some (items', resource') ∧
      resource'.schedulerC.stack = [] ∧ LockStep arity k rest (items ++ items') resource' := by
  induction fuel generalizing items resource with
  | zero =>
    have hlen := (h.c.length_le harity).trans hfuel
    rw [List.length_append, List.length_map, Nat.add_zero] at hlen
    have hpos := List.length_pos_of_ne_nil hs
    omega
  | succ fuel ih =>
    obtain ⟨c, r, hworkC, hworkR, hlast, hidle⟩ := h.idle hlg harity hs
    simp only [hashLoop, hworkC, hworkR]
    by_cases hstack : (resource.idle arity).schedulerC.stack = []
    · rw [hstack, List.isEmpty_nil] at hlast
      rw [if_pos hlast]
      exact ⟨_, _, rfl, hstack, hidle⟩
    · rw [if_neg (by rw [hlast, List.isEmpty_iff]; exact hstack)]
      obtain ⟨items', resource', hrun, hnil, hlock⟩ := ih hidle hstack (by
        rw [List.length_append, List.length_singleton]
        omega)
      rw [List.append_assoc] at hlock
      exact ⟨_, _, by rw [hrun]; rfl, hnil, hlock⟩

/-- A partition. -/
structure Partition (arity k : ℕ) (items : List (WorkItem × WorkItem)) : Prop where
  c : TraversalOf arity k (items.map Prod.fst)
  r : TraversalOf arity k (items.map Prod.snd)
  visits : ∀ pre c r post, items = pre ++ (c, r) :: post → Visit arity pre c r

/-- A partition leaves the two roots in the schedulers. -/
theorem hashGpu_spec {fuel : ℕ} (hlg : arity = 2 ^ lg) (harity : 1 < arity)
    (howns : resource.buffers.Owns rest) (hfuel : (k + 1) * arity ^ k ≤ fuel) :
    ∃ items resource' c r, hashGpu arity (arity ^ k) fuel resource = some (items, resource') ∧
      Partition arity k items ∧ resource'.buffers.Owns (c ::ₘ r ::ₘ rest) := by
  have hstack : (resource.reset (arity ^ k)).schedulerC.stack ≠ [] := reset_stack_ne_nil harity k
  have hfuel' : (k + 1) * arity ^ k ≤ ([] : List (WorkItem × WorkItem)).length + fuel := by
    rwa [List.length_nil, Nat.zero_add]
  obtain ⟨items, resource', hrun, hnil, hlock⟩ :=
    (lockStep_reset arity k howns).hashLoop_spec hlg harity hstack hfuel'
  rw [List.nil_append] at hlock
  have hnilR : resource'.schedulerR.stack = [] := by
    have hshape := hlock.shape.stack
    rw [hnil, List.map_nil] at hshape
    exact List.map_eq_nil_iff.mp hshape.symm
  obtain ⟨-, c, -, -, -, hheldC⟩ := hlock.c.result_eq harity hnil
  obtain ⟨-, r, -, -, -, hheldR⟩ := hlock.r.result_eq harity hnilR
  refine ⟨items, resource', c.buf, r.buf, hrun, ⟨hlock.c.traversalOf harity hnil,
    hlock.r.traversalOf harity hnilR, hlock.visits⟩, ?_⟩
  have hown := hlock.owns
  rwa [hheldC, hheldR, Multiset.singleton_add, Multiset.singleton_add] at hown

/-- Any number of partitions. -/
theorem hashPartitions_spec {fuel : ℕ} (hlg : arity = 2 ^ lg) (harity : 1 < arity)
    (hfuel : (k + 1) * arity ^ k ≤ fuel) (partitions : ℕ) (howns : resource.buffers.Owns rest) :
    ∃ runs resource' leaked, hashPartitions arity (arity ^ k) fuel partitions resource =
        some (runs, resource') ∧ runs.length = partitions ∧ (∀ items ∈ runs, Partition arity k items) ∧
      leaked.card = 2 * partitions ∧ resource'.buffers.Owns (leaked + rest) := by
  induction partitions generalizing resource rest with
  | zero => exact ⟨[], resource, 0, rfl, rfl, nofun, rfl, by rwa [zero_add]⟩
  | succ partitions ih =>
    obtain ⟨items, resource₁, c, r, hrun, hpart, howns₁⟩ := hashGpu_spec hlg harity howns hfuel
    obtain ⟨runs, resource₂, leaked, hruns, hlen, hparts, hcard, howns₂⟩ := ih howns₁
    refine ⟨items :: runs, resource₂, c ::ₘ r ::ₘ leaked, ?_, ?_, ?_, ?_, ?_⟩
    · simp only [hashPartitions, hrun, hruns, Option.bind_eq_bind, Option.bind_some]
    · rw [List.length_cons, hlen]
    · intro items' hmem
      rcases List.mem_cons.mp hmem with rfl | hmem
      · exact hpart
      · exact hparts items' hmem
    · rw [Multiset.card_cons, Multiset.card_cons, hcard, Nat.mul_succ]
    · rwa [Multiset.add_cons, Multiset.add_cons, ← Multiset.cons_add, Multiset.cons_add,
        ← Multiset.cons_add, ← Multiset.cons_add] at howns₂

/-! ### The order of the hashes -/

/-- The first hash reads the output of the second. -/
def Reads (arity : ℕ) (x e : Tree × WorkItem) : Prop :=
  x.1 = e.1 ∧ x.2.idx = parent arity e.2.idx

lemma hashes_cons (c r : WorkItem) (items : List (WorkItem × WorkItem)) :
    hashes ((c, r) :: items) = (.c, c) :: (.r, r) :: hashes items := rfl

lemma hashes_split {x : Tree × WorkItem} {before after : List (Tree × WorkItem)}
    (h : hashes items = before ++ x :: after) :
    ∃ pre c r post, items = pre ++ (c, r) :: post ∧
      (before = hashes pre ∧ x = (.c, c) ∨ before = hashes pre ++ [(.c, c)] ∧ x = (.r, r)) := by
  induction items generalizing before with
  | nil => cases before <;> cases h
  | cons p items ih =>
    obtain ⟨c, r⟩ := p
    rw [hashes_cons] at h
    match before, h with
    | [], h =>
      rw [List.nil_append, List.cons.injEq] at h
      exact ⟨[], c, r, items, rfl, .inl ⟨rfl, h.1.symm⟩⟩
    | [y], h =>
      rw [List.singleton_append, List.cons.injEq, List.cons.injEq] at h
      exact ⟨[], c, r, items, rfl, .inr ⟨by rw [← h.1]; rfl, h.2.1.symm⟩⟩
    | y :: z :: before, h =>
      rw [List.cons_append, List.cons_append, List.cons.injEq, List.cons.injEq] at h
      obtain ⟨hy, hz, htail⟩ := h
      obtain ⟨pre, c', r', post, hitems, hcase⟩ := ih htail
      refine ⟨(c, r) :: pre, c', r', post, by rw [hitems]; rfl, ?_⟩
      rw [← hy, ← hz, hashes_cons]
      rcases hcase with ⟨hbefore, hx⟩ | ⟨hbefore, hx⟩
      · exact .inl ⟨by rw [hbefore], hx⟩
      · exact .inr ⟨by rw [hbefore]; rfl, hx⟩

lemma mem_hashes_c (w : WorkItem) : (Tree.c, w) ∈ hashes items ↔ ∃ r, (w, r) ∈ items := by
  simp [hashes]

lemma mem_hashes_r (w : WorkItem) : (Tree.r, w) ∈ hashes items ↔ ∃ c, (c, w) ∈ items := by
  simp [hashes]

/-- No hash writes a buffer with a result that is read by a later hash, or by none so far. -/
theorem Partition.hashes_fresh (h : Partition arity k items) {x : Tree × WorkItem}
    {before after : List (Tree × WorkItem)} (hsplit : hashes items = before ++ x :: after)
    {e : Tree × WorkItem} (he : e ∈ before) (hunread : ∀ y ∈ before, ¬ Reads arity y e) :
    e.2.buf ≠ x.2.buf := by
  obtain ⟨pre, c, r, post, hitems, hcase⟩ := hashes_split hsplit
  have hvisit := h.visits pre c r post hitems
  -- the results of `pre` that are not read by `pre`
  have hC : ∀ w u, (w, u) ∈ pre → (∀ y ∈ hashes pre, ¬ Reads arity y (.c, w)) →
      parent arity w.idx ∉ pre.map (·.1.idx) := by
    intro w u hmem hpre hin
    obtain ⟨⟨w', u'⟩, hmem', hidx⟩ := List.mem_map.mp hin
    exact hpre (.c, w') ((mem_hashes_c w').mpr ⟨u', hmem'⟩) ⟨rfl, hidx⟩
  have hR : ∀ w u, (w, u) ∈ pre → (∀ y ∈ hashes pre, ¬ Reads arity y (.r, u)) →
      parent arity u.idx ∉ pre.map (·.2.idx) := by
    intro w u hmem hpre hin
    obtain ⟨⟨w', u'⟩, hmem', hidx⟩ := List.mem_map.mp hin
    exact hpre (.r, u') ((mem_hashes_r u').mpr ⟨w', hmem'⟩) ⟨rfl, hidx⟩
  obtain ⟨tree, w⟩ := e
  rcases hcase with ⟨rfl, rfl⟩ | ⟨rfl, rfl⟩
  · cases tree with
    | c =>
      obtain ⟨u, hmem⟩ := (mem_hashes_c w).mp he
      exact (hvisit.unreadC _ hmem (hC w u hmem hunread)).1
    | r =>
      obtain ⟨u, hmem⟩ := (mem_hashes_r w).mp he
      exact (hvisit.unreadR _ hmem (hR u w hmem hunread)).1
  · have hunread' := fun y hy => hunread y (List.mem_append_left _ hy)
    rcases List.mem_append.mp he with he | he
    · cases tree with
      | c =>
        obtain ⟨u, hmem⟩ := (mem_hashes_c w).mp he
        refine (hvisit.unreadC _ hmem (hC w u hmem hunread')).2 ?_
        -- the hash of tree-c of this visit is one of the earlier hashes
        intro heq
        exact hunread (.c, c) (List.mem_append_right _ (List.mem_singleton_self _)) ⟨rfl, heq.symm⟩
      | r =>
        obtain ⟨u, hmem⟩ := (mem_hashes_r w).mp he
        exact (hvisit.unreadR _ hmem (hR u w hmem hunread')).2
    · rw [List.mem_singleton.mp he]
      exact hvisit.outC_outR

/-- The items of a scheduler are the nodes of its tree in a good order, whatever buffers the pool has,
and the buffer that is returned is that of the root. With two schedulers on one pool, over any number
of partitions, no hash writes a buffer with a result that is still to be read: neither output of a
visit is an input of the visit but for the inputs of tree-c, which are read before the output of
tree-r is written. -/
theorem traversals_safe (lg k : ℕ) (hlg : 1 ≤ lg) (fuel : ℕ) (hfuel : (k + 1) * (2 ^ lg) ^ k ≤ fuel) :
    (∀ bufs held, Buffers.Owns bufs held → ∃ items s bufs',
      runLoop (2 ^ lg) fuel (.reset ((2 ^ lg) ^ k)) bufs = some (items, s, bufs') ∧
      TraversalOf (2 ^ lg) k items ∧ s.IsDone ∧
      ∃ e ∈ items, e.idx = (k + 1, 0) ∧ s.result = e.buf) ∧
    ∀ partitions, ∃ runs resource,
      hashPartitions (2 ^ lg) ((2 ^ lg) ^ k) fuel partitions (init ((2 ^ lg) ^ k)) =
        some (runs, resource) ∧ runs.length = partitions ∧
      ∀ items ∈ runs, Partition (2 ^ lg) k items ∧
        ∀ before x after, hashes items = before ++ x :: after →
          ∀ e ∈ before, (∀ y ∈ before, ¬ Reads (2 ^ lg) y e) → e.2.buf ≠ x.2.buf := by
  have harity : 1 < 2 ^ lg := Nat.one_lt_two_pow (Nat.ne_of_gt hlg)
  constructor
  · intro bufs held howns
    obtain ⟨items, s, bufs', e, hrun, htrav, hdone, hroot, -⟩ := runLoop_reset rfl harity howns hfuel
    exact ⟨items, s, bufs', hrun, htrav, hdone, e, hroot⟩
  · intro partitions
    have howns : (init ((2 ^ lg) ^ k)).buffers.Owns 0 := Buffers.owns_init
    obtain ⟨runs, resource, -, hrun, hlen, hparts, -⟩ :=
      hashPartitions_spec rfl harity hfuel partitions howns
    refine ⟨runs, resource, hrun, hlen, ?_⟩
    intro items hmem
    refine ⟨hparts items hmem, ?_⟩
    intro before x after hsplit e he hunread
    exact (hparts items hmem).hashes_fresh hsplit he hunread

/-- A tree with eight leaves. -/
theorem traversals_safe_eight : ∃ items s bufs',
    runLoop (2 ^ 3) 16 (.reset ((2 ^ 3) ^ 1)) Buffers.init = some (items, s, bufs') ∧
      TraversalOf (2 ^ 3) 1 items ∧ s.IsDone ∧ ∃ e ∈ items, e.idx = (1 + 1, 0) ∧ s.result = e.buf :=
  (traversals_safe 3 1 (by decide) 16 (by decide)).1 Buffers.init 0 Buffers.owns_init

end TreeResource

end SupraSeal
