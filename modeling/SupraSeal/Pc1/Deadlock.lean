import SupraSeal.Pc1.Liveness

/-!
# A deadlock of PC1

A writer that falls behind by the whole node buffer stops PC1 for good. In the run considered here
no write completes until the node buffer is full. All parents are then taken from the node buffer,
also by a node near the head whose parent is in the first page. The node is among those that the
coordinators keep for a whole batch, and its reference holds up the tail of the node buffer: no page
is released any more, so no node is read, so the batch is never filled. That the writes complete
afterwards does not help.
-/

namespace SupraSeal

open Orchestrator

/-- Two sectors of 512MiB. The expander parents of the last 256 nodes of the second layer are node 0
of the first. -/
def Setup.lateWriter : Setup :=
  single ⟨24, 2, 1, Config.two_sectors_le, by decide⟩
    (ParentGraph.switch _ (2 ^ 24 - 256) 0 (by decide) (Nat.sub_le _ _)) rfl

/-- The first of the nodes with parent 0. -/
def lateNode : ℕ := 2 ^ 25 - 256

/-- Nodes read when the node buffer is full of the first pages. -/
def fullNode : ℕ := (nodeBufferBatches - 1) * 64

lemma nodesPerPage_lateWriter : Setup.lateWriter.C.nodesPerPage = 64 := by
  rw [Config.nodesPerPage_eq]
  rfl

namespace Orchestrator

variable {P : Setup} {cn : ℕ → ℕ} {o o' : Orchestrator}

/-- Every parent that was looked up was found in the node buffer. -/
def CachedInv (P : Setup) (o : Orchestrator) : Prop :=
  ∀ n, o.tailNodeParents ≤ n → n < o.parentIter.node → ∀ j,
    ReadBatch.firstParent P n < j → j < parentCount →
      o.sys.parentPtrSyncs (n % parentBufferBatches) j ≠ .notNodeBuffer

/-- Every parent from node `b` on that was looked up was found in the node buffer. -/
def CachedFrom (P : Setup) (b : ℕ) (o : Orchestrator) : Prop :=
  ∀ n, o.tailNodeParents ≤ n → n < o.parentIter.node → ∀ j,
    ReadBatch.firstParent P n < j → j < parentCount → b ≤ P.G.parentNode n j →
      o.sys.parentPtrSyncs (n % parentBufferBatches) j ≠ .notNodeBuffer

namespace CachedFrom

variable {b : ℕ}

lemma frame (hi : CachedFrom P b o) (htail : o.tailNodeParents ≤ o'.tailNodeParents)
    (hiter : o'.parentIter = o.parentIter)
    (hsyncs : o'.sys.parentPtrSyncs = o.sys.parentPtrSyncs) : CachedFrom P b o' := by
  intro n h1 h2
  rw [hsyncs]
  exact hi n (htail.trans h1) (hiter ▸ h2)

/-- While node `b` is not written, the parents from it on are in the node buffer. -/
lemma readNode (hc : CursorInv P cn o) (hi : CachedFrom P b o) (hw : o.tailNodeWrite.abs ≤ b)
    {rb : ReadBatch} {i : ℕ} (hpc : o.pc = .readNodes rb i) :
    CachedFrom P b (afterNode P rb i o) := by
  have hb := hc.batch rb i hpc
  have hmin : rb.cacheMinCacheableNode ≤ b := by
    rw [hb.cacheable]
    exact (min_le_right _ _).trans hw
  intro n h1 h2 j hfirst hj hle
  have h2 : n < o.parentIter.node + 1 := h2
  show fillEntries o.sys.parentPtrSyncs rb.parentBufferId 0 parentCount
    (rb.recordedSync P o.sys.nodeBuffer.tail o.parentIter.node) (n % parentBufferBatches) j ≠ _
  rcases Nat.lt_succ_iff_lt_or_eq.mp h2 with hlt | rfl
  · have hne := hc.slot_ne hpc h1 (hlt.le.trans (node_le_reserved o)) hlt.ne
    rw [fillEntries_of_ne hne]
    exact hi n h1 hlt j hfirst hj hle
  · have hcached : rb.cached P o.parentIter.node j = true := decide_eq_true (hmin.trans hle)
    rw [← hb.slot, fillEntries_apply (Nat.zero_le _) hj, ReadBatch.recordedSync,
      if_neg (not_le.mpr hfirst), ReadBatch.sync, if_pos hcached]
    split_ifs <;> simp

lemma step (hc : CursorInv P cn o) (hi : CachedFrom P b o) (hw : o.tailNodeWrite.abs ≤ b)
    (h : o.step P cn = some o') : CachedFrom P b o' := by
  cases hpc : o.pc <;> simp only [Orchestrator.step, hpc] at h
  case readNodes rb i =>
    cases h
    rw [readNode_eq hc.iter]
    exact (hi.readNode hc hw hpc).frame le_rfl rfl rfl
  case writeNodes r =>
    split_ifs at h <;> cases h
    · refine hi.frame le_rfl rfl ?_
      simp only [writeNodes]
      split_ifs <;> rfl
    · exact hi.frame le_rfl rfl rfl
  case releaseParents r =>
    split_ifs at h <;> cases h
    · exact hi.frame (Nat.le_succ _) rfl rfl
    · exact hi.frame le_rfl rfl rfl
  case finished => simp at h
  case exited => simp at h
  all_goals
    split_ifs at h <;> cases h <;> exact hi.frame le_rfl rfl rfl

end CachedFrom

lemma cachedInv_iff : CachedInv P o ↔ CachedFrom P 0 o :=
  ⟨fun h n h1 h2 j h3 h4 _ => h n h1 h2 j h3 h4,
    fun h n h1 h2 j h3 h4 => h n h1 h2 j h3 h4 (Nat.zero_le _)⟩

/-- The write head never moves back. -/
lemma headNodeWrite_le_of_step (hc : CursorInv P cn o) (h : o.step P cn = some o') :
    o.headNodeWrite.abs ≤ o'.headNodeWrite.abs := by
  cases hpc : o.pc <;> simp only [Orchestrator.step, hpc] at h
  case readNodes rb i =>
    cases h
    rw [readNode_eq hc.iter]
    exact le_rfl
  case writeNodes r =>
    split_ifs at h <;> cases h
    · exact Nat.le_add_right _ _
    · exact le_rfl
  case finished => simp at h
  case exited => simp at h
  all_goals
    split_ifs at h <;> cases h <;> exact le_rfl

end Orchestrator

namespace Pc1

variable {P : Setup} {s s' : Pc1} {a : Action}

/-- Only pages that were handed to the writer are on disk. -/
def WrittenInv (P : Setup) (s : Pc1) : Prop :=
  ∀ m, s.written m = true → m < s.orch.headNodeWrite.abs / P.C.nodesPerPage

lemma writtenInv_step (hs : Inv P s) (hw : WrittenInv P s) (h : s.step P a = some s') :
    WrittenInv P s' := by
  cases step_inv P h with
  | orchestrator ho =>
    exact fun m hm => (hw m hm).trans_le
      (Nat.div_le_div_right (headNodeWrite_le_of_step hs.cursor ho))
  | coordinator => exact hw
  | hasher => exact hw
  | readerDequeue => exact hw
  | writerDequeue => exact hw
  | readComplete => exact hw
  | @writeComplete slot node hmem =>
    intro m hm
    have hm : Function.update s.written (node / P.C.nodesPerPage) true m = true := hm
    rw [Function.update_apply] at hm
    split_ifs at hm with heq
    · obtain ⟨m', hissued, heq'⟩ := hs.write.flight _ hmem
      obtain ⟨-, rfl⟩ := Prod.mk.injEq .. ▸ heq'
      rw [heq, Nat.mul_div_cancel _ P.C.nodesPerPage_pos]
      exact hissued.2
    · exact hw m hm

/-- The state of a run in which no write has completed. -/
structure UnwrittenInv (P : Setup) (s : Pc1) : Prop where
  live : LiveInv P s
  written : s.written = fun _ => false
  cached : CachedInv P s.orch

lemma UnwrittenInv.tailNodeWrite (hu : UnwrittenInv P s) : s.orch.tailNodeWrite.abs = 0 := by
  have hpage : s.orch.tailNodeWrite.abs / P.C.nodesPerPage = 0 := by
    by_contra hne
    have hdone := hu.live.inv.write.done 0 (Nat.pos_of_ne_zero hne)
    rw [hu.written] at hdone
    cases hdone
  rw [← Nat.div_mul_cancel hu.live.inv.cursor.tail_dvd, hpage, Nat.zero_mul]

lemma UnwrittenInv.step (hu : UnwrittenInv P s) (ha : NotWritten a) (h : s.step P a = some s') :
    UnwrittenInv P s' := by
  have hw := hu.tailNodeWrite
  refine ⟨hu.live.step h, ?_, ?_⟩
  · cases step_inv P h with
    | orchestrator => exact hu.written
    | coordinator => exact hu.written
    | hasher => exact hu.written
    | readerDequeue => exact hu.written
    | writerDequeue => exact hu.written
    | readComplete => exact hu.written
    | @writeComplete slot node => exact absurd rfl (ha slot node)
  · have hcached := cachedInv_iff.mp hu.cached
    rw [cachedInv_iff]
    rcases step_orch P h with ⟨o, -, ho, rfl⟩ | ⟨-, pv, nv, rf, wf, heq⟩
    · exact hcached.step hu.live.inv.cursor hw.le ho
    · rw [heq]
      exact hcached.frame le_rfl rfl rfl

/-- The node buffer is full and the reference of `lateNode` to the first page is counted. -/
structure FullInv (s : Pc1) : Prop where
  live : LiveInv Setup.lateWriter s
  written : WrittenInv Setup.lateWriter s
  tail : s.orch.tailNode = 0
  node : s.orch.parentIter.node = fullNode
  lag : fullNode < s.orch.tailNodeParents + reportLag
  sync : s.orch.sys.parentPtrSyncs (lateNode % parentBufferBatches) 6 = .nodeBufferIdx 0

namespace FullInv

/-- `lateNode` is not reported, since its batch is not filled. -/
lemma parents_le {s : Pc1} (hl : LiveInv Setup.lateWriter s)
    (hnode : s.orch.parentIter.node = fullNode) : s.orch.tailNodeParents ≤ lateNode := by
  have hcn := hl.inv.cursor.cn_le 0 (numCoordinators_pos _)
  have hparents := hl.inv.cursor.parents_le 0 (numCoordinators_pos _)
  obtain ⟨b, hb⟩ := (hl.report 0 (numCoordinators_pos _)).dvd
  rw [hnode, hb] at hcn
  rw [hb] at hparents
  simp only [coordBatchSize, fullNode, lateNode, nodeBufferBatches, parentBufferBatches] at *
  omega

/-- The counters of the first sync batch differ. -/
lemma not_consumed (hf : FullInv s) :
    s.orch.entersSyncBatch = true ∧ ¬s.orch.syncBatchConsumed = true := by
  have htail : s.orch.sys.nodeBuffer.tail = 0 := by
    rw [hf.live.inv.cursor.nodeRing.tail, hf.tail, Nat.zero_div, Nat.zero_mod]
  refine ⟨(entersSyncBatch_iff _).mpr (by rw [htail, Nat.zero_mod]), fun hcons => ?_⟩
  have hmod := hf.live.count.consumed hcons
  have hne : s.orch.outstanding (nodeIdxToSyncIdx s.orch.sys.nodeBuffer.tail) ≠ 0 := by
    rw [htail]
    intro hzero
    refine outstanding_eq_zero_iff.mp hzero 0 rfl ⟨lateNode, 6, parents_le hf.live hf.node, ?_,
      by decide, hf.sync⟩
    rw [hf.node]
    decide
  have hlt : s.orch.outstanding (nodeIdxToSyncIdx s.orch.sys.nodeBuffer.tail) < 2 ^ 16 := by
    have hle : s.orch.outstanding (nodeIdxToSyncIdx s.orch.sys.nodeBuffer.tail) ≤
        (Finset.Ico s.orch.tailNodeParents s.orch.parentIter.node).card • parentPtrBatchSize := by
      refine Finset.sum_le_card_nsmul _ _ _ fun n _ => ?_
      rw [entryRefs]
      exact List.countP_le_length.trans (List.length_range).le
    rw [Nat.card_Ico, hf.node, nsmul_eq_mul, Nat.cast_id] at hle
    have hlag := hf.lag
    simp only [reportLag, coordBatchSize, Coordinator.nodeCountUpdateInterval, parentPtrBatchSize,
      parentCount, parentCountBase, parentCountExp] at *
    omega
  omega

/-- No entry is reserved beyond the full node buffer. -/
lemma reserved_eq_node (hf : FullInv s) : s.orch.reserved = s.orch.parentIter.node := by
  have hring := hf.live.inv.cursor.nodeRing.lt
  have hdvd := hf.live.inv.cursor.reserved_dvd
  have hle := node_le_reserved s.orch
  rw [nodesPerPage_lateWriter] at hring hdvd
  rw [hf.tail] at hring
  rw [hf.node] at hle ⊢
  simp only [fullNode, nodeBufferBatches, parentBufferBatches] at *
  omega

lemma maxBatch_eq_zero (hf : FullInv s) : s.orch.maxBatch Setup.lateWriter = 0 := by
  obtain ⟨hdvd, -, hpage, -, -, -⟩ := maxBatch_spec Setup.lateWriter s.orch
  have hring := hf.live.inv.cursor.nodeRing
  rw [hf.reserved_eq_node, hf.node, hf.tail, nodesPerPage_lateWriter] at hring
  rw [hring.freeCount_eq, nodesPerPage_lateWriter] at hpage
  rw [nodesPerPage_lateWriter] at hdvd
  simp only [fullNode, nodeBufferBatches, parentBufferBatches] at *
  omega

/-- No step frees a page or reads a node. -/
lemma step (hf : FullInv s) (h : s.step Setup.lateWriter a = some s') : FullInv s' := by
  have hlive := hf.live.step h
  have hwritten := writtenInv_step hf.live.inv hf.written h
  obtain ⟨-, -, htail, hnode, hlag, hsync⟩ := id hf
  rcases step_orch _ h with ⟨o, -, ho, rfl⟩ | ⟨-, pv, nv, rf, wf, heq⟩
  · suffices hstay : o.tailNode = s.orch.tailNode ∧ o.parentIter = s.orch.parentIter ∧
        s.orch.tailNodeParents ≤ o.tailNodeParents ∧
        o.sys.parentPtrSyncs = s.orch.sys.parentPtrSyncs by
      obtain ⟨h1, h2, h3, h4⟩ := hstay
      refine ⟨hlive, hwritten, h1.trans htail, (congrArg _ h2).trans hnode,
        hlag.trans_le (Nat.add_le_add_right h3 _), ?_⟩
      show o.sys.parentPtrSyncs _ _ = _
      rw [h4]
      exact hsync
    cases hpc : s.orch.pc <;> simp only [Orchestrator.step, hpc] at ho
    case read =>
      rw [if_neg fun hread => hread.2 hf.maxBatch_eq_zero] at ho
      cases ho
      exact ⟨rfl, rfl, le_rfl, rfl⟩
    case readNodes rb i =>
      have hb := hf.live.inv.cursor.batch rb i hpc
      have hr := hf.reserved_eq_node
      have hlt := hb.lt
      rw [reserved, hpc, OrchPc.pending] at hr
      omega
    case writeNodes r =>
      split_ifs at ho <;> cases ho
      · refine ⟨rfl, rfl, le_rfl, ?_⟩
        simp only [writeNodes]
        split_ifs <;> rfl
      · exact ⟨rfl, rfl, le_rfl, rfl⟩
    case releaseParents r =>
      split_ifs at ho <;> cases ho
      · exact ⟨rfl, rfl, Nat.le_succ _, rfl⟩
      · exact ⟨rfl, rfl, le_rfl, rfl⟩
    case release r =>
      rw [if_pos hf.not_consumed] at ho
      split_ifs at ho <;> cases ho <;> exact ⟨rfl, rfl, le_rfl, rfl⟩
    case finished => simp at ho
    case exited => simp at ho
    all_goals
      split_ifs at ho <;> cases ho <;> exact ⟨rfl, rfl, le_rfl, rfl⟩
  · refine ⟨hlive, hwritten, ?_, ?_, ?_, ?_⟩ <;> rw [heq]
    · exact htail
    · exact hnode
    · exact hlag
    · exact hsync

end FullInv

end Pc1

end SupraSeal
