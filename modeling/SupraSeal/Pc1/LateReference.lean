import SupraSeal.Pc1.Deadlock

/-!
# A late reference

The counters of a sync batch are compared when the tail of the node buffer enters it. In the run
considered here the writes fall behind by the whole node buffer. When the first page is written and
released, the tail waits inside the sync batch for the second page to be written. Meanwhile the
page that became free is filled, by nodes whose parents lie in the second page and are not on disk
yet, so references to it are recorded. The coordinators have not reported these nodes when the
second page is written, and it is released all the same.
-/

namespace SupraSeal

open Orchestrator

/-- The sectors of `lateWriter`. The expander parents of the last 64 nodes of the second layer are
node 64 of the first. -/
def Setup.lateReference : Setup :=
  single Setup.lateWriter.C
    (ParentGraph.switch _ (2 ^ 24 - 64) 64 (by decide) (Nat.sub_le _ _)) rfl

namespace Orchestrator

variable {P : Setup} {cn : ℕ → ℕ} {o o' : Orchestrator} {written : ℕ → Bool}

/-! ### Steps of the orchestrator -/

/-- The tail advances by one node, when the release loop goes on. -/
lemma tailNode_of_step (hc : CursorInv P cn o) (h : o.step P cn = some o') :
    o'.tailNode = o.tailNode ∨ o.releases ∧ o'.tailNode = o.tailNode + 1 := by
  cases hpc : o.pc <;> simp only [Orchestrator.step, hpc] at h
  case readNodes rb i =>
    cases h
    rw [readNode_eq hc.iter]
    exact .inl rfl
  case release r =>
    split_ifs at h with hrel hchk <;> cases h
    · exact .inl rfl
    · exact .inr ⟨⟨r, hpc, hrel, hchk⟩, rfl⟩
    · exact .inl rfl
  case finished => simp at h
  case exited => simp at h
  all_goals
    split_ifs at h <;> cases h <;> exact .inl rfl

/-- Only `read_batch` records parents. -/
lemma parentPtrSyncs_of_step (hno : ∀ rb i, o.pc ≠ .readNodes rb i) (h : o.step P cn = some o') :
    o'.sys.parentPtrSyncs = o.sys.parentPtrSyncs := by
  cases hpc : o.pc <;> simp only [Orchestrator.step, hpc] at h
  case readNodes rb i => exact absurd hpc (hno rb i)
  case writeNodes r =>
    split_ifs at h <;> cases h
    · simp only [writeNodes]
      split_ifs <;> rfl
    · rfl
  case finished => simp at h
  case exited => simp at h
  all_goals
    split_ifs at h <;> cases h <;> rfl

/-! ### Pages that are on disk -/

/-- A page that was handed to the writer and is on disk is seen to be complete. -/
def SeenInv (P : Setup) (o : Orchestrator) (written : ℕ → Bool) : Prop :=
  ∀ m, Issued P o m → written m = true → o.sys.nodeBuffer.valid (m % nodeBufferBatches) ≠ 0

namespace SeenInv

lemma frame (hs : SeenInv P o written) (htail : o'.tailNodeWrite = o.tailNodeWrite)
    (hhead : o'.headNodeWrite = o.headNodeWrite)
    (hvalid : o'.sys.nodeBuffer.valid = o.sys.nodeBuffer.valid) : SeenInv P o' written := by
  intro m hm
  rw [Issued, htail, hhead] at hm
  rw [hvalid]
  exact hs m hm

lemma reserveBatch (hc : CursorInv P cn o) (hs : SeenInv P o written) (hpc : o.pc = .read) :
    SeenInv P { (Orchestrator.reserveBatch P (o.maxBatch P) o).2 with
      pc := .readNodes (Orchestrator.reserveBatch P (o.maxBatch P) o).1 0 } written := by
  intro m hm hw
  have hm : Issued P o m := hm
  show (o.sys.nodeBuffer.reserveBatchNocheck (o.maxBatch P / P.C.nodesPerPage)).2.valid _ ≠ 0
  rw [WriteInv.reserveBatch_valid hc hpc hm]
  exact hs m hm hw

lemma step (hc : CursorInv P cn o) (hs : SeenInv P o written)
    (hw : ∀ m, written m = true → m < o.headNodeWrite.abs / P.C.nodesPerPage)
    (h : o.step P cn = some o') : SeenInv P o' written := by
  cases hpc : o.pc <;> simp only [Orchestrator.step, hpc] at h
  case read =>
    split_ifs at h <;> cases h
    · exact hs.reserveBatch hc hpc
    · exact hs.frame rfl rfl rfl
  case readNodes rb i =>
    cases h
    rw [readNode_eq hc.iter]
    exact hs.frame rfl rfl rfl
  case writeNodes r =>
    split_ifs at h <;> cases h
    · -- a page that is handed to the writer now is not on disk
      intro m hm hwm
      have hissued : Issued P o m := ⟨hm.1, hw m hwm⟩
      have hvalid : (writeNodes P o).2.nodeBuffer.valid = o.sys.nodeBuffer.valid := by
        simp only [writeNodes]
        split_ifs <;> rfl
      show (writeNodes P o).2.nodeBuffer.valid _ ≠ 0
      rw [hvalid]
      exact hs m hissued hwm
    · exact hs.frame rfl rfl rfl
  case advanceWritten r =>
    split_ifs at h <;> cases h
    · intro m hm
      exact hs m ⟨(Nat.div_le_div_right (Nat.le_add_right _ _)).trans hm.1, hm.2⟩
    · exact hs.frame rfl rfl rfl
  case release r =>
    split_ifs at h <;> cases h
    · exact hs.frame rfl rfl rfl
    · refine hs.frame rfl rfl ?_
      simp only [advanceTail]
      split_ifs <;> rfl
    · exact hs.frame rfl rfl rfl
  case finished => simp at h
  case exited => simp at h
  all_goals
    split_ifs at h <;> cases h <;> exact hs.frame rfl rfl rfl

end SeenInv

end Orchestrator

namespace Pc1

variable {P : Setup} {s s' s₀ : Pc1} {a : Action} {p : ℕ}

lemma seenInv_step (hs : Inv P s) (hw : WrittenInv P s) (hseen : SeenInv P s.orch s.written)
    (h : s.step P a = some s') : SeenInv P s'.orch s'.written := by
  cases step_inv P h with
  | orchestrator ho => exact hseen.step hs.cursor hw ho
  | coordinator => exact hseen
  | hasher => exact hseen
  | readerDequeue => exact hseen.frame rfl rfl rfl
  | writerDequeue => exact hseen.frame rfl rfl rfl
  | readComplete => exact hseen.frame rfl rfl rfl
  | @writeComplete slot node hmem =>
    intro m hm hwm
    show Function.update s.orch.sys.nodeBuffer.valid slot _ _ ≠ 0
    rw [Function.update_apply]
    split_ifs with hslot
    · exact Nat.succ_ne_zero _
    · obtain ⟨m', -, heq⟩ := hs.write.flight _ hmem
      obtain ⟨rfl, rfl⟩ := Prod.mk.injEq .. ▸ heq
      have hne : m ≠ m' := by
        rintro rfl
        exact hslot rfl
      have hwm : Function.update s.written (m' * P.C.nodesPerPage / P.C.nodesPerPage) true m =
        true := hwm
      rw [Nat.mul_div_cancel _ P.C.nodesPerPage_pos, Function.update_of_ne hne] at hwm
      exact hseen m hm hwm

/-- What holds in every run and tells which pages are on disk. -/
structure DiskInv (P : Setup) (s : Pc1) : Prop where
  live : LiveInv P s
  handed : WrittenInv P s
  seen : SeenInv P s.orch s.written

lemma DiskInv.step (hs : DiskInv P s) (h : s.step P a = some s') : DiskInv P s' :=
  ⟨hs.live.step h, writtenInv_step hs.live.inv hs.handed h,
    seenInv_step hs.live.inv hs.handed hs.seen h⟩

/-- The actions of the orchestrator and of the disks that complete no request. -/
def Storage (a : Action) : Prop := a = .orchestrator ∨ a = .readerDequeue ∨ a = .writerDequeue

/-- A state after storage actions, compared to the state `s₀` before. -/
structure After (P : Setup) (s₀ s : Pc1) : Prop where
  inv : DiskInv P s
  coords : s.coords = s₀.coords
  written : s.written = s₀.written
  node : s₀.orch.parentIter.node ≤ s.orch.parentIter.node
  parents : s₀.orch.tailNodeParents ≤ s.orch.tailNodeParents
  head : s₀.orch.headNodeWrite.abs ≤ s.orch.headNodeWrite.abs
  tail : s₀.orch.tailNode ≤ s.orch.tailNode

lemma coords_of_storage (ha : Storage a) (h : s.step P a = some s') :
    s'.coords = s.coords ∧ s'.written = s.written := by
  rcases ha with rfl | rfl | rfl
  · cases step_inv P h
    exact ⟨rfl, rfl⟩
  · cases step_inv P h
    exact ⟨rfl, rfl⟩
  · cases step_inv P h
    exact ⟨rfl, rfl⟩

namespace After

lemma refl (hs : DiskInv P s) : After P s s := ⟨hs, rfl, rfl, le_rfl, le_rfl, le_rfl, le_rfl⟩

lemma step (hs : After P s₀ s) (ha : Storage a) (h : s.step P a = some s') : After P s₀ s' := by
  obtain ⟨hcoords, hwritten⟩ := coords_of_storage ha h
  have hc := hs.inv.live.inv.cursor
  have hinv := hs.inv.step h
  rcases step_orch P h with ⟨o, -, ho, rfl⟩ | ⟨-, pv, nv, rf, wf, heq⟩
  · refine ⟨hinv, hcoords.trans hs.coords, hwritten.trans hs.written,
      hs.node.trans (node_le_of_step hc ho), hs.parents.trans (tailNodeParents_le_of_step hc ho),
      hs.head.trans (headNodeWrite_le_of_step hc ho), hs.tail.trans ?_⟩
    rcases tailNode_of_step hc ho with heq | ⟨-, heq⟩
    · exact heq.ge
    · exact (Nat.le_succ _).trans heq.ge
  · refine ⟨hinv, hcoords.trans hs.coords, hwritten.trans hs.written, ?_, ?_, ?_, ?_⟩ <;> rw [heq]
    · exact hs.node
    · exact hs.parents
    · exact hs.head
    · exact hs.tail

lemma run (hs : After P s₀ s) (h : Transition.ReachableVia (fun _ a => Storage a) (Pc1.step P) s s') :
    After P s₀ s' :=
  h.invariant hs fun _ _ _ hs ha hstep => hs.step ha hstep

/-- The reported progress bounds what is released of the parents. -/
lemma parents_le (hs : After P s₀ s) {k : ℕ} (hk : k < P.numCoordinators) :
    s.orch.tailNodeParents ≤ (s₀.coords k).coordinatorNode := by
  rw [← hs.coords]
  exact hs.inv.live.inv.cursor.parents_le k hk

end After

/-! ### The run -/

lemma nodesPerPage_lateReference : Setup.lateReference.C.nodesPerPage = 64 := by
  rw [Config.nodesPerPage_eq]
  rfl

lemma nodeStop_lateReference : Setup.lateReference.nodeStop = 2 ^ 25 := by
  show 2 ^ 24 * 2 = _
  decide

/-- The tail is in the second page, and `fullNode`, which is not reported, refers to it. -/
structure LateInv (s : Pc1) : Prop where
  node : s.orch.parentIter.node = Setup.lateReference.nodeStop
  reported : (s.coords 0).coordinatorNode ≤ fullNode
  sync : s.orch.sys.parentPtrSyncs (fullNode % parentBufferBatches) 6 = .nodeBufferIdx 1
  head : 128 < s.orch.headNodeWrite.abs
  parents : 128 < s.orch.tailNodeParents
  tail : s.orch.tailNode / 64 = 1

namespace LateInv

lemma tail_slot (hl : LateInv s) (hs : Inv Setup.lateReference s) :
    s.orch.sys.nodeBuffer.tail = 1 := by
  rw [hs.cursor.nodeRing.tail, nodesPerPage_lateReference, hl.tail]
  decide

lemma referenced (hl : LateInv s) (hs : Inv Setup.lateReference s) : s.orch.Referenced 1 := by
  refine ⟨fullNode, 6, ?_, ?_, by decide, hl.sync⟩
  · exact (hs.cursor.parents_le 0 (numCoordinators_pos _)).trans hl.reported
  · rw [hl.node, nodeStop_lateReference]
    decide

/-- If releases respected the references, the tail would stay in the second page. -/
lemma step (hl : LateInv s) (hs : DiskInv Setup.lateReference s)
    (hsafe : ReleaseSafe Setup.lateReference s.orch) (ha : Storage a)
    (h : s.step Setup.lateReference a = some s') : LateInv s' := by
  have hafter := (After.refl hs).step ha h
  have hinv := hs.live.inv
  have hc := hinv.cursor
  have hnode : s'.orch.parentIter.node = Setup.lateReference.nodeStop :=
    le_antisymm ((node_le_reserved _).trans hafter.inv.live.stop) (hl.node ▸ hafter.node)
  have hcn : (s'.coords 0).coordinatorNode ≤ fullNode := by
    rw [hafter.coords]
    exact hl.reported
  rcases step_orch _ h with ⟨o, -, ho, rfl⟩ | ⟨-, pv, nv, rf, wf, heq⟩
  · refine ⟨hnode, hcn, ?_, hl.head.trans_le hafter.head, hl.parents.trans_le hafter.parents, ?_⟩
    · -- all nodes are read
      have hno : ∀ rb i, s.orch.pc ≠ .readNodes rb i := by
        intro rb i hpc
        have hlt := (hc.batch rb i hpc).lt
        have hstop := hs.live.stop
        rw [reserved, hl.node, hpc, OrchPc.pending] at hstop
        omega
      show o.sys.parentPtrSyncs _ _ = _
      rw [parentPtrSyncs_of_step hno ho]
      exact hl.sync
    · show o.tailNode / 64 = 1
      have htail := hl.tail
      rcases tailNode_of_step hc ho with heq | ⟨hrel, heq⟩
      · rw [heq]
        exact htail
      · rw [heq]
        have hlast : ¬s.orch.tailNode % 64 = 63 := by
          intro hlast
          refine hsafe.page hrel ?_ (hl.tail_slot hinv ▸ hl.referenced hinv)
          rw [Config.node_mod_nodesPerPage, nodesPerPage_lateReference]
          exact hlast
        omega
  · refine ⟨hnode, hcn, ?_, hl.head.trans_le hafter.head, hl.parents.trans_le hafter.parents, ?_⟩ <;>
      rw [heq]
    · exact hl.sync
    · exact hl.tail

end LateInv

end Pc1

end SupraSeal
