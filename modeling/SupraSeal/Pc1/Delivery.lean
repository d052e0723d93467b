import SupraSeal.Pc1.ReadAccounting

/-!
# Delivery of the reads and the writes

The part of the account of the reads that holds in every run: an entry that is held lacks no more
completions than there are reads of it queued or under way. So an entry never waits for a read that
nobody has issued. In the same way a page that was handed to the writer is complete or its write is
pending.
-/

namespace SupraSeal

open Orchestrator

/-- The reads that are pending complete every entry that is held. -/
structure DeliveryInv (o : Orchestrator) (inFlight : List (ℕ × ℕ)) : Prop where
  noWrite : ∀ slot j, (o.sys.parentBufferIo slot j).type ≠ .write
  enough : ∀ n, o.tailNodeParents ≤ n → n < o.parentIter.node →
    pageBatchSize ≤ o.sys.parentBuffer.valid (n % parentBufferBatches) +
      pendingReads o inFlight (n % parentBufferBatches)

namespace DeliveryInv

variable {P : Setup} {cn : ℕ → ℕ} {o o' : Orchestrator} {inFlight : List (ℕ × ℕ)}

lemma frame (hd : DeliveryInv o inFlight) (hio : o'.sys.parentBufferIo = o.sys.parentBufferIo)
    (hfifo : o'.sys.parentReadFifo = o.sys.parentReadFifo)
    (hvalid : o'.sys.parentBuffer.valid = o.sys.parentBuffer.valid)
    (htail : o.tailNodeParents ≤ o'.tailNodeParents) (hiter : o'.parentIter = o.parentIter) :
    DeliveryInv o' inFlight := by
  refine ⟨fun slot j => hio ▸ hd.noWrite slot j, fun n hn hn' => ?_⟩
  have henough := hd.enough n (htail.trans hn) (hiter ▸ hn')
  simpa only [pendingReads, SystemBuffers.readCount, hio, hfifo, hvalid] using henough

lemma reserveBatch (hc : CursorInv P cn o) (hd : DeliveryInv o inFlight) (hpc : o.pc = .read) :
    DeliveryInv { (Orchestrator.reserveBatch P (o.maxBatch P) o).2 with
      pc := .readNodes (Orchestrator.reserveBatch P (o.maxBatch P) o).1 0 } inFlight := by
  obtain ⟨-, hfree, -, -, -, -⟩ := maxBatch_spec P o
  have hpr := hc.parentRing
  rw [reserved_eq (by simp [hpc])] at hpr
  rw [hpr.freeCount_eq] at hfree
  refine ⟨hd.noWrite, fun n hn hn' => ?_⟩
  have hn' : n < o.parentIter.node := hn'
  have hlt := hpr.lt
  have hle := hpr.le
  show _ ≤ (o.sys.parentBuffer.reserveBatchNocheck (o.maxBatch P)).2.valid _ + _
  rw [hpr.reserveBatchNocheck_valid_old (by omega) hn hn'.le]
  exact hd.enough n hn hn'

/-- The entry of a node that is read is complete or has its missing reads queued. -/
lemma readNode (hc : CursorInv P cn o) (hd : DeliveryInv o inFlight) {rb : ReadBatch} {i : ℕ}
    (hpc : o.pc = .readNodes rb i) :
    DeliveryInv { Orchestrator.readNode P rb i o with pc := nextReadPc rb i } inFlight := by
  have hb := hc.batch rb i hpc
  rw [readNode_eq hc.iter]
  refine ⟨fun slot j => ?_, fun n hn hn' => ?_⟩
  · exact noWrite_afterNode (i := i) hd.noWrite slot j
  · have hn : o.tailNodeParents ≤ n := hn
    have hn' : n < o.parentIter.node + 1 := hn'
    show _ ≤ (afterNode P rb i o).sys.parentBuffer.valid _ +
      pendingReads (afterNode P rb i o) inFlight _
    rcases Nat.lt_succ_iff_lt_or_eq.mp hn' with hlt | rfl
    · have hne := hc.slot_ne hpc hn (hlt.le.trans (node_le_reserved o)) hlt.ne
      have hvalid : (afterNode P rb i o).sys.parentBuffer.valid (n % parentBufferBatches) =
          o.sys.parentBuffer.valid (n % parentBufferBatches) := Function.update_of_ne hne ..
      rw [pendingReads_afterNode_of_ne hne, hvalid]
      exact hd.enough n hn hlt
    · rw [← hb.slot, valid_afterNode]
      have hissued := readsIssued_le P rb o.parentIter.node
      by_cases h0 : o.parentIter.node = 0
      · have hzero : rb.readsIssued P o.parentIter.node = 0 := by
          rw [h0]
          rfl
        omega
      · have hcount : 1 ≤ (afterNode P rb i o).sys.parentReadFifo.count rb.parentBufferId := by
          show 1 ≤ (o.sys.parentReadFifo ++
            if o.parentIter.node = 0 then [] else [rb.parentBufferId]).count _
          rw [if_neg h0, List.count_append, List.count_singleton_self]
          exact Nat.le_add_left _ _
        have hread : rb.readsIssued P o.parentIter.node ≤
            (afterNode P rb i o).sys.readCount rb.parentBufferId := by
          rw [readCount_afterNode]
          exact Nat.le_add_left _ _
        have hmul := Nat.mul_le_mul hcount hread
        rw [pendingReads]
        omega

lemma step (hc : CursorInv P cn o) (hd : DeliveryInv o inFlight) (h : o.step P cn = some o') :
    DeliveryInv o' inFlight := by
  cases hpc : o.pc <;> simp only [Orchestrator.step, hpc] at h
  case read =>
    split_ifs at h <;> cases h
    · exact hd.reserveBatch hc hpc
    · exact hd.frame rfl rfl rfl le_rfl rfl
  case readNodes rb i =>
    cases h
    exact hd.readNode hc hpc
  case writeNodes r =>
    split_ifs at h <;> cases h
    · refine hd.frame ?_ ?_ ?_ le_rfl rfl <;> simp only [Orchestrator.writeNodes] <;>
        split_ifs <;> rfl
    · exact hd.frame rfl rfl rfl le_rfl rfl
  case releaseParents r =>
    split_ifs at h <;> cases h
    · exact hd.frame rfl rfl rfl (Nat.le_succ _) rfl
    · exact hd.frame rfl rfl rfl le_rfl rfl
  case finished => simp at h
  case exited => simp at h
  all_goals
    split_ifs at h <;> cases h <;> exact hd.frame rfl rfl rfl le_rfl rfl

end DeliveryInv

/-! ### Writes -/

/-- The writes that are pending complete every page handed to the writer. -/
def WriteDelivery (P : Setup) (o : Orchestrator) (inFlight : List (ℕ × ℕ)) : Prop :=
  ∀ m, Issued P o m → o.sys.nodeBuffer.valid (m % nodeBufferBatches) ≠ 0 ∨
    m % nodeBufferBatches ∈ pendingWrites o inFlight

namespace WriteDelivery

variable {P : Setup} {cn : ℕ → ℕ} {o o' : Orchestrator} {inFlight : List (ℕ × ℕ)}

lemma frame (hd : WriteDelivery P o inFlight) (htail : o'.tailNodeWrite = o.tailNodeWrite)
    (hhead : o'.headNodeWrite = o.headNodeWrite)
    (hvalid : o'.sys.nodeBuffer.valid = o.sys.nodeBuffer.valid)
    (hfifo : o'.sys.nodeWriteFifo = o.sys.nodeWriteFifo) : WriteDelivery P o' inFlight := by
  intro m hm
  rw [Issued, htail, hhead] at hm
  rw [hvalid, pendingWrites, hfifo]
  exact hd m hm

lemma reserveBatch (hc : CursorInv P cn o) (hd : WriteDelivery P o inFlight) (hpc : o.pc = .read) :
    WriteDelivery P { (Orchestrator.reserveBatch P (o.maxBatch P) o).2 with
      pc := .readNodes (Orchestrator.reserveBatch P (o.maxBatch P) o).1 0 } inFlight := by
  intro m hm
  have hm : Issued P o m := hm
  show (o.sys.nodeBuffer.reserveBatchNocheck (o.maxBatch P / P.C.nodesPerPage)).2.valid _ ≠ 0 ∨ _
  rw [WriteInv.reserveBatch_valid hc hpc hm]
  exact hd m hm

/-- The page that joins the issued ones joins the queue. -/
lemma writeNodes (hc : CursorInv P cn o) (hd : WriteDelivery P o inFlight) {r' : ℕ} :
    WriteDelivery P { o with
      sys := (Orchestrator.writeNodes P o).2
      headNodeWrite := o.headNodeWrite.addAssign (nodeBufferBatches * P.C.nodesPerPage)
        (Orchestrator.writeNodes P o).1
      outstandingWrites := o.outstandingWrites +
        (Orchestrator.writeNodes P o).1 / P.C.nodesPerPage
      pc := .writeNodes r' } inFlight := by
  rw [Orchestrator.writeNodes]
  split_ifs
  · exact hd
  · intro m hm
    show _ ∨ _ ∈ (o.sys.nodeWriteFifo ++ [_]) ++ _
    rw [List.append_assoc, List.singleton_append, List.mem_append, List.mem_cons]
    rcases (WriteInv.issued_succ hc).mp hm with hm | rfl
    · rcases hd m hm with hv | hp
      · exact .inl hv
      · rcases List.mem_append.mp hp with hp | hp
        · exact .inr (.inl hp)
        · exact .inr (.inr (.inr hp))
    · exact .inr (.inr (.inl (RingCounter.idx_eq hc.head_idx).symm))
  · exact hd

lemma step (hc : CursorInv P cn o) (hd : WriteDelivery P o inFlight)
    (h : o.step P cn = some o') : WriteDelivery P o' inFlight := by
  cases hpc : o.pc <;> simp only [Orchestrator.step, hpc] at h
  case read =>
    split_ifs at h <;> cases h
    · exact hd.reserveBatch hc hpc
    · exact hd.frame rfl rfl rfl rfl
  case readNodes rb i =>
    cases h
    rw [readNode_eq hc.iter]
    exact hd.frame rfl rfl rfl rfl
  case writeNodes r =>
    split_ifs at h <;> cases h
    · exact hd.writeNodes hc
    · exact hd.frame rfl rfl rfl rfl
  case advanceWritten r =>
    split_ifs at h <;> cases h
    · intro m hm
      refine hd m ⟨?_, hm.2⟩
      exact (Nat.div_le_div_right (Nat.le_add_right _ _)).trans hm.1
    · exact hd.frame rfl rfl rfl rfl
  case release r =>
    split_ifs at h <;> cases h
    · exact hd.frame rfl rfl rfl rfl
    · refine hd.frame rfl rfl ?_ rfl
      simp only [advanceTail]
      split_ifs <;> rfl
    · exact hd.frame rfl rfl rfl rfl
  case finished => simp at h
  case exited => simp at h
  all_goals
    split_ifs at h <;> cases h <;> exact hd.frame rfl rfl rfl rfl

end WriteDelivery

namespace Pc1

variable {P : Setup} {s s' : Pc1} {a : Action}

lemma writeDelivery_init : WriteDelivery P Pc1.init.orch Pc1.init.writesInFlight := by
  intro m hm
  have hlt : m < 0 / P.C.nodesPerPage := hm.2
  rw [Nat.zero_div] at hlt
  exact absurd hlt (Nat.not_lt_zero m)

lemma writeDelivery_step (hs : Inv P s) (hd : WriteDelivery P s.orch s.writesInFlight)
    (h : s.step P a = some s') : WriteDelivery P s'.orch s'.writesInFlight := by
  cases step_inv P h with
  | orchestrator ho => exact hd.step hs.cursor ho
  | coordinator => exact hd
  | hasher => exact hd
  | readComplete => exact hd.frame rfl rfl rfl rfl
  | readerDequeue => exact hd.frame rfl rfl rfl rfl
  | @writeComplete slot node hmem =>
    intro m hm
    show Function.update s.orch.sys.nodeBuffer.valid slot _ _ ≠ 0 ∨ _ ∈ s.orch.sys.nodeWriteFifo ++
      (s.writesInFlight.erase (slot, node)).map Prod.fst
    rw [Function.update_apply]
    split_ifs with heq
    · exact .inl (Nat.succ_ne_zero _)
    · refine (hd m hm).imp_right fun hp => ?_
      rcases List.mem_append.mp hp with hp | hp
      · exact List.mem_append_left _ hp
      · obtain ⟨w, hw, hweq⟩ := List.mem_map.mp hp
        refine List.mem_append_right _ (List.mem_map.mpr ⟨w, ?_, hweq⟩)
        refine (List.mem_erase_of_ne ?_).mpr hw
        rintro rfl
        exact heq hweq.symm
  | @writerDequeue slot fifo hfifo =>
    intro m hm
    refine (hd m hm).imp_right fun hp => ?_
    rw [pendingWrites, hfifo] at hp
    show _ ∈ fifo ++ (s.writesInFlight ++ [(slot, _)]).map Prod.fst
    rw [List.map_append, ← List.append_assoc]
    rw [List.cons_append, List.mem_cons] at hp
    rcases hp with rfl | hp
    · exact List.mem_append_right _ (List.mem_singleton_self _)
    · exact List.mem_append_left _ hp

lemma writeFifo_of_blocked (hdeq : s.step P .writerDequeue = none) :
    s.orch.sys.nodeWriteFifo = [] := by
  cases hf : s.orch.sys.nodeWriteFifo with
  | nil => rfl
  | cons slot fifo =>
    simp only [Pc1.step, hf] at hdeq
    cases hdeq

lemma readFifo_of_blocked (hdeq : s.step P .readerDequeue = none) :
    s.orch.sys.parentReadFifo = [] := by
  cases hf : s.orch.sys.parentReadFifo with
  | nil => rfl
  | cons slot fifo =>
    simp only [Pc1.step, hf] at hdeq
    cases hdeq

/-- When the writer has nothing to do, every page handed to it is complete. -/
lemma valid_of_blocked (hs : Inv P s) (hd : WriteDelivery P s.orch s.writesInFlight)
    (hdeq : s.step P .writerDequeue = none)
    (hcomp : ∀ slot node, s.step P (.writeComplete slot node) = none)
    (hne : s.orch.tailNodeWrite.abs ≠ s.orch.headNodeWrite.abs) :
    s.orch.sys.nodeBuffer.valid (s.orch.tailNodeWrite.idx P.C.nodesPerPage) ≠ 0 := by
  have hissued : Issued P s.orch (s.orch.tailNodeWrite.abs / P.C.nodesPerPage) :=
    ⟨le_rfl, Nat.div_lt_div_of_lt_of_dvd hs.cursor.head_dvd
      (lt_of_le_of_ne hs.cursor.write_le hne)⟩
  rw [RingCounter.idx_eq hs.cursor.tail_idx]
  refine (hd _ hissued).resolve_right fun hp => ?_
  rcases List.mem_append.mp hp with hp | hp
  · rw [writeFifo_of_blocked hdeq] at hp
    exact absurd hp List.not_mem_nil
  · obtain ⟨⟨slot, node⟩, hw, -⟩ := List.mem_map.mp hp
    have hnone := hcomp slot node
    simp only [Pc1.step, if_pos hw] at hnone
    cases hnone

lemma deliveryInv_init : DeliveryInv Pc1.init.orch Pc1.init.readsInFlight :=
  ⟨fun _ _ => by simp [Pc1.init, Orchestrator.init, SystemBuffers.init],
    fun n _ hn => absurd hn (Nat.not_lt_zero n)⟩

/-- Reads move from the queue into flight and from there into the counter of their entry. -/
lemma deliveryInv_step (hs : Inv P s) (hd : DeliveryInv s.orch s.readsInFlight)
    (h : s.step P a = some s') : DeliveryInv s'.orch s'.readsInFlight := by
  cases step_inv P h with
  | orchestrator ho => exact hd.step hs.cursor ho
  | coordinator => exact hd
  | hasher => exact hd
  | @readComplete slot j hmem =>
    refine ⟨hd.noWrite, fun n hn hn' => ?_⟩
    have henough := hd.enough n hn hn'
    rw [pendingReads_complete hmem] at henough
    show _ ≤ Function.update s.orch.sys.parentBuffer.valid slot _ (n % parentBufferBatches) +
      pendingReads s.orch (s.readsInFlight.erase (slot, j)) (n % parentBufferBatches)
    rw [Function.update_apply]
    split_ifs at henough ⊢ with heq
    · rw [heq] at henough ⊢
      omega
    · exact henough
  | writeComplete => exact hd.frame rfl rfl rfl le_rfl rfl
  | @readerDequeue slot fifo hfifo =>
    refine ⟨hd.noWrite, fun n hn hn' => ?_⟩
    rw [pendingReads_dequeue (hd.noWrite slot) hfifo]
    exact hd.enough n hn hn'
  | writerDequeue => exact hd.frame rfl rfl rfl le_rfl rfl

/-- When the reader has nothing to do, every entry that is held is complete. -/
lemma isValid_of_blocked (hs : Inv P s) (hd : DeliveryInv s.orch s.readsInFlight)
    (hdeq : s.step P .readerDequeue = none)
    (hcomp : ∀ slot j, s.step P (.readComplete slot j) = none) {n : ℕ}
    (hn : s.orch.tailNodeParents ≤ n) (hn' : n < s.orch.parentIter.node) :
    s.orch.sys.parentBuffer.isValid pageBatchSize (n % parentBufferBatches) = true := by
  have hfifo := readFifo_of_blocked hdeq
  -- a read under way is for the next entry to be reserved, which is another one
  have hflight : (s.readsInFlight.countP fun r => r.1 = n % parentBufferBatches) = 0 := by
    rw [List.countP_eq_zero]
    rintro ⟨slot, j⟩ hmem heq
    have hslot : slot = n % parentBufferBatches := of_decide_eq_true heq
    have hnone := hcomp slot j
    simp only [Pc1.step] at hnone
    split_ifs at hnone with hguard
    have hguard : unfilled s.orch slot = true := by
      by_contra hne
      exact hguard ⟨hmem, fun h => hne h.1⟩
    obtain ⟨m, hm, hmr, hmeq⟩ := (unfilled_iff hs.cursor).mp hguard
    have := hs.cursor.parentRing.slot_inj (hs.cursor.parents_le_node.trans hm) hmr hn
      (hn'.le.trans (node_le_reserved _)) (hmeq.symm.trans hslot)
    omega
  have henough := hd.enough n hn hn'
  rw [pendingReads, hfifo, hflight, List.count_nil, Nat.zero_mul, Nat.add_zero] at henough
  exact decide_eq_true henough

end Pc1

end SupraSeal
