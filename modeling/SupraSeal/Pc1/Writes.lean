import SupraSeal.Pc1.Cursors
import SupraSeal.Pc1.System

/-!
# Writes of node buffer pages

Pages are written in order but their writes complete in any order. The counter of a node buffer
slot tells whether the page in it is on disk: it is cleared when the slot is reserved and raised
when the write of its page completes. `WriteInv` states this for the pages between the written tail
and the reserved head, whose slots are pairwise different.
-/

namespace SupraSeal

open Orchestrator

/-- Slots of the pages that were handed to the writer and are not on disk yet. -/
def pendingWrites (o : Orchestrator) (inFlight : List (ℕ × ℕ)) : List ℕ :=
  o.sys.nodeWriteFifo ++ inFlight.map Prod.fst

/-- Page `m` was handed to the writer and the written tail has not passed it. -/
def Issued (P : Setup) (o : Orchestrator) (m : ℕ) : Prop :=
  o.tailNodeWrite.abs / P.C.nodesPerPage ≤ m ∧ m < o.headNodeWrite.abs / P.C.nodesPerPage

/-- The invariant of the node writer. -/
structure WriteInv (P : Setup) (o : Orchestrator) (inFlight : List (ℕ × ℕ))
    (written : ℕ → Bool) : Prop where
  done : ∀ m < o.tailNodeWrite.abs / P.C.nodesPerPage, written m = true
  valid_written : ∀ m, Issued P o m → o.sys.nodeBuffer.valid (m % nodeBufferBatches) ≠ 0 →
    written m = true
  valid_zero : ∀ m, o.headNodeWrite.abs / P.C.nodesPerPage ≤ m →
    m ≤ o.reserved / P.C.nodesPerPage → o.sys.nodeBuffer.valid (m % nodeBufferBatches) = 0
  io : ∀ m, Issued P o m → o.sys.nodeBufferIo (m % nodeBufferBatches) = m * P.C.nodesPerPage
  pending : ∀ slot ∈ pendingWrites o inFlight, o.sys.nodeBuffer.valid slot = 0 ∧
    ∃ m, Issued P o m ∧ slot = m % nodeBufferBatches
  flight : ∀ w ∈ inFlight, ∃ m, Issued P o m ∧ w = (m % nodeBufferBatches, m * P.C.nodesPerPage)
  nodup : (pendingWrites o inFlight).Nodup

namespace WriteInv

variable {P : Setup} {cn : ℕ → ℕ} {o o' : Orchestrator} {inFlight : List (ℕ × ℕ)}
  {written : ℕ → Bool}

/-- Issued pages and the pages up to the reserved head lie in different slots. -/
lemma slot_inj (hc : CursorInv P cn o) {m m' : ℕ} (hm : Issued P o m)
    (hm' : o.tailNodeWrite.abs / P.C.nodesPerPage ≤ m') (hr : m' ≤ o.reserved / P.C.nodesPerPage)
    (h : m % nodeBufferBatches = m' % nodeBufferBatches) : m = m' := by
  have htail : o.tailNode / P.C.nodesPerPage ≤ o.tailNodeWrite.abs / P.C.nodesPerPage :=
    Nat.div_le_div_right hc.tail_le
  have hhead : o.headNodeWrite.abs / P.C.nodesPerPage ≤ o.reserved / P.C.nodesPerPage :=
    Nat.div_le_div_right (hc.head_le_node.trans (node_le_reserved o))
  exact hc.nodeRing.slot_inj (htail.trans hm.1) (hm.2.le.trans hhead) (htail.trans hm') hr h

lemma issued_lt_reserved (hc : CursorInv P cn o) {m : ℕ} (hm : Issued P o m) :
    m ≤ o.reserved / P.C.nodesPerPage :=
  hm.2.le.trans (Nat.div_le_div_right (hc.head_le_node.trans (node_le_reserved o)))

/-- Reserving entries leaves the counters of the issued pages alone. -/
lemma reserveBatch_valid (hc : CursorInv P cn o) (hpc : o.pc = .read) {m : ℕ} (hm : Issued P o m) :
    (o.sys.nodeBuffer.reserveBatchNocheck (o.maxBatch P / P.C.nodesPerPage)).2.valid
      (m % nodeBufferBatches) = o.sys.nodeBuffer.valid (m % nodeBufferBatches) := by
  obtain ⟨-, -, hnode, -, -, -⟩ := maxBatch_spec P o
  have hr : o.reserved = o.parentIter.node := reserved_eq (by simp [hpc])
  have hnr := hc.nodeRing
  rw [hr] at hnr
  rw [hnr.freeCount_eq] at hnode
  have htail : o.tailNode / P.C.nodesPerPage ≤ m := (Nat.div_le_div_right hc.tail_le).trans hm.1
  have hhead : m ≤ o.parentIter.node / P.C.nodesPerPage := hr ▸ issued_lt_reserved hc hm
  have hlt := hnr.lt
  have hle := hnr.le
  exact hnr.reserveBatchNocheck_valid_old (by omega) htail hhead

/-- What is not read here may change. -/
lemma frame (hw : WriteInv P o inFlight written)
    (htail : o'.tailNodeWrite = o.tailNodeWrite) (hhead : o'.headNodeWrite = o.headNodeWrite)
    (hvalid : o'.sys.nodeBuffer.valid = o.sys.nodeBuffer.valid) (hr : o'.reserved = o.reserved)
    (hio : o'.sys.nodeBufferIo = o.sys.nodeBufferIo)
    (hfifo : o'.sys.nodeWriteFifo = o.sys.nodeWriteFifo) : WriteInv P o' inFlight written := by
  obtain ⟨h1, h2, h3, h4, h5, h6, h7⟩ := hw
  constructor <;>
    simp only [Issued, pendingWrites, htail, hhead, hvalid, hr, hio, hfifo] at * <;> assumption

/-- Reserving entries clears only counters of slots that hold no issued page. -/
lemma reserveBatch (hc : CursorInv P cn o) (hw : WriteInv P o inFlight written)
    (hpc : o.pc = .read) :
    WriteInv P { (Orchestrator.reserveBatch P (o.maxBatch P) o).2 with
      pc := .readNodes (Orchestrator.reserveBatch P (o.maxBatch P) o).1 0 } inFlight written := by
  obtain ⟨hdvd, -, hnode, -, -, -⟩ := maxBatch_spec P o
  generalize o.maxBatch P = m at *
  have hr : o.reserved = o.parentIter.node := reserved_eq (by simp [hpc])
  have hnr := hc.nodeRing
  have hzero := hw.valid_zero
  rw [hr] at hnr hzero
  rw [hnr.freeCount_eq] at hnode
  have hcap : o.parentIter.node / P.C.nodesPerPage + m / P.C.nodesPerPage <
      o.tailNode / P.C.nodesPerPage + nodeBufferBatches := by
    have := hnr.lt
    have := hnr.le
    omega
  have htail : o.tailNode / P.C.nodesPerPage ≤ o.tailNodeWrite.abs / P.C.nodesPerPage :=
    Nat.div_le_div_right hc.tail_le
  have hhead : o.headNodeWrite.abs / P.C.nodesPerPage ≤ o.parentIter.node / P.C.nodesPerPage :=
    Nat.div_le_div_right hc.head_le_node
  have hwrite : o.tailNodeWrite.abs / P.C.nodesPerPage ≤ o.headNodeWrite.abs / P.C.nodesPerPage :=
    Nat.div_le_div_right hc.write_le
  have hold : ∀ x, o.tailNode / P.C.nodesPerPage ≤ x → x ≤ o.parentIter.node / P.C.nodesPerPage →
      (o.sys.nodeBuffer.reserveBatchNocheck (m / P.C.nodesPerPage)).2.valid
        (x % nodeBufferBatches) = o.sys.nodeBuffer.valid (x % nodeBufferBatches) :=
    fun x h1 h2 => hnr.reserveBatchNocheck_valid_old hcap h1 h2
  refine ⟨hw.done, fun x hx hv => ?_, fun x hx hxr => ?_, hw.io, fun slot hslot => ?_, hw.flight,
    hw.nodup⟩
  · refine hw.valid_written x hx ?_
    rw [← hold x (htail.trans hx.1) (hx.2.le.trans hhead)]
    exact hv
  · have hx : o.headNodeWrite.abs / P.C.nodesPerPage ≤ x := hx
    have hxr : x ≤ (o.parentIter.node + m) / P.C.nodesPerPage := hxr
    rw [Nat.add_div_of_dvd_left hdvd] at hxr
    show (o.sys.nodeBuffer.reserveBatchNocheck (m / P.C.nodesPerPage)).2.valid _ = 0
    rcases Nat.lt_or_ge (o.parentIter.node / P.C.nodesPerPage) x with hlt | hge
    · exact hnr.reserveBatchNocheck_valid_new hlt hxr
    · rw [hold x (htail.trans (hwrite.trans hx)) hge]
      exact hzero x hx hge
  · obtain ⟨hv, x, hx, rfl⟩ := hw.pending slot hslot
    refine ⟨?_, x, hx, rfl⟩
    show (o.sys.nodeBuffer.reserveBatchNocheck (m / P.C.nodesPerPage)).2.valid _ = 0
    rw [hold x (htail.trans hx.1) (hx.2.le.trans hhead)]
    exact hv

/-- The page after the issued ones joins them. -/
lemma issued_succ (hc : CursorInv P cn o) {m : ℕ} :
    (o.tailNodeWrite.abs / P.C.nodesPerPage ≤ m ∧
      m < (o.headNodeWrite.abs + P.C.nodesPerPage) / P.C.nodesPerPage) ↔
      Issued P o m ∨ m = o.headNodeWrite.abs / P.C.nodesPerPage := by
  have hle : o.tailNodeWrite.abs / P.C.nodesPerPage ≤ o.headNodeWrite.abs / P.C.nodesPerPage :=
    Nat.div_le_div_right hc.write_le
  rw [Nat.add_div_right _ P.C.nodesPerPage_pos, Issued]
  omega

lemma writeNodes (hc : CursorInv P cn o) (hw : WriteInv P o inFlight written) {r r' : ℕ}
    (hpc : o.pc = .writeNodes r) :
    WriteInv P { o with
      sys := (Orchestrator.writeNodes P o).2
      headNodeWrite := o.headNodeWrite.addAssign (nodeBufferBatches * P.C.nodesPerPage)
        (Orchestrator.writeNodes P o).1
      outstandingWrites := o.outstandingWrites +
        (Orchestrator.writeNodes P o).1 / P.C.nodesPerPage
      pc := .writeNodes r' } inFlight written := by
  have hr : o.reserved = o.parentIter.node := reserved_eq (by simp [hpc])
  have hkeep : ∀ x y, WriteInv P { o with
      headNodeWrite := ⟨o.headNodeWrite.abs + 0, x⟩, outstandingWrites := y,
      pc := .writeNodes r' } inFlight written := by
    have hzero := hw.valid_zero
    rw [hr] at hzero
    exact fun x y => ⟨hw.done, hw.valid_written, hzero, hw.io, hw.pending, hw.flight, hw.nodup⟩
  have hpage := hc.head_le_node
  have hidx := RingCounter.idx_eq hc.head_idx
  rw [Orchestrator.writeNodes]
  split_ifs with hlt hfull
  · exact hkeep _ _
  · set p := o.headNodeWrite.abs / P.C.nodesPerPage with hp
    have hple : p ≤ o.reserved / P.C.nodesPerPage :=
      Nat.div_le_div_right (hpage.trans (node_le_reserved o))
    have htp : o.tailNodeWrite.abs / P.C.nodesPerPage ≤ p := Nat.div_le_div_right hc.write_le
    have hne : ∀ m, Issued P o m → m % nodeBufferBatches ≠ p % nodeBufferBatches := by
      intro m hm heq
      exact absurd (slot_inj hc hm htp hple heq) hm.2.ne
    have hzero := hw.valid_zero p le_rfl hple
    have hiss : ∀ m, (o.tailNodeWrite.abs / P.C.nodesPerPage ≤ m ∧
        m < (o.headNodeWrite.abs + P.C.nodesPerPage) / P.C.nodesPerPage) ↔
        Issued P o m ∨ m = p := fun m => issued_succ hc
    have hfresh : p % nodeBufferBatches ∉ pendingWrites o inFlight := by
      intro hmem
      obtain ⟨-, m, hm, heq⟩ := hw.pending _ hmem
      exact hne m hm heq.symm
    refine ⟨hw.done, fun m hm hv => ?_, fun m hm hmr => ?_, fun m hm => ?_, fun slot hslot => ?_,
      fun w hwf => ?_, ?_⟩
    · rcases (hiss m).mp hm with hm | rfl
      · exact hw.valid_written m hm hv
      · exact absurd hzero hv
    · have hm : (o.headNodeWrite.abs + P.C.nodesPerPage) / P.C.nodesPerPage ≤ m := hm
      rw [Nat.add_div_right _ P.C.nodesPerPage_pos] at hm
      have hmr : m ≤ o.parentIter.node / P.C.nodesPerPage := hmr
      exact hw.valid_zero m (by omega) (by rwa [hr])
    · show Function.update o.sys.nodeBufferIo (o.headNodeWrite.idx P.C.nodesPerPage)
        o.headNodeWrite.abs (m % nodeBufferBatches) = _
      rw [hidx]
      rcases (hiss m).mp hm with hm | rfl
      · rw [Function.update_of_ne (hne m hm)]
        exact hw.io m hm
      · rw [Function.update_self, Nat.div_mul_cancel hc.head_dvd]
    · have hslot : slot ∈ (o.sys.nodeWriteFifo ++ [o.headNodeWrite.idx P.C.nodesPerPage]) ++
        inFlight.map Prod.fst := hslot
      rw [hidx, List.append_assoc, List.singleton_append] at hslot
      rcases List.mem_append.mp hslot with hs | hs
      · obtain ⟨hv, m, hm, heq⟩ := hw.pending slot (List.mem_append_left _ hs)
        exact ⟨hv, m, (hiss m).mpr (.inl hm), heq⟩
      · rcases List.mem_cons.mp hs with rfl | hs
        · exact ⟨hzero, p, (hiss p).mpr (.inr rfl), rfl⟩
        · obtain ⟨hv, m, hm, heq⟩ := hw.pending slot (List.mem_append_right _ hs)
          exact ⟨hv, m, (hiss m).mpr (.inl hm), heq⟩
    · obtain ⟨m, hm, heq⟩ := hw.flight w hwf
      exact ⟨m, (hiss m).mpr (.inl hm), heq⟩
    · show ((o.sys.nodeWriteFifo ++ [o.headNodeWrite.idx P.C.nodesPerPage]) ++
        inFlight.map Prod.fst).Nodup
      rw [hidx, List.append_assoc, List.singleton_append]
      exact List.perm_middle.nodup_iff.mpr (List.nodup_cons.mpr ⟨hfresh, hw.nodup⟩)
  · exact hkeep _ _

/-- The written tail passes a page only when its write has completed. -/
lemma advanceWritten (hc : CursorInv P cn o) (hw : WriteInv P o inFlight written) {r r' : ℕ}
    (hpc : o.pc = .advanceWritten r)
    (hne : o.tailNodeWrite.idx P.C.nodesPerPage ≠ o.headNodeWrite.idx P.C.nodesPerPage)
    (hv : o.sys.nodeBuffer.valid (o.tailNodeWrite.idx P.C.nodesPerPage) ≠ 0) {writes : ℕ} :
    WriteInv P { o with
      outstandingWrites := writes
      tailNodeWrite := o.tailNodeWrite.addAssign (nodeBufferBatches * P.C.nodesPerPage)
        P.C.nodesPerPage
      pc := .advanceWritten r' } inFlight written := by
  have hr : o.reserved = o.parentIter.node := reserved_eq (by simp [hpc])
  have hlt : o.tailNodeWrite.abs / P.C.nodesPerPage < o.headNodeWrite.abs / P.C.nodesPerPage :=
    Nat.div_lt_div_of_lt_of_dvd hc.head_dvd
      (lt_of_le_of_ne hc.write_le (mt hc.idx_eq_iff.mpr hne))
  have hidx := RingCounter.idx_eq hc.tail_idx
  set p := o.tailNodeWrite.abs / P.C.nodesPerPage with hp
  have hpiss : Issued P o p := ⟨le_rfl, hlt⟩
  have hnext : (o.tailNodeWrite.abs + P.C.nodesPerPage) / P.C.nodesPerPage = p + 1 :=
    Nat.add_div_right _ P.C.nodesPerPage_pos
  rw [hidx] at hv
  have hiss : ∀ m, ((o.tailNodeWrite.abs + P.C.nodesPerPage) / P.C.nodesPerPage ≤ m ∧
      m < o.headNodeWrite.abs / P.C.nodesPerPage) → Issued P o m := by
    rintro m ⟨h1, h2⟩
    rw [hnext] at h1
    exact ⟨by omega, h2⟩
  -- a page that is still pending has a cleared counter, so it is not the one passed here
  have hrest : ∀ m, Issued P o m → o.sys.nodeBuffer.valid (m % nodeBufferBatches) = 0 →
      (o.tailNodeWrite.abs + P.C.nodesPerPage) / P.C.nodesPerPage ≤ m ∧
        m < o.headNodeWrite.abs / P.C.nodesPerPage := by
    rintro m ⟨h1, h2⟩ hz
    have hmp : m ≠ p := by
      rintro rfl
      exact hv hz
    rw [hnext]
    omega
  refine ⟨fun m hm => ?_, fun m hm => hw.valid_written m (hiss m hm), fun m hm hmr => ?_,
    fun m hm => hw.io m (hiss m hm), fun slot hslot => ?_, fun w hwf => ?_, hw.nodup⟩
  · have hm : m < (o.tailNodeWrite.abs + P.C.nodesPerPage) / P.C.nodesPerPage := hm
    rw [hnext] at hm
    rcases Nat.lt_succ_iff_lt_or_eq.mp hm with hm | rfl
    · exact hw.done m hm
    · exact hw.valid_written _ hpiss hv
  · exact hw.valid_zero m hm (by rw [hr]; exact hmr)
  · obtain ⟨hz, m, hm, rfl⟩ := hw.pending slot hslot
    exact ⟨hz, m, hrest m hm hz, rfl⟩
  · obtain ⟨m, hm, rfl⟩ := hw.flight w hwf
    have hmem : m % nodeBufferBatches ∈ pendingWrites o inFlight :=
      List.mem_append_right _ (List.mem_map.mpr ⟨_, hwf, rfl⟩)
    exact ⟨m, hrest m hm (hw.pending _ hmem).1, rfl⟩

/-- Every step of the orchestrator keeps the invariant of the writer. -/
lemma step (hc : CursorInv P cn o) (hw : WriteInv P o inFlight written)
    (h : o.step P cn = some o') : WriteInv P o' inFlight written := by
  cases hpc : o.pc <;> simp only [Orchestrator.step, hpc] at h
  case read =>
    split_ifs at h with hread <;> cases h
    · exact hw.reserveBatch hc hpc
    · exact hw.frame rfl rfl rfl (by simp [reserved, hpc, OrchPc.pending]) rfl rfl
  case readNodes rb i =>
    cases h
    exact hw.frame (by rw [readNode_eq hc.iter]; rfl) (by rw [readNode_eq hc.iter]; rfl)
      (by rw [readNode_eq hc.iter]; rfl) (hc.reserved_readNode hpc)
      (by rw [readNode_eq hc.iter]; rfl) (by rw [readNode_eq hc.iter]; rfl)
  case writeNodes r =>
    split_ifs at h with hlt <;> cases h
    · exact hw.writeNodes hc hpc
    · exact hw.frame rfl rfl rfl (by simp [reserved, hpc, OrchPc.pending]) rfl rfl
  case advanceWritten r =>
    split_ifs at h with hadv <;> cases h
    · exact hw.advanceWritten hc hpc hadv.2.1 hadv.2.2
    · exact hw.frame rfl rfl rfl (by simp [reserved, hpc, OrchPc.pending]) rfl rfl
  case release r =>
    split_ifs at h <;> cases h
    · exact hw.frame rfl rfl rfl (by simp [reserved, hpc, OrchPc.pending]) rfl rfl
    · refine hw.frame rfl rfl ?_ (by simp [reserved, hpc, OrchPc.pending, advanceTail]) rfl rfl
      simp only [advanceTail]
      split_ifs <;> rfl
    · exact hw.frame rfl rfl rfl (by simp [reserved, hpc, OrchPc.pending]) rfl rfl
  case finished => simp at h
  case exited => simp at h
  all_goals
    split_ifs at h <;> cases h <;>
      exact hw.frame rfl rfl rfl (by simp [reserved, hpc, OrchPc.pending, releaseParent]) rfl rfl

/-- The writer takes the next page and submits its write. -/
lemma dequeue (hw : WriteInv P o inFlight written) {slot : ℕ} {fifo : List ℕ}
    (hfifo : o.sys.nodeWriteFifo = slot :: fifo) :
    WriteInv P { o with sys := { o.sys with nodeWriteFifo := fifo } }
      (inFlight ++ [(slot, o.sys.nodeBufferIo slot)]) written := by
  have hperm : (fifo ++ (inFlight ++ [(slot, o.sys.nodeBufferIo slot)]).map Prod.fst).Perm
      (pendingWrites o inFlight) := by
    rw [pendingWrites, hfifo, List.map_append, ← List.append_assoc]
    exact List.perm_append_singleton _ _
  have hslot : slot ∈ pendingWrites o inFlight := by
    rw [pendingWrites, hfifo]
    exact List.mem_append_left _ (List.mem_cons_self ..)
  refine ⟨hw.done, hw.valid_written, hw.valid_zero, hw.io,
    fun x hx => hw.pending x (hperm.mem_iff.mp hx), fun w hwf => ?_, hperm.nodup_iff.mpr hw.nodup⟩
  rcases List.mem_append.mp hwf with hwf | hwf
  · exact hw.flight w hwf
  · obtain ⟨-, m, hm, rfl⟩ := hw.pending slot hslot
    rw [List.mem_singleton.mp hwf, hw.io m hm]
    exact ⟨m, hm, rfl⟩

/-- The completion of a write is seen in the counter of its own page only. -/
lemma complete (hc : CursorInv P cn o) (hw : WriteInv P o inFlight written) {slot node : ℕ}
    (hmem : (slot, node) ∈ inFlight) :
    WriteInv P { o with sys := { o.sys with nodeBuffer := o.sys.nodeBuffer.incrValid slot 1 } }
      (inFlight.erase (slot, node))
      (Function.update written (node / P.C.nodesPerPage) true) := by
  obtain ⟨m, hm, heq⟩ := hw.flight _ hmem
  obtain ⟨rfl, rfl⟩ := Prod.mk.injEq .. ▸ heq
  rw [Nat.mul_div_cancel _ P.C.nodesPerPage_pos]
  have hperm : (pendingWrites o inFlight).Perm (m % nodeBufferBatches ::
      pendingWrites o (inFlight.erase (m % nodeBufferBatches, m * P.C.nodesPerPage))) := by
    refine ((List.perm_cons_erase hmem).map Prod.fst).append_left _ |>.trans ?_
    exact List.perm_middle
  have hnodup := List.nodup_cons.mp (hperm.nodup_iff.mp hw.nodup)
  have hmono : ∀ x, written x = true → Function.update written m true x = true := by
    intro x hx
    rw [Function.update_apply]
    split_ifs
    · rfl
    · exact hx
  have hother : ∀ x, x ≠ m % nodeBufferBatches →
      (o.sys.nodeBuffer.incrValid (m % nodeBufferBatches) 1).valid x =
        o.sys.nodeBuffer.valid x := by
    intro x hx
    rw [RingBuffer.incrValid_valid, Function.update_of_ne hx]
  refine ⟨fun x hx => hmono x (hw.done x hx), fun x hx hv => ?_, fun x hx hxr => ?_, hw.io,
    fun x hx => ?_, fun w hwf => hw.flight w (List.mem_of_mem_erase hwf), hnodup.2⟩
  · by_cases hxm : x % nodeBufferBatches = m % nodeBufferBatches
    · rw [slot_inj hc hx hm.1 (issued_lt_reserved hc hm) hxm, Function.update_self]
    · refine hmono x (hw.valid_written x hx ?_)
      rw [← hother _ hxm]
      exact hv
  · have hxm : x % nodeBufferBatches ≠ m % nodeBufferBatches := by
      intro heq
      have := slot_inj hc hm (hm.1.trans (hm.2.le.trans hx)) hxr heq.symm
      exact absurd hm.2 (not_lt.mpr (this ▸ hx))
    show (o.sys.nodeBuffer.incrValid _ 1).valid _ = 0
    rw [hother _ hxm]
    exact hw.valid_zero x hx hxr
  · have hxm : x ≠ m % nodeBufferBatches := by
      rintro rfl
      exact hnodup.1 hx
    obtain ⟨hv, y, hy, rfl⟩ := hw.pending x (hperm.mem_iff.mpr (List.mem_cons_of_mem _ hx))
    refine ⟨?_, y, hy, rfl⟩
    show (o.sys.nodeBuffer.incrValid _ 1).valid _ = 0
    rw [hother _ hxm]
    exact hv

end WriteInv

end SupraSeal
