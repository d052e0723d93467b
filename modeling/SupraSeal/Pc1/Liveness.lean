import SupraSeal.Pc1.Delivery
import SupraSeal.Pc1.Polling
import SupraSeal.Pc1.References
import SupraSeal.Pc1.Waiting

/-!
# Liveness of PC1

PC1 gets stuck when no thread can do any more work although nodes are left to be written. What the
threads wait for forms a cycle: the tail of the node buffer is released when the references to its
sync batch are consumed, these are consumed when the coordinators report the nodes that hold them,
a coordinator reports whole batches, batches are filled as nodes are read, and nodes are read when
pages of the node buffer are free.

`read_batch` means to keep the cycle open by a skid: a parent less than `PARENT_BUFFER_BATCHES` past
the tail is read from disk. A parent that is not written yet is taken from the node buffer all the
same. `can_proceed` shows that this is the only way to get stuck: a run never does as long as no
reference is counted to a parent so far behind that its page can be the tail of a full node buffer
while the node is not reported.
-/

namespace SupraSeal

open Orchestrator

/-- Nodes that may be read and not reported when the coordinators wait. -/
def reportLag : ℕ := coordBatchSize * (Coordinator.nodeCountUpdateInterval + 2)

/-- Parent `p` is near enough to node `n`: whenever the node buffer is full and `n` is among the
last `reportLag` nodes read, `p` lies past the sync batch of the tail. -/
def Near (P : Setup) (n p : ℕ) : Prop :=
  n + reportLag ≤ p + (nodeBufferBatches - 1 - nodeBufferSyncBatchSize) * P.C.nodesPerPage

namespace Orchestrator

variable {P : Setup} {cn : ℕ → ℕ} {o o' : Orchestrator}

/-- The parents for which the node that is read next counts a reference are near. -/
def ReadNear (P : Setup) (o : Orchestrator) (rb : ReadBatch) : Prop :=
  ∀ j, ReadBatch.firstParent P o.parentIter.node < j → j < parentCount →
    rb.cached P o.parentIter.node j = true →
    coordBatchNodeCount ≤ o.parentIter.node - P.G.parentNode o.parentIter.node j →
    Near P o.parentIter.node (P.G.parentNode o.parentIter.node j)

/-- The references of the parent buffer entries that are not released are near. -/
def NearInv (P : Setup) (o : Orchestrator) : Prop :=
  ∀ n, o.tailNodeParents ≤ n → n < o.parentIter.node → ∀ j < parentCount, ∀ e,
    o.sys.parentPtrSyncs (n % parentBufferBatches) j = .nodeBufferIdx e → Near P n (P.parentOf n j)

lemma NearInv.frame (hn : NearInv P o) (htail : o.tailNodeParents ≤ o'.tailNodeParents)
    (hiter : o'.parentIter = o.parentIter)
    (hsyncs : o'.sys.parentPtrSyncs = o.sys.parentPtrSyncs) : NearInv P o' := by
  intro n h1 h2
  rw [hsyncs]
  exact hn n (htail.trans h1) (hiter ▸ h2)

lemma NearInv.readNode (hc : CursorInv P cn o) (hn : NearInv P o) {rb : ReadBatch} {i : ℕ}
    (hpc : o.pc = .readNodes rb i) (hok : ReadNear P o rb) : NearInv P (afterNode P rb i o) := by
  have hb := hc.batch rb i hpc
  intro n h1 h2 j hj e he
  have h2 : n < o.parentIter.node + 1 := h2
  have he : fillEntries o.sys.parentPtrSyncs rb.parentBufferId 0 parentCount
    (rb.recordedSync P o.sys.nodeBuffer.tail o.parentIter.node) (n % parentBufferBatches) j =
      .nodeBufferIdx e := he
  rcases Nat.lt_succ_iff_lt_or_eq.mp h2 with hlt | rfl
  · have hne := hc.slot_ne hpc h1 (hlt.le.trans (node_le_reserved o)) hlt.ne
    rw [fillEntries_of_ne hne] at he
    exact hn n h1 hlt j hj e he
  · rw [← hb.slot, fillEntries_apply (Nat.zero_le _) hj] at he
    obtain ⟨hfirst, hcache, hfar, -⟩ := recordedSync_nodeBufferIdx he
    rw [Setup.parentOf, if_neg (by omega)]
    exact hok j hfirst hj hcache hfar

lemma NearInv.step (hc : CursorInv P cn o) (hn : NearInv P o)
    (hok : ∀ rb i, o.pc = .readNodes rb i → ReadNear P o rb) (h : o.step P cn = some o') :
    NearInv P o' := by
  cases hpc : o.pc <;> simp only [Orchestrator.step, hpc] at h
  case readNodes rb i =>
    cases h
    rw [readNode_eq hc.iter]
    exact (hn.readNode hc hpc (hok rb i hpc)).frame le_rfl rfl rfl
  case writeNodes r =>
    split_ifs at h <;> cases h
    · refine hn.frame le_rfl rfl ?_
      simp only [writeNodes]
      split_ifs <;> rfl
    · exact hn.frame le_rfl rfl rfl
  case releaseParents r =>
    split_ifs at h <;> cases h
    · exact hn.frame (Nat.le_succ _) rfl rfl
    · exact hn.frame le_rfl rfl rfl
  case finished => simp at h
  case exited => simp at h
  all_goals
    split_ifs at h <;> cases h <;> exact hn.frame le_rfl rfl rfl

/-- The loop ends only when everything is written. -/
def OverInv (P : Setup) (o : Orchestrator) : Prop :=
  o.pc ≠ .exited ∧ (o.pc = .finished → P.nodeStop ≤ o.tailNodeWrite.abs)

lemma OverInv.step (hc : CursorInv P cn o) (h : o.step P cn = some o') : OverInv P o' := by
  cases hpc : o.pc <;> simp only [Orchestrator.step, hpc] at h
  case top =>
    split_ifs at h with hmore <;> cases h
    · exact ⟨by simp, by simp⟩
    · exact ⟨by simp, fun _ => not_lt.mp fun hlt => hmore (.inr (.inl hlt))⟩
  case readNodes rb i =>
    cases h
    simp only [OverInv, nextReadPc]
    split_ifs <;> simp
  case finish =>
    -- the node buffer holds less than `NODE_BUFFER_BATCHES` pages
    have hnr := hc.nodeRing.lt
    have hrd := hc.reserved_dvd
    rw [reserved_eq (by simp [hpc])] at hnr hrd
    have hlt : o.parentIter.node - o.tailNode < nodeBufferBatches * P.C.nodesPerPage := by
      have hmul := Nat.mul_le_mul_right P.C.nodesPerPage (Nat.succ_le_of_lt hnr)
      rw [Nat.succ_mul, Nat.div_mul_cancel hrd, Nat.add_mul] at hmul
      have htail := Nat.div_mul_le_self o.tailNode P.C.nodesPerPage
      have hpos := P.C.nodesPerPage_pos
      have hsize : 0 < nodeBufferBatches * P.C.nodesPerPage := Nat.mul_pos (by decide) hpos
      omega
    rw [if_neg (not_le.mpr hlt)] at h
    cases h
    exact ⟨by simp, by simp⟩
  case finished => simp at h
  case exited => simp at h
  all_goals
    split_ifs at h <;> cases h <;> exact ⟨by simp, by simp⟩

end Orchestrator

namespace Pc1

variable {P : Setup} {s s' : Pc1} {a : Action} {A : Action → Prop}

/-! ### Work -/

/-- All nodes are on disk. -/
def AllWritten (P : Setup) (s : Pc1) : Prop :=
  ∀ n < P.nodeStop, s.written (n / P.C.nodesPerPage) = true

/-- The steps that count references only to near parents. -/
def ReadsNear (P : Setup) (s : Pc1) : Action → Prop
  | .orchestrator => ∀ rb i, s.orch.pc = .readNodes rb i → ReadNear P s.orch rb
  | _ => True

/-- What holds in every run and is needed to find a step: no wait is for something that nobody
does. -/
structure LiveInv (P : Setup) (s : Pc1) : Prop where
  inv : Inv P s
  stop : s.orch.reserved ≤ P.nodeStop
  reads : DeliveryInv s.orch s.readsInFlight
  writes : WriteDelivery P s.orch s.writesInFlight
  wait : ∀ k < P.numCoordinators, (s.coords k).WaitInv (P.numHashers k) P.nodeStop
  report : ∀ k < P.numCoordinators, (s.coords k).ReportInv P.nodeStop
  count : CountInv s.orch
  exited : OverInv P s.orch

lemma LiveInv.init : LiveInv P init where
  inv := init_inv P
  stop := Nat.zero_le _
  reads := deliveryInv_init
  writes := writeDelivery_init
  wait _ _ := by
    refine ⟨fun b _ hb => absurd hb ?_, ?_, ?_, ?_⟩ <;>
      simp [Pc1.init, Coordinator.init, Coordinator.opened, Coordinator.batches]
  report _ _ := by
    refine ⟨dvd_zero _, ?_, Nat.zero_le _, ?_⟩ <;> simp [Pc1.init, Coordinator.init]
  count := refInv_init.countInv
  exited := ⟨by simp [Pc1.init, Orchestrator.init], by simp [Pc1.init, Orchestrator.init]⟩

/-- A property of all coordinators when one of them is replaced. -/
lemma forall_update {p : ℕ → Coordinator → Prop} {coords : ℕ → Coordinator} {k : ℕ}
    {c : Coordinator} (hc : p k c) (hall : ∀ k' < P.numCoordinators, p k' (coords k')) :
    ∀ k' < P.numCoordinators, p k' (Function.update coords k c k') := by
  intro k' hk'
  by_cases heq : k' = k
  · subst heq
    rwa [Function.update_self]
  · rw [Function.update_of_ne heq]
    exact hall k' hk'

lemma LiveInv.step (hl : LiveInv P s) (h : s.step P a = some s') : LiveInv P s' := by
  obtain ⟨hs, hstop, hreads, hwrites, hwait, hreport, hcount, hover⟩ := hl
  have hover' : OverInv P s'.orch := by
    rcases step_orch P h with ⟨o, -, ho, rfl⟩ | ⟨-, pv, nv, rf, wf, heq⟩
    · exact OverInv.step hs.cursor ho
    · rw [heq]
      exact hover
  have hthreads : (∀ k < P.numCoordinators, (s'.coords k).WaitInv (P.numHashers k) P.nodeStop) ∧
      ∀ k < P.numCoordinators, (s'.coords k).ReportInv P.nodeStop := by
    cases step_inv P h with
    | @coordinator k c hk hc =>
      have hrun := (hs.coord k hk).run
      exact ⟨forall_update (p := fun k c => c.WaitInv (P.numHashers k) P.nodeStop)
          ((hwait k hk).step hrun hc) hwait,
        forall_update (p := fun _ c => c.ReportInv P.nodeStop)
          ((hreport k hk).step hrun hc) hreport⟩
    | @hasher k t c hk ht hc =>
      exact ⟨forall_update (p := fun k c => c.WaitInv (P.numHashers k) P.nodeStop)
          ((hwait k hk).hasherStep ht hc) hwait,
        forall_update (p := fun _ c => c.ReportInv P.nodeStop)
          ((hreport k hk).hasherStep hc) hreport⟩
    | orchestrator => exact ⟨hwait, hreport⟩
    | readerDequeue => exact ⟨hwait, hreport⟩
    | writerDequeue => exact ⟨hwait, hreport⟩
    | readComplete => exact ⟨hwait, hreport⟩
    | writeComplete => exact ⟨hwait, hreport⟩
  exact ⟨hs.step h, reserved_step hs hstop h, deliveryInv_step hs hreads h,
    writeDelivery_step hs hwrites h, hthreads.1, hthreads.2, countInv_step hs hcount h, hover'⟩

lemma LiveInv.run {ok : Pc1 → Action → Prop} (hl : LiveInv P s)
    (h : Transition.ReachableVia ok (Pc1.step P) s s') : LiveInv P s' :=
  h.invariant hl fun _ _ _ hl _ hstep => hl.step hstep

/-! ### Quiet states -/

/-- From here on, all steps among those in `A` only poll. -/
def Quiet (P : Setup) (A : Action → Prop) (s : Pc1) : Prop :=
  ∀ s₁ a s₂, Transition.ReachableVia (fun _ a => A a) (Pc1.step P) s s₁ → A a →
    s₁.step P a = some s₂ → a = .orchestrator ∧ s₂.orch.members = s₁.orch.members

namespace Quiet

/-- Only the orchestrator has a step. -/
lemma blocked (hq : Quiet P A s) (ha : A a) (hne : a ≠ .orchestrator) : s.step P a = none := by
  cases h : s.step P a with
  | none => rfl
  | some s' => exact absurd (hq s a s' .start ha h).1 hne

lemma runs (ho : A .orchestrator) {o : Orchestrator}
    (hrun : Runs P (fun k => (s.coords k).coordinatorNode) s.orch o) :
    Transition.ReachableVia (fun _ a => A a) (Pc1.step P) s { s with orch := o } := by
  refine Transition.Reachable.invariant (P := fun o =>
    Transition.ReachableVia (fun _ a => A a) (Pc1.step P) s { s with orch := o }) hrun .start
      fun o _ o' ih hs => ih.next (a := .orchestrator) ho ?_
  simp only [Pc1.step, hs]

lemma polls (hq : Quiet P A s) (ho : A .orchestrator) :
    Polls P (fun k => (s.coords k).coordinatorNode) s.orch := by
  intro o₁ hrun o₂ hstep
  refine (hq _ .orchestrator { s with orch := o₂ } (runs ho hrun) ho ?_).2
  simp only [Pc1.step, hstep]

lemma next (hq : Quiet P A s) (h : Transition.ReachableVia (fun _ a => A a) (Pc1.step P) s s') :
    Quiet P A s' :=
  fun s₁ a s₂ h₁ => hq s₁ a s₂ (h.trans h₁)

/-- In a quiet state the orchestrator gets to the head of its loop, unless all is written. -/
lemma exists_top (hl : LiveInv P s) (hq : Quiet P A s) (ho : A .orchestrator)
    (hmore : s.orch.tailNodeWrite.abs < P.nodeStop) :
    ∃ o, o.members = s.orch.members ∧ o.pc = .top ∧
      Transition.ReachableVia (fun _ a => A a) (Pc1.step P) s { s with orch := o } := by
  obtain ⟨o, hrun, hm, hpc⟩ := (hq.polls ho).exists_top hl.inv.cursor
  have hreach := runs ho hrun
  have hover := (hl.run hreach).exited
  refine ⟨o, hm, ?_, hreach⟩
  rcases hpc with hpc | hpc | hpc
  · exact hpc
  · have hle := hover.2 hpc
    have hle : P.nodeStop ≤ o.tailNodeWrite.abs := hle
    rw [(of_members hm).2.2.2.2.1] at hle
    exact absurd hmore (not_lt.mpr hle)
  · exact absurd hpc hover.1

end Quiet

/-! ### Starvation -/

lemma nodesPerPage_dvd_coordBatchSize (C : Config) : C.nodesPerPage ∣ coordBatchSize := by
  rw [C.nodesPerPage_eq]
  exact Nat.pow_dvd_pow 2 (by omega : 7 - C.lgParallelSectors ≤ 8)

/-- A queue of the disks that is empty has room for a page. -/
lemma nodesPerPage_le_diskFifoDepth (hd : 0 < P.numDisks) : P.C.nodesPerPage ≤ P.diskFifoDepth := by
  refine P.C.nodesPerPage_le.trans ?_
  have hdiv : queueSize / pageBatchSize ≤ P.numDisks * queueSize / pageBatchSize :=
    Nat.div_le_div_right (Nat.le_mul_of_pos_left _ hd)
  exact (by decide : 128 ≤ queueSize / pageBatchSize * 16).trans (Nat.mul_le_mul_right _ hdiv)

/-- When there is something to read and nothing else is short, only pages of the node buffer can be
missing. -/
lemma freeCount_of_maxBatch (hd : 0 < P.numDisks) {o : Orchestrator} (hmax : o.maxBatch P = 0)
    (hfifo : o.sys.parentReadFifo = []) (hfree : P.C.nodesPerPage ≤ o.sys.parentBuffer.freeCount)
    (hstop : o.parentIter.node + P.C.nodesPerPage ≤ P.nodeStop) :
    o.sys.nodeBuffer.freeCount = 0 := by
  have hpos := P.C.nodesPerPage_pos
  have hdepth := nodesPerPage_le_diskFifoDepth hd
  rw [maxBatch, hfifo, List.length_nil, Nat.sub_zero] at hmax
  have hlt := (Nat.div_eq_zero_iff_lt hpos).mp ((Nat.mul_eq_zero.mp hmax).resolve_right hpos.ne')
  by_contra hne
  have hpage : P.C.nodesPerPage ≤ o.sys.nodeBuffer.freeCount * P.C.nodesPerPage :=
    Nat.le_mul_of_pos_left _ (Nat.pos_of_ne_zero hne)
  omega

/-- The limit on free pages that `process` checks before a release is never reached. -/
lemma freeCount_lt (r : RingBuffer nodeBufferBatches) : r.freeCount < queueSize * 512 := by
  rw [RingBuffer.freeCount]
  exact (Nat.sub_le _ _).trans_lt (by decide : nodeBufferBatches - 1 < queueSize * 512)

/-- The actions other than the completion of a write. -/
def NotWritten (a : Action) : Prop := ∀ slot node, a ≠ .writeComplete slot node

/-- In a quiet state every coordinator waits for the entry of the node that is read next, or it has
reported all nodes. -/
lemma Quiet.coord_blocked (hl : LiveInv P s) (hstop : coordBatchSize ∣ P.nodeStop)
    (hq : Quiet P A s) (hA : ∀ a, NotWritten a → A a) {k : ℕ} (hk : k < P.numCoordinators) :
    ((s.coords k).pc = .outer ∧ (s.coords k).node = s.orch.parentIter.node ∧
      s.orch.parentIter.node < P.nodeStop) ∨ P.nodeStop ≤ (s.coords k).coordinatorNode := by
  have hs := hl.inv
  have hrun : (s.coords k).step (P.numHashers k) P.nodeStop (view s.orch.sys) = none := by
    have hnone := hq.blocked (hA (.coordinator k) fun _ _ => by simp) (by simp)
    simp only [Pc1.step, if_pos hk] at hnone
    split at hnone
    · cases hnone
    · next h => exact h
  have hhash : ∀ t < P.numHashers k, (s.coords k).hasherStep P.C P.nodeStop t = none := by
    intro t ht
    have hnone := hq.blocked (hA (.hasher k t) fun _ _ => by simp) (by simp)
    simp only [Pc1.step, if_pos (And.intro hk ht)] at hnone
    split at hnone
    · cases hnone
    · next h => exact h
  rcases Coordinator.outer_of_blocked (hs.coord k hk) (hl.wait k hk) hstop ⟨hrun, hhash⟩ with
    ⟨hpc, hlt, hinv⟩ | hpc
  · left
    have hnode : (s.coords k).node = s.orch.parentIter.node := by
      refine le_antisymm (hs.behind k hk).le (not_lt.mp fun hbehind => ?_)
      have hle := (hs.cursor.parents_le k hk).trans
        ((hs.coord k hk).done.reported_node (numHashers_pos P hk))
      have hvalid := isValid_of_blocked hs hl.reads
        (hq.blocked (hA _ fun _ _ => by simp) (by simp))
        (fun slot j => hq.blocked (hA (.readComplete slot j) fun _ _ => by simp) (by simp)) hle hbehind
      rw [← (hs.coord k hk).run.idx] at hvalid
      exact absurd (hvalid.symm.trans hinv) (by decide)
    exact ⟨hpc, hnode, hnode ▸ hlt⟩
  · exact .inr ((hl.report k hk).finished hpc)

/-- What a quiet state lacks: with the least progress `m` of the coordinators, either all nodes are
read and reported, or the node buffer is full and at most `reportLag` nodes are not reported. The
hashed pages are handed to the writer, and the tail waits for references unless it has reached what
is written and reported. -/
theorem Quiet.starved (hd : 0 < P.numDisks) (hstop : coordBatchSize ∣ P.nodeStop)
    (hl : LiveInv P s) (hq : Quiet P A s) (hA : ∀ a, NotWritten a → A a) (hpc : s.orch.pc = .top)
    (hmore : s.orch.tailNodeWrite.abs < P.nodeStop) :
    ∃ m, m ≤ s.orch.tailNodeParents ∧ m ≤ s.orch.headNodeWrite.abs ∧
      (s.orch.tailNodeWrite.abs = s.orch.headNodeWrite.abs ∨
        s.orch.sys.nodeBuffer.valid (s.orch.tailNodeWrite.idx P.C.nodesPerPage) = 0) ∧
      (s.orch.tailNode < min m s.orch.tailNodeWrite.abs →
        s.orch.entersSyncBatch = true ∧ ¬s.orch.syncBatchConsumed = true) ∧
      (P.nodeStop ≤ m ∨ s.orch.parentIter.node < P.nodeStop ∧
        s.orch.parentIter.node < m + reportLag ∧ s.orch.sys.nodeBuffer.freeCount = 0) := by
  have hs := hl.inv
  have hc := hs.cursor
  have hr : s.orch.reserved = s.orch.parentIter.node := reserved_eq (by simp [hpc])
  have ho : A .orchestrator := hA _ fun _ _ => by simp
  obtain ⟨m, hmle, ⟨k₀, hk₀, hmk⟩, hread, hwrite, hparents, hwritten, htail⟩ :=
    (hq.polls ho).round hpc hmore
  have hdeq : s.step P .readerDequeue = none := hq.blocked (hA _ fun _ _ => by simp) (by simp)
  have hrfifo := readFifo_of_blocked hdeq
  have hwfifo : s.orch.sys.nodeWriteFifo = [] :=
    writeFifo_of_blocked (hq.blocked (hA _ fun _ _ => by simp) (by simp))
  have hcoord := fun k hk => hq.coord_blocked hl hstop hA (k := k) hk
  have hdvd := nodesPerPage_dvd_coordBatchSize P.C
  refine ⟨m, hparents, ?_, hwritten.imp_left hc.idx_eq_iff.mp, fun hlt => htail hlt (freeCount_lt _),
    ?_⟩
  · have hle : m / P.C.nodesPerPage ≤ s.orch.headNodeWrite.abs / P.C.nodesPerPage := by
      by_contra hlt
      have hlen := hwrite (not_le.mp hlt)
      rw [hwfifo, List.length_nil] at hlen
      have := P.C.nodesPerPage_pos.trans_le (nodesPerPage_le_diskFifoDepth hd)
      omega
    have hm : P.C.nodesPerPage ∣ m := hmk ▸ hdvd.trans (hl.report k₀ hk₀).dvd
    rw [← Nat.div_mul_cancel hm]
    exact (Nat.mul_le_mul_right _ hle).trans (Nat.div_mul_le_self _ _)
  · rcases Nat.lt_or_ge s.orch.parentIter.node P.nodeStop with hlt | hge
    · right
      have hlag : s.orch.parentIter.node < m + reportLag := by
        rw [hmk]
        rcases hcoord k₀ hk₀ with ⟨hpc₀, hnode, -⟩ | hfin
        · rw [← hnode]
          exact (hl.report k₀ hk₀).node_lt (hs.coord k₀ hk₀).run hpc₀
        · have := hc.cn_le k₀ hk₀
          omega
      refine ⟨hlt, hlag, freeCount_of_maxBatch hd (hread hlt) hrfifo ?_ ?_⟩
      · have hring := hc.parentRing
        rw [hr] at hring
        have hpage := P.C.nodesPerPage_le
        have hle := hring.le
        rw [hring.freeCount_eq]
        simp only [reportLag, coordBatchSize, Coordinator.nodeCountUpdateInterval,
          parentBufferBatches] at hlag ⊢
        omega
      · have hrd := hc.reserved_dvd
        rw [hr] at hrd
        obtain ⟨a, ha⟩ := hrd
        obtain ⟨b, hb⟩ := hdvd.trans hstop
        rw [ha, hb] at hlt ⊢
        rw [← Nat.mul_succ]
        exact Nat.mul_le_mul_left _ (Nat.lt_of_mul_lt_mul_left hlt)
    · left
      rw [hmk]
      rcases hcoord k₀ hk₀ with ⟨-, -, hlt⟩ | hfin
      · exact absurd hlt (not_lt.mpr hge)
      · exact hfin

/-! ### The tail of a full node buffer -/

lemma free_zero_page (hc : CursorInv P (fun k => (s.coords k).coordinatorNode) s.orch)
    (hpc : s.orch.pc = .top) (hfree : s.orch.sys.nodeBuffer.freeCount = 0) :
    s.orch.parentIter.node =
      (s.orch.tailNode / P.C.nodesPerPage + (nodeBufferBatches - 1)) * P.C.nodesPerPage := by
  have hring := hc.nodeRing
  have hrd := hc.reserved_dvd
  rw [reserved_eq (by simp [hpc])] at hring hrd
  have hle := hring.le
  have hlt := hring.lt
  rw [hring.freeCount_eq] at hfree
  have hpage : s.orch.parentIter.node / P.C.nodesPerPage =
      s.orch.tailNode / P.C.nodesPerPage + (nodeBufferBatches - 1) := by
    simp only [nodeBufferBatches, parentBufferBatches] at hlt hfree ⊢
    omega
  rw [← hpage, Nat.div_mul_cancel hrd]

/-- Near references never hold up the tail of a full node buffer. -/
lemma not_referenced_of_full (hs : Inv P s) (hn : NearInv P s.orch) {m : ℕ}
    (hpc : s.orch.pc = .top) (hm : m ≤ s.orch.tailNodeParents)
    (hlag : s.orch.parentIter.node < m + reportLag)
    (hfree : s.orch.sys.nodeBuffer.freeCount = 0) (henter : s.orch.entersSyncBatch = true) {e : ℕ}
    (he : nodeIdxToSyncIdx e = nodeIdxToSyncIdx s.orch.sys.nodeBuffer.tail) :
    ¬s.orch.Referenced e := by
  rintro ⟨n, j, hn1, hn2, hj, hsync⟩
  have hfull := free_zero_page hs.cursor hpc hfree
  have hnear := hn n hn1 hn2 j hj e hsync
  have hrec := hs.parent.recorded n hn1 hn2 j hj
  rw [hsync] at hrec
  generalize s.orch.sys.parentPtrs (n % parentBufferBatches) j = src at hrec
  have hpos := P.C.nodesPerPage_pos
  have htail := hs.cursor.nodeRing.tail
  rw [entersSyncBatch_iff, htail] at henter
  rw [nodeIdxToSyncIdx_eq, nodeIdxToSyncIdx_eq, htail] at he
  cases hrec with
  | cached hlt hwindow hs' =>
    split_ifs at hs' with hlocal
    obtain rfl := ParentPtrSync.nodeBufferIdx.inj hs'
    set p := P.parentOf n j
    set t := s.orch.tailNode / P.C.nodesPerPage
    -- the page of the parent lies between the sync batch of the tail and the last page reserved
    have hlow : (t + nodeBufferSyncBatchSize) * P.C.nodesPerPage < p := by
      have hmul : (t + (nodeBufferBatches - 1)) * P.C.nodesPerPage =
          (t + nodeBufferSyncBatchSize) * P.C.nodesPerPage +
            (nodeBufferBatches - 1 - nodeBufferSyncBatchSize) * P.C.nodesPerPage := by
        rw [← Nat.add_mul, Nat.add_assoc, Nat.add_sub_cancel' (by decide)]
      rw [Near] at hnear
      omega
    have hpage : t + nodeBufferSyncBatchSize ≤ p / P.C.nodesPerPage :=
      (Nat.le_div_iff_mul_le hpos).mpr hlow.le
    have hhigh : p / P.C.nodesPerPage < t + (nodeBufferBatches - 1) := by
      rw [Nat.div_lt_iff_lt_mul hpos, ← hfull]
      omega
    simp only [nodeBufferSyncBatchSize, nodeBufferSyncLgBatchSize, nodeBufferBatches,
      parentBufferBatches] at *
    omega

/-- A quiet state whose references are near has nothing left to write. -/
theorem Quiet.all_written (hd : 0 < P.numDisks) (hstop : coordBatchSize ∣ P.nodeStop)
    (hl : LiveInv P s) (hn : NearInv P s.orch) (hq : Quiet P (fun _ => True) s) :
    P.nodeStop ≤ s.orch.tailNodeWrite.abs := by
  by_contra hmore
  obtain ⟨o, hm, hpc, hreach⟩ := hq.exists_top hl trivial (not_le.mp hmore)
  obtain ⟨hsys, hiter, htail, hparents, hwrite, hhead⟩ := of_members hm
  have hl' := hl.run hreach
  have hq' := hq.next hreach
  have hn' : NearInv P o := hn.frame hparents.ge hiter (by rw [hsys])
  rw [← hwrite] at hmore
  obtain ⟨m, hmp, hmh, hdone, hblocked, hcase⟩ := hq'.starved hd hstop hl' (fun _ _ => trivial) hpc
    (not_le.mp hmore)
  -- all writes are complete, so all hashed pages are written
  have heq : o.tailNodeWrite.abs = o.headNodeWrite.abs := by
    by_contra hne
    have hvalid := valid_of_blocked hl'.inv hl'.writes (hq'.blocked trivial (by simp))
      (fun _ _ => hq'.blocked trivial (by simp)) hne
    exact hvalid (hdone.resolve_left hne)
  rcases hcase with hle | ⟨hlt, hlag, hfree⟩
  · exact hmore (hle.trans (heq ▸ hmh))
  · have hfull := free_zero_page hl'.inv.cursor hpc hfree
    have hfull : o.parentIter.node =
      (o.tailNode / P.C.nodesPerPage + (nodeBufferBatches - 1)) * P.C.nodesPerPage := hfull
    have hbehind : o.tailNode < m := by
      have hpos := P.C.nodesPerPage_pos
      have hdiv := Nat.lt_div_mul_add (a := o.tailNode) hpos
      have hsize : reportLag + 1 ≤ (nodeBufferBatches - 2) * P.C.nodesPerPage :=
        (by decide : reportLag + 1 ≤ nodeBufferBatches - 2).trans (Nat.le_mul_of_pos_right _ hpos)
      have hmul : (o.tailNode / P.C.nodesPerPage + (nodeBufferBatches - 1)) * P.C.nodesPerPage =
          o.tailNode / P.C.nodesPerPage * P.C.nodesPerPage + P.C.nodesPerPage +
            (nodeBufferBatches - 2) * P.C.nodesPerPage := by
        rw [← Nat.succ_mul, ← Nat.add_mul, Nat.succ_eq_add_one, Nat.add_assoc,
          (by decide : 1 + (nodeBufferBatches - 2) = nodeBufferBatches - 1)]
      have hlag : o.parentIter.node < m + reportLag := hlag
      omega
    obtain ⟨henter, hcons⟩ := hblocked (lt_min hbehind (hbehind.trans_le (heq ▸ hmh)))
    refine hl'.count.outstanding_ne_zero hcons (outstanding_eq_zero_iff.mpr fun e he => ?_)
    exact not_referenced_of_full hl'.inv hn' hpc hmp hlag hfree henter he

/-! ### Every run -/

lemma nearInv_step (hs : Inv P s) (hn : NearInv P s.orch) (hok : ReadsNear P s a)
    (h : s.step P a = some s') : NearInv P s'.orch := by
  rcases step_orch P h with ⟨o, rfl, ho, rfl⟩ | ⟨-, pv, nv, rf, wf, heq⟩
  · exact hn.step hs.cursor hok ho
  · rw [heq]
    exact hn.frame le_rfl rfl rfl

lemma live_of_reachable (h : Transition.ReachableVia (ReadsNear P) (Pc1.step P) init s) :
    LiveInv P s ∧ NearInv P s.orch :=
  h.invariant (P := fun s => LiveInv P s ∧ NearInv P s.orch)
    ⟨LiveInv.init, fun n _ hn => absurd hn (Nat.not_lt_zero n)⟩
    fun _ _ _ hs hok hstep => ⟨hs.1.step hstep, nearInv_step hs.1.inv hs.2 hok hstep⟩

/-- What lies below the written tail is on disk. -/
lemma allWritten_of_le (hs : Inv P s) (h : P.nodeStop ≤ s.orch.tailNodeWrite.abs) :
    AllWritten P s := fun _ hn =>
  hs.write.done _ (Nat.div_lt_div_of_lt_of_dvd hs.cursor.tail_dvd (hn.trans_le h))

end Pc1

end SupraSeal
