import SupraSeal.Pc1.LabelSafety
import SupraSeal.Pc1.Liveness

/-!
# The labels that PC1 leaves on disk

In every run that reads all nodes with their own requests, what is stored and what is written are the
labels of the graph. The transfers never hold up the threads for good, so a run that gets all pages
written exists for the system with its memory when it exists for the threads.
-/

namespace SupraSeal

open Orchestrator Transition

/-- `single` for one layer of 8KiB sectors. -/
def Setup.oneLayer : Setup :=
  single ⟨8, 1, 1, Config.two_sectors_le, by decide⟩
    (ParentGraph.switch _ 1 0 Nat.one_pos (by decide)) rfl

/-- All labels are on disk. -/
def LabelsOnDisk (P : Setup) (replicaIds : ℕ → BitVec 32) (disk : ℕ → ℕ → ℕ → Node) : Prop :=
  ∀ id < P.nodeStop, ∀ x < P.C.parallelSectors,
    disk (id / P.C.nodesPerPage) (id % P.C.nodesPerPage) x = sdrLabel P replicaIds id x

namespace LabelPc1

variable {P : Setup} {replicaIds : ℕ → BitVec 32} {rest : ℕ → ShaPtr} {mem : LabelMemory}
  {s s' : LabelPc1}

/-! ### Runs -/

/-- What holds in every run that reads all nodes with their own requests. -/
structure RunInv (P : Setup) (replicaIds : ℕ → BitVec 32) (s : LabelPc1) : Prop where
  threads : ReachableVia (Pc1.ReadsClean P) (Pc1.step P) .init s.threads
  inv : Pc1.Inv P s.threads
  reader : Pc1.ReaderInv P s.threads
  labels : LabelInv P replicaIds s

lemma RunInv.step (hbits : P.C.nodeBits ≤ 32) (hlayers : P.C.numLayers < 2 ^ 32)
    (hstop : P.nodeStop ≤ P.C.nodeStop) (h : RunInv P replicaIds s) {a : Action}
    (hok : ReadsClean P s a) (hs : s.step P rest a = some s') : RunInv P replicaIds s' := by
  have hlabels := h.labels.step hbits hlayers hstop h.inv h.reader hok hs
  cases step_inv hs with
  | thread hready hstep =>
    exact ⟨h.threads.next hok hstep, h.inv.step hstep, h.reader.step h.inv hok hstep, hlabels⟩
  | fetch => exact ⟨h.threads, h.inv, h.reader, hlabels⟩
  | save => exact ⟨h.threads, h.inv, h.reader, hlabels⟩

lemma runInv_of_reachable (hbits : P.C.nodeBits ≤ 32) (hlayers : P.C.numLayers < 2 ^ 32)
    (hstop : P.nodeStop ≤ P.C.nodeStop)
    (h : ReachableVia (ReadsClean P) (step P rest) (init P replicaIds mem) s) :
    RunInv P replicaIds s :=
  h.invariant (P := RunInv P replicaIds) ⟨.start, Pc1.init_inv P, .init, .init⟩
    fun _ _ _ hs hok hstep => hs.step hbits hlayers hstop hok hstep

/-- A step of the threads is one of the system, after the transfer that it waits for. -/
lemma exists_thread_step (hr : RequestInv P (sdrLabel P replicaIds) s) {a : Pc1.Action} {t : Pc1}
    (hok : Pc1.ReadsClean P s.threads a) (h : s.threads.step P a = some t) :
    ∃ s', ReachableVia (ReadsClean P) (step P rest) s s' ∧ s'.threads = t := by
  -- once the request is transferred, the threads can take the step
  have hstep : ∀ s₁ : LabelPc1, ReachableVia (ReadsClean P) (step P rest) s s₁ →
      s₁.threads = s.threads → s₁.transferred a = true →
      ∃ s', ReachableVia (ReadsClean P) (step P rest) s s' ∧ s'.threads = t := by
    intro s₁ hs₁ hthreads hready
    have hclean : ReadsClean P s₁ (.thread a) := by
      show Pc1.ReadsClean P s₁.threads a
      rwa [hthreads]
    refine ⟨{ s₁.effect P rest a with threads := t }, hs₁.next hclean ?_, rfl⟩
    simp only [step, if_pos hready, hthreads, h]
  cases a with
  | readComplete slot j =>
    have hmem : (slot, j) ∈ s.threads.readsInFlight := by
      cases Pc1.step_inv P h with
      | readComplete hmem => exact hmem
    obtain ⟨r, hr, hkey⟩ := List.mem_map.mp (hr.inFlight.mem_iff.mpr hmem)
    rcases List.mem_append.mp hr with hread | hfetched
    · refine hstep { s with
        memory := s.memory.fetch P r
        reads := s.reads.erase r
        fetched := s.fetched ++ [r] } (ReachableVia.start.next (a := .fetch r) trivial ?_) rfl ?_
      · simp only [step, if_pos hread]
      · exact List.any_eq_true.mpr ⟨r, List.mem_append_right _ (List.mem_singleton_self r),
          decide_eq_true hkey⟩
    · exact hstep s .start rfl (List.any_eq_true.mpr ⟨r, hfetched, decide_eq_true hkey⟩)
  | writeComplete slot node =>
    have hmem : (slot, node) ∈ s.threads.writesInFlight := by
      cases Pc1.step_inv P h with
      | writeComplete hmem => exact hmem
    by_cases hsaved : (slot, node) ∈ s.saved
    · exact hstep s .start rfl (List.contains_iff_mem.mpr hsaved)
    · refine hstep { s with
        memory := s.memory.save P slot node
        saved := s.saved ++ [(slot, node)] }
        (ReachableVia.start.next (a := .save slot node) trivial ?_) rfl ?_
      · have hnew : s.saved.contains (slot, node) = false :=
          Bool.eq_false_iff.mpr fun h => hsaved (List.contains_iff_mem.mp h)
        simp only [step, List.contains_iff_mem.mpr hmem, hnew, Bool.not_false, Bool.and_self, if_true]
      · exact List.contains_iff_mem.mpr (List.mem_append_right _ (List.mem_singleton_self _))
  | _ => exact hstep s .start rfl rfl

/-- A run of the threads is one of the system. -/
lemma exists_run (hbits : P.C.nodeBits ≤ 32) (hlayers : P.C.numLayers < 2 ^ 32)
    (hstop : P.nodeStop ≤ P.C.nodeStop)
    (h : ReachableVia (ReadsClean P) (step P rest) (init P replicaIds mem) s) {t : Pc1}
    (hrun : ReachableVia (Pc1.ReadsClean P) (Pc1.step P) s.threads t) :
    ∃ s', ReachableVia (ReadsClean P) (step P rest) s s' ∧ s'.threads = t := by
  induction hrun with
  | start => exact ⟨s, .start, rfl⟩
  | next _ hok hstep ih =>
    obtain ⟨s₁, hs₁, rfl⟩ := ih
    have hinv := runInv_of_reachable hbits hlayers hstop (h.trans hs₁)
    obtain ⟨s₂, hs₂, heq⟩ := exists_thread_step hinv.labels.requests hok hstep
    exact ⟨s₂, hs₁.trans hs₂, heq⟩

/-! ### All pages -/

/-- The threads can get all pages written, when every run keeps to clean reads of near parents. -/
lemma exists_allWritten (hd : 0 < P.numDisks) (hdvd : coordBatchSize ∣ P.nodeStop)
    (hreads : ∀ t, Reachable (Pc1.step P) .init t → ∀ rb i, t.orch.pc = .readNodes rb i →
      ReadNear P t.orch rb) {t : Pc1} (h : Reachable (Pc1.step P) .init t) :
    ∃ t', Reachable (Pc1.step P) t t' ∧ Pc1.AllWritten P t' := by
  have hnear : ∀ {t'}, Reachable (Pc1.step P) .init t' →
      Pc1.LiveInv P t' ∧ NearInv P t'.orch := fun h' =>
    Pc1.live_of_reachable (h'.invariant (P := fun t' =>
      Reachable (Pc1.step P) .init t' ∧ ReachableVia (Pc1.ReadsNear P) (Pc1.step P) .init t')
        ⟨.start, .start⟩ fun t₁ a t₂ ht₁ hstep => ⟨ht₁.1.next hstep, ht₁.2.next (by
          cases a with
          | orchestrator => exact hreads t₁ ht₁.1
          | _ => trivial) hstep⟩).2
  obtain ⟨hl, -⟩ := hnear h
  obtain ⟨t', (ht' : ReachableVia (fun _ _ => True) (Pc1.step P) t t'), hquiet⟩ :=
    Pc1.exists_settled hl.inv hl.stop
  obtain ⟨hl', hn'⟩ := hnear (h.trans ht')
  refine ⟨t', ht', Pc1.allWritten_of_le hl'.inv ?_⟩
  exact Pc1.Quiet.all_written hd hdvd hl' hn' fun t₁ a t₂ h₁ _ hstep =>
    hquiet t₁ a t₂ h₁ trivial hstep

lemma RunInv.labelsOnDisk (h : RunInv P replicaIds s) (hall : Pc1.AllWritten P s.threads) :
    LabelsOnDisk P replicaIds s.memory.disk :=
  fun id hid _ hx => (h.labels.disk _ (hall id hid)).node hx

/-- From every state that is reached some run gets all pages written. -/
lemma exists_complete (hbits : P.C.nodeBits ≤ 32) (hlayers : P.C.numLayers < 2 ^ 32)
    (hstop : P.nodeStop ≤ P.C.nodeStop) (hd : 0 < P.numDisks) (hdvd : coordBatchSize ∣ P.nodeStop)
    (hreads : ∀ t, Reachable (Pc1.step P) .init t → ∀ rb i, t.orch.pc = .readNodes rb i →
      Pc1.ReadClean P t.orch rb ∧ ReadNear P t.orch rb)
    (h : ReachableVia (ReadsClean P) (step P rest) (init P replicaIds mem) s) :
    ∃ s', ReachableVia (ReadsClean P) (step P rest) s s' ∧ Pc1.AllWritten P s'.threads := by
  have hthreads := (runInv_of_reachable hbits hlayers hstop h).threads.reachable
  obtain ⟨t, ht, hall⟩ := exists_allWritten hd hdvd
    (fun t ht rb i hpc => (hreads t ht rb i hpc).2) hthreads
  have hrun : ReachableVia (Pc1.ReadsClean P) (Pc1.step P) s.threads t :=
    (ht.invariant (P := fun t => Reachable (Pc1.step P) .init t ∧
      ReachableVia (Pc1.ReadsClean P) (Pc1.step P) s.threads t) ⟨hthreads, .start⟩
        fun t₁ a t₂ ht₁ hstep => ⟨ht₁.1.next hstep, ht₁.2.next (by
          cases a with
          | orchestrator => exact fun rb i hpc => (hreads t₁ ht₁.1 rb i hpc).1
          | _ => trivial) hstep⟩).2
  obtain ⟨s', hs', rfl⟩ := exists_run hbits hlayers hstop h hrun
  exact ⟨s', hs', hall⟩

/-- One layer that fits into the node buffer is always read under both conditions. -/
lemma reads_oneLayer {t : Pc1} (h : Reachable (Pc1.step Setup.oneLayer) .init t) {rb : ReadBatch}
    {i : ℕ} (hpc : t.orch.pc = .readNodes rb i) :
    Pc1.ReadClean Setup.oneLayer t.orch rb ∧ ReadNear Setup.oneLayer t.orch rb := by
  have hb := (Pc1.reachable_inv h).cursor.batch rb i hpc
  have hlt : t.orch.parentIter.node < 256 := by
    have hstop : t.orch.reserved ≤ 256 := (Pc1.LiveInv.init.run h).stop
    rw [reserved, hpc, OrchPc.pending] at hstop
    have := hb.lt
    omega
  refine ⟨⟨?_, fun hdepth => absurd hdepth (by decide)⟩, ?_⟩
  · intro hn hnode
    rw [Config.node_eq_mod, Nat.mod_eq_of_lt (show _ < Setup.oneLayer.C.numNodes from hlt)] at hnode
    exact absurd hnode hn
  · intro j _ _ _ _
    have hsize : 256 + reportLag ≤ (nodeBufferBatches - 1 - nodeBufferSyncBatchSize) *
        Setup.oneLayer.C.nodesPerPage := by decide
    rw [Near]
    omega

/-- PC1 computes the labels. In every state of every run that reads each node with its own requests,
whatever the parent graph, the order of the steps of all threads, of the transfers and of their
completions, and whatever the memory held at first: a place of the node buffer holds the label of the
node that was stored there, a page that is written holds the labels of its nodes in all sectors, and
when all pages are written all labels of the graph are on disk. -/
theorem labels_right (hbits : P.C.nodeBits ≤ 32) (hlayers : P.C.numLayers < 2 ^ 32)
    (hstop : P.nodeStop ≤ P.C.nodeStop)
    (h : ReachableVia (ReadsClean P) (step P rest) (init P replicaIds mem) s) :
    (∀ e i x n, s.threads.store e i x = some n →
      s.memory.nodeBuffer e i x = sdrLabel P replicaIds n x) ∧
    (∀ m, s.threads.written m = true →
      HoldsPage P (sdrLabel P replicaIds) (s.memory.disk m) m) ∧
    (Pc1.AllWritten P s.threads → LabelsOnDisk P replicaIds s.memory.disk) := by
  have hinv := runInv_of_reachable hbits hlayers hstop h
  exact ⟨hinv.labels.nodes, hinv.labels.disk, hinv.labelsOnDisk⟩

/-- The theorem at the end of a run for one layer of 8KiB sectors. -/
theorem labels_right_oneLayer : ∃ s : LabelPc1, Pc1.AllWritten Setup.oneLayer s.threads ∧
    (∀ m, s.threads.written m = true →
      HoldsPage Setup.oneLayer (sdrLabel Setup.oneLayer fun _ => 7) (s.memory.disk m) m) ∧
    LabelsOnDisk Setup.oneLayer (fun _ => 7) s.memory.disk := by
  have hstart : ReachableVia (ReadsClean Setup.oneLayer)
    (step Setup.oneLayer fun _ => ⟨.replicaIdBuffer, 0⟩) (init Setup.oneLayer (fun _ => 7) .zero)
    (init Setup.oneLayer (fun _ => 7) .zero) := .start
  obtain ⟨s, hs, hall⟩ := exists_complete (by decide) (by decide) le_rfl (by decide) (by decide)
    (fun t ht rb i hpc => reads_oneLayer ht hpc) hstart
  have hright := labels_right (by decide) (by decide) le_rfl hs
  exact ⟨s, hall, hright.2.1, hright.2.2 hall⟩

/-- PC1 can always be completed. When every run reads the nodes with their own requests and counts
references to near parents only, some run leads from every state that is reached to one in which all
labels of the graph are on disk. -/
theorem labels_reached (hbits : P.C.nodeBits ≤ 32) (hlayers : P.C.numLayers < 2 ^ 32)
    (hstop : P.nodeStop ≤ P.C.nodeStop) (hd : 0 < P.numDisks) (hdvd : coordBatchSize ∣ P.nodeStop)
    (hreads : ∀ t, Reachable (Pc1.step P) .init t → ∀ rb i, t.orch.pc = .readNodes rb i →
      Pc1.ReadClean P t.orch rb ∧ ReadNear P t.orch rb)
    (h : ReachableVia (ReadsClean P) (step P rest) (init P replicaIds mem) s) :
    ∃ s', ReachableVia (ReadsClean P) (step P rest) s s' ∧ Pc1.AllWritten P s'.threads ∧
      LabelsOnDisk P replicaIds s'.memory.disk := by
  obtain ⟨s', hs', hall⟩ := exists_complete hbits hlayers hstop hd hdvd hreads h
  have hinv := runInv_of_reachable hbits hlayers hstop (h.trans hs')
  exact ⟨s', hs', hall, hinv.labelsOnDisk hall⟩

/-- The theorem from the start, for one layer of 8KiB sectors. -/
theorem labels_reached_oneLayer : ∃ s : LabelPc1,
    ReachableVia (ReadsClean Setup.oneLayer) (step Setup.oneLayer fun _ => ⟨.replicaIdBuffer, 0⟩)
      (init Setup.oneLayer (fun _ => 7) .zero) s ∧
    LabelsOnDisk Setup.oneLayer (fun _ => 7) s.memory.disk := by
  obtain ⟨s, hs, -, hdisk⟩ := labels_reached (by decide) (by decide) le_rfl (by decide) (by decide)
    (fun t ht rb i hpc => reads_oneLayer ht hpc) (.start :
      ReachableVia (ReadsClean Setup.oneLayer) (step Setup.oneLayer fun _ => ⟨.replicaIdBuffer, 0⟩)
        (init Setup.oneLayer (fun _ => 7) .zero) (init Setup.oneLayer (fun _ => 7) .zero))
  exact ⟨s, hs, hdisk⟩

end LabelPc1

end SupraSeal
