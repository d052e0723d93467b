import SupraSeal.Pc1.Safety

/-!
# Progress of the orchestrator

The loop of `process` phase by phase: from the head of the loop the orchestrator gets through every
phase and back to the head, whatever the other threads do not do. What a phase leaves alone is
stated with the `marks` of a state, the cursors and the queue of writes.
-/

namespace SupraSeal

namespace Orchestrator

variable {P : Setup} {c : ℕ → ℕ} {o o' o'' : Orchestrator}

/-- The orchestrator gets from one state to another while the coordinators report `c`. -/
def Runs (P : Setup) (c : ℕ → ℕ) : Orchestrator → Orchestrator → Prop :=
  Transition.Reachable fun o (_ : Unit) => o.step P c

lemma Runs.refl (P : Setup) (c : ℕ → ℕ) (o : Orchestrator) : Runs P c o o :=
  Transition.Reachable.start

lemma Runs.trans (h : Runs P c o o') (h' : Runs P c o' o'') : Runs P c o o'' :=
  Transition.Reachable.trans h h'

lemma Runs.head (hs : o.step P c = some o') (h : Runs P c o' o'') : Runs P c o o'' :=
  Transition.Reachable.trans (Transition.Reachable.next (a := ()) Transition.Reachable.start hs) h

lemma Runs.single (hs : o.step P c = some o') : Runs P c o o' := Runs.head hs (Runs.refl P c o')

lemma Runs.cursor (hc : CursorInv P c o) (h : Runs P c o o') : CursorInv P c o' :=
  Transition.Reachable.invariant h hc fun _ _ _ hc hs => hc.step hs

/-- The cursors and the queue of writes. -/
structure Marks where
  node : ℕ
  tailNode : ℕ
  tailNodeParents : ℕ
  written : ℕ
  head : ℕ
  minNodeHash : ℕ
  minNode : ℕ
  writeFifo : List ℕ

def marks (o : Orchestrator) : Marks :=
  ⟨o.parentIter.node, o.tailNode, o.tailNodeParents, o.tailNodeWrite.abs, o.headNodeWrite.abs,
    o.minNodeHash, o.minNode, o.sys.nodeWriteFifo⟩

/-! ### Loading and reading -/

lemma runs_load (h1 : P.numCoordinators = 1) (hpc : o.pc = .top)
    (hmore : o.tailNodeWrite.abs < P.nodeStop) :
    Runs P c o { o with
      nextNode := o.parentIter.node
      minNodeHash := c 0
      minNode := min (c 0) o.tailNodeWrite.abs
      pc := .read } := by
  have htop : o.step P c = some { o with nextNode := o.parentIter.node, pc := .load 0 } := by
    simp only [step, hpc]
    rw [if_pos (.inr (.inl hmore))]
  refine Runs.head htop (Runs.single ?_)
  simp [step, h1]

/-- The loop of `read_batch` gets to each of its nodes. -/
lemma runs_readNodes (hc : CursorInv P c o) {rb : ReadBatch} (hpc : o.pc = .readNodes rb 0)
    {i : ℕ} (hi : i < rb.maxBatch) : ∃ o' rb', Runs P c o o' ∧ o'.pc = .readNodes rb' i ∧
      rb'.maxBatch = rb.maxBatch ∧
      o'.marks = { o.marks with node := o.parentIter.node + i } ∧
      ∀ slot, (∀ n, o.parentIter.node ≤ n → n < o.parentIter.node + i →
        slot ≠ n % parentBufferBatches) →
        o'.sys.parentBufferIo slot = o.sys.parentBufferIo slot := by
  induction i with
  | zero => exact ⟨o, rb, Runs.refl P c o, hpc, rfl, rfl, fun _ _ => rfl⟩
  | succ i ih =>
    obtain ⟨o', rb', hrun, hpc', hmax, hmarks, hio⟩ := ih (by omega)
    have hc' := hrun.cursor hc
    have hnode : o'.parentIter.node = o.parentIter.node + i := congrArg Marks.node hmarks
    have hstep : o'.step P c =
        some { readNode P rb' i o' with pc := nextReadPc rb' i } := by
      simp only [step, hpc']
    refine ⟨_, { rb' with parentBufferId := RingBuffer.incr parentBufferBatches rb'.parentBufferId },
      hrun.trans (Runs.single hstep), ?_, ?_, ?_, fun slot hslot => ?_⟩
    · show nextReadPc rb' i = _
      rw [nextReadPc, if_pos (hmax ▸ hi)]
    · exact hmax
    · rw [readNode_eq hc'.iter]
      show Marks.mk (o'.parentIter.node + 1) _ _ _ _ _ _ _ = _
      rw [hnode]
      exact congrArg (fun m : Marks => { m with node := o.parentIter.node + i + 1 }) hmarks
    · rw [readNode_eq hc'.iter]
      show fillEntries _ _ _ _ _ _ = _
      rw [fillEntries_of_ne, hio slot fun n hn hn' => hslot n hn (by omega)]
      rw [(hc'.batch rb' i hpc').slot, hnode]
      exact hslot _ (Nat.le_add_right _ _) (by omega)

/-- The phase of reading ends, after `maxBatch` nodes. -/
lemma runs_read (hc : CursorInv P c o) (hpc : o.pc = .read)
    (hmore : o.parentIter.node < P.nodeStop) :
    ∃ o', Runs P c o o' ∧ o'.pc = .writeNodes actionBatch ∧
      o'.marks = { o.marks with node := o.parentIter.node + o.maxBatch P } := by
  by_cases h0 : o.maxBatch P = 0
  · refine ⟨{ o with pc := .writeNodes actionBatch }, Runs.single ?_, rfl, ?_⟩
    · simp only [step, hpc]
      rw [if_neg (by simp [h0])]
    · rw [h0]
      rfl
  · have hstep : o.step P c = some { (reserveBatch P (o.maxBatch P) o).2 with
        pc := .readNodes (reserveBatch P (o.maxBatch P) o).1 0 } := by
      simp only [step, hpc]
      rw [if_pos ⟨hmore, h0⟩]
    have hmax : (reserveBatch P (o.maxBatch P) o).1.maxBatch = o.maxBatch P := rfl
    obtain ⟨o', rb', hrun, hpc', hmax', hmarks, -⟩ := runs_readNodes (hc.reserveBatch hpc h0) rfl
      (i := o.maxBatch P - 1) (by rw [hmax]; omega)
    have hc' := hrun.cursor (hc.reserveBatch hpc h0)
    have hnode : o'.parentIter.node = o.parentIter.node + (o.maxBatch P - 1) :=
      congrArg Marks.node hmarks
    refine ⟨{ readNode P rb' (o.maxBatch P - 1) o' with pc := nextReadPc rb' (o.maxBatch P - 1) },
      Runs.head hstep (hrun.trans (Runs.single ?_)), ?_, ?_⟩
    · simp only [step, hpc']
    · show nextReadPc rb' _ = _
      rw [nextReadPc, if_neg (by rw [hmax', hmax]; omega)]
    · rw [readNode_eq hc'.iter]
      show Marks.mk (o'.parentIter.node + 1) _ _ _ _ _ _ _ = _
      rw [hnode, show o.parentIter.node + (o.maxBatch P - 1) + 1 =
        o.parentIter.node + o.maxBatch P by omega]
      exact congrArg (fun m : Marks => { m with node := o.parentIter.node + o.maxBatch P }) hmarks

/-! ### Writing and releasing parents -/

/-- With room in the queue, the phase of writing issues its pages in order. -/
lemma runs_writeNodes (hc : CursorInv P c o) {r : ℕ} (hpc : o.pc = .writeNodes r)
    (hroom : o.sys.nodeWriteFifo.length + r ≤ P.diskFifoDepth)
    (hhash : o.headNodeWrite.abs + r * P.C.nodesPerPage ≤ o.minNodeHash) :
    ∃ o', Runs P c o o' ∧ o'.pc = .writeNodes 0 ∧
      o'.marks = { o.marks with
        head := o.headNodeWrite.abs + r * P.C.nodesPerPage
        writeFifo := o.sys.nodeWriteFifo ++
          (List.range' (o.headNodeWrite.abs / P.C.nodesPerPage) r).map (· % nodeBufferBatches) } := by
  have hpos := P.C.nodesPerPage_pos
  induction r generalizing o with
  | zero =>
    refine ⟨o, Runs.refl P c o, hpc, ?_⟩
    rw [Nat.zero_mul, Nat.add_zero, List.range'_zero, List.map_nil, List.append_nil]
    rfl
  | succ r ih =>
    rw [Nat.succ_mul] at hhash
    have hlt : o.headNodeWrite.abs < o.minNodeHash := by omega
    have hpage : o.headNodeWrite.abs / P.C.nodesPerPage < o.minNodeHash / P.C.nodesPerPage := by
      rw [Nat.lt_iff_add_one_le, ← Nat.add_div_right _ hpos]
      exact Nat.div_le_div_right (by omega)
    have hw : writeNodes P o = (P.C.nodesPerPage, { o.sys with
        nodeBufferIo := Function.update o.sys.nodeBufferIo
          (o.headNodeWrite.idx P.C.nodesPerPage) o.headNodeWrite.abs
        nodeWriteFifo := o.sys.nodeWriteFifo ++ [o.headNodeWrite.idx P.C.nodesPerPage] }) := by
      rw [writeNodes]
      simp only [hpage, if_true]
      rw [if_neg (by omega)]
    have hstep : o.step P c = some { o with
        sys := (writeNodes P o).2
        headNodeWrite := o.headNodeWrite.addAssign (nodeBufferBatches * P.C.nodesPerPage)
          (writeNodes P o).1
        outstandingWrites := o.outstandingWrites + (writeNodes P o).1 / P.C.nodesPerPage
        pc := .writeNodes r } := by
      simp only [step, hpc]
      rw [if_pos ⟨Nat.succ_pos _, hlt⟩]
      rfl
    have hc' := hc.step hstep
    rw [hw] at hc' hstep
    obtain ⟨o', hrun, hpc', hmarks⟩ := ih hc' rfl
      (by
        show (o.sys.nodeWriteFifo ++ [_]).length + r ≤ _
        rw [List.length_append, List.length_singleton]
        omega)
      (by
        show o.headNodeWrite.abs + P.C.nodesPerPage + r * _ ≤ o.minNodeHash
        omega)
    refine ⟨o', Runs.head hstep hrun, hpc', hmarks.trans ?_⟩
    show Marks.mk _ _ _ _ (o.headNodeWrite.abs + P.C.nodesPerPage + r * P.C.nodesPerPage) _ _
      ((o.sys.nodeWriteFifo ++ [o.headNodeWrite.idx P.C.nodesPerPage]) ++
        (List.range' ((o.headNodeWrite.abs + P.C.nodesPerPage) / P.C.nodesPerPage) r).map _) = _
    rw [RingCounter.idx_eq hc.head_idx, Nat.add_div_right _ hpos, List.range'_succ, List.map_cons,
      List.append_assoc, List.singleton_append, Nat.succ_mul, Nat.add_assoc,
      Nat.add_comm P.C.nodesPerPage]
    rfl

/-- With nothing left to write, the phase of releasing parents is next, and it ends. -/
lemma runs_releaseParents {r : ℕ} (hpc : o.pc = .releaseParents r) :
    ∃ o', Runs P c o o' ∧ o'.pc = .advanceWritten actionBatch ∧
      o'.marks = { o.marks with tailNodeParents := o'.tailNodeParents } := by
  induction r generalizing o with
  | zero =>
    refine ⟨{ o with pc := .advanceWritten actionBatch }, Runs.single ?_, rfl, rfl⟩
    simp only [step, hpc]
    rw [if_neg (by omega)]
  | succ r ih =>
    by_cases hlt : o.tailNodeParents < o.minNodeHash
    · obtain ⟨o', hrun, hpc', hmarks⟩ :=
        ih (o := { releaseParent o with pc := .releaseParents r }) rfl
      refine ⟨o', Runs.head ?_ hrun, hpc', hmarks⟩
      simp only [step, hpc]
      rw [if_pos ⟨Nat.succ_pos _, hlt⟩]
      rfl
    · refine ⟨{ o with pc := .advanceWritten actionBatch }, Runs.single ?_, rfl, rfl⟩
      simp only [step, hpc]
      rw [if_neg (by omega)]

lemma runs_toAdvance {r : ℕ} (hpc : o.pc = .writeNodes r)
    (hdone : r = 0 ∨ o.minNodeHash ≤ o.headNodeWrite.abs) :
    ∃ o', Runs P c o o' ∧ o'.pc = .advanceWritten actionBatch ∧
      o'.marks = { o.marks with tailNodeParents := o'.tailNodeParents } := by
  obtain ⟨o', hrun, hpc', hmarks⟩ :=
    runs_releaseParents (P := P) (c := c) (o := { o with pc := .releaseParents actionBatch }) rfl
  refine ⟨o', Runs.head ?_ hrun, hpc', hmarks⟩
  simp only [step, hpc]
  rw [if_neg (by omega)]

/-- From the head of the loop to the written tail, with nothing to write. -/
lemma runs_toWritten (hc : CursorInv P c o) (h1 : P.numCoordinators = 1) (hpc : o.pc = .top)
    (hmore : o.parentIter.node < P.nodeStop) (hhead : o.headNodeWrite.abs = c 0) :
    ∃ o', Runs P c o o' ∧ o'.pc = .advanceWritten actionBatch ∧
      o'.marks = { o.marks with
        node := o.parentIter.node + o.maxBatch P
        tailNodeParents := o'.tailNodeParents
        minNodeHash := c 0
        minNode := min (c 0) o.tailNodeWrite.abs } := by
  have hload := runs_load (c := c) h1 hpc
    ((hc.write_le.trans hc.head_le_node).trans_lt hmore)
  obtain ⟨o₁, hrun₁, hpc₁, hmarks₁⟩ := runs_read (hload.cursor hc) rfl hmore
  have hhead₁ : o₁.headNodeWrite.abs = o.headNodeWrite.abs := congrArg Marks.head hmarks₁
  have hhash₁ : o₁.minNodeHash = c 0 := congrArg Marks.minNodeHash hmarks₁
  obtain ⟨o₂, hrun₂, hpc₂, hmarks₂⟩ := runs_toAdvance (P := P) (c := c) hpc₁
    (.inr (by rw [hhash₁, hhead₁, hhead]))
  refine ⟨o₂, hload.trans (hrun₁.trans hrun₂), hpc₂, ?_⟩
  rw [hmarks₂, hmarks₁]
  rfl

/-! ### The written tail and the release of pages -/

/-- Nothing more is found written. -/
lemma runs_stayWritten {r : ℕ} (hpc : o.pc = .advanceWritten r)
    (hstop : o.sys.nodeBuffer.valid (o.tailNodeWrite.idx P.C.nodesPerPage) = 0) :
    Runs P c o { o with freeCount := o.sys.nodeBuffer.freeCount, pc := .release actionBatch } := by
  refine Runs.single ?_
  simp only [step, hpc]
  rw [if_neg (fun h => h.2.2 hstop)]

/-- The written tail passes one page and finds the next one not written. -/
lemma runs_passWritten {r : ℕ} (hpc : o.pc = .advanceWritten (r + 1))
    (hidx : o.tailNodeWrite.idx P.C.nodesPerPage ≠ o.headNodeWrite.idx P.C.nodesPerPage)
    (hvalid : o.sys.nodeBuffer.valid (o.tailNodeWrite.idx P.C.nodesPerPage) ≠ 0)
    (hstop : o.sys.nodeBuffer.valid ((o.tailNodeWrite.addAssign
      (nodeBufferBatches * P.C.nodesPerPage) P.C.nodesPerPage).idx P.C.nodesPerPage) = 0) :
    ∃ o', Runs P c o o' ∧ o'.pc = .release actionBatch ∧
      o'.freeCount = o'.sys.nodeBuffer.freeCount ∧
      o'.marks = { o.marks with written := o.tailNodeWrite.abs + P.C.nodesPerPage } := by
  refine ⟨_, Runs.head ?_ (runs_stayWritten (P := P) (c := c) (o := { o with
    outstandingWrites := o.outstandingWrites - 1
    tailNodeWrite := o.tailNodeWrite.addAssign (nodeBufferBatches * P.C.nodesPerPage)
      P.C.nodesPerPage
    pc := .advanceWritten r }) rfl hstop), rfl, rfl, rfl⟩
  simp only [step, hpc]
  rw [if_pos ⟨Nat.succ_pos _, hidx, hvalid⟩]
  rfl

/-- The release loop passes `j` nodes, as long as the counters let it. -/
lemma runs_release {r j : ℕ} (hpc : o.pc = .release (r + j)) (hfree : o.freeCount < queueSize * 512)
    (hmin : o.tailNode + j ≤ o.minNode) (hwritten : o.tailNode + j ≤ o.tailNodeWrite.abs)
    (hsync : ∀ o', Runs P c o o' →
      o'.marks = { o.marks with tailNode := o'.tailNode } → o'.tailNode < o.tailNode + j →
      ¬(o'.entersSyncBatch = true ∧ ¬o'.syncBatchConsumed = true)) :
    ∃ o', Runs P c o o' ∧ o'.pc = .release r ∧ o'.freeCount = o.freeCount ∧
      o'.marks = { o.marks with tailNode := o.tailNode + j } := by
  induction j generalizing o with
  | zero => exact ⟨o, Runs.refl P c o, hpc, rfl, rfl⟩
  | succ j ih =>
    have hchk := hsync o (Runs.refl P c o) rfl (by omega)
    have hstep : o.step P c = some { advanceTail P o with pc := .release (r + j) } := by
      simp only [step, hpc]
      rw [if_pos ⟨by omega, by omega, by omega, hfree⟩, if_neg hchk]
      rfl
    have hmarks : ({ advanceTail P o with pc := .release (r + j) } : Orchestrator).marks =
        { o.marks with tailNode := o.tailNode + 1 } := rfl
    obtain ⟨o', hrun, hpc', hfree', hmarks'⟩ :=
      ih (o := { advanceTail P o with pc := .release (r + j) }) rfl hfree
        (by show o.tailNode + 1 + j ≤ o.minNode; omega)
        (by show o.tailNode + 1 + j ≤ o.tailNodeWrite.abs; omega)
        (fun o' hrun hm hlt => by
          have hlt : o'.tailNode < o.tailNode + 1 + j := hlt
          exact hsync o' (Runs.head hstep hrun) hm (by omega))
    refine ⟨o', Runs.head hstep hrun, hpc', hfree', hmarks'.trans ?_⟩
    show Marks.mk _ (o.tailNode + 1 + j) _ _ _ _ _ _ = _
    rw [Nat.add_assoc, Nat.add_comm 1 j]
    rfl

/-- The release loop ends. -/
lemma runs_finish {r : ℕ} (hpc : o.pc = .release r) :
    ∃ o', Runs P c o o' ∧ o'.pc = .finish ∧ o.tailNode ≤ o'.tailNode ∧
      o'.marks = { o.marks with tailNode := o'.tailNode } := by
  induction r generalizing o with
  | zero =>
    refine ⟨{ o with pc := .finish }, Runs.single ?_, rfl, le_rfl, rfl⟩
    simp only [step, hpc]
    rw [if_neg (by omega)]
  | succ r ih =>
    by_cases hgo : (o.tailNode < o.minNode ∧ o.tailNode < o.tailNodeWrite.abs ∧
      o.freeCount < queueSize * 512) ∧ ¬(o.entersSyncBatch = true ∧ ¬o.syncBatchConsumed = true)
    · obtain ⟨o', hrun, hpc', hle, hmarks⟩ :=
        ih (o := { advanceTail P o with pc := .release r }) rfl
      refine ⟨o', Runs.head ?_ hrun, hpc', (Nat.le_succ _).trans hle, hmarks⟩
      simp only [step, hpc]
      rw [if_pos ⟨Nat.succ_pos _, hgo.1⟩, if_neg hgo.2]
      rfl
    · refine ⟨{ o with pc := .finish }, Runs.single ?_, rfl, le_rfl, rfl⟩
      simp only [step, hpc]
      by_cases hgo' : 0 < r + 1 ∧ o.tailNode < o.minNode ∧ o.tailNode < o.tailNodeWrite.abs ∧
          o.freeCount < queueSize * 512
      · rw [if_pos hgo', if_pos (not_not.mp fun h => hgo ⟨hgo'.2, h⟩)]
      · rw [if_neg hgo']

/-- The node buffer never holds more than it can, so that the loop goes on. -/
lemma runs_toTop (hc : CursorInv P c o) (hpc : o.pc = .finish) :
    ∃ o', Runs P c o o' ∧ o'.pc = .top ∧ o'.marks = o.marks := by
  refine ⟨{ o with node := o.nextNode, pc := .top }, Runs.single ?_, rfl, rfl⟩
  have hr : o.reserved = o.parentIter.node := reserved_eq (by simp [hpc])
  have hspan := hc.nodeRing.lt
  have hdvd := hc.reserved_dvd
  rw [hr] at hspan hdvd
  have hlt : o.parentIter.node / P.C.nodesPerPage * P.C.nodesPerPage <
      (o.tailNode / P.C.nodesPerPage + nodeBufferBatches) * P.C.nodesPerPage :=
    Nat.mul_lt_mul_of_pos_right hspan P.C.nodesPerPage_pos
  rw [Nat.div_mul_cancel hdvd, Nat.add_mul] at hlt
  have hle := Nat.div_mul_le_self o.tailNode P.C.nodesPerPage
  have hsize : 0 < nodeBufferBatches * P.C.nodesPerPage :=
    Nat.mul_pos (by decide) P.C.nodesPerPage_pos
  simp only [step, hpc]
  rw [if_neg (by omega)]

/-- From the release loop back to the head of the loop. -/
lemma runs_release_toTop (hc : CursorInv P c o) {r : ℕ} (hpc : o.pc = .release r) :
    ∃ o', Runs P c o o' ∧ o'.pc = .top ∧ o.tailNode ≤ o'.tailNode ∧
      o'.marks = { o.marks with tailNode := o'.tailNode } := by
  obtain ⟨o₁, hrun₁, hpc₁, hle, hmarks₁⟩ := runs_finish (P := P) (c := c) hpc
  obtain ⟨o₂, hrun₂, hpc₂, hmarks₂⟩ := runs_toTop (hrun₁.cursor hc) hpc₁
  have htail : o₂.tailNode = o₁.tailNode := congrArg Marks.tailNode hmarks₂
  exact ⟨o₂, hrun₁.trans hrun₂, hpc₂, htail ▸ hle, by rw [hmarks₂, hmarks₁, htail]⟩

end Orchestrator

namespace Pc1

open Orchestrator

variable {P : Setup} {s : Pc1}

/-- A run of the orchestrator is a run of the system. -/
lemma reachable_orchestrator (h : Transition.Reachable (Pc1.step P) init s) {o : Orchestrator}
    (hrun : Orchestrator.Runs P (fun k => (s.coords k).coordinatorNode) s.orch o) :
    Transition.Reachable (Pc1.step P) init { s with orch := o } := by
  refine Transition.Reachable.invariant (P := fun o =>
    Transition.Reachable (Pc1.step P) init { s with orch := o }) hrun h fun o _ o' ih hs => ?_
  refine ih.next (a := .orchestrator) ?_
  simp only [Pc1.step, hs]

/-- The first batch of 2KiB sectors is read as one. -/
lemma runs_twoKiB {i : ℕ} (hi : i < 128) : ∃ o rb,
    Runs Setup.twoKiB (fun _ => 0) Orchestrator.init o ∧ o.pc = .readNodes rb i ∧
      o.parentIter.node = i ∧
      ∀ slot, i ≤ slot → o.sys.parentBufferIo slot = fun _ => ⟨0, .read⟩ := by
  have hload := runs_load (P := Setup.twoKiB) (c := fun _ => 0) (o := Orchestrator.init) rfl rfl
    (by decide)
  have hmax : ∀ o : Orchestrator, o.sys = .init → o.parentIter = ⟨0, 0, 0⟩ →
      o.maxBatch Setup.twoKiB = 128 := by
    intro o hsys hiter
    rw [maxBatch, hsys, hiter]
    decide
  have hstep := hload.trans (Runs.single (by
    simp only [Orchestrator.step]
    rw [if_pos ⟨by decide, by rw [hmax _ rfl rfl]; decide⟩]))
  obtain ⟨o, rb, hrun, hpc, -, hmarks, hio⟩ :=
    runs_readNodes (hstep.cursor (init_inv Setup.twoKiB).cursor) rfl (i := i)
      (by show i < maxBatch Setup.twoKiB _; rw [hmax _ rfl rfl]; exact hi)
  have hnode : o.parentIter.node = 0 + i := congrArg Marks.node hmarks
  refine ⟨o, rb, hstep.trans hrun, hpc, hnode.trans (Nat.zero_add i), fun slot hslot => ?_⟩
  refine (hio slot fun n _ hn => ?_).trans rfl
  have hn : n < 0 + i := hn
  rw [Nat.mod_eq_of_lt (lt_trans (by omega) (by decide : 128 < parentBufferBatches))]
  omega

end Pc1

end SupraSeal
