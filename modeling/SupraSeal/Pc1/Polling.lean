import SupraSeal.Pc1.Progress
import SupraSeal.Pc1.Work

/-!
# The polling loop

What can be said of the orchestrator when it only polls, that is when its members stay as they are
in all further rounds of `process`. It still gets back to the head of the loop, and each phase of
the round after it tells which condition holds the phase up.
-/

namespace SupraSeal

/-- Bound on the steps that are left in a round of the loop, with `n` coordinators. -/
def OrchPc.stepsLeft (n : ℕ) : OrchPc → ℕ
  | .load i => 4 * Orchestrator.actionBatch + 6 + (n - i)
  | .read => 4 * Orchestrator.actionBatch + 5
  | .writeNodes r => r + 3 * Orchestrator.actionBatch + 4
  | .releaseParents r => r + 2 * Orchestrator.actionBatch + 3
  | .advanceWritten r => r + Orchestrator.actionBatch + 2
  | .release r => r + 1
  | .readNodes _ _ | .finish | .top | .finished | .exited => 0

namespace Orchestrator

variable {P : Setup} {cn : ℕ → ℕ} {o o' : Orchestrator}

/-- All further steps only poll while the coordinators report `cn`. -/
def Polls (P : Setup) (cn : ℕ → ℕ) (o : Orchestrator) : Prop :=
  ∀ o₁, Runs P cn o o₁ → ∀ o₂, o₁.step P cn = some o₂ → o₂.members = o₁.members

namespace Polls

lemma runs (hp : Polls P cn o) (h : Runs P cn o o') : Polls P cn o' :=
  fun o₁ h₁ => hp o₁ (h.trans h₁)

lemma members_step (hp : Polls P cn o) (h : o.step P cn = some o') : o'.members = o.members :=
  hp o (Runs.refl P cn o) o' h

lemma step (hp : Polls P cn o) (h : o.step P cn = some o') : Polls P cn o' :=
  hp.runs (Runs.single h)

/-- Nothing is read. -/
lemma not_read (hp : Polls P cn o) (hpc : o.pc = .read) :
    ¬(o.parentIter.node < P.nodeStop ∧ o.maxBatch P ≠ 0) := by
  intro hread
  have hstep : o.step P cn = some { (reserveBatch P (o.maxBatch P) o).2 with
      pc := .readNodes (reserveBatch P (o.maxBatch P) o).1 0 } := by
    simp only [Orchestrator.step, hpc, if_pos hread]
  have hsize : o.sys.parentBuffer.curSize + o.maxBatch P = o.sys.parentBuffer.curSize :=
    congrArg (fun o : Orchestrator => o.sys.parentBuffer.curSize) (hp.members_step hstep)
  have := Nat.pos_of_ne_zero hread.2
  omega

lemma not_readNodes (hc : CursorInv P cn o) (hp : Polls P cn o) (rb : ReadBatch) (i : ℕ) :
    o.pc ≠ .readNodes rb i := by
  intro hpc
  have hstep : o.step P cn = some { readNode P rb i o with pc := nextReadPc rb i } := by
    simp only [Orchestrator.step, hpc]
  have hmem := hp.members_step hstep
  rw [readNode_eq hc.iter] at hmem
  have hnode : o.parentIter.node + 1 = o.parentIter.node :=
    congrArg (fun o : Orchestrator => o.parentIter.node) hmem
  exact Nat.succ_ne_self _ hnode

/-- The round goes on, unless the loop is over. -/
lemma exists_step (hc : CursorInv P cn o) (hp : Polls P cn o)
    (hpc : ¬(o.pc = .top ∨ o.pc = .finished ∨ o.pc = .exited)) :
    ∃ o', o.step P cn = some o' ∧
      (o'.pc.stepsLeft P.numCoordinators < o.pc.stepsLeft P.numCoordinators ∨ o'.pc = .top ∨
        o'.pc = .exited) := by
  cases h : o.pc <;> simp only [Orchestrator.step, h]
  case top => exact absurd (.inl h) hpc
  case finished => exact absurd (.inr (.inl h)) hpc
  case exited => exact absurd (.inr (.inr h)) hpc
  case load i =>
    by_cases hmore : i + 1 < P.numCoordinators
    · rw [if_pos hmore]
      refine ⟨_, rfl, .inl ?_⟩
      simp only [OrchPc.stepsLeft]
      omega
    · rw [if_neg hmore]
      refine ⟨_, rfl, .inl ?_⟩
      simp only [OrchPc.stepsLeft]
      omega
  case read =>
    rw [if_neg (hp.not_read h)]
    refine ⟨_, rfl, .inl ?_⟩
    simp only [OrchPc.stepsLeft]
    omega
  case readNodes rb i => exact absurd h (hp.not_readNodes hc rb i)
  case finish =>
    split_ifs
    · exact ⟨_, rfl, .inr (.inr rfl)⟩
    · exact ⟨_, rfl, .inr (.inl rfl)⟩
  all_goals
    split_ifs <;> refine ⟨_, rfl, .inl ?_⟩ <;> simp only [OrchPc.stepsLeft, actionBatch] <;> omega

/-- The orchestrator gets back to the head of the loop, unless the loop is over. -/
lemma exists_top (hc : CursorInv P cn o) (hp : Polls P cn o) :
    ∃ o', Runs P cn o o' ∧ o'.members = o.members ∧
      (o'.pc = .top ∨ o'.pc = .finished ∨ o'.pc = .exited) := by
  induction hn : o.pc.stepsLeft P.numCoordinators using Nat.strong_induction_on generalizing o with
  | _ n ih =>
    by_cases hpc : o.pc = .top ∨ o.pc = .finished ∨ o.pc = .exited
    · exact ⟨o, Runs.refl P cn o, rfl, hpc⟩
    · obtain ⟨o', hstep, hlt | htop | hexit⟩ := exists_step hc hp hpc
      · obtain ⟨o'', hruns, hm, hpc''⟩ := ih _ (hn ▸ hlt) (hc.step hstep) (hp.step hstep) rfl
        exact ⟨o'', Runs.head hstep hruns, hm.trans (hp.members_step hstep), hpc''⟩
      · exact ⟨o', Runs.single hstep, hp.members_step hstep, .inl htop⟩
      · exact ⟨o', Runs.single hstep, hp.members_step hstep, .inr (.inr hexit)⟩

end Polls

/-! ### One round -/

/-- A later state of the same round, when nothing was done in between. -/
structure Later (P : Setup) (cn : ℕ → ℕ) (o o' : Orchestrator) : Prop where
  runs : Runs P cn o o'
  members : o'.members = o.members
  minNodeHash : o'.minNodeHash = o.minNodeHash
  minNode : o'.minNode = o.minNode

lemma Later.trans {o'' : Orchestrator} (h : Later P cn o o') (h' : Later P cn o' o'') :
    Later P cn o o'' :=
  ⟨h.runs.trans h'.runs, h'.members.trans h.members, h'.minNodeHash.trans h.minNodeHash,
    h'.minNode.trans h.minNode⟩

/-- The progress of all coordinators is loaded as its minimum. -/
lemma runs_loads {i : ℕ} (hi : i < P.numCoordinators) (hpc : o.pc = .load i)
    (hle : ∀ k < i, o.minNodeHash ≤ cn k)
    (hmem : 0 < i → ∃ k < P.numCoordinators, o.minNodeHash = cn k) :
    ∃ o', Runs P cn o o' ∧ o'.members = o.members ∧ o'.pc = .read ∧
      (∀ k < P.numCoordinators, o'.minNodeHash ≤ cn k) ∧
      (∃ k < P.numCoordinators, o'.minNodeHash = cn k) ∧
      o'.minNode = min o'.minNodeHash o'.tailNodeWrite.abs := by
  induction hn : P.numCoordinators - i generalizing i o with
  | zero => omega
  | succ n ih =>
    set m := if i = 0 then cn 0 else min o.minNodeHash (cn i) with hm
    have hle' : ∀ k < i + 1, m ≤ cn k := by
      intro k hk
      rw [hm]
      rcases Nat.lt_succ_iff_lt_or_eq.mp hk with hk | rfl
      · rw [if_neg (by omega)]
        exact (min_le_left _ _).trans (hle k hk)
      · split_ifs with h0
        · rw [h0]
        · exact min_le_right _ _
    have hmem' : ∃ k < P.numCoordinators, m = cn k := by
      rw [hm]
      split_ifs with h0
      · exact ⟨0, h0 ▸ hi, rfl⟩
      · rcases min_choice o.minNodeHash (cn i) with h | h
        · rw [h]
          exact hmem (Nat.pos_of_ne_zero h0)
        · exact ⟨i, hi, h⟩
    by_cases hmore : i + 1 < P.numCoordinators
    · have hstep : o.step P cn = some { o with minNodeHash := m, pc := .load (i + 1) } := by
        simp only [Orchestrator.step, hpc, if_pos hmore, hm]
      obtain ⟨o', hruns, hmem', h⟩ := ih (o := { o with minNodeHash := m, pc := .load (i + 1) })
        hmore rfl hle' (fun _ => hmem') (by omega)
      exact ⟨o', Runs.head hstep hruns, hmem', h⟩
    · have hstep : o.step P cn = some { o with
          minNodeHash := m, minNode := min m o.tailNodeWrite.abs, pc := .read } := by
        simp only [Orchestrator.step, hpc, if_neg hmore, hm]
      exact ⟨_, Runs.single hstep, rfl, rfl, fun k hk => hle' k (by omega), hmem', rfl⟩

namespace Polls

lemma later_read (hp : Polls P cn o) (hpc : o.pc = .read) :
    ∃ o', Later P cn o o' ∧ o'.pc = .writeNodes actionBatch := by
  have hstep : o.step P cn = some { o with pc := .writeNodes actionBatch } := by
    simp only [Orchestrator.step, hpc, if_neg (hp.not_read hpc)]
  exact ⟨_, ⟨Runs.single hstep, rfl, rfl, rfl⟩, rfl⟩

/-- No write is issued for a hashed page. -/
lemma fifo_full (hp : Polls P cn o) {r : ℕ} (hpc : o.pc = .writeNodes (r + 1))
    (hlt : o.headNodeWrite.abs / P.C.nodesPerPage < o.minNodeHash / P.C.nodesPerPage) :
    o.sys.nodeWriteFifo.length = P.diskFifoDepth := by
  by_contra hroom
  have hhead : o.headNodeWrite.abs < o.minNodeHash := Nat.lt_of_div_lt_div hlt
  obtain ⟨sys, hstep⟩ : ∃ sys, o.step P cn = some { o with
      sys := sys
      headNodeWrite := o.headNodeWrite.addAssign (nodeBufferBatches * P.C.nodesPerPage)
        P.C.nodesPerPage
      outstandingWrites := o.outstandingWrites + P.C.nodesPerPage / P.C.nodesPerPage
      pc := .writeNodes r } := by
    refine ⟨(writeNodes P o).2, ?_⟩
    simp only [Orchestrator.step, hpc, if_pos (And.intro (Nat.succ_pos r) hhead), writeNodes,
      if_pos hlt, if_neg hroom, Nat.add_sub_cancel]
  have habs : o.headNodeWrite.abs + P.C.nodesPerPage = o.headNodeWrite.abs :=
    congrArg RingCounter.abs (of_members (hp.members_step hstep)).2.2.2.2.2
  have := P.C.nodesPerPage_pos
  omega

/-- The rounds of the loop over the writes pass. -/
lemma later_writeNodes (hp : Polls P cn o) {r : ℕ} (hpc : o.pc = .writeNodes r) :
    ∃ o', Later P cn o o' ∧ o'.pc = .releaseParents actionBatch := by
  induction r generalizing o with
  | zero =>
    have hstep : o.step P cn = some { o with pc := .releaseParents actionBatch } := by
      simp only [Orchestrator.step, hpc, if_neg (show ¬(0 < 0 ∧ _) from fun h => h.1.false)]
    exact ⟨_, ⟨Runs.single hstep, rfl, rfl, rfl⟩, rfl⟩
  | succ r ih =>
    cases hstep : o.step P cn with
    | none =>
      simp only [Orchestrator.step, hpc] at hstep
      split_ifs at hstep
    | some o' =>
      have hnext : Later P cn o o' ∧ (o'.pc = .writeNodes r ∨ o'.pc = .releaseParents actionBatch) := by
        have hmem := hp.members_step hstep
        have hruns := Runs.single hstep
        simp only [Orchestrator.step, hpc] at hstep
        split_ifs at hstep <;> cases hstep
        · exact ⟨⟨hruns, hmem, rfl, rfl⟩, .inl rfl⟩
        · exact ⟨⟨hruns, hmem, rfl, rfl⟩, .inr rfl⟩
      obtain ⟨hlater, hpc' | hpc'⟩ := hnext
      · obtain ⟨o'', hlater', hpc''⟩ := ih (hp.step hstep) hpc'
        exact ⟨o'', hlater.trans hlater', hpc''⟩
      · exact ⟨o', hlater, hpc'⟩

/-- All parents that may be released are released. -/
lemma later_releaseParents (hp : Polls P cn o) {r : ℕ} (hpc : o.pc = .releaseParents (r + 1)) :
    o.minNodeHash ≤ o.tailNodeParents ∧
      ∃ o', Later P cn o o' ∧ o'.pc = .advanceWritten actionBatch := by
  by_cases hlt : o.tailNodeParents < o.minNodeHash
  · have hstep : o.step P cn = some { releaseParent o with pc := .releaseParents r } := by
      simp only [Orchestrator.step, hpc, if_pos (And.intro (Nat.succ_pos r) hlt),
        Nat.add_sub_cancel]
    have htail := (of_members (hp.members_step hstep)).2.2.2.1
    exact absurd htail (Nat.succ_ne_self _)
  · have hstep : o.step P cn = some { o with pc := .advanceWritten actionBatch } := by
      simp only [Orchestrator.step, hpc, if_neg (mt And.right hlt)]
    exact ⟨not_lt.mp hlt, _, ⟨Runs.single hstep, rfl, rfl, rfl⟩, rfl⟩

/-- The write of the page at the written tail is not complete, if there is one. -/
lemma later_advanceWritten (hp : Polls P cn o) {r : ℕ} (hpc : o.pc = .advanceWritten (r + 1)) :
    (o.tailNodeWrite.idx P.C.nodesPerPage = o.headNodeWrite.idx P.C.nodesPerPage ∨
      o.sys.nodeBuffer.valid (o.tailNodeWrite.idx P.C.nodesPerPage) = 0) ∧
    ∃ o', Later P cn o o' ∧ o'.pc = .release actionBatch ∧
      o'.freeCount = o.sys.nodeBuffer.freeCount := by
  by_cases hadv : o.tailNodeWrite.idx P.C.nodesPerPage ≠ o.headNodeWrite.idx P.C.nodesPerPage ∧
      o.sys.nodeBuffer.valid (o.tailNodeWrite.idx P.C.nodesPerPage) ≠ 0
  · have hstep : o.step P cn = some { o with
        outstandingWrites := o.outstandingWrites - 1
        tailNodeWrite := o.tailNodeWrite.addAssign (nodeBufferBatches * P.C.nodesPerPage)
          P.C.nodesPerPage
        pc := .advanceWritten r } := by
      simp only [Orchestrator.step, hpc, if_pos (And.intro (Nat.succ_pos r) hadv),
        Nat.add_sub_cancel]
    have habs : o.tailNodeWrite.abs + P.C.nodesPerPage = o.tailNodeWrite.abs :=
      congrArg RingCounter.abs (of_members (hp.members_step hstep)).2.2.2.2.1
    have := P.C.nodesPerPage_pos
    omega
  · have hstep : o.step P cn = some { o with
        freeCount := o.sys.nodeBuffer.freeCount, pc := .release actionBatch } := by
      simp only [Orchestrator.step, hpc, if_neg (mt And.right hadv)]
    refine ⟨?_, _, ⟨Runs.single hstep, rfl, rfl, rfl⟩, rfl, rfl⟩
    rcases not_and_or.mp hadv with h | h
    · exact .inl (not_ne_iff.mp h)
    · exact .inr (not_ne_iff.mp h)

/-- The tail waits for the references to its sync batch, unless there is nothing to release. -/
lemma tail_blocked (hp : Polls P cn o) {r : ℕ} (hpc : o.pc = .release (r + 1))
    (hmin : o.tailNode < o.minNode) (hlt : o.tailNode < o.tailNodeWrite.abs)
    (hfree : o.freeCount < queueSize * 512) :
    o.entersSyncBatch = true ∧ ¬o.syncBatchConsumed = true := by
  by_contra hchk
  have hstep : o.step P cn = some { advanceTail P o with pc := .release r } := by
    simp only [Orchestrator.step, hpc, Nat.succ_pos r, hmin, hlt, hfree, and_self, if_true,
      if_neg hchk, Nat.add_sub_cancel]
  have htail := (of_members (hp.members_step hstep)).2.2.1
  exact absurd htail (Nat.succ_ne_self _)

/-- What holds up each phase of a round, with the least progress `m` of the coordinators: there is
no room to read, the queue of the writer is full, the parents up to `m` are released, the write at
the tail is not complete, and the references to the tail are not consumed. -/
theorem round (hp : Polls P cn o) (hpc : o.pc = .top) (hmore : o.tailNodeWrite.abs < P.nodeStop) :
    ∃ m, (∀ k < P.numCoordinators, m ≤ cn k) ∧ (∃ k < P.numCoordinators, m = cn k) ∧
      (o.parentIter.node < P.nodeStop → o.maxBatch P = 0) ∧
      (o.headNodeWrite.abs / P.C.nodesPerPage < m / P.C.nodesPerPage →
        o.sys.nodeWriteFifo.length = P.diskFifoDepth) ∧
      m ≤ o.tailNodeParents ∧
      (o.tailNodeWrite.idx P.C.nodesPerPage = o.headNodeWrite.idx P.C.nodesPerPage ∨
        o.sys.nodeBuffer.valid (o.tailNodeWrite.idx P.C.nodesPerPage) = 0) ∧
      (o.tailNode < min m o.tailNodeWrite.abs → o.sys.nodeBuffer.freeCount < queueSize * 512 →
        o.entersSyncBatch = true ∧ ¬o.syncBatchConsumed = true) := by
  have htop : o.step P cn = some { o with nextNode := o.parentIter.node, pc := .load 0 } := by
    simp only [Orchestrator.step, hpc, if_pos (Or.inr (Or.inl hmore))]
  have hnone : ∀ k < 0, o.minNodeHash ≤ cn k := fun k hk => absurd hk (Nat.not_lt_zero k)
  obtain ⟨o₁, hruns₁, hm₁, hpc₁, hall, hex, hmin₁⟩ := runs_loads
    (o := { o with nextNode := o.parentIter.node, pc := .load 0 })
    (numCoordinators_pos P) rfl hnone (fun h => absurd h (Nat.lt_irrefl 0))
  have hp₁ := hp.runs (Runs.head htop hruns₁)
  obtain ⟨o₂, h₂, hpc₂⟩ := hp₁.later_read hpc₁
  obtain ⟨o₃, h₃, hpc₃⟩ := (hp₁.runs h₂.runs).later_writeNodes hpc₂
  have h₃ := h₂.trans h₃
  obtain ⟨hparents, o₄, h₄, hpc₄⟩ := (hp₁.runs h₃.runs).later_releaseParents hpc₃
  have h₄ := h₃.trans h₄
  obtain ⟨hwritten, o₅, h₅, hpc₅, hfree₅⟩ := (hp₁.runs h₄.runs).later_advanceWritten hpc₄
  have h₅ := h₄.trans h₅
  have hmem {o' : Orchestrator} (h : Later P cn o₁ o') := of_members (h.members.trans hm₁)
  refine ⟨o₁.minNodeHash, hall, hex, fun hlt => ?_, fun hlt => ?_, ?_, ?_, fun hlt hfree => ?_⟩
  · have hm := of_members hm₁
    have hread := hp₁.not_read hpc₁
    simp only [maxBatch, hm.1, hm.2.1] at hread
    exact not_ne_iff.mp fun hne => hread ⟨hlt, hne⟩
  · have hm := hmem h₂
    rw [← hm.2.2.2.2.2, ← h₂.minNodeHash] at hlt
    rw [← hm.1]
    exact (hp₁.runs h₂.runs).fifo_full hpc₂ hlt
  · rwa [(hmem h₃).2.2.2.1, h₃.minNodeHash] at hparents
  · have hm := hmem h₄
    rwa [hm.1, hm.2.2.2.2.1, hm.2.2.2.2.2] at hwritten
  · have hm := hmem h₅
    have hblocked := (hp₁.runs h₅.runs).tail_blocked hpc₅
    rw [hm.2.2.1, hm.2.2.2.2.1, hfree₅, (hmem h₄).1, h₅.minNode, hmin₁,
      (of_members hm₁).2.2.2.2.1] at hblocked
    simp only [entersSyncBatch, syncBatchConsumed, hm.1] at hblocked
    exact hblocked hlt (hlt.trans_le (min_le_right _ _)) hfree

end Polls

end Orchestrator

end SupraSeal
