import SupraSeal.Pc1.Handover

/-!
# What a coordinator waits for

The threads of a coordinator wait for each other at the mutexes of the ring, for published batches
and for the counters of finished hashers. None of these waits can hold up all of them: when no
thread of a coordinator can go on, it waits for the entry of its node in the parent buffer, or it is
done.

The progress a coordinator reports stays behind its node, since it is reported once in
`NODE_COUNT_UPDATE_INTERVAL` batches and counts only batches that were recovered. `ReportInv` bounds
how far.
-/

namespace SupraSeal

namespace Coordinator

variable {C : Config} {numThreads nodeStop t : ℕ} {c c' : Coordinator} {v : ParentView}

/-! ### Reported progress -/

/-- The invariant of the reported progress: a report names the batches recovered so far, which lack
at most the last two published ones, and at most three batches follow without a report. -/
structure ReportInv (nodeStop : ℕ) (c : Coordinator) : Prop where
  dvd : coordBatchSize ∣ c.coordinatorNode
  updates : c.nodeUpdateBatchCount ≤
    if c.pc = .advance then nodeCountUpdateInterval else nodeCountUpdateInterval - 1
  lag : c.coordNextValid ≤ c.coordinatorNode +
    coordBatchSize * (c.nodeUpdateBatchCount + if c.pc.published then 3 else 2)
  finished : c.pc = .finished → nodeStop ≤ c.coordinatorNode

/-- What is not read here may change. -/
lemma ReportInv.frame (hr : c.ReportInv nodeStop) (hnode : c'.coordinatorNode = c.coordinatorNode)
    (hcount : c'.nodeUpdateBatchCount = c.nodeUpdateBatchCount)
    (hvalid : c'.coordNextValid = c.coordNextValid) (hadv : c.pc ≠ .advance)
    (hpub : c'.pc.published = c.pc.published) (hfin : c'.pc ≠ .finished) :
    c'.ReportInv nodeStop := by
  obtain ⟨hdvd, hupd, hlag, -⟩ := hr
  rw [if_neg hadv] at hupd
  refine ⟨hnode ▸ hdvd, ?_, ?_, fun h => absurd h hfin⟩
  · rw [hcount]
    split_ifs
    · exact hupd.trans (by decide)
    · exact hupd
  · rw [hvalid, hnode, hcount, hpub]
    exact hlag

lemma ReportInv.step (hrun : c.RunInv nodeStop) (hr : c.ReportInv nodeStop)
    (h : c.step numThreads nodeStop v = some c') : c'.ReportInv nodeStop := by
  have hring := hrun.ring
  have hnv := hrun.nextValid
  have hcn := hrun.completed
  have hle := coordNextValid_le hrun
  cases hpc : c.pc <;> simp only [Coordinator.step, hpc] at h
  case publish =>
    obtain ⟨hdvd, hupd, hlag, -⟩ := hr
    simp only [hpc, CoordPc.published, Bool.false_eq_true, if_false, reduceCtorEq] at hupd hlag
    cases h
    refine ⟨hdvd, hupd, ?_, by simp⟩
    show c.coordNextValid + coordBatchSize ≤ c.coordinatorNode +
      coordBatchSize * (c.nodeUpdateBatchCount + 3)
    have hmul : coordBatchSize * (c.nodeUpdateBatchCount + 3) =
        coordBatchSize * (c.nodeUpdateBatchCount + 2) + coordBatchSize := Nat.mul_succ _ _
    omega
  case reserve =>
    obtain ⟨hdvd, hupd, hlag, -⟩ := hr
    simp only [hpc, CoordPc.published, if_true, if_false, reduceCtorEq] at hupd hlag
    rw [RingBuffer.reserve_eq] at h
    split_ifs at h
    cases h
    refine ⟨hdvd, Nat.succ_le_succ hupd, ?_, by simp⟩
    show c.coordNextValid ≤ c.coordinatorNode + coordBatchSize * (c.nodeUpdateBatchCount + 1 + 2)
    omega
  case advance =>
    obtain ⟨hdvd, hupd, hlag, -⟩ := hr
    simp only [hpc, CoordPc.published, Bool.false_eq_true, if_false, if_true] at hupd hlag hring
    obtain ⟨q, hq, hcase⟩ := exists_advancePc c nodeStop
    simp only [hq] at h
    have hpub : q.published = false := by
      rcases hcase with rfl | ⟨rfl, -⟩ <;> rfl
    have hadv : q ≠ .advance := by
      rcases hcase with rfl | ⟨rfl, -⟩ <;> simp
    have hfin : q ≠ .finished := by
      rcases hcase with rfl | ⟨rfl, -⟩ <;> simp
    split_ifs at h with hu <;> cases h
    · -- at most two batches are published and not recovered
      have hlt := hring.lt
      refine ⟨hcn, ?_, ?_, fun h => absurd h hfin⟩
      · rw [if_neg hadv]
        exact Nat.zero_le _
      · simp only [hpub, Bool.false_eq_true, if_false, Nat.zero_add]
        simp only [batches, released, coordBatchSize, coordBatchCount] at hlt hnv hcn ⊢
        omega
    · refine ⟨hdvd, ?_, ?_, fun h => absurd h hfin⟩
      · simp only [if_neg hadv]
        exact Nat.le_sub_one_of_lt (lt_of_le_of_ne hupd hu)
      · simpa only [hpub, Bool.false_eq_true, if_false] using hlag
  case drain =>
    split_ifs at h with hlt hcount <;> cases h
    · exact hr.frame rfl rfl rfl (by simp [hpc]) (by simp [hpc, CoordPc.published]) (by simp)
    · obtain ⟨-, hupd, -, -⟩ := hr
      rw [if_neg (by simp [hpc])] at hupd
      refine ⟨hcn, hupd, ?_, fun _ => not_lt.mp hlt⟩
      show c.coordNextValid ≤ c.completedNode + _
      omega
  case finished => simp at h
  all_goals first
    | cases h; exact hr.frame rfl rfl rfl (by simp [hpc]) (by simp [hpc, CoordPc.published]) (by simp)
    | split_ifs at h <;> cases h <;>
        exact hr.frame rfl rfl rfl (by simp [hpc]) (by simp [hpc, CoordPc.published]) (by simp)

lemma ReportInv.hasherStep (hr : c.ReportInv nodeStop)
    (h : c.hasherStep C nodeStop t = some c') : c'.ReportInv nodeStop := by
  obtain ⟨_, _, _, rfl⟩ := hasherStep_frame h
  exact ⟨hr.dvd, hr.updates, hr.lag, hr.finished⟩

/-- A coordinator that fills a batch has reported progress less than six batches behind its node. -/
lemma ReportInv.node_lt (hrun : c.RunInv nodeStop) (hr : c.ReportInv nodeStop)
    (hpc : c.pc = .outer) :
    c.node < c.coordinatorNode + coordBatchSize * (nodeCountUpdateInterval + 2) := by
  have hpos := hrun.pos
  have hupd := hr.updates
  have hlag := hr.lag
  simp only [NodePos, hpc, CoordPc.published, Bool.false_eq_true, if_false, reduceCtorEq,
    nodeCountUpdateInterval, coordBatchSize] at *
  omega

/-! ### Mutexes -/

/-- Batches whose mutex the coordinator has given up. -/
def opened (c : Coordinator) : ℕ := if c.pc = .publish then c.batches + 1 else c.batches

/-- The invariant of what the threads wait for. -/
structure WaitInv (numThreads nodeStop : ℕ) (c : Coordinator) : Prop where
  opened : ∀ b, c.released ≤ b → b < c.opened →
    c.coordReadyMtx (b % coordBatchCount) ≠ .coordinator
  held : ∀ slot t, c.coordReadyMtx slot = .hasher t →
    t < numThreads ∧ (c.hashers t).pc = .unlock ∧ (c.hashers t).coordIdx = slot
  room : c.pc = .reserve → c.coordRing.isFull = false
  finished : ∀ t < numThreads, (c.hashers t).pc = .finished → nodeStop ≤ (c.hashers t).thrNode

lemma WaitInv.frame (hw : c.WaitInv numThreads nodeStop)
    (hmtx : c'.coordReadyMtx = c.coordReadyMtx) (hhash : c'.hashers = c.hashers)
    (hrel : c.released ≤ c'.released) (hopen : c'.opened = c.opened)
    (hroom : c'.pc = .reserve → c'.coordRing.isFull = false) : c'.WaitInv numThreads nodeStop := by
  obtain ⟨h1, h2, -, h4⟩ := hw
  refine ⟨fun b hb hlt => ?_, ?_, hroom, ?_⟩
  · rw [hmtx]
    exact h1 b (hrel.trans hb) (hopen ▸ hlt)
  · rw [hmtx, hhash]
    exact h2
  · rw [hhash]
    exact h4

lemma WaitInv.step (hrun : c.RunInv nodeStop) (hw : c.WaitInv numThreads nodeStop)
    (h : c.step numThreads nodeStop v = some c') : c'.WaitInv numThreads nodeStop := by
  have hslot := hrun.slot
  have hring := hrun.ring
  have hadd : c.released ≤ (c.completedNode + coordBatchSize) / coordBatchSize :=
    Nat.div_le_div_right (Nat.le_add_right _ _)
  cases hpc : c.pc <;> simp only [Coordinator.step, hpc] at h
  case unlock =>
    simp only [hpc, CoordPc.published, Bool.false_eq_true, if_false] at hslot
    cases h
    refine ⟨fun b hb hlt => ?_, fun slot t => ?_, by simp, hw.finished⟩
    · show Function.update c.coordReadyMtx c.coordBatchIdx .free _ ≠ _
      have hlt : b < c.batches + 1 := hlt
      rw [hslot, Function.update_apply]
      split_ifs with heq
      · simp
      · refine hw.opened b hb ?_
        rw [Coordinator.opened, if_neg (by simp [hpc])]
        exact lt_of_le_of_ne (Nat.le_of_lt_succ hlt) fun hb => heq (by rw [hb])
    · show Function.update c.coordReadyMtx c.coordBatchIdx .free slot = _ → _
      rw [Function.update_apply]
      split_ifs
      · simp
      · exact hw.held slot t
  case publish =>
    cases h
    refine hw.frame rfl rfl le_rfl ?_ (by simp)
    simp only [Coordinator.opened, hpc, reduceCtorEq, if_false, if_true, batches, batches_add]
  case recover =>
    split_ifs at h with hfull hcount <;> cases h
    · exact hw.frame rfl rfl le_rfl (by simp [Coordinator.opened, hpc, batches]) (by simp)
    · exact hw.frame rfl rfl le_rfl (by simp [Coordinator.opened, hpc, batches])
        fun _ => by simpa using hfull
  case lock =>
    have hfull := hrun.full (.inr hpc)
    have hpub := hring.lt
    simp only [hpc, CoordPc.published, if_true] at hpub
    split_ifs at h with hfree
    cases h
    refine ⟨fun b hb hlt => ?_, fun slot t => ?_, fun _ => ?_, hw.finished⟩
    · have hb : (c.completedNode + coordBatchSize) / coordBatchSize ≤ b := hb
      rw [released_add] at hb
      have hlt : b < c.batches := hlt
      show Function.update c.coordReadyMtx c.coordRing.tail .coordinator _ ≠ _
      rw [hring.tail, Function.update_of_ne]
      · refine hw.opened b (by omega) ?_
        rwa [Coordinator.opened, if_neg (by simp [hpc])]
      · exact (Wrap.mod_ne_of_lt hb (by omega)).symm
    · show Function.update c.coordReadyMtx c.coordRing.tail .coordinator slot = _ → _
      rw [Function.update_apply]
      split_ifs
      · simp
      · exact hw.held slot t
    · simp only [RingBuffer.isFull, RingBuffer.release, RingBuffer.capacity, beq_iff_eq,
        beq_eq_false_iff_ne, coordBatchCount] at hfull ⊢
      omega
  case reserve =>
    rw [RingBuffer.reserve_eq] at h
    split_ifs at h
    cases h
    exact hw.frame rfl rfl le_rfl (by simp [Coordinator.opened, hpc, batches]) (by simp)
  case advance =>
    obtain ⟨q, hq, hcase⟩ := exists_advancePc c nodeStop
    simp only [hq] at h
    split_ifs at h <;> cases h <;> rcases hcase with rfl | ⟨rfl, -⟩ <;>
      exact hw.frame rfl rfl le_rfl (by simp [Coordinator.opened, hpc, batches]) (by simp)
  case drainReset =>
    cases h
    exact hw.frame rfl rfl hadd (by simp [Coordinator.opened, hpc, batches]) (by simp)
  case finished => simp at h
  all_goals first
    | cases h
      exact hw.frame rfl rfl le_rfl (by simp [Coordinator.opened, hpc, batches]) (by simp)
    | split_ifs at h <;> cases h <;>
        exact hw.frame rfl rfl le_rfl (by simp [Coordinator.opened, hpc, batches]) (by simp)

/-- A hasher that holds no mutex moves on. -/
lemma WaitInv.setHasher (hw : c.WaitInv numThreads nodeStop) (hpc : (c.hashers t).pc ≠ .unlock)
    {h' : Hasher} {done : ℕ → ℕ} (hfin : h'.pc = .finished → nodeStop ≤ h'.thrNode) :
    WaitInv numThreads nodeStop { c with
      hashers := Function.update c.hashers t h', coordDoneCount := done } := by
  refine ⟨hw.opened, fun slot u hu => ?_, hw.room, fun u hu => ?_⟩
  · obtain ⟨hlt, hpcu, hidx⟩ := hw.held slot u hu
    have hne : u ≠ t := by
      rintro rfl
      exact hpc hpcu
    show u < numThreads ∧ (Function.update c.hashers t h' u).pc = _ ∧
      (Function.update c.hashers t h' u).coordIdx = _
    rw [Function.update_of_ne hne]
    exact ⟨hlt, hpcu, hidx⟩
  · show (Function.update c.hashers t h' u).pc = _ →
      nodeStop ≤ (Function.update c.hashers t h' u).thrNode
    by_cases hut : u = t
    · subst hut
      rw [Function.update_self]
      exact hfin
    · rw [Function.update_of_ne hut]
      exact hw.finished u hu

lemma WaitInv.hasherStep (hw : c.WaitInv numThreads nodeStop) (ht : t < numThreads)
    (h : c.hasherStep C nodeStop t = some c') : c'.WaitInv numThreads nodeStop := by
  cases hpc : (c.hashers t).pc <;> simp only [Coordinator.hasherStep, hpc] at h
  case top =>
    split_ifs at h with hstop hle <;> cases h
    · exact hw.setHasher (by simp [hpc]) (by simp)
    · exact hw.setHasher (by simp [hpc]) (by simp)
    · exact hw.setHasher (by simp [hpc]) fun _ => not_lt.mp hstop
  case lock =>
    split_ifs at h with hfree
    cases h
    have hmove : WaitInv numThreads nodeStop { c with
        hashers := Function.update c.hashers t { c.hashers t with pc := .unlock } } :=
      hw.setHasher (by simp [hpc]) (by simp)
    refine ⟨fun b hb hlt => ?_, fun slot u => ?_, hw.room, hmove.finished⟩
    · show Function.update c.coordReadyMtx (c.hashers t).coordIdx (.hasher t) _ ≠ _
      rw [Function.update_apply]
      split_ifs
      · simp
      · exact hw.opened b hb hlt
    · show Function.update c.coordReadyMtx (c.hashers t).coordIdx (.hasher t) slot = _ → _
      rw [Function.update_apply]
      split_ifs with heq
      · rintro ⟨⟩
        show _ ∧ (Function.update c.hashers t _ t).pc = _ ∧
          (Function.update c.hashers t _ t).coordIdx = _
        rw [Function.update_self]
        exact ⟨ht, rfl, heq.symm⟩
      · exact hmove.held slot u
  case unlock =>
    cases h
    refine ⟨fun b hb hlt => ?_, fun slot u => ?_, hw.room, fun u hu => ?_⟩
    · show Function.update c.coordReadyMtx (c.hashers t).coordIdx .free _ ≠ _
      rw [Function.update_apply]
      split_ifs
      · simp
      · exact hw.opened b hb hlt
    · show Function.update c.coordReadyMtx (c.hashers t).coordIdx .free slot = _ → _
      rw [Function.update_apply]
      split_ifs with heq
      · simp
      · intro hu
        obtain ⟨hlt, hpcu, hidx⟩ := hw.held slot u hu
        have hne : u ≠ t := by
          rintro rfl
          exact heq hidx.symm
        show u < numThreads ∧ (Function.update c.hashers t _ u).pc = _ ∧
          (Function.update c.hashers t _ u).coordIdx = _
        rw [Function.update_of_ne hne]
        exact ⟨hlt, hpcu, hidx⟩
    · show (Function.update c.hashers t _ u).pc = _ →
        nodeStop ≤ (Function.update c.hashers t _ u).thrNode
      by_cases hut : u = t
      · subst hut
        rw [Function.update_self]
        simp
      · rw [Function.update_of_ne hut]
        exact hw.finished u hu
  case spin =>
    split_ifs at h with hle
    cases h
    exact hw.setHasher (by simp [hpc]) (by simp)
  case hash i =>
    cases h
    refine hw.setHasher (by simp [hpc]) ?_
    split_ifs <;> simp
  case batchDone =>
    cases h
    refine hw.setHasher (by simp [hpc]) ?_
    split_ifs <;> simp
  case finished => simp at h

/-! ### Blocked threads -/

/-- No thread of the coordinator has a step. -/
def Blocked (C : Config) (numThreads nodeStop : ℕ) (v : ParentView) (c : Coordinator) : Prop :=
  c.step numThreads nodeStop v = none ∧ ∀ t < numThreads, c.hasherStep C nodeStop t = none

/-- A slot of an open batch is free when no hasher is about to give it up. -/
lemma WaitInv.free (hw : c.WaitInv numThreads nodeStop)
    (hb : ∀ t < numThreads, c.hasherStep C nodeStop t = none) {b : ℕ} (hrel : c.released ≤ b)
    (hlt : b < c.opened) : c.coordReadyMtx (b % coordBatchCount) = .free := by
  cases hm : c.coordReadyMtx (b % coordBatchCount) with
  | free => rfl
  | coordinator => exact absurd hm (hw.opened b hrel hlt)
  | hasher t =>
    obtain ⟨ht, hpc, -⟩ := hw.held _ t hm
    have hnone := hb t ht
    simp only [Coordinator.hasherStep, hpc] at hnone
    cases hnone

/-- When no hasher has a step, all of them have finished every published batch. -/
lemma finished_of_blocked (hc : c.Inv C numThreads nodeStop) (hw : c.WaitInv numThreads nodeStop)
    (hb : ∀ t < numThreads, c.hasherStep C nodeStop t = none) (ht : t < numThreads) :
    (c.hashers t).finished = c.batches := by
  have hh := hc.hasher t ht
  have hnone := hb t ht
  -- a hasher between two batches that knows of no other has finished them all
  have hidle : (c.hashers t).pc.Idle → c.coordNextValid ≤ (c.hashers t).thrNode →
      (c.hashers t).finished = c.batches := by
    intro hidle hle
    refine le_antisymm hh.le ?_
    rw [hidle.finished]
    exact Nat.div_le_div_right hle
  cases hpc : (c.hashers t).pc <;> simp only [Coordinator.hasherStep, hpc] at hnone
  case top => split_ifs at hnone
  case lock =>
    split_ifs at hnone with hfree
    refine le_antisymm hh.le (not_lt.mp fun hlt => hfree ?_)
    have hrel := (c.released_le_retired).trans (hc.done.retired_le t ht)
    have hopen : c.batches ≤ c.opened := by
      rw [Coordinator.opened]
      split_ifs <;> omega
    rw [hh.coordIdx]
    exact hw.free hb hrel (hlt.trans_le hopen)
  case spin =>
    split_ifs at hnone with hle
    exact hidle (by simp [hpc, HasherPc.Idle]) hle
  case finished =>
    exact hidle (by simp [hpc, HasherPc.Idle])
      ((coordNextValid_le hc.run).trans (hw.finished t ht hpc))
  all_goals cases hnone

/-- The counter of the tail batch is complete when the batch is published and no hasher has a
step. -/
lemma doneCount_of_blocked (hc : c.Inv C numThreads nodeStop) (hw : c.WaitInv numThreads nodeStop)
    (hb : ∀ t < numThreads, c.hasherStep C nodeStop t = none) (hpc : c.pc ≠ .lock)
    (hlt : c.released < c.batches) : c.coordDoneCount c.coordRing.tail = numThreads := by
  have hret : c.retired = c.released := if_neg hpc
  have hcount := hc.done.count c.released hret.le
    (by rw [hret]; exact Nat.lt_add_of_pos_right (by decide))
  rw [hc.run.ring.tail, hcount, Finset.filter_true_of_mem, Finset.card_range]
  intro t ht
  rwa [finished_of_blocked hc hw hb (Finset.mem_range.mp ht)]

/-- A blocked coordinator waits for the entry of its node or, at the end, for a batch, or it is
done. -/
lemma blocked_cases (hc : c.Inv C numThreads nodeStop) (hw : c.WaitInv numThreads nodeStop)
    (hb : c.Blocked C numThreads nodeStop v) :
    (c.pc = .outer ∧ c.node < nodeStop ∧ v.isValid c.idx = false) ∨
      (c.pc = .drain ∧ c.completedNode < nodeStop ∧ c.coordDoneCount c.coordRing.tail ≠ numThreads) ∨
      c.pc = .finished := by
  obtain ⟨hnone, hb⟩ := hb
  have hring := hc.run.ring
  have hdone := doneCount_of_blocked hc hw hb
  cases hpc : c.pc <;> simp only [Coordinator.step, hpc] at hnone <;>
    simp only [hpc, CoordPc.published, Bool.false_eq_true, if_false, if_true] at hring
  case outer =>
    split_ifs at hnone with hlt hv
    exact .inl ⟨rfl, hlt, by simpa using hv⟩
  case recover =>
    split_ifs at hnone with hfull hcount
    refine absurd (hdone (by simp [hpc]) ?_) hcount
    simp only [RingBuffer.isFull, RingBuffer.capacity, hring.curSize, beq_iff_eq,
      coordBatchCount] at hfull
    omega
  case lock =>
    split_ifs at hnone with hfree
    have hfull := hc.run.full (.inr hpc)
    simp only [RingBuffer.isFull, RingBuffer.capacity, hring.curSize, beq_iff_eq,
      coordBatchCount] at hfull
    refine absurd ?_ hfree
    rw [hring.tail]
    refine hw.free hb le_rfl ?_
    rw [Coordinator.opened, if_neg (by simp [hpc])]
    omega
  case reserve =>
    rw [RingBuffer.reserve_eq, hw.room hpc] at hnone
    cases hnone
  case drain =>
    split_ifs at hnone with hlt hcount
    exact .inr (.inl ⟨rfl, hlt, hcount.ne⟩)
  case finished => exact .inr (.inr rfl)
  all_goals
    first
      | cases hnone
      | split_ifs at hnone

/-- With full batches only, it does not wait at the end. -/
theorem outer_of_blocked (hc : c.Inv C numThreads nodeStop) (hw : c.WaitInv numThreads nodeStop)
    (hstop : coordBatchSize ∣ nodeStop) (hb : c.Blocked C numThreads nodeStop v) :
    (c.pc = .outer ∧ c.node < nodeStop ∧ v.isValid c.idx = false) ∨ c.pc = .finished := by
  rcases blocked_cases hc hw hb with houter | ⟨hpc, hlt, hcount⟩ | hfin
  · exact .inl houter
  · refine absurd (doneCount_of_blocked hc hw hb.2 (by simp [hpc]) ?_) hcount
    -- all nodes are published, and not all of them are released
    have hpos := hc.run.pos
    have hle := hc.run.node_le
    have hnv := hc.run.nextValid
    have hcn := hc.run.completed
    simp only [NodePos, hpc, released, batches, coordBatchSize] at *
    omega
  · exact .inr hfin

end Coordinator

end SupraSeal
