import SupraSeal.Pc1.Waiting
import SupraSeal.Pc1.Work
import SupraSeal.Sealing.SectorParameters

/-!
# The end of a run

What a coordinator and its hashers have done when the coordinator leaves its main loop, and that the
threads come to an end. Nodes are published in whole batches, so this depends on whether the nodes of a
run fill the last batch.
-/

namespace SupraSeal

open Transition

/-- The coordinator has left its main loop. -/
def CoordPc.left : CoordPc → Bool
  | .drain | .drainReset | .finished => true
  | _ => false

namespace Coordinator

variable {C : Config} {numThreads nodeStop t : ℕ} {c c' : Coordinator} {v : ParentView}

/-- What a coordinator and its hashers do in every interleaving. -/
structure Complete (C : Config) (numThreads nodeStop : ℕ) : Prop where
  /-- After the main loop all nodes are published. -/
  published : ∀ c, Reachable (Coordinator.next C numThreads nodeStop) init c → c.pc.left →
    c.coordNextValid = nodeStop
  /-- The hashers go through the nodes in order; they stop after the last one. -/
  hashed : ∀ c, Reachable (Coordinator.next C numThreads nodeStop) init c → ∀ t < numThreads,
    (c.hashers t).thrNode ≤ nodeStop ∧
      ((c.hashers t).pc = .finished → (c.hashers t).thrNode = nodeStop)
  /-- The last loop releases batches that are filled and hashed. -/
  drained : ∀ c, Reachable (Coordinator.next C numThreads nodeStop) init c →
    (c.pc = .drain → c.completedNode < nodeStop →
      0 < c.coordRing.curSize ∧ c.completedNode + coordBatchSize ≤ c.coordNextValid) ∧
    (c.pc = .drainReset → ∀ t < numThreads, c.completedNode + coordBatchSize ≤ (c.hashers t).thrNode)
  /-- No run goes on for ever. -/
  bounded : ∃ B, ∀ as c, runList (Coordinator.next C numThreads nodeStop) init as = some c →
    as.length ≤ B
  /-- After the main loop a run only stops when all threads are done. -/
  progress : ∀ c v, Reachable (Coordinator.next C numThreads nodeStop) init c → c.pc.left →
    c.Blocked C numThreads nodeStop v →
      c.pc = .finished ∧ ∀ t < numThreads, (c.hashers t).pc = .finished
  stored : ∀ c, Reachable (Coordinator.next C numThreads nodeStop) init c → c.pc = .finished →
    c.coordinatorNode = nodeStop

/-! ### Where the threads are -/

/-- Bounds that the protocol does not need. -/
structure EndInv (numThreads nodeStop : ℕ) (c : Coordinator) : Prop where
  completed_le : coordBatchSize ∣ nodeStop → c.completedNode ≤ nodeStop
  waiting : ∀ t < numThreads, (c.hashers t).pc = .lock ∨ (c.hashers t).pc = .unlock ∨
    (c.hashers t).pc = .spin → (c.hashers t).thrNode < nodeStop

lemma EndInv.init : (init).EndInv numThreads nodeStop where
  completed_le _ := Nat.zero_le _
  waiting := by
    intro t _ hpc
    simp [Coordinator.init] at hpc

lemma EndInv.frame (h : c.EndInv numThreads nodeStop) (hhash : c'.hashers = c.hashers)
    (hcomp : c'.completedNode = c.completedNode) : c'.EndInv numThreads nodeStop where
  completed_le := hcomp ▸ h.completed_le
  waiting := hhash ▸ h.waiting

/-- What is released was published. -/
lemma completed_add_le (hrun : c.RunInv nodeStop) (hlt : c.released < c.batches) :
    c.completedNode + coordBatchSize ≤ c.coordNextValid := by
  have h1 := hrun.completed
  have h2 := hrun.nextValid
  simp only [released, batches, coordBatchSize] at *
  omega

lemma released_lt_of_full (hrun : c.RunInv nodeStop) (hpc : c.pc = .reset ∨ c.pc = .lock) :
    c.released < c.batches := by
  have hfull := hrun.full hpc
  have hring := hrun.ring
  have hpub : c.pc.published = true := by
    rcases hpc with hpc | hpc <;> rw [hpc] <;> rfl
  rw [if_pos hpub] at hring
  simp only [RingBuffer.isFull, RingBuffer.capacity, hring.curSize, beq_iff_eq, coordBatchCount] at hfull
  omega

lemma EndInv.step (hrun : c.RunInv nodeStop) (h : c.EndInv numThreads nodeStop)
    (hstep : c.step numThreads nodeStop v = some c') : c'.EndInv numThreads nodeStop := by
  cases hpc : c.pc <;> simp only [Coordinator.step, hpc] at hstep
  case lock =>
    split_ifs at hstep
    cases hstep
    refine ⟨?_, h.waiting⟩
    intro _
    exact (completed_add_le hrun (released_lt_of_full hrun (.inr hpc))).trans (coordNextValid_le hrun)
  case drainReset =>
    cases hstep
    refine ⟨?_, h.waiting⟩
    intro hstop
    have hpos := hrun.pos
    have hcomp := hrun.completed
    simp only [NodePos, hpc, coordBatchSize] at *
    omega
  case reserve =>
    rw [RingBuffer.reserve_eq] at hstep
    split_ifs at hstep
    cases hstep
    exact h.frame rfl rfl
  case finished => cases hstep
  all_goals
    first
      | cases hstep; exact h.frame rfl rfl
      | split_ifs at hstep <;> cases hstep <;> exact h.frame rfl rfl

lemma EndInv.hasherStep (h : c.EndInv numThreads nodeStop)
    (hstep : c.hasherStep C nodeStop t = some c') : c'.EndInv numThreads nodeStop := by
  obtain ⟨h', mtx, done, hc'⟩ := hasherStep_frame hstep
  have hself : c'.hashers t = h' := by
    rw [hc']
    exact Function.update_self ..
  have hcomp : c'.completedNode = c.completedNode := by rw [hc']
  refine ⟨hcomp ▸ h.completed_le, ?_⟩
  intro u hu hwait
  by_cases hut : u = t
  · subst hut
    cases hpc : (c.hashers u).pc <;> simp only [Coordinator.hasherStep, hpc] at hstep
    case top =>
      split_ifs at hstep with hlt <;> cases hstep <;>
        simp only [Function.update_self, reduceCtorEq, or_false, or_self] at hwait
      simp only [Function.update_self]
      exact hlt
    case lock =>
      split_ifs at hstep
      cases hstep
      simp only [Function.update_self]
      exact h.waiting u hu (.inl hpc)
    case unlock =>
      cases hstep
      simp only [Function.update_self]
      exact h.waiting u hu (.inr (.inl hpc))
    case spin =>
      split_ifs at hstep
      cases hstep
      simp only [Function.update_self, reduceCtorEq, or_self] at hwait
    case hash i =>
      cases hstep
      simp only [Function.update_self] at hwait
      split_ifs at hwait <;> simp at hwait
    case batchDone =>
      cases hstep
      simp only [Function.update_self] at hwait
      split_ifs at hwait <;> simp at hwait
    case finished => cases hstep
  · rw [hasherStep_hashers_of_ne hstep hut] at hwait ⊢
    exact h.waiting u hu hwait

/-! ### Every reachable state -/

/-- The invariants together. -/
structure FullInv (C : Config) (numThreads nodeStop : ℕ) (c : Coordinator) : Prop where
  inv : c.Inv C numThreads nodeStop
  wait : c.WaitInv numThreads nodeStop
  report : c.ReportInv nodeStop
  bounds : c.EndInv numThreads nodeStop

lemma reachable_fullInv (h : Reachable (Coordinator.next C numThreads nodeStop) init c) :
    c.FullInv C numThreads nodeStop := by
  refine h.invariant ⟨init_inv, ?_, ?_, EndInv.init⟩ ?_
  · refine ⟨fun b _ hb => absurd hb ?_, ?_, ?_, ?_⟩ <;>
      simp [Coordinator.init, Coordinator.opened, Coordinator.batches]
  · refine ⟨dvd_zero _, ?_, Nat.zero_le _, ?_⟩ <;> simp [Coordinator.init]
  · intro c a c' hc hstep
    refine ⟨hc.inv.next hstep, ?_, ?_, ?_⟩
    · cases a with
      | coordinator v => exact hc.wait.step hc.inv.run hstep
      | hasher t =>
        rw [Coordinator.next] at hstep
        split_ifs at hstep with ht
        exact hc.wait.hasherStep ht hstep
    · cases a with
      | coordinator v => exact hc.report.step hc.inv.run hstep
      | hasher t =>
        rw [Coordinator.next] at hstep
        split_ifs at hstep with ht
        exact hc.report.hasherStep hstep
    · cases a with
      | coordinator v => exact hc.bounds.step hc.inv.run hstep
      | hasher t =>
        rw [Coordinator.next] at hstep
        split_ifs at hstep with ht
        exact hc.bounds.hasherStep hstep

lemma work_lt {a : Action} (hstep : c.next C numThreads nodeStop a = some c') : c.work numThreads < c'.work numThreads := by
  cases a with
  | coordinator v => exact work_lt_of_step hstep
  | hasher t =>
    rw [Coordinator.next] at hstep
    split_ifs at hstep with ht
    exact work_lt_of_hasherStep ht hstep

/-- Also without hashers, when the last loop may release a batch that was never published. -/
lemma work_le_maxWork (h : c.FullInv C numThreads nodeStop) :
    c.work numThreads ≤ maxWork numThreads nodeStop + coordBatchSize := by
  have hown : c.ownWork ≤ 27 * nodeStop + 25 + coordBatchSize := by
    have hnv := coordNextValid_le h.inv.run
    have hring := h.inv.run.ring.le
    have hnode := h.inv.run.node_le
    have hrank := c.pc.rank_le
    have hcomp := h.inv.run.completed
    simp only [ownWork, released, batches, coordBatchSize] at *
    split_ifs at hring <;> omega
  have := sum_hasher_work_le h.inv
  rw [work, maxWork]
  omega

/-! ### Whole batches -/

/-- After the main loop the last batch that was begun is missing. -/
lemma coordNextValid_of_left (hrun : c.RunInv nodeStop) (hleft : c.pc.left = true)
    (hstop : coordBatchSize ∣ nodeStop) : c.coordNextValid = nodeStop := by
  have hpos := hrun.pos
  have hle := hrun.node_le
  have hnv := hrun.nextValid
  cases hpc : c.pc <;> rw [hpc] at hleft <;> simp only [NodePos, hpc, coordBatchSize] at * <;>
    first
      | omega
      | cases hleft

lemma complete_of_dvd (C : Config) (numThreads : ℕ) (hstop : coordBatchSize ∣ nodeStop) :
    Complete C numThreads nodeStop where
  published c h hleft := coordNextValid_of_left (reachable_fullInv h).inv.run hleft hstop
  hashed := by
    intro c h t ht
    have hc := reachable_fullInv h
    have hle := (Pc1.thrNode_le (hc.inv.hasher t ht) hc.inv.run.nextValid).trans (coordNextValid_le hc.inv.run)
    exact ⟨hle, fun hpc => le_antisymm hle (hc.wait.finished t ht hpc)⟩
  drained := by
    intro c h
    have hc := reachable_fullInv h
    have hrun := hc.inv.run
    constructor
    · intro hpc hlt
      have hnv := coordNextValid_of_left hrun (by rw [hpc]; rfl) hstop
      have hrel : c.released < c.batches := by
        have h1 := hrun.completed
        simp only [released, batches, coordBatchSize] at *
        omega
      refine ⟨?_, completed_add_le hrun hrel⟩
      have hring := hrun.ring
      simp only [hpc, CoordPc.published, Bool.false_eq_true, if_false] at hring
      rw [hring.curSize]
      omega
    · intro hpc t ht
      have hfin := hc.inv.done.reset (.inr hpc) t ht
      have hthr := (hc.inv.hasher t ht).thrNode
      have h1 := hrun.completed
      simp only [released, coordBatchSize] at *
      omega
  bounded := by
    refine ⟨maxWork numThreads nodeStop + coordBatchSize, ?_⟩
    intro as c hrun
    exact length_le_of_measure (f := Coordinator.work numThreads)
      (fun _ _ _ _ hstep => work_lt hstep)
      (fun _ hs => work_le_maxWork (reachable_fullInv hs)) hrun
  progress := by
    intro c v h hleft hblocked
    have hc := reachable_fullInv h
    rcases outer_of_blocked hc.inv hc.wait hstop hblocked with ⟨hpc, -⟩ | hpc
    · rw [hpc] at hleft
      cases hleft
    · refine ⟨hpc, fun t ht => ?_⟩
      have hfin := finished_of_blocked hc.inv hc.wait hblocked.2 ht
      have hh := hc.inv.hasher t ht
      have hnv := coordNextValid_of_left hc.inv.run hleft hstop
      have hnone := hblocked.2 t ht
      -- it has hashed all nodes, so it does not wait for another one
      have hthr : nodeStop ≤ (c.hashers t).thrNode := by
        have hthr := hh.thrNode
        rw [hfin, batches, Nat.mul_div_cancel' hc.inv.run.nextValid, hnv] at hthr
        rw [hthr]
        exact Nat.le_add_right ..
      have hwait := hc.bounds.waiting t ht
      cases hpct : (c.hashers t).pc <;> simp only [Coordinator.hasherStep, hpct] at hnone
      case finished => rfl
      case lock => exact absurd (hwait (.inl hpct)) (not_lt.2 hthr)
      case spin => exact absurd (hwait (.inr (.inr hpct))) (not_lt.2 hthr)
      all_goals
        first
          | cases hnone
          | split_ifs at hnone
  stored := by
    intro c h hpc
    have hc := reachable_fullInv h
    refine le_antisymm ?_ (hc.report.finished hpc)
    exact hc.inv.done.reported.trans (hc.bounds.completed_le hstop)

lemma dvd_of_complete (hcomplete : Complete C numThreads nodeStop) : coordBatchSize ∣ nodeStop := by
  -- with all parents there, some run ends when the coordinator waits for the missing batch
  obtain ⟨c, hreach, hnone⟩ : ∃ c, Reachable (Coordinator.next C numThreads nodeStop) init c ∧
      ∀ a, True → c.next C numThreads nodeStop a = none :=
    exists_blocked (f := Coordinator.work numThreads)
      (fun _ _ _ _ hstep => work_lt hstep)
      (fun _ hs => work_le_maxWork (reachable_fullInv hs))
  have hc := reachable_fullInv hreach
  have hblocked : c.Blocked C numThreads nodeStop
      ⟨fun _ => true, fun _ _ => .null, fun _ _ => .notNodeBuffer⟩ := by
    refine ⟨hnone (.coordinator _) trivial, fun t ht => ?_⟩
    have hhasher := hnone (.hasher t) trivial
    rwa [Coordinator.next, if_pos ht] at hhasher
  have hleft : c.pc.left = true := by
    rcases blocked_cases hc.inv hc.wait hblocked with ⟨-, -, hv⟩ | ⟨hpc, -⟩ | hpc
    · cases hv
    · rw [hpc]
      rfl
    · rw [hpc]
      rfl
  rw [← hcomplete.published c hreach hleft]
  exact hc.inv.run.nextValid

/-- The coordinator and its hashers do what is asked of them exactly when the nodes of the run fill
their last batch. -/
theorem complete_iff (C : Config) (numThreads nodeStop : ℕ) :
    Complete C numThreads nodeStop ↔ coordBatchSize ∣ nodeStop :=
  ⟨dvd_of_complete, complete_of_dvd C numThreads⟩

/-- Sectors of 2KB, two at a time: 128 nodes. -/
theorem not_complete_2KB : ¬ Complete ⟨6, 2, 1, by decide, by decide⟩ 2 128 := by
  intro hcomplete
  exact absurd (dvd_of_complete hcomplete) (by decide)

end Coordinator

/-- Of the supported sizes, only 2KB leaves a batch that is not full. -/
lemma SectorSize.coordBatchSize_dvd_iff (s : SectorSize) :
    coordBatchSize ∣ s.numLeaves * s.numLayers ↔ s ≠ .sector2KB := by
  cases s <;> decide

end SupraSeal
