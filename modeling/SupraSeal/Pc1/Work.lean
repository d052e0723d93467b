import SupraSeal.Pc1.Safety
import Mathlib.Algebra.Order.BigOperators.Group.Finset

/-!
# The work of PC1

A step of PC1 either moves the orchestrator on in its polling loop, with all its members as they
were, or it brings the system further. How far the system is, is measured by a weighted sum of the
cursors of all threads, less what is queued or under way. Polling leaves the measure as it is, every
other step raises it, and it is bounded. So every run comes to a state after which nothing changes
but the place of the orchestrator in its loop.
-/

namespace SupraSeal

/-! ### The orchestrator -/

/-- A counter that is advanced by nothing. -/
lemma RingCounter.addAssign_zero {ringSize : ℕ} {r : RingCounter} (hs : 0 < ringSize)
    (hr : r.rawIdx = r.abs % ringSize) : r.addAssign ringSize 0 = r := by
  have hlt : ¬r.rawIdx ≥ ringSize := by
    rw [hr]
    exact not_le.mpr (Nat.mod_lt _ hs)
  simp only [addAssign, Nat.add_zero, if_neg hlt]

namespace Orchestrator

variable {P : Setup} {cn : ℕ → ℕ} {o o' : Orchestrator}

/-- The members of `orchestrator_t`, with the locals of `process` cleared. -/
def members (o : Orchestrator) : Orchestrator :=
  { o with minNodeHash := 0, minNode := 0, node := 0, nextNode := 0, freeCount := 0, pc := .top }

/-- The cursors of the orchestrator. A node read weighs more than the requests it may cause. -/
def work (o : Orchestrator) : ℕ :=
  30 * o.parentIter.node + 2 * o.tailNodeParents + o.sys.parentBuffer.curSize +
    4 * o.headNodeWrite.abs + o.tailNodeWrite.abs + o.tailNode

/-- Requests that wait in the queues of the reader and the writer. -/
def queued (o : Orchestrator) : ℕ :=
  15 * o.sys.parentReadFifo.length + 3 * o.sys.nodeWriteFifo.length

/-- What the members are. -/
lemma of_members (h : o'.members = o.members) : o'.sys = o.sys ∧ o'.parentIter = o.parentIter ∧
    o'.tailNode = o.tailNode ∧ o'.tailNodeParents = o.tailNodeParents ∧
    o'.tailNodeWrite = o.tailNodeWrite ∧ o'.headNodeWrite = o.headNodeWrite := by
  simp only [members, mk.injEq] at h
  exact ⟨h.1, h.2.1, h.2.2.2.1, h.2.2.2.2.1, h.2.2.2.2.2.1, h.2.2.2.2.2.2.1⟩

lemma members_work (o : Orchestrator) : o.members.work = o.work := rfl

lemma members_queued (o : Orchestrator) : o.members.queued = o.queued := rfl

/-- A step that does not only poll raises the work by more than it queues. -/
lemma step_work (hc : CursorInv P cn o) (h : o.step P cn = some o') :
    o'.members = o.members ∨ o.work + o'.queued < o'.work + o.queued := by
  have hpos := P.C.nodesPerPage_pos
  cases hpc : o.pc <;> simp only [step, hpc] at h
  case read =>
    split_ifs at h with hread <;> cases h
    · right
      have hmax : 0 < o.maxBatch P := Nat.pos_of_ne_zero hread.2
      simp only [work, queued, reserveBatch, RingBuffer.reserveBatchNocheck]
      omega
    · exact .inl rfl
  case readNodes rb i =>
    cases h
    right
    rw [readNode_eq hc.iter]
    have hfifo : (o.sys.parentReadFifo ++ if o.parentIter.node = 0 then [] else
        [rb.parentBufferId]).length ≤ o.sys.parentReadFifo.length + 1 := by
      rw [List.length_append]
      split_ifs <;> simp
    simp only [work, queued, afterNode, ParentIter.atParent, RingBuffer.incrValid]
    omega
  case writeNodes r =>
    split_ifs at h with hlt <;> cases h
    · have hzero := RingCounter.addAssign_zero (Nat.mul_pos (by decide) hpos) hc.head_idx
      simp only [writeNodes]
      split_ifs with hpage hfull
      · left
        simp only [members, hzero, Nat.zero_div, Nat.add_zero]
      · right
        simp only [work, queued, RingCounter.addAssign, List.length_append, List.length_singleton]
        omega
      · left
        simp only [members, hzero, Nat.zero_div, Nat.add_zero]
    · exact .inl rfl
  case releaseParents r =>
    split_ifs at h with hlt <;> cases h
    · right
      simp only [work, queued, releaseParent, RingBuffer.release]
      omega
    · exact .inl rfl
  case advanceWritten r =>
    split_ifs at h with hlt <;> cases h
    · right
      simp only [work, queued, RingCounter.addAssign]
      omega
    · exact .inl rfl
  case release r =>
    split_ifs at h with hrel hchk <;> cases h
    · exact .inl rfl
    · right
      simp only [work, queued, advanceTail]
      omega
    · exact .inl rfl
  case finished => simp at h
  case exited => simp at h
  all_goals
    split_ifs at h <;> cases h <;> exact .inl rfl

end Orchestrator

/-! ### The coordinators and the hashers -/

/-- Order of the actions of the coordinator at one node. -/
def CoordPc.rank : CoordPc → ℕ
  | .outer => 0
  | .sample => 1
  | .copy j => 2 + min j (parentCount - 1)
  | .unlock => 16
  | .publish => 17
  | .recover => 18
  | .reset => 19
  | .lock => 20
  | .reserve => 21
  | .advance => 22
  | .drain => 23
  | .drainReset => 24
  | .finished => 25

/-- Order of the actions of a hasher at one node. -/
def HasherPc.rank : HasherPc → ℕ
  | .batchDone => 0
  | .top => 1
  | .lock => 2
  | .unlock => 3
  | .spin => 4
  | .hash _ => 5
  | .finished => 6

def Hasher.work (h : Hasher) : ℕ := 8 * h.thrNode + h.pc.rank

lemma CoordPc.rank_le (pc : CoordPc) : pc.rank ≤ 25 := by
  cases pc <;> simp only [rank, parentCount, parentCountBase, parentCountExp] <;> omega

lemma HasherPc.rank_le (pc : HasherPc) : pc.rank ≤ 6 := by
  cases pc <;> simp [rank]

namespace Coordinator

variable {C : Config} {numThreads nodeStop t : ℕ} {c c' : Coordinator} {v : ParentView}

/-- The position of the coordinator and of its hashers. -/
def ownWork (c : Coordinator) : ℕ := 26 * c.node + c.completedNode + c.pc.rank

def work (numThreads : ℕ) (c : Coordinator) : ℕ :=
  c.ownWork + ∑ t ∈ Finset.range numThreads, (c.hashers t).work

lemma ownWork_lt_of_step (h : c.step numThreads nodeStop v = some c') :
    c.ownWork < c'.ownWork := by
  cases hpc : c.pc <;> simp only [Coordinator.step, hpc] at h
  case copy j =>
    split_ifs at h with hj hb <;> cases h <;>
      simp only [ownWork, hpc, CoordPc.rank, parentCount, parentCountBase, parentCountExp] at * <;>
      omega
  case reserve =>
    rw [RingBuffer.reserve_eq] at h
    split_ifs at h
    cases h
    simp only [ownWork, hpc, CoordPc.rank]
    omega
  case advance =>
    generalize (if c.node + 1 = nodeStop then CoordPc.outer
        else if c.curValid = true then .sample else .outer) = q at h
    split_ifs at h <;> cases h <;> simp only [ownWork, hpc, CoordPc.rank] <;> omega
  case drainReset =>
    cases h
    simp only [ownWork, hpc, CoordPc.rank, coordBatchSize]
    omega
  case finished => simp at h
  all_goals first
    | cases h; simp only [ownWork, hpc, CoordPc.rank]; omega
    | split_ifs at h <;> cases h <;> simp only [ownWork, hpc, CoordPc.rank] <;> omega

lemma work_lt_of_step (h : c.step numThreads nodeStop v = some c') :
    c.work numThreads < c'.work numThreads := by
  rw [work, work, step_hashers h]
  exact Nat.add_lt_add_right (ownWork_lt_of_step h) _

lemma hasher_work_lt (h : c.hasherStep C nodeStop t = some c') :
    (c.hashers t).work < (c'.hashers t).work := by
  cases hpc : (c.hashers t).pc <;> simp only [hasherStep, hpc] at h
  case hash i =>
    cases h
    simp only [Hasher.work, Function.update_self, hpc]
    split_ifs <;> simp only [HasherPc.rank] <;> omega
  case batchDone =>
    cases h
    simp only [Hasher.work, Function.update_self, hpc]
    split_ifs <;> simp only [HasherPc.rank] <;> omega
  case finished => simp at h
  all_goals first
    | cases h; simp only [Hasher.work, Function.update_self, hpc, HasherPc.rank]; omega
    | split_ifs at h <;> cases h <;>
        simp only [Hasher.work, Function.update_self, hpc, HasherPc.rank] <;> omega

/-- The work of a coordinator with its hashers when all nodes are sealed. -/
def maxWork (numThreads nodeStop : ℕ) : ℕ :=
  27 * nodeStop + 25 + numThreads * (8 * nodeStop + 6)

lemma sum_hasher_work_le (hc : c.Inv C numThreads nodeStop) :
    ∑ t ∈ Finset.range numThreads, (c.hashers t).work ≤ numThreads * (8 * nodeStop + 6) := by
  have hvalid := coordNextValid_le hc.run
  refine (Finset.sum_le_card_nsmul _ _ (8 * nodeStop + 6) fun t ht => ?_).trans ?_
  · have hthr := Pc1.thrNode_le (hc.hasher t (Finset.mem_range.mp ht)) hc.run.nextValid
    have hrank := (c.hashers t).pc.rank_le
    rw [Hasher.work]
    omega
  · rw [Finset.card_range, nsmul_eq_mul, Nat.cast_id]

lemma work_le (hc : c.Inv C numThreads nodeStop) (hpos : 0 < numThreads) :
    c.work numThreads ≤ maxWork numThreads nodeStop := by
  have hvalid := coordNextValid_le hc.run
  have hcomp := completedNode_le hc.run hc.hasher hc.done hpos
  have hown : c.ownWork ≤ 27 * nodeStop + 25 := by
    have hnode := hc.run.node_le
    have hrank := c.pc.rank_le
    rw [ownWork]
    omega
  exact Nat.add_le_add hown (sum_hasher_work_le hc)

lemma work_lt_of_hasherStep (ht : t < numThreads) (h : c.hasherStep C nodeStop t = some c') :
    c.work numThreads < c'.work numThreads := by
  have hown : c'.ownWork = c.ownWork := by
    obtain ⟨_, _, _, rfl⟩ := hasherStep_frame h
    rfl
  rw [work, work, hown]
  refine Nat.add_lt_add_left (Finset.sum_lt_sum (fun u _ => ?_)
    ⟨t, Finset.mem_range.mpr ht, hasher_work_lt h⟩) _
  by_cases hu : u = t
  · subst hu
    exact (hasher_work_lt h).le
  · rw [hasherStep_hashers_of_ne h hu]

end Coordinator

/-! ### The system -/

namespace Orchestrator

variable {P : Setup} {cn : ℕ → ℕ} {o o' : Orchestrator}

/-- No entry is reserved for a node that is not to be sealed. -/
lemma reserved_le_of_step (hc : CursorInv P cn o) (hr : o.reserved ≤ P.nodeStop)
    (h : o.step P cn = some o') : o'.reserved ≤ P.nodeStop := by
  cases hpc : o.pc <;> simp only [step, hpc] at h
  case read =>
    split_ifs at h with hread <;> cases h
    · obtain ⟨-, -, -, -, hstop, -⟩ := maxBatch_spec P o
      show o.parentIter.node + (o.maxBatch P - 0) ≤ _
      omega
    · rwa [reserved, hpc] at hr
  case readNodes rb i =>
    cases h
    rwa [hc.reserved_readNode hpc]
  case finished => simp at h
  case exited => simp at h
  all_goals
    rw [reserved, hpc] at hr
    split_ifs at h <;> cases h <;> exact hr

end Orchestrator

namespace Pc1

open Orchestrator

variable {P : Setup} {s s' : Pc1} {a : Action}

/-- The work that all threads have done. -/
def gained (P : Setup) (s : Pc1) : ℕ :=
  s.orch.work + ∑ k ∈ Finset.range P.numCoordinators, (s.coords k).work (P.numHashers k)

/-- Requests that are queued or under way. -/
def requests (s : Pc1) : ℕ :=
  s.orch.queued + s.readsInFlight.length + 2 * s.writesInFlight.length

def work (P : Setup) (s : Pc1) : ℤ := s.gained P - s.requests

/-- Work of one coordinator or hasher raises the sum. -/
lemma gained_lt_of_coord {k : ℕ} (hk : k < P.numCoordinators) {c : Coordinator}
    {store : ℕ → ℕ → ℕ → Option ℕ}
    (hlt : (s.coords k).work (P.numHashers k) < c.work (P.numHashers k)) :
    s.gained P < Pc1.gained P
      { s with coords := Function.update s.coords k c, store := store } := by
  refine Nat.add_lt_add_left (Finset.sum_lt_sum (fun k' _ => ?_)
    ⟨k, Finset.mem_range.mpr hk, ?_⟩) _
  · show _ ≤ (Function.update s.coords k c k').work _
    by_cases heq : k' = k
    · subst heq
      rw [Function.update_self]
      exact hlt.le
    · rw [Function.update_of_ne heq]
  · show _ < (Function.update s.coords k c k).work _
    rwa [Function.update_self]

lemma batchReads_length_le (sys : SystemBuffers) (slot : ℕ) :
    (batchReads sys slot).length ≤ pageBatchSize := by
  rw [batchReads, List.length_map]
  exact (List.length_filter_le _ _).trans (List.length_range).le

/-- Every step raises the work, unless it is a step of the orchestrator that only polls. -/
theorem step_work (hs : Inv P s) (h : s.step P a = some s') :
    (a = .orchestrator ∧ s'.orch.members = s.orch.members ∧ s'.work P = s.work P) ∨
      s.work P < s'.work P := by
  cases step_inv P h with
  | @orchestrator o ho =>
    rcases Orchestrator.step_work hs.cursor ho with hm | hlt
    · have hw : o.work = s.orch.work := by
        rw [← members_work, hm, members_work]
      have hq : o.queued = s.orch.queued := by
        rw [← members_queued, hm, members_queued]
      exact .inl ⟨rfl, hm, by simp only [work, gained, requests, hw, hq]⟩
    · right
      simp only [work, gained, requests]
      omega
  | @coordinator k c hk hc =>
    right
    have hlt : s.gained P < Pc1.gained P
        { s with coords := Function.update s.coords k c, store := s.store } :=
      gained_lt_of_coord hk (Coordinator.work_lt_of_step hc)
    simp only [work, requests] at hlt ⊢
    omega
  | @hasher k t c hk ht hc =>
    right
    have hlt : ∀ store, s.gained P < Pc1.gained P
        { s with coords := Function.update s.coords k c, store := store } := fun _ =>
      gained_lt_of_coord hk (Coordinator.work_lt_of_hasherStep ht hc)
    refine sub_lt_sub_right (Int.ofNat_lt.mpr (hlt _)) _
  | readComplete hmem =>
    right
    have hlen := List.length_erase_add_one hmem
    simp only [work, gained, requests, Orchestrator.work, queued, RingBuffer.incrValid]
    omega
  | writeComplete hmem =>
    right
    have hlen := List.length_erase_add_one hmem
    simp only [work, gained, requests, Orchestrator.work, queued]
    omega
  | @readerDequeue slot fifo hfifo =>
    right
    have hreads := batchReads_length_le s.orch.sys slot
    simp only [pageBatchSize, parentCount, parentCountBase, parentCountExp] at hreads
    simp only [work, gained, requests, Orchestrator.work, queued, hfifo, List.length_append,
      List.length_cons]
    omega
  | writerDequeue hfifo =>
    right
    simp only [work, gained, requests, Orchestrator.work, queued, hfifo, List.length_append,
      List.length_cons, List.length_nil]
    omega

lemma reserved_step (hs : Inv P s) (hr : s.orch.reserved ≤ P.nodeStop)
    (h : s.step P a = some s') : s'.orch.reserved ≤ P.nodeStop := by
  rcases step_orch P h with ⟨o, -, ho, rfl⟩ | ⟨-, pv, nv, rf, wf, heq⟩
  · exact reserved_le_of_step hs.cursor hr ho
  · rw [heq]
    exact hr

/-- The work when all nodes are sealed. -/
def maxWork (P : Setup) : ℕ :=
  39 * P.nodeStop +
    ∑ k ∈ Finset.range P.numCoordinators, Coordinator.maxWork (P.numHashers k) P.nodeStop

lemma work_le (hs : Inv P s) (hr : s.orch.reserved ≤ P.nodeStop) : s.work P ≤ maxWork P := by
  have hgain : s.gained P ≤ maxWork P := by
    refine Nat.add_le_add ?_ (Finset.sum_le_sum fun k hk => ?_)
    · have hnode := (node_le_reserved s.orch).trans hr
      have hparents := hs.cursor.parents_le_node
      have hhead := hs.cursor.head_le_node
      have hwrite := hs.cursor.write_le
      have htail := hs.cursor.tail_le
      have hsize := hs.cursor.parentRing.curSize
      rw [Orchestrator.work]
      omega
    · have hk := Finset.mem_range.mp hk
      exact Coordinator.work_le (hs.coord k hk) (numHashers_pos P hk)
  rw [work]
  omega

/-- Every state leads to one after which the admitted steps are steps of the orchestrator that only
poll. -/
theorem exists_settled {ok : Pc1 → Action → Prop} (hs : Inv P s)
    (hr : s.orch.reserved ≤ P.nodeStop) :
    ∃ s', Transition.ReachableVia ok (Pc1.step P) s s' ∧ ∀ s₁ a s₂,
      Transition.ReachableVia ok (Pc1.step P) s' s₁ → ok s₁ a → s₁.step P a = some s₂ →
        a = .orchestrator ∧ s₂.orch.members = s₁.orch.members := by
  have hinv : ∀ {s'}, Transition.ReachableVia ok (Pc1.step P) s s' →
      Inv P s' ∧ s'.orch.reserved ≤ P.nodeStop := fun h =>
    h.invariant (P := fun s => Inv P s ∧ s.orch.reserved ≤ P.nodeStop) ⟨hs, hr⟩
      fun _ _ _ hs _ hstep => ⟨hs.1.step hstep, reserved_step hs.1 hs.2 hstep⟩
  obtain ⟨s', hs', hsettled⟩ := Transition.exists_settled (f := work P) (B := maxWork P)
    (fun s₁ a s₂ hs₁ _ hstep => by
      rcases step_work (hinv hs₁).1 hstep with ⟨-, -, heq⟩ | hlt
      · exact heq.ge
      · exact hlt.le)
    fun s₁ hs₁ => work_le (hinv hs₁).1 (hinv hs₁).2
  refine ⟨s', hs', fun s₁ a s₂ hs₁ hok hstep => ?_⟩
  rcases step_work (hinv (hs'.trans hs₁)).1 hstep with ⟨ha, hm, -⟩ | hlt
  · exact ⟨ha, hm⟩
  · exact absurd (hsettled s₁ a s₂ hs₁ hok hstep) hlt.ne'

end Pc1

end SupraSeal
