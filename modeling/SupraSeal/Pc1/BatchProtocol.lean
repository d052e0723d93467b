import SupraSeal.Pc1.Coordinator
import Mathlib.Data.Finset.Card
import Mathlib.Data.Finset.Range
import Mathlib.Algebra.Order.Group.Nat

/-!
# The batch protocol of a coordinator and its hashers

Batches are numbered from 0 in the order they are filled, batch `b` in ring slot
`b % COORD_BATCH_COUNT`. The invariant ties four cursors together: the batches released by the
coordinator, the batches each hasher has finished, the batches published through
`coord_next_valid`, and the batch being filled. The ring holds at most three batches, which keeps
the batch being filled at most two ahead of the slowest hasher.
-/

namespace SupraSeal

/-- Batches of which thread has counted itself in `coord_done_count`. -/
def Hasher.finished (h : Hasher) : ℕ :=
  match h.pc with
  | .batchDone => h.thrNode / coordBatchSize - 1
  | _ => h.thrNode / coordBatchSize

/-- Nodes hashed of the batch after the finished ones. -/
def HasherPc.offset : HasherPc → ℕ
  | .hash i => i
  | .batchDone => coordBatchSize
  | _ => 0

/-- The thread is between batches. -/
def HasherPc.Idle : HasherPc → Prop
  | .hash _ | .batchDone => False
  | _ => True

lemma HasherPc.Idle.offset {pc : HasherPc} (h : pc.Idle) : pc.offset = 0 := by
  cases pc <;> first | rfl | exact h.elim

lemma HasherPc.Idle.finished {h : Hasher} (hpc : h.pc.Idle) :
    h.finished = h.thrNode / coordBatchSize := by
  rw [Hasher.finished]
  split
  · next heq => exact (heq ▸ hpc : HasherPc.batchDone.Idle).elim
  · rfl

/-- The batch in the slot `coord_batch_idx` is published and no other slot is reserved yet. -/
def CoordPc.published : CoordPc → Bool
  | .recover | .reset | .lock | .reserve => true
  | _ => false

namespace Coordinator

/-- Batches made available to the hashers. -/
def batches (c : Coordinator) : ℕ := c.coordNextValid / coordBatchSize

/-- Batches released to be filled again. -/
def released (c : Coordinator) : ℕ := c.completedNode / coordBatchSize

/-- Batches whose counter was reset: one more than released ones in the middle of a release. -/
def retired (c : Coordinator) : ℕ := if c.pc = .lock then c.released + 1 else c.released

/-- Position of the coordinator relative to what it has published. -/
def NodePos (nodeStop : ℕ) (c : Coordinator) : Prop :=
  match c.pc with
  | .outer => c.node = c.coordNextValid + c.curBatchCount ∧ c.curBatchCount < coordBatchSize
  | .sample | .copy _ =>
    c.node = c.coordNextValid + c.curBatchCount ∧ c.curBatchCount < coordBatchSize ∧
      c.node < nodeStop
  | .unlock | .publish => c.node + 1 = c.coordNextValid + coordBatchSize ∧ c.node < nodeStop
  | .recover | .reset | .lock | .reserve => c.node + 1 = c.coordNextValid ∧ c.node < nodeStop
  | .advance =>
    c.node + 1 = c.coordNextValid + c.curBatchCount ∧ c.curBatchCount < coordBatchSize ∧
      c.node < nodeStop
  | .drain | .finished =>
    c.node = c.coordNextValid + c.curBatchCount ∧ c.curBatchCount < coordBatchSize ∧
      nodeStop ≤ c.node
  | .drainReset =>
    c.node = c.coordNextValid + c.curBatchCount ∧ c.curBatchCount < coordBatchSize ∧
      nodeStop ≤ c.node ∧ c.completedNode < nodeStop

/-- Invariant of the locals of `run`. -/
structure RunInv (nodeStop : ℕ) (c : Coordinator) : Prop where
  nextValid : coordBatchSize ∣ c.coordNextValid
  completed : coordBatchSize ∣ c.completedNode
  ring : c.coordRing.Spans c.released (if c.pc.published then c.batches else c.batches + 1)
  slot : c.coordBatchIdx =
    (if c.pc.published then c.batches + 3 else c.batches) % coordBatchCount
  pos : c.NodePos nodeStop
  full : c.pc = .reset ∨ c.pc = .lock → c.coordRing.isFull = true
  node_le : c.node ≤ nodeStop
  idx : c.idx = c.node % parentBufferBatches

/-- Invariant of the locals of one hasher. -/
structure HasherInv (C : Config) (c : Coordinator) (h : Hasher) : Prop where
  thrNode : h.thrNode = coordBatchSize * h.finished + h.pc.offset
  coordIdx : h.coordIdx = h.finished % coordBatchCount
  hash_lt : ∀ i, h.pc = .hash i → i < coordBatchSize
  le : h.finished ≤ c.batches
  active : (∃ i, h.pc = .hash i) ∨ h.pc = .batchDone → h.finished < c.batches
  validNodes : coordBatchSize ∣ h.validNodes ∧ h.validNodes ≤ c.coordNextValid
  nodeIdx : h.nodeIdx = h.thrNode / C.nodesPerPage % nodeBufferBatches

/-- Invariant of the counters of finished hashers. -/
structure DoneInv (numThreads : ℕ) (c : Coordinator) : Prop where
  retired_le : ∀ t < numThreads, c.retired ≤ (c.hashers t).finished
  reset : c.pc = .reset ∨ c.pc = .drainReset →
    ∀ t < numThreads, c.released < (c.hashers t).finished
  count : ∀ b, c.retired ≤ b → b < c.retired + coordBatchCount →
    c.coordDoneCount (b % coordBatchCount) =
      ((Finset.range numThreads).filter fun t => b < (c.hashers t).finished).card
  reported : c.coordinatorNode ≤ c.completedNode
  reported_node : 0 < numThreads → c.coordinatorNode ≤ c.node

/-- The invariant of the batch protocol. -/
structure Inv (C : Config) (numThreads nodeStop : ℕ) (c : Coordinator) : Prop where
  run : c.RunInv nodeStop
  hasher : ∀ t < numThreads, c.HasherInv C (c.hashers t)
  done : c.DoneInv numThreads

variable {C : Config} {numThreads nodeStop : ℕ} {c c' : Coordinator} {v : ParentView}

/-- Behind a node the coordinator goes on in the batch, or to the outer loop. -/
lemma exists_advancePc (c : Coordinator) (nodeStop : ℕ) :
    ∃ q : CoordPc, (if c.node + 1 = nodeStop then CoordPc.outer
        else if c.curValid = true then .sample else .outer) = q ∧
      (q = .outer ∨ q = .sample ∧ c.curValid = true ∧ c.node + 1 ≠ nodeStop) := by
  refine ⟨_, rfl, ?_⟩
  split_ifs with hstop hvalid
  · exact .inl rfl
  · exact .inr ⟨rfl, hvalid, hstop⟩
  · exact .inl rfl

lemma batches_add (c : Coordinator) :
    (c.coordNextValid + coordBatchSize) / coordBatchSize = c.batches + 1 :=
  Nat.add_div_right _ (by decide)

lemma released_add (c : Coordinator) :
    (c.completedNode + coordBatchSize) / coordBatchSize = c.released + 1 :=
  Nat.add_div_right _ (by decide)

/-! ### The coordinator -/

lemma RunInv.step (hc : c.RunInv nodeStop) (h : c.step numThreads nodeStop v = some c') :
    c'.RunInv nodeStop := by
  obtain ⟨hnv, hcn, hring, hslot, hpos, hfull, hle, hidx⟩ := hc
  cases hpc : c.pc <;> simp only [hpc, CoordPc.published, Bool.false_eq_true, if_false, if_true]
    at hring hslot <;> simp only [NodePos, hpc] at hpos <;> simp only [Coordinator.step, hpc] at h
  case outer =>
    split_ifs at h with hlt hv <;> cases h
    · exact ⟨hnv, hcn, hring, hslot, ⟨hpos.1, hpos.2, hlt⟩, by simp, hle, hidx⟩
    · exact ⟨hnv, hcn, hring, hslot, ⟨hpos.1, hpos.2, not_lt.mp hlt⟩, by simp, hle, hidx⟩
  case sample =>
    cases h
    exact ⟨hnv, hcn, hring, hslot, hpos, by simp, hle, hidx⟩
  case copy j =>
    obtain ⟨hnode, hcount, hlt⟩ := hpos
    split_ifs at h with hj hb <;> cases h
    · exact ⟨hnv, hcn, hring, hslot, ⟨hnode, hcount, hlt⟩, by simp, hle, hidx⟩
    · refine ⟨hnv, hcn, hring, hslot, ⟨?_, hlt⟩, by simp, hle, hidx⟩
      show c.node + 1 = c.coordNextValid + coordBatchSize
      omega
    · refine ⟨hnv, hcn, hring, hslot, ⟨?_, ?_, hlt⟩, by simp, hle, hidx⟩
      · show c.node + 1 = c.coordNextValid + (c.curBatchCount + 1)
        omega
      · show c.curBatchCount + 1 < coordBatchSize
        omega
  case unlock =>
    cases h
    exact ⟨hnv, hcn, hring, hslot, hpos, by simp, hle, hidx⟩
  case publish =>
    cases h
    refine ⟨Nat.dvd_add hnv dvd_rfl, hcn, ?_, ?_, hpos, by simp, hle, hidx⟩
    · show c.coordRing.Spans c.released ((c.coordNextValid + coordBatchSize) / coordBatchSize)
      rw [batches_add]
      exact hring
    · show c.coordBatchIdx = ((c.coordNextValid + coordBatchSize) / coordBatchSize + 3) % 4
      rw [batches_add, hslot, coordBatchCount]
      omega
  case recover =>
    split_ifs at h with hf hd <;> cases h
    · exact ⟨hnv, hcn, hring, hslot, hpos, fun _ => hf, hle, hidx⟩
    · exact ⟨hnv, hcn, hring, hslot, hpos, by simp, hle, hidx⟩
  case reset =>
    cases h
    exact ⟨hnv, hcn, hring, hslot, hpos, fun _ => hfull (.inl hpc), hle, hidx⟩
  case lock =>
    split_ifs at h with hm
    cases h
    have hlt : c.released < c.batches := by
      have := hfull (.inr hpc)
      simp only [RingBuffer.isFull, RingBuffer.capacity, hring.curSize, beq_iff_eq,
        coordBatchCount] at this
      omega
    refine ⟨hnv, Nat.dvd_add hcn dvd_rfl, ?_, hslot, hpos, by simp, hle, hidx⟩
    show c.coordRing.release.Spans ((c.completedNode + coordBatchSize) / coordBatchSize) c.batches
    rw [released_add]
    exact hring.release hlt
  case reserve =>
    rw [RingBuffer.reserve_eq] at h
    split_ifs at h with hf
    cases h
    have hcap : c.batches + 1 < c.released + coordBatchCount := by
      simp only [RingBuffer.isFull, RingBuffer.capacity, hring.curSize, beq_iff_eq,
        coordBatchCount] at hf
      have := hring.lt
      simp only [coordBatchCount] at this ⊢
      omega
    refine ⟨hnv, hcn, hring.reserveBatchNocheck hcap, hring.head, ⟨?_, ?_, hpos.2⟩, by simp, hle,
      hidx⟩
    · exact hpos.1
    · show 0 < coordBatchSize
      decide
  case advance =>
    obtain ⟨hnode, hcount, hlt⟩ := hpos
    have hidx' : RingBuffer.incr parentBufferBatches c.idx = (c.node + 1) % parentBufferBatches := by
      rw [hidx, RingBuffer.incr_mod (by decide)]
    obtain ⟨q, hq, hcase⟩ := exists_advancePc c nodeStop
    simp only [hq] at h
    -- the report back to the orchestrator changes nothing that the invariant reads
    rcases hcase with rfl | ⟨rfl, -, hne⟩
    · split_ifs at h <;> cases h
      · exact ⟨hnv, hcn, hring, hslot, ⟨hnode, hcount⟩, by simp, hlt, hidx'⟩
      · exact ⟨hnv, hcn, hring, hslot, ⟨hnode, hcount⟩, by simp, hlt, hidx'⟩
    · have hlt' : c.node + 1 < nodeStop := lt_of_le_of_ne hlt hne
      split_ifs at h <;> cases h
      · exact ⟨hnv, hcn, hring, hslot, ⟨hnode, hcount, hlt'⟩, by simp, hlt, hidx'⟩
      · exact ⟨hnv, hcn, hring, hslot, ⟨hnode, hcount, hlt'⟩, by simp, hlt, hidx'⟩
  case drain =>
    split_ifs at h with hlt hd <;> cases h
    · exact ⟨hnv, hcn, hring, hslot, ⟨hpos.1, hpos.2.1, hpos.2.2, hlt⟩, by simp, hle, hidx⟩
    · exact ⟨hnv, hcn, hring, hslot, hpos, by simp, hle, hidx⟩
  case drainReset =>
    cases h
    obtain ⟨hnode, hcount, hstop, hcomp⟩ := hpos
    have hlt : c.released < c.batches + 1 := by
      simp only [released, batches, coordBatchSize] at hnv hcount ⊢
      omega
    refine ⟨hnv, Nat.dvd_add hcn dvd_rfl, ?_, hslot, ⟨hnode, hcount, hstop⟩, by simp, hle, hidx⟩
    show c.coordRing.release.Spans ((c.completedNode + coordBatchSize) / coordBatchSize) _
    rw [released_add]
    exact hring.release hlt
  case finished => simp at h

lemma step_hashers (h : c.step numThreads nodeStop v = some c') : c'.hashers = c.hashers := by
  cases hpc : c.pc <;> simp only [Coordinator.step, hpc] at h
  case reserve =>
    rw [RingBuffer.reserve_eq] at h
    split_ifs at h
    cases h
    rfl
  all_goals first
    | cases h; done
    | cases h; rfl
    | split_ifs at h <;> cases h <;> rfl

lemma coordNextValid_le_of_step (h : c.step numThreads nodeStop v = some c') :
    c.coordNextValid ≤ c'.coordNextValid := by
  cases hpc : c.pc <;> simp only [Coordinator.step, hpc] at h
  case reserve =>
    rw [RingBuffer.reserve_eq] at h
    split_ifs at h
    cases h
    rfl
  case publish =>
    cases h
    exact Nat.le_add_right _ _
  all_goals first
    | cases h; done
    | cases h; rfl
    | split_ifs at h <;> cases h <;> rfl

/-- More published batches never invalidate what is known of a hasher. -/
lemma HasherInv.mono {h : Hasher} (hc : c.HasherInv C h)
    (hle : c.coordNextValid ≤ c'.coordNextValid) : c'.HasherInv C h where
  thrNode := hc.thrNode
  coordIdx := hc.coordIdx
  hash_lt := hc.hash_lt
  le := hc.le.trans (Nat.div_le_div_right hle)
  active ha := (hc.active ha).trans_le (Nat.div_le_div_right hle)
  validNodes := ⟨hc.validNodes.1, hc.validNodes.2.trans hle⟩
  nodeIdx := hc.nodeIdx

/-- A step that leaves the counters and the retired batches alone keeps what they count. -/
lemma DoneInv.frame (hd : c.DoneInv numThreads) (hh : c'.hashers = c.hashers)
    (hr : c'.retired = c.retired) (hdone : c'.coordDoneCount = c.coordDoneCount)
    (hpc : ¬(c'.pc = .reset ∨ c'.pc = .drainReset)) (hrep : c'.coordinatorNode ≤ c'.completedNode)
    (hrepn : 0 < numThreads → c'.coordinatorNode ≤ c'.node) : c'.DoneInv numThreads where
  retired_le := by
    rw [hh, hr]
    exact hd.retired_le
  reset h := absurd h hpc
  count := by
    rw [hh, hr, hdone]
    exact hd.count
  reported := hrep
  reported_node := hrepn

/-- Every hasher has finished the tail batch once its counter has reached the thread count. -/
lemma DoneInv.finished_of_count (hd : c.DoneInv numThreads) (hring : c.coordRing.tail =
    c.released % coordBatchCount) (hpc : c.pc ≠ .lock)
    (hcount : numThreads ≤ c.coordDoneCount c.coordRing.tail) :
    ∀ t < numThreads, c.released < (c.hashers t).finished := by
  have hret : c.retired = c.released := if_neg hpc
  have hb := hd.count c.released hret.le (by rw [hret]; exact Nat.lt_add_of_pos_right (by decide))
  rw [hring, hb] at hcount
  intro t ht
  have hall : ((Finset.range numThreads).filter fun t => c.released < (c.hashers t).finished).card =
      (Finset.range numThreads).card :=
    le_antisymm (Finset.card_filter_le _ _) (by simpa using hcount)
  exact Finset.filter_card_eq hall t (Finset.mem_range.mpr ht)

/-- Resetting the counter of the tail batch makes its slot the counter of the batch that will be
filled there next, of which no hasher has finished anything. -/
lemma DoneInv.count_reset (hhash : ∀ t < numThreads, c.HasherInv C (c.hashers t))
    (hd : c.DoneInv numThreads) (hring : c.coordRing.tail = c.released % coordBatchCount)
    (hpc : c.pc ≠ .lock) (hlt : c.batches < c.released + coordBatchCount) {b : ℕ}
    (hb : c.released + 1 ≤ b) (hb' : b < c.released + 1 + coordBatchCount) :
    Function.update c.coordDoneCount c.coordRing.tail 0 (b % coordBatchCount) =
      ((Finset.range numThreads).filter fun t => b < (c.hashers t).finished).card := by
  have hret : c.retired = c.released := if_neg hpc
  rw [hring]
  by_cases hnew : b = c.released + coordBatchCount
  · subst hnew
    rw [Nat.add_mod_right, Function.update_self, eq_comm, Finset.card_eq_zero,
      Finset.filter_eq_empty_iff]
    intro t ht hf
    have := (hhash t (Finset.mem_range.mp ht)).le
    omega
  · rw [Function.update_of_ne, hd.count b (by omega) (by omega)]
    exact (Wrap.mod_ne_of_lt (by omega) (by omega)).symm

lemma completedNode_le (hrun : c.RunInv nodeStop)
    (hhash : ∀ t < numThreads, c.HasherInv C (c.hashers t)) (hd : c.DoneInv numThreads)
    (hpos : 0 < numThreads) : c.completedNode ≤ c.coordNextValid := by
  have h1 : c.released ≤ c.retired := by
    rw [retired]
    split_ifs <;> omega
  have h2 := hd.retired_le 0 hpos
  have h3 := (hhash 0 hpos).le
  have h4 := hrun.completed
  have h5 := hrun.nextValid
  simp only [released, batches, coordBatchSize] at h1 h3 h4 h5
  omega

lemma DoneInv.step (hrun : c.RunInv nodeStop)
    (hhash : ∀ t < numThreads, c.HasherInv C (c.hashers t)) (hd : c.DoneInv numThreads)
    (h : c.step numThreads nodeStop v = some c') : c'.DoneInv numThreads := by
  have hcomp := completedNode_le hrun hhash hd
  have hh := step_hashers h
  have hrep := hd.reported
  have hrepn := hd.reported_node
  have hring := hrun.ring
  have hpos := hrun.pos
  cases hpc : c.pc <;> simp only [hpc, CoordPc.published, Bool.false_eq_true, if_false, if_true]
    at hring <;> simp only [NodePos, hpc] at hpos <;> simp only [Coordinator.step, hpc] at h
  case outer =>
    split_ifs at h <;> cases h <;>
      exact hd.frame rfl (by simp [retired, hpc, released]) rfl (by simp) hrep hrepn
  case sample =>
    cases h
    exact hd.frame rfl (by simp [retired, hpc, released]) rfl (by simp) hrep hrepn
  case copy j =>
    split_ifs at h <;> cases h <;>
      exact hd.frame rfl (by simp [retired, hpc, released]) rfl (by simp) hrep hrepn
  case unlock =>
    cases h
    exact hd.frame rfl (by simp [retired, hpc, released]) rfl (by simp) hrep hrepn
  case publish =>
    cases h
    exact hd.frame rfl (by simp [retired, hpc, released]) rfl (by simp) hrep hrepn
  case recover =>
    split_ifs at h with hf hcount <;> cases h
    · have hfin := hd.finished_of_count hring.tail (by simp [hpc]) hcount.ge
      have hret : c.retired = c.released := if_neg (by simp [hpc])
      exact ⟨fun t ht => (hret ▸ hd.retired_le t ht :), fun _ => hfin,
        (hret ▸ hd.count :), hrep, hrepn⟩
    · exact hd.frame rfl (by simp [retired, hpc, released]) rfl (by simp) hrep hrepn
  case reset =>
    cases h
    refine ⟨fun t ht => ?_, by simp, fun b hb hb' => ?_, hrep, hrepn⟩
    · exact hd.reset (.inl hpc) t ht
    · exact hd.count_reset hhash hring.tail (by simp [hpc]) hring.lt hb hb'
  case lock =>
    split_ifs at h with hm
    cases h
    refine hd.frame rfl ?_ rfl (by simp) (hrep.trans (Nat.le_add_right _ _)) hrepn
    simp only [retired, hpc, released, released_add, reduceCtorEq, if_false, if_true]
  case reserve =>
    rw [RingBuffer.reserve_eq] at h
    split_ifs at h
    cases h
    exact hd.frame rfl (by simp [retired, hpc, released]) rfl (by simp) hrep hrepn
  case advance =>
    have hnode : 0 < numThreads → c.completedNode ≤ c.node + 1 := fun ht => by
      have := hcomp ht
      omega
    obtain ⟨q, hq, hcase⟩ := exists_advancePc c nodeStop
    simp only [hq] at h
    split_ifs at h with hu <;> cases h
    · refine hd.frame rfl ?_ rfl ?_ le_rfl hnode <;>
        rcases hcase with rfl | ⟨rfl, -⟩ <;> simp [retired, hpc, released]
    · refine hd.frame rfl ?_ rfl ?_ hrep fun ht => (hrepn ht).trans (Nat.le_succ _) <;>
        rcases hcase with rfl | ⟨rfl, -⟩ <;> simp [retired, hpc, released]
  case drain =>
    split_ifs at h with hlt hcount <;> cases h
    · have hfin := hd.finished_of_count hring.tail (by simp [hpc]) (not_lt.mp hcount)
      have hret : c.retired = c.released := if_neg (by simp [hpc])
      exact ⟨fun t ht => (hret ▸ hd.retired_le t ht :), fun _ => hfin,
        (hret ▸ hd.count :), hrep, hrepn⟩
    · refine hd.frame rfl (by simp [retired, hpc, released]) rfl (by simp) le_rfl fun ht => ?_
      show c.completedNode ≤ c.node
      have := hcomp ht
      omega
  case drainReset =>
    cases h
    have hret : (c.completedNode + coordBatchSize) / coordBatchSize = c.released + 1 :=
      c.released_add
    refine ⟨fun t ht => ?_, by simp, fun b hb hb' => ?_,
      hrep.trans (Nat.le_add_right _ _), hrepn⟩
    · show (c.completedNode + coordBatchSize) / coordBatchSize ≤ _
      rw [hret]
      exact hd.reset (.inr hpc) t ht
    · have hb : (c.completedNode + coordBatchSize) / coordBatchSize ≤ b := hb
      have hb' : b < (c.completedNode + coordBatchSize) / coordBatchSize + coordBatchCount := hb'
      rw [hret] at hb hb'
      exact hd.count_reset hhash hring.tail (by simp [hpc]) (by have := hring.lt; omega) hb hb'
  case finished => simp at h

/-! ### The hashers -/

variable {t : ℕ}

/-- A hasher changes its own locals, the mutexes and the counters of finished hashers. -/
lemma hasherStep_frame (h : c.hasherStep C nodeStop t = some c') :
    ∃ h' mtx done, c' = { c with
      hashers := Function.update c.hashers t h', coordReadyMtx := mtx, coordDoneCount := done } := by
  cases hpc : (c.hashers t).pc <;> simp only [hasherStep, hpc] at h
  all_goals first
    | cases h; done
    | cases h; exact ⟨_, _, _, rfl⟩
    | split_ifs at h <;> cases h <;> exact ⟨_, _, _, rfl⟩

lemma RunInv.hasherStep (hc : c.RunInv nodeStop) (h : c.hasherStep C nodeStop t = some c') :
    c'.RunInv nodeStop := by
  obtain ⟨h', mtx, done, rfl⟩ := hasherStep_frame h
  exact ⟨hc.nextValid, hc.completed, hc.ring, hc.slot, hc.pos, hc.full, hc.node_le, hc.idx⟩

/-- The node buffer slot of a hasher follows the page of its node. -/
lemma nodeIdx_succ (C : Config) (n : ℕ) :
    (if C.node (n + 1) % C.nodesPerPage = 0 then
        RingBuffer.incr nodeBufferBatches (n / C.nodesPerPage % nodeBufferBatches)
      else n / C.nodesPerPage % nodeBufferBatches) =
      (n + 1) / C.nodesPerPage % nodeBufferBatches := by
  rw [C.node_mod_nodesPerPage, Nat.succ_div]
  by_cases hd : C.nodesPerPage ∣ n + 1
  · rw [if_pos (Nat.mod_eq_zero_of_dvd hd), if_pos hd, RingBuffer.incr_mod (by decide)]
  · rw [if_neg fun h => hd (Nat.dvd_of_mod_eq_zero h), if_neg hd, Nat.add_zero]

lemma HasherInv.idle {h : Hasher} {pc : HasherPc} (hc : c.HasherInv C h) (hpc : h.pc.Idle)
    (hpc' : pc.Idle) : c.HasherInv C { h with pc := pc } := by
  have hf : ({ h with pc := pc } : Hasher).finished = h.finished := by
    rw [hpc.finished]
    exact HasherPc.Idle.finished (h := { h with pc := pc }) hpc'
  refine ⟨?_, ?_, ?_, ?_, ?_, hc.validNodes, hc.nodeIdx⟩
  · rw [hf, hpc'.offset]
    simpa only [hpc.offset] using hc.thrNode
  · rw [hf]
    exact hc.coordIdx
  · rintro i rfl
    exact hpc'.elim
  · rw [hf]
    exact hc.le
  · rintro (⟨i, rfl⟩ | rfl) <;> exact hpc'.elim

/-- A thread that starts on a batch starts on one that is published. -/
lemma HasherInv.start {h : Hasher} {valid : ℕ} (hc : c.HasherInv C h) (hpc : h.pc.Idle)
    (hv : coordBatchSize ∣ valid) (hvle : valid ≤ c.coordNextValid) (hlt : h.thrNode < valid) :
    c.HasherInv C { h with validNodes := valid, pc := .hash 0 } := by
  have hthr := hc.thrNode
  rw [hpc.finished, hpc.offset] at hthr
  have hact : h.thrNode / coordBatchSize < c.batches := by
    exact (Nat.div_lt_div_of_lt_of_dvd hv hlt).trans_le (Nat.div_le_div_right hvle)
  refine ⟨hthr, ?_, ?_, hact.le, fun _ => hact, ⟨hv, hvle⟩, hc.nodeIdx⟩
  · have hidx := hc.coordIdx
    rwa [hpc.finished] at hidx
  · rintro i ⟨⟩
    decide

/-- One more node of the same batch; the last one leads to `batchDone`. -/
lemma HasherInv.hash {h : Hasher} {i : ℕ} (hc : c.HasherInv C h) (hpc : h.pc = .hash i) :
    c.HasherInv C { h with
      thrNode := h.thrNode + 1
      nodeIdx :=
        if C.node (h.thrNode + 1) % C.nodesPerPage = 0 then
          RingBuffer.incr nodeBufferBatches h.nodeIdx
        else h.nodeIdx
      pc := if i + 1 = coordBatchSize then .batchDone else .hash (i + 1) } := by
  obtain ⟨hthr, hidx, hlt, hle, hact, hval, hnode⟩ := hc
  have hi := hlt i hpc
  have hact := hact (.inl ⟨i, hpc⟩)
  have hnode' := nodeIdx_succ C h.thrNode
  rw [← hnode] at hnode'
  rw [hnode']
  simp only [Hasher.finished, hpc, HasherPc.offset] at hthr hidx hle hact
  by_cases hlast : i + 1 = coordBatchSize
  · have hfin : (h.thrNode + 1) / coordBatchSize - 1 = h.thrNode / coordBatchSize := by
      simp only [coordBatchSize] at hthr hlast ⊢
      omega
    rw [if_pos hlast]
    refine ⟨?_, hidx.trans ?_, by simp, ?_, fun _ => ?_, hval, rfl⟩ <;>
      simp only [Hasher.finished, HasherPc.offset, hfin]
    · omega
    · exact hle
    · exact hact
  · have hfin : (h.thrNode + 1) / coordBatchSize = h.thrNode / coordBatchSize := by
      simp only [coordBatchSize] at hthr hlast hi ⊢
      omega
    rw [if_neg hlast]
    refine ⟨?_, hidx.trans ?_, ?_, ?_, fun _ => ?_, hval, rfl⟩ <;>
      simp only [Hasher.finished, HasherPc.offset, hfin]
    · omega
    · rintro _ ⟨⟩
      omega
    · exact hle
    · exact hact

lemma Hasher.finished_batchDone {h : Hasher} (hc : c.HasherInv C h) (hpc : h.pc = .batchDone) :
    h.thrNode / coordBatchSize = h.finished + 1 := by
  have hthr := hc.thrNode
  rw [hpc, HasherPc.offset, ← Nat.mul_succ] at hthr
  rw [hthr, Nat.mul_div_cancel_left _ (by decide)]

/-- After counting itself in, a thread continues with the next batch if it knows of one. -/
lemma HasherInv.batchDone {h : Hasher} (hc : c.HasherInv C h) (hpc : h.pc = .batchDone) :
    c.HasherInv C { h with
      coordIdx := RingBuffer.incr coordBatchCount h.coordIdx
      pc := if h.thrNode < h.validNodes then .hash 0 else .top } := by
  have hfin := Hasher.finished_batchDone hc hpc
  obtain ⟨hthr, hidx, -, -, hact, hval, hnode⟩ := hc
  have hact := hact (.inr hpc)
  have hidx' : RingBuffer.incr coordBatchCount h.coordIdx = (h.finished + 1) % coordBatchCount := by
    rw [hidx, RingBuffer.incr_mod (by decide)]
  rw [hpc, HasherPc.offset, ← Nat.mul_succ, Nat.succ_eq_add_one, ← hfin] at hthr
  rw [← hfin] at hidx'
  split_ifs with hlt
  · refine ⟨hthr, hidx', ?_, ?_, fun _ => ?_, hval, hnode⟩
    · rintro _ ⟨⟩
      decide
    · exact hfin.le.trans hact
    · exact (Nat.div_lt_div_of_lt_of_dvd hval.1 hlt).trans_le (Nat.div_le_div_right hval.2)
  · exact ⟨hthr, hidx', by simp, hfin.le.trans hact, by simp, hval, hnode⟩

lemma HasherInv.hasherStep (hnv : coordBatchSize ∣ c.coordNextValid)
    (hc : c.HasherInv C (c.hashers t)) (h : c.hasherStep C nodeStop t = some c') :
    c'.HasherInv C (c'.hashers t) := by
  have hmono : ∀ h', c.HasherInv C h' → c'.hashers t = h' → c'.HasherInv C (c'.hashers t) := by
    rintro h' hh' rfl
    obtain ⟨_, _, _, rfl⟩ := hasherStep_frame h
    exact hh'.mono le_rfl
  cases hpc : (c.hashers t).pc <;> simp only [Coordinator.hasherStep, hpc] at h
  case top =>
    have hidle : (c.hashers t).pc.Idle := by simp [hpc, HasherPc.Idle]
    split_ifs at h with hstop hle <;> cases h
    · exact hmono _ (hc.idle hidle (show HasherPc.Idle .lock from trivial)) (Function.update_self ..)
    · exact hmono _ (hc.start hidle hnv le_rfl (not_le.mp hle)) (Function.update_self ..)
    · exact hmono _ (hc.idle hidle (show HasherPc.Idle .finished from trivial)) (Function.update_self ..)
  case lock =>
    split_ifs at h with hm
    cases h
    exact hmono _ (hc.idle (by simp [hpc, HasherPc.Idle]) (show HasherPc.Idle .unlock from trivial)) (Function.update_self ..)
  case unlock =>
    cases h
    exact hmono _ (hc.idle (by simp [hpc, HasherPc.Idle]) (show HasherPc.Idle .spin from trivial)) (Function.update_self ..)
  case spin =>
    split_ifs at h with hle
    cases h
    exact hmono _ (hc.start (by simp [hpc, HasherPc.Idle]) hnv le_rfl (not_le.mp hle))
      (Function.update_self ..)
  case hash i =>
    cases h
    exact hmono _ (hc.hash hpc) (Function.update_self ..)
  case batchDone =>
    cases h
    exact hmono _ (hc.batchDone hpc) (Function.update_self ..)
  case finished => simp at h

/-- A hasher counts itself in for a batch exactly when it finishes one. -/
lemma hasherStep_finished (hc : c.HasherInv C (c.hashers t))
    (h : c.hasherStep C nodeStop t = some c') :
    ((c'.hashers t).finished = (c.hashers t).finished ∧ c'.coordDoneCount = c.coordDoneCount) ∨
    ((c'.hashers t).finished = (c.hashers t).finished + 1 ∧
      (c.hashers t).finished < c.batches ∧
      c'.coordDoneCount = Function.update c.coordDoneCount
        ((c.hashers t).finished % coordBatchCount)
        (c.coordDoneCount ((c.hashers t).finished % coordBatchCount) + 1)) := by
  have hthr := hc.thrNode
  cases hpc : (c.hashers t).pc <;> simp only [Coordinator.hasherStep, hpc] at h
  case hash i =>
    cases h
    have hi := hc.hash_lt i hpc
    refine .inl ⟨?_, rfl⟩
    simp only [Function.update_self, Hasher.finished, hpc, HasherPc.offset] at hthr ⊢
    by_cases hlast : i + 1 = coordBatchSize
    · rw [if_pos hlast]
      simp only [coordBatchSize] at hthr hlast ⊢
      omega
    · rw [if_neg hlast]
      simp only [coordBatchSize] at hthr hlast hi ⊢
      omega
  case batchDone =>
    cases h
    refine .inr ⟨?_, hc.active (.inr hpc), ?_⟩
    · show (Function.update c.hashers t _ t).finished = _
      rw [← Hasher.finished_batchDone hc hpc, Function.update_self]
      split_ifs <;> rfl
    · rw [← hc.coordIdx]
  case finished => simp at h
  all_goals
    left
    first
      | cases h; simp [Hasher.finished, hpc]
      | split_ifs at h <;> cases h <;> simp [Hasher.finished, hpc]

lemma hasherStep_hashers_of_ne {u : ℕ} (h : c.hasherStep C nodeStop t = some c') (hu : u ≠ t) :
    c'.hashers u = c.hashers u := by
  obtain ⟨_, _, _, rfl⟩ := hasherStep_frame h
  exact Function.update_of_ne hu _ _

lemma finished_le_hasherStep {u : ℕ} (hc : c.HasherInv C (c.hashers t))
    (h : c.hasherStep C nodeStop t = some c') :
    (c.hashers u).finished ≤ (c'.hashers u).finished := by
  by_cases hu : u = t
  · subst hu
    rcases hasherStep_finished hc h with ⟨hf, -⟩ | ⟨hf, -⟩ <;> omega
  · rw [hasherStep_hashers_of_ne h hu]

lemma batches_lt (hrun : c.RunInv nodeStop) : c.batches < c.released + coordBatchCount := by
  have := hrun.ring.lt
  split_ifs at this <;> omega

lemma released_le_retired (c : Coordinator) : c.released ≤ c.retired := by
  rw [retired]
  split_ifs <;> omega

/-- One thread that finishes batch `f t` adds itself to the threads past `f t` and to no others. -/
lemma card_finished_succ {f f' : ℕ → ℕ} {n : ℕ} (ht : t < n) (hf : f' t = f t + 1)
    (hother : ∀ u, u ≠ t → f' u = f u) (b : ℕ) :
    ((Finset.range n).filter fun u => b < f' u).card =
      ((Finset.range n).filter fun u => b < f u).card + if b = f t then 1 else 0 := by
  split_ifs with hb
  · rw [← Finset.card_insert_of_notMem (a := t) (by simp [hb])]
    refine congrArg Finset.card (Finset.ext fun u => ?_)
    by_cases hu : u = t
    · subst hu
      simp [hf, hb, ht]
    · simp [hu, hother u hu]
  · refine congrArg Finset.card (Finset.filter_congr fun u _ => ?_)
    by_cases hu : u = t
    · rw [hu, hf]
      omega
    · rw [hother u hu]

lemma DoneInv.hasherStep (hrun : c.RunInv nodeStop) (hhash : c.HasherInv C (c.hashers t))
    (ht : t < numThreads) (hd : c.DoneInv numThreads)
    (h : c.hasherStep C nodeStop t = some c') : c'.DoneInv numThreads := by
  have hmono {u : ℕ} := finished_le_hasherStep (u := u) hhash h
  have hother {u : ℕ} (hu : u ≠ t) : (c'.hashers u).finished = (c.hashers u).finished := by
    rw [hasherStep_hashers_of_ne h hu]
  have hframe := hasherStep_frame h
  have hpc : c'.pc = c.pc := by obtain ⟨_, _, _, rfl⟩ := hframe; rfl
  have hrel : c'.released = c.released := by obtain ⟨_, _, _, rfl⟩ := hframe; rfl
  have hret : c'.retired = c.retired := by rw [retired, retired, hpc, hrel]
  have hrep : c'.coordinatorNode = c.coordinatorNode ∧ c'.completedNode = c.completedNode ∧
      c'.node = c.node := by obtain ⟨_, _, _, rfl⟩ := hframe; exact ⟨rfl, rfl, rfl⟩
  refine ⟨fun u hu => ?_, fun hres u hu => ?_, fun b hb hb' => ?_, ?_, ?_⟩
  · rw [hret]
    exact (hd.retired_le u hu).trans hmono
  · rw [hrel]
    exact (hd.reset (hpc ▸ hres) u hu).trans_le hmono
  · rw [hret] at hb hb'
    have hcount := hd.count b hb hb'
    rcases hasherStep_finished hhash h with ⟨hf, hdone⟩ | ⟨hf, hact, hdone⟩
    · rw [hdone, hcount]
      refine congrArg Finset.card (Finset.filter_congr fun u _ => ?_)
      by_cases hu : u = t
      · rw [hu, hf]
      · rw [hother hu]
    · have hle := hd.retired_le t ht
      have hlt := batches_lt hrun
      have hle' := c.released_le_retired
      rw [hdone, card_finished_succ ht hf fun u hu => hother hu]
      split_ifs with hbf
      · rw [← hbf, Function.update_self, hcount]
      · rw [Function.update_of_ne (Wrap.mod_ne_of_ne (by omega) (by omega) hbf), hcount,
          Nat.add_zero]
  · rw [hrep.1, hrep.2.1]
    exact hd.reported
  · rw [hrep.1, hrep.2.2]
    exact hd.reported_node

/-! ### Every run -/

lemma init_inv : (Coordinator.init).Inv C numThreads nodeStop where
  run := by
    refine ⟨dvd_zero _, dvd_zero _, ?_, rfl, ⟨rfl, by decide⟩, by simp [init], Nat.zero_le _, rfl⟩
    exact (RingBuffer.empty_spans (by decide)).reserveBatchNocheck (by decide)
  hasher t _ := by
    refine ⟨by simp [init, Hasher.finished, HasherPc.offset], by simp [init, Hasher.finished],
      by simp [init], by simp [init, Hasher.finished], by simp [init], ⟨dvd_zero _, le_rfl⟩, ?_⟩
    show 0 = 0 / C.nodesPerPage % nodeBufferBatches
    rw [Nat.zero_div, Nat.zero_mod]
  done := by
    refine ⟨by simp [retired, released, init], by simp [init], fun b _ _ => ?_, le_rfl,
      fun _ => le_rfl⟩
    simp [init, Hasher.finished]

lemma Inv.next {a : Action} (hc : c.Inv C numThreads nodeStop)
    (h : c.next C numThreads nodeStop a = some c') : c'.Inv C numThreads nodeStop := by
  cases a with
  | coordinator v =>
    refine ⟨hc.run.step h, fun t ht => ?_, hc.done.step hc.run hc.hasher h⟩
    rw [step_hashers h]
    exact (hc.hasher t ht).mono (coordNextValid_le_of_step h)
  | hasher t =>
    rw [Coordinator.next] at h
    split_ifs at h with ht
    refine ⟨hc.run.hasherStep h, fun u hu => ?_, hc.done.hasherStep hc.run (hc.hasher t ht) ht h⟩
    by_cases hut : u = t
    · subst hut
      exact (hc.hasher u hu).hasherStep hc.run.nextValid h
    · rw [hasherStep_hashers_of_ne h hut]
      obtain ⟨_, _, _, rfl⟩ := hasherStep_frame h
      exact (hc.hasher u hu).mono le_rfl

/-- The invariant holds in every state of every interleaving. -/
theorem reachable_inv (h : Transition.Reachable (Coordinator.next C numThreads nodeStop) init c) :
    c.Inv C numThreads nodeStop :=
  h.invariant init_inv fun _ _ _ hc hs => hc.next hs

/-- Nodes whose parents have all been copied into the batches. -/
def filled (c : Coordinator) : ℕ :=
  match c.pc with
  | .outer | .sample | .copy _ | .drain | .drainReset | .finished => c.node
  | .unlock | .publish | .recover | .reset | .lock | .reserve | .advance => c.node + 1

lemma coordNextValid_le_filled (hc : c.RunInv nodeStop) : c.coordNextValid ≤ c.filled := by
  have hpos := hc.pos
  cases hpc : c.pc <;> simp only [NodePos, filled, hpc] at hpos ⊢ <;> omega

/-- Published nodes are nodes to be sealed. -/
lemma coordNextValid_le (hc : c.RunInv nodeStop) : c.coordNextValid ≤ nodeStop := by
  have hpos := hc.pos
  have hle := hc.node_le
  cases hpc : c.pc <;> simp only [NodePos, hpc] at hpos <;> omega

/-- A node that is about to be copied is less than `COORD_BATCH_NODE_COUNT` past what every
hasher has finished. -/
lemma lt_thrNode_of_copy (hc : c.Inv C numThreads nodeStop) {t j p : ℕ} (ht : t < numThreads)
    (hpc : c.pc = .copy j) (hp : p + coordBatchNodeCount ≤ c.node) :
    p < (c.hashers t).thrNode := by
  have hpos := hc.run.pos
  have hring := hc.run.ring.lt
  have hnv := hc.run.nextValid
  have hlow := (c.released_le_retired).trans (hc.done.retired_le t ht)
  have hthr := (hc.hasher t ht).thrNode
  simp only [NodePos, hpc] at hpos
  simp only [hpc, CoordPc.published, Bool.false_eq_true, if_false, batches, coordBatchCount,
    coordBatchSize, coordBatchNodeCount] at *
  omega

end Coordinator

end SupraSeal
