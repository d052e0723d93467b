import SupraSeal.Pc1.Coordinator
import SupraSeal.Pc1.Orchestrator

/-!
# PC1

The composition of the orchestrator, the coordinators with their hashers, the parent reader and
the node writer (`node_rw_t`). Every thread takes its steps at any time; a submitted read or write
completes at any time and in any order.

The node buffer is modelled by the node whose label a hasher has stored at each place: `store e i x`
is for node `i` of page `e`, sector `x`.
-/

namespace SupraSeal

/-- The state of all threads and of the disks. -/
structure Pc1 where
  orch : Orchestrator
  coords : ℕ → Coordinator
  store : ℕ → ℕ → ℕ → Option ℕ
  /-- Submitted reads, as parent buffer slot and position in its batch. -/
  readsInFlight : List (ℕ × ℕ)
  /-- Submitted writes, as node buffer slot and first node of the page. -/
  writesInFlight : List (ℕ × ℕ)
  /-- Pages of which the write has completed. -/
  written : ℕ → Bool

namespace Pc1

def init : Pc1 where
  orch := .init
  coords := fun _ => .init
  store := fun _ _ _ => none
  readsInFlight := []
  writesInFlight := []
  written := fun _ => false

inductive Action
  | orchestrator
  | coordinator (k : ℕ)
  | hasher (k t : ℕ)
  | readerDequeue
  | readComplete (slot j : ℕ)
  | writerDequeue
  | writeComplete (slot node : ℕ)

/-- What the coordinators see of the parent buffer. -/
def view (sys : SystemBuffers) : ParentView where
  isValid := fun idx => sys.parentBuffer.isValid pageBatchSize idx
  ptr := sys.parentPtrs
  sync := sys.parentPtrSyncs

/-- First sector of coordinator `k`. -/
def startSector (P : Setup) (k : ℕ) : ℕ := nodesPerHasher * (P.hashers.take k).sum

/-- First sector of hasher `t` of coordinator `k`. -/
def hasherSector (P : Setup) (k t : ℕ) : ℕ := startSector P k + nodesPerHasher * t

/-- The label of node `n` stored by a hasher for its sectors. -/
def hashOut (store : ℕ → ℕ → ℕ → Option ℕ) (entry nodeInPage sector n : ℕ) :
    ℕ → ℕ → ℕ → Option ℕ := fun e i x =>
  if e = entry ∧ i = nodeInPage ∧ sector ≤ x ∧ x < sector + nodesPerHasher then some n
  else store e i x

/-- The reads of a batch: its entries that are not `NOP`. -/
def batchReads (sys : SystemBuffers) (slot : ℕ) : List (ℕ × ℕ) :=
  ((List.range pageBatchSize).filter fun j => (sys.parentBufferIo slot j).type ≠ .nop).map
    fun j => (slot, j)

/-- Parent buffer entry `slot` is reserved but not filled yet, or is the next to be reserved. -/
def unfilled (o : Orchestrator) (slot : ℕ) : Bool :=
  match o.pc with
  | .readNodes rb i =>
    decide (∃ m ≤ rb.maxBatch - i,
      slot = (RingBuffer.incr parentBufferBatches)^[m] rb.parentBufferId)
  | _ => slot == o.sys.parentBuffer.head

variable (P : Setup)

/-- The step of one thread or the completion of one I/O. -/
def step (s : Pc1) : Action → Option Pc1
  | .orchestrator =>
    match s.orch.step P fun k => (s.coords k).coordinatorNode with
    | some o => some { s with orch := o }
    | none => none
  | .coordinator k =>
    if k < P.numCoordinators then
      match (s.coords k).step (P.numHashers k) P.nodeStop (view s.orch.sys) with
      | some c => some { s with coords := Function.update s.coords k c }
      | none => none
    else none
  | .hasher k t =>
    if k < P.numCoordinators ∧ t < P.numHashers k then
      let h := (s.coords k).hashers t
      match (s.coords k).hasherStep P.C P.nodeStop t with
      | some c =>
        some { s with
          coords := Function.update s.coords k c
          store :=
            match h.pc with
            | .hash _ => hashOut s.store h.nodeIdx (P.C.node h.thrNode % P.C.nodesPerPage)
                (hasherSector P k t) h.thrNode
            | _ => s.store }
      | none => none
    else none
  | .readerDequeue =>
    match s.orch.sys.parentReadFifo with
    | [] => none
    | slot :: fifo =>
      some { s with
        orch := { s.orch with sys := { s.orch.sys with parentReadFifo := fifo } }
        readsInFlight := s.readsInFlight ++ batchReads s.orch.sys slot }
  | .readComplete slot j =>
    -- a read of an earlier node that is still under way never makes an unfilled entry valid
    if (slot, j) ∈ s.readsInFlight ∧ ¬(unfilled s.orch slot ∧
        (s.orch.sys.parentBuffer.incrValid slot 1).isValid pageBatchSize slot) then
      some { s with
        orch := { s.orch with
          sys := { s.orch.sys with parentBuffer := s.orch.sys.parentBuffer.incrValid slot 1 } }
        readsInFlight := s.readsInFlight.erase (slot, j) }
    else none
  | .writerDequeue =>
    match s.orch.sys.nodeWriteFifo with
    | [] => none
    | slot :: fifo =>
      some { s with
        orch := { s.orch with sys := { s.orch.sys with nodeWriteFifo := fifo } }
        writesInFlight := s.writesInFlight ++ [(slot, s.orch.sys.nodeBufferIo slot)] }
  | .writeComplete slot node =>
    if (slot, node) ∈ s.writesInFlight then
      some { s with
        orch := { s.orch with
          sys := { s.orch.sys with nodeBuffer := s.orch.sys.nodeBuffer.incrValid slot 1 } }
        writesInFlight := s.writesInFlight.erase (slot, node)
        written := Function.update s.written (node / P.C.nodesPerPage) true }
    else none

/-- What the step of an action does, and under which condition. -/
inductive Stepped (s : Pc1) : Action → Pc1 → Prop
  | orchestrator {o : Orchestrator}
      (ho : s.orch.step P (fun k => (s.coords k).coordinatorNode) = some o) :
      Stepped s .orchestrator { s with orch := o }
  | coordinator {k : ℕ} {c : Coordinator} (hk : k < P.numCoordinators)
      (hc : (s.coords k).step (P.numHashers k) P.nodeStop (view s.orch.sys) = some c) :
      Stepped s (.coordinator k) { s with coords := Function.update s.coords k c }
  | hasher {k t : ℕ} {c : Coordinator} (hk : k < P.numCoordinators) (ht : t < P.numHashers k)
      (hc : (s.coords k).hasherStep P.C P.nodeStop t = some c) :
      Stepped s (.hasher k t) { s with
        coords := Function.update s.coords k c
        store :=
          match ((s.coords k).hashers t).pc with
          | .hash _ => hashOut s.store ((s.coords k).hashers t).nodeIdx
              (P.C.node ((s.coords k).hashers t).thrNode % P.C.nodesPerPage)
              (hasherSector P k t) ((s.coords k).hashers t).thrNode
          | _ => s.store }
  | readerDequeue {slot : ℕ} {fifo : List ℕ} (hfifo : s.orch.sys.parentReadFifo = slot :: fifo) :
      Stepped s .readerDequeue { s with
        orch := { s.orch with sys := { s.orch.sys with parentReadFifo := fifo } }
        readsInFlight := s.readsInFlight ++ batchReads s.orch.sys slot }
  | readComplete {slot j : ℕ} (hmem : (slot, j) ∈ s.readsInFlight)
      (hguard : ¬(unfilled s.orch slot ∧
        (s.orch.sys.parentBuffer.incrValid slot 1).isValid pageBatchSize slot)) :
      Stepped s (.readComplete slot j) { s with
        orch := { s.orch with
          sys := { s.orch.sys with parentBuffer := s.orch.sys.parentBuffer.incrValid slot 1 } }
        readsInFlight := s.readsInFlight.erase (slot, j) }
  | writerDequeue {slot : ℕ} {fifo : List ℕ} (hfifo : s.orch.sys.nodeWriteFifo = slot :: fifo) :
      Stepped s .writerDequeue { s with
        orch := { s.orch with sys := { s.orch.sys with nodeWriteFifo := fifo } }
        writesInFlight := s.writesInFlight ++ [(slot, s.orch.sys.nodeBufferIo slot)] }
  | writeComplete {slot node : ℕ} (hmem : (slot, node) ∈ s.writesInFlight) :
      Stepped s (.writeComplete slot node) { s with
        orch := { s.orch with
          sys := { s.orch.sys with nodeBuffer := s.orch.sys.nodeBuffer.incrValid slot 1 } }
        writesInFlight := s.writesInFlight.erase (slot, node)
        written := Function.update s.written (node / P.C.nodesPerPage) true }

/-- The proofs about runs go by cases on this, not on the step function. -/
lemma step_inv {s s' : Pc1} {a : Action} (h : s.step P a = some s') : Stepped P s a s' := by
  cases a with
  | orchestrator =>
    simp only [Pc1.step] at h
    split at h <;> cases h
    next ho => exact .orchestrator ho
  | coordinator k =>
    simp only [Pc1.step] at h
    split_ifs at h with hk
    split at h <;> cases h
    next hc => exact .coordinator hk hc
  | hasher k t =>
    simp only [Pc1.step] at h
    split_ifs at h with hkt
    split at h <;> cases h
    next hc => exact .hasher hkt.1 hkt.2 hc
  | readerDequeue =>
    simp only [Pc1.step] at h
    split at h <;> cases h
    next hfifo => exact .readerDequeue hfifo
  | readComplete slot j =>
    simp only [Pc1.step] at h
    split_ifs at h with hread
    cases h
    exact .readComplete hread.1 hread.2
  | writerDequeue =>
    simp only [Pc1.step] at h
    split at h <;> cases h
    next hfifo => exact .writerDequeue hfifo
  | writeComplete slot node =>
    simp only [Pc1.step] at h
    split_ifs at h with hmem
    cases h
    exact .writeComplete hmem

/-- The other threads change only the counters of the ring buffers and take from the queues. -/
lemma step_orch {s s' : Pc1} {a : Action} (h : s.step P a = some s') :
    (∃ o, a = .orchestrator ∧ s.orch.step P (fun k => (s.coords k).coordinatorNode) = some o ∧
      s' = { s with orch := o }) ∨
    a ≠ .orchestrator ∧ ∃ pv nv rf wf, s'.orch = { s.orch with
      sys := { s.orch.sys with
        parentBuffer := { s.orch.sys.parentBuffer with valid := pv }
        nodeBuffer := { s.orch.sys.nodeBuffer with valid := nv }
        parentReadFifo := rf
        nodeWriteFifo := wf } } := by
  cases step_inv P h with
  | orchestrator ho => exact .inl ⟨_, rfl, ho, rfl⟩
  | coordinator => exact .inr ⟨by simp, _, _, _, _, rfl⟩
  | hasher => exact .inr ⟨by simp, _, _, _, _, rfl⟩
  | readerDequeue => exact .inr ⟨by simp, _, _, _, _, rfl⟩
  | readComplete => exact .inr ⟨by simp, _, _, _, _, rfl⟩
  | writerDequeue => exact .inr ⟨by simp, _, _, _, _, rfl⟩
  | writeComplete => exact .inr ⟨by simp, _, _, _, _, rfl⟩

end Pc1

end SupraSeal
