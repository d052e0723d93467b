import SupraSeal.Nvme.Ring
import SupraSeal.Pc1.ParentIter
import SupraSeal.Sealing.DataStructures

/-!
# The orchestrator

`orchestrator_t` of `pc1/orchestrator_t.hpp` with the buffers of `pc1/system_buffers_t.hpp` that it
shares with the other threads. `process` is a loop of phases: load the progress of the
coordinators, read the parents of the next nodes, write hashed pages, release parents, advance the
written tail and release pages. One step is one round of an inner loop; in `read_batch` that is one
node with all its parents, which nobody else looks at before the counter of its entry is raised.

The stores behind pointers are not here: a `NodePtr` is an address. Statistics are left out.
-/

namespace SupraSeal

/-- What `do_pc1` hands to the threads: the sealing configuration, the parents file, the number of
hashers of each coordinator, the number of disks and the node to stop at. -/
structure Setup where
  C : Config
  G : ParentGraph C
  hashers : List ℕ
  hashers_pos : ∀ h ∈ hashers, 0 < h
  sectors_eq : nodesPerHasher * hashers.sum = C.parallelSectors
  numDisks : ℕ
  nodeStop : ℕ

namespace Setup

def numCoordinators (P : Setup) : ℕ := P.hashers.length

/-- Hashers of coordinator `k`. -/
def numHashers (P : Setup) (k : ℕ) : ℕ := P.hashers.getD k 0

/-- `disk_fifo_depth` of `system_buffers_t::init`. -/
def diskFifoDepth (P : Setup) : ℕ := P.numDisks * queueSize / pageBatchSize * 16

/-- Two sectors, sealed by one coordinator with one hasher, and one disk. -/
def single (C : Config) (G : ParentGraph C) (hC : C.lgParallelSectors = 1) : Setup where
  C := C
  G := G
  hashers := [1]
  hashers_pos := by simp
  sectors_eq := by
    rw [Config.parallelSectors, hC]
    rfl
  numDisks := 1
  nodeStop := C.nodeStop

/-- `single` for 2KiB sectors. -/
def twoKiB : Setup :=
  single ⟨6, 2, 1, Config.two_sectors_le, by decide⟩
    (ParentGraph.switch _ 1 0 Nat.one_pos (by decide)) rfl

end Setup

/-! ### Shared buffers -/

/-- `node_sync_t`: two 16 bit counters. -/
structure NodeSync where
  referenceCount : ℕ
  consumedCount : ℕ

def NodeSync.addReference (s : NodeSync) : NodeSync :=
  { s with referenceCount := (s.referenceCount + 1) % 2 ^ 16 }

def NodeSync.addConsumed (s : NodeSync) : NodeSync :=
  { s with consumedCount := (s.consumedCount + 1) % 2 ^ 16 }

/-- `system_buffers_t`. The arrays that are parallel to a ring buffer are indexed by its slots; a
fifo holds the slots of the batches in it. -/
structure SystemBuffers where
  parentBuffer : RingBuffer parentBufferBatches
  parentBufferIo : ℕ → ℕ → NodeIo
  parentPtrs : ℕ → ℕ → NodePtr
  parentPtrSyncs : ℕ → ℕ → ParentPtrSync
  nodeBuffer : RingBuffer nodeBufferBatches
  nodeBufferIo : ℕ → ℕ
  nodeBufferSync : ℕ → NodeSync
  parentReadFifo : List ℕ
  nodeWriteFifo : List ℕ

/-- `system_buffers_t::init`. -/
def SystemBuffers.init : SystemBuffers where
  parentBuffer := RingBuffer.empty
  parentBufferIo := fun _ _ => ⟨0, .read⟩
  parentPtrs := fun _ _ => .null
  parentPtrSyncs := fun _ _ => .notNodeBuffer
  nodeBuffer := RingBuffer.empty
  nodeBufferIo := fun _ => 0
  nodeBufferSync := fun _ => ⟨0, 0⟩
  parentReadFifo := []
  nodeWriteFifo := []

/-- Update of one element of a batch. -/
def setEntry {α : Type*} (f : ℕ → ℕ → α) (slot j : ℕ) (x : α) : ℕ → ℕ → α :=
  Function.update f slot (Function.update (f slot) j x)

/-! ### State of the orchestrator -/

/-- Locals of `read_batch` that its loop over the nodes uses. -/
structure ReadBatch where
  maxBatch : ℕ
  parentBufferId : ℕ
  nodeBufferId : ℕ
  cacheMinNode : ℕ
  cacheMinCacheableNode : ℕ

/-- Where `process` is; the argument of the inner loops is `actions_remaining`. -/
inductive OrchPc
  | top
  | load (i : ℕ)
  | read
  | readNodes (rb : ReadBatch) (i : ℕ)
  | writeNodes (remaining : ℕ)
  | releaseParents (remaining : ℕ)
  | advanceWritten (remaining : ℕ)
  | release (remaining : ℕ)
  | finish
  | finished
  | exited

/-- `orchestrator_t` with the locals of `process`. -/
structure Orchestrator where
  sys : SystemBuffers
  parentIter : ParentIter
  prevHashedNode : NodePtr
  tailNode : ℕ
  tailNodeParents : ℕ
  tailNodeWrite : RingCounter
  headNodeWrite : RingCounter
  minNodeHash : ℕ
  minNode : ℕ
  node : ℕ
  nextNode : ℕ
  outstandingWrites : ℕ
  freeCount : ℕ
  pc : OrchPc

namespace Orchestrator

def init : Orchestrator where
  sys := .init
  parentIter := ⟨0, 0, 0⟩
  prevHashedNode := .null
  tailNode := 0
  tailNodeParents := 0
  tailNodeWrite := ⟨0, 0⟩
  headNodeWrite := ⟨0, 0⟩
  minNodeHash := 0
  minNode := 0
  node := 0
  nextNode := 0
  outstandingWrites := 0
  freeCount := 0
  pc := .top

/-- Limit on the rounds of an inner loop. -/
def actionBatch : ℕ := 8

variable (P : Setup)

/-! ### Reading parents -/

/-- Clear a parent pointer that has no parent and step over it. -/
def clearParent (slot : ℕ) (o : Orchestrator) (j : ℕ) : Orchestrator :=
  { o with
    parentIter := o.parentIter.next P.C
    sys := { o.sys with
      parentPtrs := setEntry o.sys.parentPtrs slot j .null
      parentPtrSyncs := setEntry o.sys.parentPtrSyncs slot j .notNodeBuffer } }

/-- The first parent pointer points to the previous hashed node, with no reference count. -/
def linkPrevHashed (slot : ℕ) (o : Orchestrator) : Orchestrator :=
  { o with
    parentIter := o.parentIter.next P.C
    sys := { o.sys with
      parentPtrs := setEntry o.sys.parentPtrs slot 0 o.prevHashedNode
      parentPtrSyncs := setEntry o.sys.parentPtrSyncs slot 0 .localNode } }

/-- One round of the loop of `read_batch` over the parents of node `n`; the second component is
`reads_issued`. -/
def readParent (rb : ReadBatch) (n : ℕ) (st : Orchestrator × ℕ) (j : ℕ) : Orchestrator × ℕ :=
  let o := st.1
  let slot := rb.parentBufferId
  let parentNode :=
    if P.C.layer n = 0 ∧ o.parentIter.isPrevLayer then n - 1 else o.parentIter.deref P.C P.G
  let nodeInPage := P.C.node parentNode % P.C.nodesPerPage
  if rb.cacheMinCacheableNode ≤ parentNode then
    let entry := RingBuffer.add nodeBufferBatches o.sys.nodeBuffer.tail
      ((parentNode - rb.cacheMinNode) / P.C.nodesPerPage)
    let isLocal := n - parentNode < coordBatchNodeCount
    let syncIdx := nodeIdxToSyncIdx entry
    ({ o with
      parentIter := o.parentIter.next P.C
      sys := { o.sys with
        parentBufferIo := setEntry o.sys.parentBufferIo slot j
          { o.sys.parentBufferIo slot j with type := .nop }
        parentPtrs := setEntry o.sys.parentPtrs slot (j + 1) (.nodeBuffer entry nodeInPage)
        parentPtrSyncs := setEntry o.sys.parentPtrSyncs slot (j + 1)
          (if isLocal then .localNode else .nodeBufferIdx entry)
        nodeBufferSync :=
          if isLocal then o.sys.nodeBufferSync
          else Function.update o.sys.nodeBufferSync syncIdx
            (o.sys.nodeBufferSync syncIdx).addReference } },
      st.2)
  else
    ({ o with
      parentIter := o.parentIter.next P.C
      sys := { o.sys with
        parentBufferIo := setEntry o.sys.parentBufferIo slot j ⟨parentNode, .read⟩
        parentPtrs := setEntry o.sys.parentPtrs slot (j + 1) (.parentBuffer slot j nodeInPage)
        parentPtrSyncs := setEntry o.sys.parentPtrSyncs slot (j + 1) .notNodeBuffer } },
      st.2 + 1)

/-- The parents of an ordinary node, or the expander parents of the first node of a later layer:
the index of the first parent to process, and the state after the pointers before it. -/
def startParents (slot : ℕ) (o : Orchestrator) : Orchestrator × ℕ :=
  if P.C.node o.parentIter.node = 0 then
    ((List.range (parentCountBase + 1)).foldl (clearParent P slot) o, parentCountBase)
  else (linkPrevHashed P slot o, 0)

/-- One round of the loop of `read_batch` over the nodes. -/
def readNode (rb : ReadBatch) (i : ℕ) (o : Orchestrator) : Orchestrator :=
  let n := o.parentIter.node
  let slot := rb.parentBufferId
  let curNodeBuffer : NodePtr :=
    .nodeBuffer ((RingBuffer.incr nodeBufferBatches)^[i / P.C.nodesPerPage] rb.nodeBufferId)
      (P.C.node n % P.C.nodesPerPage)
  if n = 0 then
    -- the first node of the first layer has no parents and is not sent to the reader
    let o := (List.range (pageBatchSize + 1)).foldl (clearParent P slot) o
    { o with
      prevHashedNode := curNodeBuffer
      sys := { o.sys with parentBuffer := o.sys.parentBuffer.incrValid slot pageBatchSize } }
  else
    let (o, start) := startParents P slot o
    let (o, reads) := (List.range' start (pageBatchSize - start)).foldl (readParent P rb n) (o, 0)
    { o with
      prevHashedNode := curNodeBuffer
      sys := { o.sys with
        parentBuffer := o.sys.parentBuffer.incrValid slot (pageBatchSize - reads)
        parentReadFifo := o.sys.parentReadFifo ++ [slot] } }

/-- The end of a round of the loop over the nodes. -/
def nextReadPc (rb : ReadBatch) (i : ℕ) : OrchPc :=
  if i + 1 < rb.maxBatch then
    .readNodes { rb with
      parentBufferId := RingBuffer.incr parentBufferBatches rb.parentBufferId } (i + 1)
  else .writeNodes actionBatch

/-- The number of nodes that `read_batch` reads: whole pages, as far as there is room. -/
def maxBatch (o : Orchestrator) : ℕ :=
  let npp := P.C.nodesPerPage
  let minFree := min (P.diskFifoDepth - o.sys.parentReadFifo.length)
    (o.sys.nodeBuffer.freeCount * npp)
  let minFree := min minFree o.sys.parentBuffer.freeCount
  min (min minFree (P.nodeStop - o.parentIter.node)) (npp * 2) / npp * npp

/-- The start of `read_batch` once there is something to read: reserve the buffer entries and fix
the caching parameters. The node buffer keeps its pages, so the oldest cached node is the first of
the tail page. -/
def reserveBatch (maxBatch : ℕ) (o : Orchestrator) : ReadBatch × Orchestrator :=
  let npp := P.C.nodesPerPage
  let (parentBufferId, parentBuffer) := o.sys.parentBuffer.reserveBatchNocheck maxBatch
  let (nodeBufferId, nodeBuffer) := o.sys.nodeBuffer.reserveBatchNocheck (maxBatch / npp)
  let nodeBufferCount := nodeBuffer.curSize * npp - maxBatch
  let cacheMinNode := o.parentIter.node - nodeBufferCount
  ({ maxBatch := maxBatch
     parentBufferId := parentBufferId
     nodeBufferId := nodeBufferId
     cacheMinNode := cacheMinNode
     cacheMinCacheableNode := min (cacheMinNode + parentBufferBatches) o.tailNodeWrite.abs },
    { o with sys := { o.sys with parentBuffer := parentBuffer, nodeBuffer := nodeBuffer } })

/-! ### The other phases -/

/-- `write_nodes`, with the number of nodes it issues a write for. -/
def writeNodes (o : Orchestrator) : ℕ × SystemBuffers :=
  let npp := P.C.nodesPerPage
  if o.headNodeWrite.abs / npp < o.minNodeHash / npp then
    if o.sys.nodeWriteFifo.length = P.diskFifoDepth then (0, o.sys)
    else
      let slot := o.headNodeWrite.idx npp
      (npp, { o.sys with
        nodeBufferIo := Function.update o.sys.nodeBufferIo slot o.headNodeWrite.abs
        nodeWriteFifo := o.sys.nodeWriteFifo ++ [slot] })
  else (0, o.sys)

/-- Count the references of one parent buffer entry as consumed. -/
def consumeEntry (syncs : ℕ → ParentPtrSync) (sync : ℕ → NodeSync) (j : ℕ) : ℕ → NodeSync :=
  match syncs j with
  | .nodeBufferIdx idx =>
    Function.update sync (nodeIdxToSyncIdx idx) (sync (nodeIdxToSyncIdx idx)).addConsumed
  | _ => sync

/-- Release the tail entry of the parent buffer. -/
def releaseParent (o : Orchestrator) : Orchestrator :=
  { o with
    tailNodeParents := o.tailNodeParents + 1
    sys := { o.sys with
      parentBuffer := o.sys.parentBuffer.release
      nodeBufferSync := (List.range parentPtrBatchSize).foldl
        (consumeEntry (o.sys.parentPtrSyncs o.sys.parentBuffer.tail)) o.sys.nodeBufferSync } }

/-- The tail of the node buffer enters a sync batch, so that the counters must be checked. -/
def entersSyncBatch (o : Orchestrator) : Bool :=
  o.sys.nodeBuffer.tail &&& nodeBufferSyncBatchMask == 0

/-- The counters of the sync batch of the tail agree. -/
def syncBatchConsumed (o : Orchestrator) : Bool :=
  let s := o.sys.nodeBufferSync (nodeIdxToSyncIdx o.sys.nodeBuffer.tail)
  s.referenceCount == s.consumedCount

/-- Advance the tail by one node; its page is released with its last node. -/
def advanceTail (o : Orchestrator) : Orchestrator :=
  let npp := P.C.nodesPerPage
  let sync :=
    if o.entersSyncBatch then
      Function.update o.sys.nodeBufferSync (nodeIdxToSyncIdx o.sys.nodeBuffer.tail) ⟨0, 0⟩
    else o.sys.nodeBufferSync
  { o with
    tailNode := o.tailNode + 1
    sys := { o.sys with
      nodeBufferSync := sync
      nodeBuffer :=
        if P.C.node o.tailNode % npp = npp - 1 then o.sys.nodeBuffer.release
        else o.sys.nodeBuffer } }

/-- One step of `orchestrator_t::process`. -/
def step (coordinatorNode : ℕ → ℕ) (o : Orchestrator) : Option Orchestrator :=
  let npp := P.C.nodesPerPage
  match o.pc with
  | .top =>
    if o.node < P.nodeStop ∨ o.tailNodeWrite.abs < P.nodeStop ∨ 0 < o.outstandingWrites then
      some { o with nextNode := o.parentIter.node, pc := .load 0 }
    else some { o with pc := .finished }
  | .load i =>
    let minNodeHash := if i = 0 then coordinatorNode 0 else min o.minNodeHash (coordinatorNode i)
    if i + 1 < P.numCoordinators then
      some { o with minNodeHash := minNodeHash, pc := .load (i + 1) }
    else
      some { o with
        minNodeHash := minNodeHash
        minNode := min minNodeHash o.tailNodeWrite.abs
        pc := .read }
  | .read =>
    if o.parentIter.node < P.nodeStop ∧ o.maxBatch P ≠ 0 then
      let (rb, o') := reserveBatch P (o.maxBatch P) o
      some { o' with pc := .readNodes rb 0 }
    else some { o with pc := .writeNodes actionBatch }
  | .readNodes rb i =>
    some { readNode P rb i o with pc := nextReadPc rb i }
  | .writeNodes remaining =>
    if 0 < remaining ∧ o.headNodeWrite.abs < o.minNodeHash then
      let (issued, sys) := writeNodes P o
      some { o with
        sys := sys
        headNodeWrite := o.headNodeWrite.addAssign (nodeBufferBatches * npp) issued
        outstandingWrites := o.outstandingWrites + issued / npp
        pc := .writeNodes (remaining - 1) }
    else some { o with pc := .releaseParents actionBatch }
  | .releaseParents remaining =>
    if 0 < remaining ∧ o.tailNodeParents < o.minNodeHash then
      some { releaseParent o with pc := .releaseParents (remaining - 1) }
    else some { o with pc := .advanceWritten actionBatch }
  | .advanceWritten remaining =>
    if 0 < remaining ∧ o.tailNodeWrite.idx npp ≠ o.headNodeWrite.idx npp ∧
        o.sys.nodeBuffer.valid (o.tailNodeWrite.idx npp) ≠ 0 then
      some { o with
        outstandingWrites := o.outstandingWrites - 1
        tailNodeWrite := o.tailNodeWrite.addAssign (nodeBufferBatches * npp) npp
        pc := .advanceWritten (remaining - 1) }
    else some { o with freeCount := o.sys.nodeBuffer.freeCount, pc := .release actionBatch }
  | .release remaining =>
    if 0 < remaining ∧ o.tailNode < o.minNode ∧ o.tailNode < o.tailNodeWrite.abs ∧
        o.freeCount < queueSize * 512 then
      if o.entersSyncBatch ∧ ¬o.syncBatchConsumed then some { o with pc := .finish }
      else some { advanceTail P o with pc := .release (remaining - 1) }
    else some { o with pc := .finish }
  | .finish =>
    if nodeBufferBatches * npp ≤ o.parentIter.node - o.tailNode then some { o with pc := .exited }
    else some { o with node := o.nextNode, pc := .top }
  | .finished | .exited => none

end Orchestrator

end SupraSeal
