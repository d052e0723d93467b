import SupraSeal.Lib.Transition
import SupraSeal.Nvme.Ring
import SupraSeal.Sealing.DataStructures

/-!
# Coordinators and hashers

`coordinator_t` of `pc1/coordinator_t.hpp`: the thread `run` that fills batches of parents and
the threads `run_thread` that hash them. Each constructor of the two program counters is one
atomic action of the thread; a thread that waits has no step until what it waits for is there.

The coordinator reads the parent buffer through a `ParentView`. The labels themselves are not
part of this model: what a hasher stores, and where, is in `SupraSeal.Pc1.System`.
-/

namespace SupraSeal

/-- What a coordinator sees of the parent buffer and of the pointers parallel to it. -/
structure ParentView where
  isValid : ℕ → Bool
  ptr : ℕ → ℕ → NodePtr
  sync : ℕ → ℕ → ParentPtrSync

/-- Owner of one of the mutexes `coord_ready_mtx`. -/
inductive Mutex
  | free
  | coordinator
  | hasher (t : ℕ)
  deriving DecidableEq

/-- Where a hashing thread is in `run_thread`. -/
inductive HasherPc
  | top
  | lock
  | unlock
  | spin
  | hash (i : ℕ)
  | batchDone
  | finished
  deriving DecidableEq

/-- The locals of `run_thread`. -/
structure Hasher where
  thrNode : ℕ
  coordIdx : ℕ
  nodeIdx : ℕ
  validNodes : ℕ
  pc : HasherPc

/-- Where the coordinator is in `run`. -/
inductive CoordPc
  | outer
  | sample
  | copy (j : ℕ)
  | unlock
  | publish
  | recover
  | reset
  | lock
  | reserve
  | advance
  | drain
  | drainReset
  | finished
  deriving DecidableEq

/-- A coordinator with its hashers: the locals of `run`, the members they share and the entry
`coordinator_node[id]` it reports its progress in. -/
structure Coordinator where
  node : ℕ
  completedNode : ℕ
  idx : ℕ
  curValid : Bool
  curBatchCount : ℕ
  coordBatchIdx : ℕ
  nodeUpdateBatchCount : ℕ
  coordRing : RingBuffer coordBatchCount
  coordDoneCount : ℕ → ℕ
  coordNextValid : ℕ
  coordReadyMtx : ℕ → Mutex
  coordRingPtrs : ℕ → ℕ → NodePtr
  coordinatorNode : ℕ
  pc : CoordPc
  hashers : ℕ → Hasher

namespace Coordinator

/-- Number of batches between updates back to the storage core. -/
def nodeCountUpdateInterval : ℕ := 4

/-- After the constructor and the first `reserve` of `run`. -/
def init : Coordinator where
  node := 0
  completedNode := 0
  idx := 0
  curValid := false
  curBatchCount := 0
  coordBatchIdx := 0
  nodeUpdateBatchCount := 0
  coordRing := (RingBuffer.empty.reserveBatchNocheck 1).2
  coordDoneCount := fun _ => 0
  coordNextValid := 0
  coordReadyMtx := fun _ => .coordinator
  coordRingPtrs := fun _ _ => .null
  coordinatorNode := 0
  pc := .outer
  hashers := fun _ => ⟨0, 0, 0, 0, .top⟩

/-- The pointer handed to the hashers for one parent: local nodes are passed on, all others are
copied by the coordinator itself. -/
def ringPtr : NodePtr → ParentPtrSync → NodePtr
  | .null, _ => .null
  | src, .localNode => src
  | _, _ => .null

/-- One action of `coordinator_t::run`. -/
def step (numThreads nodeStop : ℕ) (v : ParentView) (c : Coordinator) : Option Coordinator :=
  match c.pc with
  | .outer =>
    if c.node < nodeStop then
      if v.isValid c.idx then some { c with pc := .sample } else none
    else some { c with pc := .drain }
  | .sample =>
    -- the next entry is tested before the parents of this one are copied
    some { c with curValid := v.isValid (RingBuffer.incr parentBufferBatches c.idx), pc := .copy 0 }
  | .copy j =>
    let ptr := ringPtr (v.ptr c.idx j) (v.sync c.idx j)
    let slot := c.curBatchCount * parentCount + j
    let c := { c with
      coordRingPtrs := Function.update c.coordRingPtrs c.coordBatchIdx
        (Function.update (c.coordRingPtrs c.coordBatchIdx) slot ptr) }
    if j + 1 < parentCount then some { c with pc := .copy (j + 1) }
    else
      some { c with
        curBatchCount := c.curBatchCount + 1
        pc := if c.curBatchCount + 1 = coordBatchSize then .unlock else .advance }
  | .unlock =>
    some { c with
      coordReadyMtx := Function.update c.coordReadyMtx c.coordBatchIdx .free
      pc := .publish }
  | .publish =>
    some { c with coordNextValid := c.coordNextValid + coordBatchSize, pc := .recover }
  | .recover =>
    if c.coordRing.isFull then
      if c.coordDoneCount c.coordRing.tail = numThreads then some { c with pc := .reset } else none
    else some { c with pc := .reserve }
  | .reset =>
    some { c with
      coordDoneCount := Function.update c.coordDoneCount c.coordRing.tail 0
      pc := .lock }
  | .lock =>
    if c.coordReadyMtx c.coordRing.tail = .free then
      some { c with
        coordReadyMtx := Function.update c.coordReadyMtx c.coordRing.tail .coordinator
        coordRing := c.coordRing.release
        completedNode := c.completedNode + coordBatchSize
        pc := .reserve }
    else none
  | .reserve =>
    match c.coordRing.reserve with
    | none => none
    | some (idx, ring) =>
      some { c with
        coordBatchIdx := idx
        coordRing := ring
        curBatchCount := 0
        nodeUpdateBatchCount := c.nodeUpdateBatchCount + 1
        pc := .advance }
  | .advance =>
    let pc := if c.node + 1 = nodeStop then .outer else if c.curValid then .sample else .outer
    let c := { c with
      node := c.node + 1
      idx := RingBuffer.incr parentBufferBatches c.idx
      pc := pc }
    if c.nodeUpdateBatchCount = nodeCountUpdateInterval then
      some { c with coordinatorNode := c.completedNode, nodeUpdateBatchCount := 0 }
    else some c
  | .drain =>
    if c.completedNode < nodeStop then
      if c.coordDoneCount c.coordRing.tail < numThreads then none
      else some { c with pc := .drainReset }
    else some { c with coordinatorNode := c.completedNode, pc := .finished }
  | .drainReset =>
    some { c with
      coordDoneCount := Function.update c.coordDoneCount c.coordRing.tail 0
      coordRing := c.coordRing.release
      completedNode := c.completedNode + coordBatchSize
      pc := .drain }
  | .finished => none

/-- One action of `coordinator_t::run_thread` for thread `t`. -/
def hasherStep (C : Config) (nodeStop t : ℕ) (c : Coordinator) : Option Coordinator :=
  let h := c.hashers t
  let put (h : Hasher) : Coordinator := { c with hashers := Function.update c.hashers t h }
  match h.pc with
  | .top =>
    if h.thrNode < nodeStop then
      if c.coordNextValid ≤ h.thrNode then some (put { h with pc := .lock })
      else some (put { h with validNodes := c.coordNextValid, pc := .hash 0 })
    else some (put { h with pc := .finished })
  | .lock =>
    if c.coordReadyMtx h.coordIdx = .free then
      some { put { h with pc := .unlock } with
        coordReadyMtx := Function.update c.coordReadyMtx h.coordIdx (.hasher t) }
    else none
  | .unlock =>
    some { put { h with pc := .spin } with
      coordReadyMtx := Function.update c.coordReadyMtx h.coordIdx .free }
  | .spin =>
    if c.coordNextValid ≤ h.thrNode then none
    else some (put { h with validNodes := c.coordNextValid, pc := .hash 0 })
  | .hash i =>
    some (put { h with
      thrNode := h.thrNode + 1
      nodeIdx :=
        if C.node (h.thrNode + 1) % C.nodesPerPage = 0 then
          RingBuffer.incr nodeBufferBatches h.nodeIdx
        else h.nodeIdx
      pc := if i + 1 = coordBatchSize then .batchDone else .hash (i + 1) })
  | .batchDone =>
    some { put { h with
      coordIdx := RingBuffer.incr coordBatchCount h.coordIdx
      pc := if h.thrNode < h.validNodes then .hash 0 else .top } with
      coordDoneCount := Function.update c.coordDoneCount h.coordIdx
        (c.coordDoneCount h.coordIdx + 1) }
  | .finished => none

/-- An action of a coordinator, with what it sees of the parent buffer, or of a hasher. -/
inductive Action
  | coordinator (v : ParentView)
  | hasher (t : ℕ)

/-- The interleaving of `run` with its `run_thread` threads. -/
def next (C : Config) (numThreads nodeStop : ℕ) (c : Coordinator) : Action → Option Coordinator
  | .coordinator v => c.step numThreads nodeStop v
  | .hasher t => if t < numThreads then c.hasherStep C nodeStop t else none

end Coordinator

end SupraSeal
