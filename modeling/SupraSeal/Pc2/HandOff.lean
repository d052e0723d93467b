import SupraSeal.Lib.Transition
import SupraSeal.Pc2.Scheduler
import SupraSeal.Sealing.SectorParameters

/-!
# From the GPUs to the CPU

Each resource of `pc2_t` hashes the subtrees of a partition on a stream of a GPU. The roots of all
subtrees are collected in `gpu_results_c` and `gpu_results_r`, from where the worker of `hash` copies
them and hashes the rest of the tree on the CPU while the GPUs are at the next partition.

The mutex `gpu_results_in_use` is taken by the main thread for a resource that has its last hash to
do, and released by the callback of the stream; the main thread takes it again when all resources are
done, and the worker releases it once it has copied the results. A channel with one token keeps the
main thread from being two partitions ahead.

The output of a resource in a partition is given by the pair of their numbers. `ready` of a visit
says that the data are read and that buffers for the disk are there.
-/

namespace SupraSeal

/-- The states of a `gpu_resource_t`. -/
inductive ResourceState
  | idle
  | dataRead
  | dataWait
  | hashColumn
  | hashColumnLeaves
  | hashLeaf
  | hashWait
  | done
  deriving DecidableEq

/-- What a stream has still to do. The callback is in two parts. -/
inductive StreamOp
  /-- Copy the last hash of tree-c to `gpu_results_c`. -/
  | stashC (partition : ℕ)
  /-- Copy the last hash of tree-r to `gpu_results_r`. -/
  | stashR (partition : ℕ)
  /-- `if (last) gpu_results_in_use.unlock()`. -/
  | unlock
  /-- `async_done = true`. -/
  | asyncDone
  deriving DecidableEq

/-- `gpu_resource_t`. -/
structure GpuResource where
  state : ResourceState
  last : Bool
  asyncDone : Bool
  work : ℕ × ℕ
  scheduler : Scheduler
  stream : List StreamOp

/-- Holders of `gpu_results_in_use`. -/
inductive Holder
  | resource (n : ℕ)
  | main
  deriving DecidableEq

/-- Where `hash` is. -/
inductive HashPhase
  /-- In `hash_gpu`. -/
  | gpu
  /-- At `gpu_results_in_use.lock()`. -/
  | lock
  /-- At `ch.recv()`. -/
  | recv
  /-- At `ch.recv()` after the last partition. -/
  | drain
  | finished
  deriving DecidableEq

/-- Where a job of the worker is. -/
inductive WorkerJob
  | copyC (partition : ℕ)
  | copyR (partition : ℕ)
  | unlock (partition : ℕ)
  | hashC (partition : ℕ)
  | hashR (partition : ℕ)
  | send (partition : ℕ)
  deriving DecidableEq

/-- The parameters of `pc2_t` that matter here. -/
structure HandOff where
  numPartitions : ℕ
  streamCount : ℕ
  arity : ℕ
  /-- Batches of nodes of a stream. -/
  initialNodes : ℕ
  treeROnly : Bool
  numPartitions_pos : 0 < numPartitions
  arity_pos : 0 < arity
  initialNodes_pos : 0 < initialNodes
  /-- The batches fill whole nodes of the tree. -/
  arity_dvd : arity ∣ initialNodes

namespace HandOff

/-- Streams on all GPUs, for the sectors that are not hashed on the CPU alone. -/
def streamCountOf (size : SectorSize) : ℕ := if size.lg < 24 then 8 else 64

/-- Nodes of a batch. -/
def batchSizeOf (size : SectorSize) : ℕ := if size.lg < 24 then 64 * 8 else 64

/-- The parameters of `do_pc2`. -/
def doPc2 (size : SectorSize) (hgpu : ¬size.lg ≤ 15) : HandOff where
  numPartitions := size.treeRCFiles
  streamCount := streamCountOf size
  arity := 8
  initialNodes := size.numLeaves / size.treeRCFiles / streamCountOf size / batchSizeOf size
  treeROnly := false
  numPartitions_pos := size.treeRCFiles_pos
  arity_pos := by decide
  initialNodes_pos := by
    cases size <;> first | exact absurd (by decide) hgpu | decide
  arity_dvd := by
    cases size <;> first | exact absurd (by decide) hgpu | decide

structure State where
  partition : ℕ
  phase : HashPhase
  resource : ℕ → GpuResource
  gpuResultsInUse : Option Holder
  /-- Tokens in the channel `ch`. -/
  ch : ℕ
  /-- Jobs of the pool that are not started. -/
  jobs : List ℕ
  worker : Option WorkerJob
  gpuResultsC : ℕ → Option (ℕ × ℕ)
  gpuResultsR : ℕ → Option (ℕ × ℕ)
  cpuInputC : ℕ → Option (ℕ × ℕ)
  cpuInputR : ℕ → Option (ℕ × ℕ)

variable (P : HandOff)

/-- `reset` of a resource. -/
def resetResource (r : GpuResource) : GpuResource :=
  { r with
    state := .idle, last := false, asyncDone := true, scheduler := Scheduler.reset P.initialNodes }

def init : State where
  partition := 0
  phase := .gpu
  resource _ :=
    { state := .idle, last := false, asyncDone := true, work := (0, 0)
      scheduler := Scheduler.reset P.initialNodes, stream := [] }
  gpuResultsInUse := none
  ch := 1
  jobs := []
  worker := none
  gpuResultsC _ := none
  gpuResultsR _ := none
  cpuInputC _ := none
  cpuInputR _ := none

/-! ### The main loop of `hash_gpu` -/

/-- What the main thread puts into the stream for a node that is no leaf. -/
def leafOps (last : Bool) (partition : ℕ) : List StreamOp :=
  (if last then (if P.treeROnly then [] else [.stashC partition]) ++ [.stashR partition] else []) ++
    [.unlock, .asyncDone]

/-- One visit of a resource, in a state other than `HASH_LEAF`. -/
def visitResource (r : GpuResource) (ready : Bool) : GpuResource :=
  match r.state with
  | .done => r
  | .idle =>
    let (more, work, scheduler) := r.scheduler.next P.arity r.work
    { r with
      last := !more, work := work, scheduler := scheduler
      state := if work.1 = 1 then .dataRead else .hashLeaf }
  | .dataRead => { r with state := .dataWait }
  | .dataWait =>
    if ready then { r with state := if P.treeROnly then .hashColumnLeaves else .hashColumn } else r
  | .hashColumn =>
    if ready then
      { r with asyncDone := false, stream := r.stream ++ [.asyncDone], state := .hashColumnLeaves }
    else r
  | .hashColumnLeaves =>
    if r.asyncDone && (P.treeROnly || ready) then
      { r with asyncDone := false, stream := r.stream ++ [.asyncDone], state := .hashWait }
    else r
  | .hashLeaf => r
  | .hashWait =>
    if r.asyncDone then { r with state := if r.last then .done else .idle } else r

/-- One visit of a resource by the main thread. -/
def visit (s : State) (n : ℕ) (ready : Bool) : State :=
  let r := s.resource n
  if r.state = .hashLeaf then
    if ready then
      -- `try_lock` for the last hash
      if r.last ∧ s.gpuResultsInUse ≠ none then s
      else
        { s with
          gpuResultsInUse := if r.last then some (.resource n) else s.gpuResultsInUse
          resource := Function.update s.resource n
            { r with
              asyncDone := false, stream := r.stream ++ P.leafOps r.last s.partition
              state := .hashWait } }
    else s
  else { s with resource := Function.update s.resource n (P.visitResource r ready) }

/-! ### Streams -/

/-- A stream runs its next operation. -/
def runStream (s : State) (n : ℕ) : Option State :=
  let r := s.resource n
  match r.stream with
  | [] => none
  | .stashC p :: rest =>
    some { s with
      gpuResultsC := Function.update s.gpuResultsC n (some (p, n))
      resource := Function.update s.resource n { r with stream := rest } }
  | .stashR p :: rest =>
    some { s with
      gpuResultsR := Function.update s.gpuResultsR n (some (p, n))
      resource := Function.update s.resource n { r with stream := rest } }
  | .unlock :: rest =>
    some { s with
      gpuResultsInUse := if r.last then none else s.gpuResultsInUse
      resource := Function.update s.resource n { r with stream := rest } }
  | .asyncDone :: rest =>
    some { s with resource := Function.update s.resource n { r with asyncDone := true, stream := rest } }

/-! ### The worker -/

def runWorker (s : State) : Option State :=
  match s.worker with
  | none =>
    match s.jobs with
    | [] => none
    | p :: jobs => some { s with worker := some (.copyC p), jobs := jobs }
  | some (.copyC p) => some { s with cpuInputC := s.gpuResultsC, worker := some (.copyR p) }
  | some (.copyR p) => some { s with cpuInputR := s.gpuResultsR, worker := some (.unlock p) }
  | some (.unlock p) =>
    some { s with
      gpuResultsInUse := none, worker := some (if P.treeROnly then .hashR p else .hashC p) }
  | some (.hashC p) => some { s with worker := some (.hashR p) }
  | some (.hashR p) => some { s with worker := some (.send p) }
  | some (.send _) => some { s with ch := s.ch + 1, worker := none }

/-! ### Steps -/

inductive Action
  /-- The main thread visits a resource in the loop of `hash_gpu`. -/
  | visit (n : ℕ) (ready : Bool)
  /-- All resources are done, and `hash_gpu` returns. -/
  | gpuDone
  | lock
  /-- Take the token, spawn the job and go on to the next partition. -/
  | recv
  | drain
  | stream (n : ℕ)
  | worker

def AllDone (s : State) : Prop := ∀ n < P.streamCount, (s.resource n).state = .done

instance (s : State) : Decidable (P.AllDone s) :=
  inferInstanceAs (Decidable (∀ n < P.streamCount, (s.resource n).state = .done))

def step (s : State) : Action → Option State
  | .visit n ready => if s.phase = .gpu ∧ n < P.streamCount then some (P.visit s n ready) else none
  | .gpuDone => if s.phase = .gpu ∧ P.AllDone s then some { s with phase := .lock } else none
  | .lock =>
    if s.phase = .lock ∧ s.gpuResultsInUse = none then
      some { s with phase := .recv, gpuResultsInUse := some .main }
    else none
  | .recv =>
    if s.phase = .recv ∧ 0 < s.ch then
      let s := { s with ch := s.ch - 1, jobs := s.jobs ++ [s.partition] }
      if s.partition + 1 < P.numPartitions then
        some { s with
          partition := s.partition + 1, phase := .gpu
          resource := fun n => P.resetResource (s.resource n) }
      else some { s with phase := .drain }
    else none
  | .drain =>
    if s.phase = .drain ∧ 0 < s.ch then some { s with ch := s.ch - 1, phase := .finished } else none
  | .stream n => runStream s n
  | .worker => P.runWorker s

end HandOff

end SupraSeal
