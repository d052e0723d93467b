import SupraSeal.Pc2.Scheduler

/-!
# Work items and their buffers

`buffers_t` and `scheduler_t` of `pc2/planner.cpp` with the buffers of the work items. A buffer is a
number, and zero is the null pointer. The map `wip` is the list of its values.
-/

namespace SupraSeal

/-! ### The pool -/

/-- `buffers_t`: the free buffers, the back of the vector first, and the number of buffers made. -/
structure Buffers where
  buffers : List ℕ
  numBuffers : ℕ

namespace Buffers

def init : Buffers := ⟨[], 0⟩

/-- `get`: a free buffer, or else a new one. -/
def get (b : Buffers) : ℕ × Buffers :=
  match b.buffers with
  | [] => (b.numBuffers + 1, { b with numBuffers := b.numBuffers + 1 })
  | buf :: buffers => (buf, { b with buffers := buffers })

def put (b : Buffers) (buf : ℕ) : Buffers := { b with buffers := buf :: b.buffers }

end Buffers

/-! ### The work items -/

/-- `work_item_t`. -/
structure WorkItem where
  idx : ℕ × ℕ
  dependenciesReady : ℕ
  isLeaf : Bool
  buf : ℕ
  inputs : ℕ → ℕ

namespace WorkItem

def new (idx : ℕ × ℕ) (isLeaf : Bool) : WorkItem := ⟨idx, 0, isLeaf, 0, fun _ => 0⟩

/-- `leaf_num`: the position among the inputs of the parent. -/
def leafNum (arity : ℕ) (w : WorkItem) : ℕ := w.idx.2 &&& (arity - 1)

end WorkItem

/-! ### The scheduler -/

/-- `scheduler_t`: the items that are ready, the back of the vector first, and those that wait for
inputs. -/
structure TreeScheduler where
  stack : List WorkItem
  wip : List WorkItem

namespace TreeScheduler

variable (arity : ℕ)

/-- `reset`. The items are pushed from the last one to the first one. -/
def reset (initialNodes : ℕ) : TreeScheduler where
  stack := (List.range initialNodes).map fun node => WorkItem.new (1, node) true
  wip := []

/-- The second part of `next`: record the output of `w` as an input of its parent. -/
def record (s : TreeScheduler) (w : WorkItem) (stack : List WorkItem) : TreeScheduler :=
  let nextLayerId := (w.idx.1 + 1, w.idx.2 / arity)
  let work := (s.wip.find? (·.idx = nextLayerId)).getD (.new nextLayerId false)
  let dependantWork := { work with
    inputs := Function.update work.inputs (w.leafNum arity) w.buf
    dependenciesReady := work.dependenciesReady + 1 }
  let wip := s.wip.filter (·.idx ≠ nextLayerId)
  if dependantWork.dependenciesReady = arity then ⟨dependantWork :: stack, wip⟩
  else ⟨stack, dependantWork :: wip⟩

/-- `next`: whether there is more work, and the work item if there was one. -/
def next (s : TreeScheduler) (bufs : Buffers) : Bool × Option WorkItem × TreeScheduler × Buffers :=
  match s.stack with
  | [] => (false, none, s, bufs)
  | w :: stack =>
    let (buf, bufs) := bufs.get
    let w := { w with buf := buf }
    -- the inputs go back to the pool before they are read
    let bufs := if w.isLeaf then bufs
      else (List.range arity).foldl (fun bufs i => bufs.put (w.inputs i)) bufs
    let s := s.record arity w stack
    (!s.stack.isEmpty, some w, s, bufs)

/-- The loop of `run`, with the items that were hashed. -/
def runLoop : ℕ → TreeScheduler → Buffers → Option (List WorkItem × TreeScheduler × Buffers)
  | 0, _, _ => none
  | fuel + 1, s, bufs =>
    match s.next arity bufs with
    | (true, w, s, bufs) => (runLoop fuel s bufs).map fun (ws, s, bufs) => (w.toList ++ ws, s, bufs)
    | (false, w, s, bufs) => some (w.toList, s, bufs)

/-- The buffer that `run` returns. -/
def result (s : TreeScheduler) : ℕ := (s.wip.head?.map fun w => w.inputs 0).getD 0

/-- The checks of `is_done`. -/
def IsDone (s : TreeScheduler) : Prop :=
  ∃ work, s.wip = [work] ∧ work.inputs 0 ≠ 0 ∧ work.inputs 1 = 0

end TreeScheduler

/-! ### A stream of a gpu -/

/-- The pool and the two schedulers of a `gpu_resource_t`, which share it. There is no work item before the
first call of `next`. -/
structure TreeResource where
  buffers : Buffers
  schedulerC : TreeScheduler
  schedulerR : TreeScheduler
  workC : Option WorkItem
  workR : Option WorkItem
  last : Bool

namespace TreeResource

variable (arity initialNodes : ℕ)

def init : TreeResource where
  buffers := .init
  schedulerC := .reset initialNodes
  schedulerR := .reset initialNodes
  workC := none
  workR := none
  last := false

/-- `reset`. The buffers in the schedulers do not go back to the pool. -/
def reset (resource : TreeResource) : TreeResource :=
  { resource with last := false, schedulerC := .reset initialNodes, schedulerR := .reset initialNodes }

/-- The state `IDLE` of `hash_gpu`: the next item of tree-c, then the next item of tree-r. -/
def idle (resource : TreeResource) : TreeResource :=
  let (more, workC, schedulerC, buffers) := resource.schedulerC.next arity resource.buffers
  let (_, workR, schedulerR, buffers) := resource.schedulerR.next arity buffers
  { buffers, schedulerC, schedulerR, last := !more
    workC := workC.or resource.workC, workR := workR.or resource.workR }

/-- The loop of `hash_gpu` for one stream, with the items that were hashed. -/
def hashLoop : ℕ → TreeResource → Option (List (WorkItem × WorkItem) × TreeResource)
  | 0, _ => none
  | fuel + 1, resource =>
    let resource := resource.idle arity
    match resource.workC, resource.workR with
    | some c, some r =>
      if resource.last then some ([(c, r)], resource)
      else (hashLoop fuel resource).map fun (items, resource) => ((c, r) :: items, resource)
    | _, _ => none

/-- `hash_gpu` for one stream. -/
def hashGpu (fuel : ℕ) (resource : TreeResource) :
    Option (List (WorkItem × WorkItem) × TreeResource) :=
  hashLoop arity fuel (resource.reset initialNodes)

/-- The partitions, one after the other. -/
def hashPartitions (fuel : ℕ) :
    ℕ → TreeResource → Option (List (List (WorkItem × WorkItem)) × TreeResource)
  | 0, resource => some ([], resource)
  | partitions + 1, resource => do
    let (items, resource) ← hashGpu arity initialNodes fuel resource
    let (runs, resource) ← hashPartitions fuel partitions resource
    some (items :: runs, resource)

/-- The tree a hash is for. -/
inductive Tree where
  | c
  | r
  deriving DecidableEq

/-- The hashes in the order of the stream. Both for the leaves and for the other nodes the hash of
tree-c is enqueued before the hash of tree-r. -/
def hashes (items : List (WorkItem × WorkItem)) : List (Tree × WorkItem) :=
  items.flatMap fun (c, r) => [(.c, c), (.r, r)]

end TreeResource

end SupraSeal
