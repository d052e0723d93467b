import SupraSeal.Lib.Transition
import Mathlib.Data.Multiset.AddSub
import Mathlib.Data.List.Range

/-!
# Buffers to disk

Results of the GPUs are written to disk through buffers of host memory. `pc2_batcher_t` of
`pc2/cuda/pc2.cu` takes single buffers from full batches and collects them again in empty ones;
a batch that is full again goes to the queue `to_disk`, where the writer threads of
`process_writes` take it and put it back into the pool of full batches.

A batch is an array of pointers. Emptying one does not clear its pointers, so what counts are the
slots in use: those of a full batch, of `unbundle` from `idx_unbundle` on and of `bundle` up to
`idx_bundle`.

The methods of the batcher hold its mutex, and each uses at most one queue that the writers use
too, so that they are steps of the system. `process_writes` asks whether the pool is full before it
takes a batch; this only delays it, and the steps of a writer here are without it.
-/

namespace SupraSeal

/-! ### Sizes -/

def numHostBufs : ℕ := 1 <<< 13

def diskIoBatchSize : ℕ := 64

def numHostBatches : ℕ := numHostBufs / diskIoBatchSize

def numHostEmptyBatches : ℕ := 8

/-- Batches, and the room in each of the queues. -/
def numBatches : ℕ := numHostBatches + numHostEmptyBatches

/-! ### State -/

/-- `pc2_batcher_t` with its queues, the writers and the holders of buffers. Batches and buffers are
given by their index. -/
structure DiskBatcher where
  /-- The batcher of a partition exists. -/
  alive : Bool
  poolFull : List ℕ
  poolEmpty : List ℕ
  toDisk : List ℕ
  /-- Writer threads and the batch each of them writes. -/
  writing : List (ℕ × ℕ)
  unbundle : Option ℕ
  bundle : Option ℕ
  idxUnbundle : ℕ
  idxBundle : ℕ
  /-- `batch[i]` of each batch. -/
  slot : ℕ → ℕ → Option ℕ
  /-- `size` of each buffer. -/
  bufSize : ℕ → ℕ
  /-- Resources and the buffers they hold, one entry for each buffer. -/
  held : List (ℕ × ℕ)
  /-- Buffers that the main thread may still take after it has asked for `size()`. -/
  granted : ℕ

/-- Failed assertions and accesses that are not valid. -/
inductive DiskFault
  | queueFull
  | assertFalse
  | nullBuffer
  | outOfBounds
  deriving DecidableEq

namespace DiskBatcher

/-- The pools that the constructor of `pc2_t` builds. -/
def init : DiskBatcher where
  alive := false
  poolFull := List.range numHostBatches
  poolEmpty := List.range' numHostBatches numHostEmptyBatches
  toDisk := []
  writing := []
  unbundle := none
  bundle := none
  idxUnbundle := 0
  idxBundle := 0
  slot i j := if i < numHostBatches then some (i * diskIoBatchSize + j) else none
  bufSize _ := 0
  held := []
  granted := 0

/-! ### Queues -/

/-- `enqueue` of a `pool_t`. -/
def push (q : List ℕ) (b : ℕ) : Except DiskFault (List ℕ) :=
  if q.length = numBatches then .error .queueFull else .ok (q ++ [b])

/-! ### The batcher -/

variable (s : DiskBatcher)

/-- The constructor of `pc2_batcher_t`. -/
def construct : Except DiskFault DiskBatcher :=
  match s.poolFull, s.poolEmpty with
  | u :: full, b :: empty =>
    .ok { s with
      alive := true, poolFull := full, poolEmpty := empty, unbundle := some u, bundle := some b,
      idxUnbundle := 0, idxBundle := 0 }
  | _, _ => .error .nullBuffer

/-- `dequeue` without its first lines: take the next buffer of `unbundle`. -/
def takeBuffer (u : ℕ) : Except DiskFault (Option ℕ × DiskBatcher) := do
  let buf := s.slot u s.idxUnbundle
  let s := { s with idxUnbundle := s.idxUnbundle + 1 }
  if s.idxUnbundle = diskIoBatchSize then
    return (buf, { s with poolEmpty := ← push s.poolEmpty u, unbundle := none, idxUnbundle := 0 })
  else return (buf, s)

/-- `dequeue`. -/
def dequeue : Except DiskFault (Option ℕ × DiskBatcher) :=
  match s.unbundle with
  | some u => s.takeBuffer u
  | none =>
    match s.poolFull with
    | u :: full => { s with unbundle := some u, poolFull := full }.takeBuffer u
    | [] => .ok (none, s)

/-- `enqueue` without its first lines: put the buffer into `bundle`. -/
def putBuffer (b buf : ℕ) : Except DiskFault DiskBatcher := do
  let s := { s with
    slot := Function.update s.slot b (Function.update (s.slot b) s.idxBundle (some buf))
    idxBundle := s.idxBundle + 1 }
  if s.idxBundle = diskIoBatchSize then
    return { s with toDisk := ← push s.toDisk b, bundle := none, idxBundle := 0 }
  else return s

/-- `enqueue`. -/
def enqueue (buf : ℕ) : Except DiskFault DiskBatcher :=
  match s.bundle with
  | some b => s.putBuffer b buf
  | none =>
    match s.poolEmpty with
    | b :: empty => { s with bundle := some b, poolEmpty := empty }.putBuffer b buf
    | [] => .error .assertFalse

/-- `size`: the buffers that can be taken and stored again. -/
def size : ℕ :=
  min ((if s.unbundle = none then 0 else diskIoBatchSize - s.idxUnbundle) +
      s.poolFull.length * diskIoBatchSize)
    ((if s.bundle = none then 0 else diskIoBatchSize - s.idxBundle) +
      s.poolEmpty.length * diskIoBatchSize)

/-- The loop of `flush`, while `idx_bundle` is not at the end. -/
def flushLoop (u b : ℕ) : ℕ → DiskBatcher → Except DiskFault DiskBatcher
  | 0, s => .ok s
  | n + 1, s =>
    if s.idxUnbundle < diskIoBatchSize then
      match s.slot u s.idxUnbundle with
      | none => .error .nullBuffer
      | some buf =>
        flushLoop u b n { s with
          bufSize := Function.update s.bufSize buf 0
          slot := Function.update s.slot b
            (Function.update (s.slot b) s.idxBundle (s.slot u s.idxUnbundle))
          -- incremented as part of the assignment and once more
          idxUnbundle := s.idxUnbundle + 1 + 1
          idxBundle := s.idxBundle + 1 }
    else .error .outOfBounds

/-- `flush`. -/
def flush : Except DiskFault DiskBatcher := do
  if s.idxBundle ≠ s.idxUnbundle then throw .assertFalse
  let s ←
    if 0 < s.idxBundle then
      match s.unbundle, s.bundle with
      | some u, some b => do
        let s ← flushLoop u b (diskIoBatchSize - s.idxBundle) s
        let s := { s with toDisk := ← push s.toDisk b }
        pure { s with poolEmpty := ← push s.poolEmpty u }
      | _, _ => throw .nullBuffer
    else do
      -- untouched bundle and unbundle batches
      let s ←
        match s.bundle with
        | some b => pure { s with poolEmpty := ← push s.poolEmpty b }
        | none => pure s
      match s.unbundle with
      | some _ =>
        match s.bundle with
        | some b => pure { s with poolFull := ← push s.poolFull b }
        | none => throw .nullBuffer
      | none => pure s
  return { s with bundle := none, unbundle := none, idxUnbundle := 0, idxBundle := 0 }

/-! ### Steps -/

/-- Steps of the main thread, of stream callbacks and of the writers. -/
inductive Action
  /-- `hash_gpu` constructs the batcher of a partition. -/
  | construct
  /-- The main thread asks for `n` buffers. -/
  | check (n : ℕ)
  /-- The main thread takes a buffer for a resource. -/
  | dequeue (resource : ℕ)
  /-- A resource or its callback hands a buffer over, with `size` elements to write. -/
  | enqueue (resource buf size : ℕ)
  /-- An idle writer looks for a batch. -/
  | writerDequeue (writer : ℕ)
  /-- A writer has written its batch. -/
  | writerEnqueue (writer batch : ℕ)
  /-- The end of a partition: `flush`, and the destructor. -/
  | flush

/-- When a thread takes a step. All streams are synchronized before `flush`, and all batches are
written before the next partition. -/
def enabled : Action → Prop
  | .construct => s.alive = false ∧ s.toDisk = [] ∧ s.writing = []
  | .check _ => s.alive = true
  | .dequeue _ => s.alive = true ∧ 0 < s.granted
  | .enqueue resource buf _ => s.alive = true ∧ (resource, buf) ∈ s.held
  | .writerDequeue writer => writer ∉ s.writing.map Prod.fst
  | .writerEnqueue writer batch => (writer, batch) ∈ s.writing
  | .flush => s.alive = true ∧ s.held = []

/-- What a step does. -/
def run : Action → Except DiskFault DiskBatcher
  | .construct => s.construct
  | .check n => .ok { s with granted := if n ≤ s.size then n else 0 }
  | .dequeue resource => do
    match ← s.dequeue with
    | (some buf, s) => pure { s with held := (resource, buf) :: s.held, granted := s.granted - 1 }
    | (none, _) => throw .nullBuffer
  | .enqueue resource buf size => do
    let s ← { s with bufSize := Function.update s.bufSize buf size }.enqueue buf
    return { s with held := s.held.erase (resource, buf) }
  | .writerDequeue writer =>
    match s.toDisk with
    | b :: rest => .ok { s with toDisk := rest, writing := (writer, b) :: s.writing }
    | [] => .ok s
  | .writerEnqueue writer batch => do
    return { s with
      poolFull := ← push s.poolFull batch, writing := s.writing.erase (writer, batch) }
  | .flush => do
    let s ← s.flush
    let s ← s.flush
    return { s with alive := false, granted := 0 }

instance (a : Action) : Decidable (s.enabled a) :=
  match a with
  | .construct => inferInstanceAs (Decidable (_ ∧ _ ∧ _))
  | .check _ => inferInstanceAs (Decidable (_ = _))
  | .dequeue _ => inferInstanceAs (Decidable (_ ∧ _))
  | .enqueue _ _ _ => inferInstanceAs (Decidable (_ ∧ _))
  | .writerDequeue _ => inferInstanceAs (Decidable (¬_))
  | .writerEnqueue _ _ => inferInstanceAs (Decidable (_ ∈ _))
  | .flush => inferInstanceAs (Decidable (_ ∧ _))

def step (s : DiskBatcher) (a : Action) : Option DiskBatcher :=
  if s.enabled a then (s.run a).toOption else none

/-! ### Places -/

/-- The pointers of a batch. -/
def slots (b : ℕ) : List (Option ℕ) := (List.range diskIoBatchSize).map (s.slot b)

/-- Where the batches are. -/
def places : Multiset ℕ :=
  s.poolFull + s.poolEmpty + s.toDisk + s.writing.map Prod.snd + s.unbundle.toList + s.bundle.toList

/-- Batches all of whose slots are in use. -/
def fullBatches : List ℕ := s.poolFull ++ s.toDisk ++ s.writing.map Prod.snd

/-- Where the buffers are: slots in use, and holders. -/
def live : Multiset (Option ℕ) :=
  s.fullBatches.flatMap s.slots +
    s.unbundle.toList.flatMap (fun u =>
      (List.range' s.idxUnbundle (diskIoBatchSize - s.idxUnbundle)).map (s.slot u)) +
    s.bundle.toList.flatMap (fun b => (List.range s.idxBundle).map (s.slot b)) +
    s.held.map fun p => some p.2

end DiskBatcher

end SupraSeal
