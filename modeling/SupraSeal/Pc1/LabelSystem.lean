import SupraSeal.Pc1.Sdr

/-!
# PC1 with its labels

The system of `SupraSeal.Pc1.System` together with what its buffers and disks hold. A coordinator
copies the labels of a parent, a hasher walks over the copies and over the nodes it has pointers to
and stores the digests of its two sectors, and the pages of requests are transferred at some time
between their submission and their completion.

A thread takes its steps as in `Pc1.step`; what it does to the memory decides nothing there.
-/

namespace SupraSeal

open Sha256

/-- A submitted read: the page of the parent buffer that it fills and the node that is looked for. -/
structure ReadRequest where
  slot : ℕ
  page : ℕ
  node : ℕ
  deriving DecidableEq

/-- The read as the threads see it. -/
def ReadRequest.key (r : ReadRequest) : ℕ × ℕ := (r.slot, r.page)

/-- The buffers by slot, and the pages on disk by number. A page holds the labels of its nodes for all
sectors. -/
structure LabelMemory where
  nodeBuffer : ℕ → ℕ → ℕ → Node
  parentBuffer : ℕ → ℕ → ℕ → ℕ → Node
  /-- `coord_ring` of each coordinator, with the sectors of its hashers. -/
  coordRing : ℕ → ℕ → ℕ → ℕ → Node
  replicaIdBuffer : ℕ → ℕ → ReplicaIdBuffer
  disk : ℕ → ℕ → ℕ → Node

/-- Memory that is not written yet. -/
def LabelMemory.zero : LabelMemory where
  nodeBuffer _ _ _ := ⟨fun _ => 0⟩
  parentBuffer _ _ _ _ := ⟨fun _ => 0⟩
  coordRing _ _ _ _ := ⟨fun _ => 0⟩
  replicaIdBuffer _ _ := .init (fun _ => 0) 0
  disk _ _ _ := ⟨fun _ => 0⟩

/-- The digest of the blocks of a lane, as `sha_ext_mbx2` leaves it. -/
def blocksNode (blocks : List (Node × Node)) : Node :=
  digestNode ((blocks.map fun b => b.1.messageBytes ++ b.2.messageBytes).foldl compress .initial)

/-- The labels that a hasher stores for its sectors. -/
def storeLabels (nodeBuffer : ℕ → ℕ → ℕ → Node) (entry nodeInPage sector : ℕ) (label : ℕ → Node) :
    ℕ → ℕ → ℕ → Node := fun e i x =>
  if e = entry ∧ i = nodeInPage ∧ sector ≤ x ∧ x < sector + nodesPerHasher then label (x - sector)
  else nodeBuffer e i x

namespace LabelMemory

variable (P : Setup) (rest : ℕ → ShaPtr) (mem : LabelMemory)

/-- The parallel node that a pointer points to. -/
def load : NodePtr → Option (ℕ → Node)
  | .null => none
  | .nodeBuffer entry nodeInPage => some (mem.nodeBuffer entry nodeInPage)
  | .parentBuffer entry page nodeInPage => some (mem.parentBuffer entry page nodeInPage)

/-- Coordinator `k` copies parent `j` of its node, unless there is none or it is local. -/
def copyParent (sys : SystemBuffers) (k : ℕ) (c : Coordinator) (j : ℕ) : LabelMemory :=
  let entry := c.curBatchCount * parentCount + j
  let dst := mem.coordRing k c.coordBatchIdx entry
  match mem.load (sys.parentPtrs c.idx j) with
  | none => mem
  | some src =>
    if sys.parentPtrSyncs c.idx j = .localNode then mem
    else
      { mem with
        coordRing := Function.update mem.coordRing k
          (setEntry (mem.coordRing k) c.coordBatchIdx entry fun x =>
            if x < P.numHashers k * nodesPerHasher then src (Pc1.startSector P k + x)
            else dst x) }

/-- `hash` by hasher `t` of coordinator `k`, for node `i` of its batch. -/
def hashNode (k t i : ℕ) (c : Coordinator) : LabelMemory :=
  let h := c.hashers t
  let hashed := Coordinator.hash P.C h.thrNode
    (fun j => mem.coordRing k h.coordIdx (i * parentCount + j))
    (fun j => mem.load (c.coordRingPtrs h.coordIdx (i * parentCount + j))) rest
    (Pc1.hasherSector P k t) t (mem.replicaIdBuffer k t)
  { mem with
    replicaIdBuffer := setEntry mem.replicaIdBuffer k t hashed.1
    nodeBuffer := storeLabels mem.nodeBuffer h.nodeIdx (P.C.node h.thrNode % P.C.nodesPerPage)
      (Pc1.hasherSector P k t) fun lane => blocksNode (hashed.2 lane) }

/-- The page of a read arrives. -/
def fetch (r : ReadRequest) : LabelMemory :=
  { mem with
    parentBuffer := setEntry mem.parentBuffer r.slot r.page (mem.disk (r.node / P.C.nodesPerPage)) }

/-- A page of the node buffer goes to disk. -/
def save (slot node : ℕ) : LabelMemory :=
  { mem with disk := Function.update mem.disk (node / P.C.nodesPerPage) (mem.nodeBuffer slot) }

/-! What the operations leave alone. -/

section

variable {P rest mem} {sys : SystemBuffers} {k j : ℕ} {c : Coordinator}

/-- Only the ring of the coordinator changes. -/
lemma copyParent_frame : ∃ ring, mem.copyParent P sys k c j =
    { mem with coordRing := Function.update mem.coordRing k ring } := by
  have hsame : mem = { mem with
      coordRing := Function.update mem.coordRing k (mem.coordRing k) } := by
    rw [Function.update_eq_self]
  rw [copyParent]
  cases mem.load (sys.parentPtrs c.idx j) with
  | none => exact ⟨_, hsame⟩
  | some src =>
    by_cases hlocal : sys.parentPtrSyncs c.idx j = .localNode
    · exact ⟨_, (if_pos hlocal).trans hsame⟩
    · exact ⟨_, if_neg hlocal⟩

/-- The place of a parent that is copied. -/
lemma copyParent_self {src : ℕ → Node} (hload : mem.load (sys.parentPtrs c.idx j) = some src)
    (hsync : sys.parentPtrSyncs c.idx j ≠ .localNode) {x : ℕ}
    (hx : x < P.numHashers k * nodesPerHasher) :
    (mem.copyParent P sys k c j).coordRing k c.coordBatchIdx (c.curBatchCount * parentCount + j) x =
      src (Pc1.startSector P k + x) := by
  simp only [copyParent, hload, if_neg hsync, setEntry, Function.update_self, if_pos hx]

/-- Only the place of the parent changes. -/
lemma copyParent_of_ne {slot entry : ℕ}
    (hne : ¬(slot = c.coordBatchIdx ∧ entry = c.curBatchCount * parentCount + j)) :
    (mem.copyParent P sys k c j).coordRing k slot entry = mem.coordRing k slot entry := by
  rw [copyParent]
  cases mem.load (sys.parentPtrs c.idx j) with
  | none => rfl
  | some src =>
    split_ifs with hlocal
    · rfl
    · simp only [Function.update_self, setEntry]
      by_cases hslot : slot = c.coordBatchIdx
      · subst hslot
        rw [Function.update_self, Function.update_of_ne fun hentry => hne ⟨rfl, hentry⟩]
      · rw [Function.update_of_ne hslot]

end

end LabelMemory

/-- The reads of a batch with the nodes they are for. -/
def batchRequests (sys : SystemBuffers) (slot : ℕ) : List ReadRequest :=
  ((List.range pageBatchSize).filter fun j => (sys.parentBufferIo slot j).type ≠ .nop).map
    fun j => ⟨slot, j, (sys.parentBufferIo slot j).node⟩

/-- The threads, the memory and the requests under way. -/
structure LabelPc1 where
  threads : Pc1
  memory : LabelMemory
  /-- Submitted reads whose page is still to come. -/
  reads : List ReadRequest
  /-- Reads whose page has come and that are not complete. -/
  fetched : List ReadRequest
  /-- Writes whose page has gone to disk and that are not complete. -/
  saved : List (ℕ × ℕ)

namespace LabelPc1

inductive Action
  | thread (a : Pc1.Action)
  | fetch (r : ReadRequest)
  | save (slot node : ℕ)

variable (P : Setup) (replicaIds : ℕ → BitVec 32) (rest : ℕ → ShaPtr)

/-- `do_pc1` sets up the replica id buffers; the other memory holds anything. -/
def init (mem : LabelMemory) : LabelPc1 where
  threads := .init
  memory := { mem with replicaIdBuffer := fun k t => .init replicaIds (hasherIndex P k t) }
  reads := []
  fetched := []
  saved := []

variable (s : LabelPc1)

/-- A request completes after its transfer. -/
def transferred : Pc1.Action → Bool
  | .readComplete slot j => s.fetched.any fun r => r.key = (slot, j)
  | .writeComplete slot node => s.saved.contains (slot, node)
  | _ => true

/-- What a step of the threads does to the memory and the requests. -/
def effect : Pc1.Action → LabelPc1
  | .coordinator k =>
    match (s.threads.coords k).pc with
    | .copy j =>
      { s with memory := s.memory.copyParent P s.threads.orch.sys k (s.threads.coords k) j }
    | _ => s
  | .hasher k t =>
    match ((s.threads.coords k).hashers t).pc with
    | .hash i => { s with memory := s.memory.hashNode P rest k t i (s.threads.coords k) }
    | _ => s
  | .readerDequeue =>
    match s.threads.orch.sys.parentReadFifo with
    | [] => s
    | slot :: _ => { s with reads := s.reads ++ batchRequests s.threads.orch.sys slot }
  | .readComplete slot j => { s with fetched := s.fetched.eraseP fun r => r.key = (slot, j) }
  | .writeComplete slot node => { s with saved := s.saved.erase (slot, node) }
  | _ => s

/-- A step of one thread, the completion of a request or its transfer. -/
def step : Action → Option LabelPc1
  | .thread a =>
    if s.transferred a then
      match s.threads.step P a with
      | some threads => some { s.effect P rest a with threads := threads }
      | none => none
    else none
  | .fetch r =>
    if r ∈ s.reads then
      some { s with
        memory := s.memory.fetch P r
        reads := s.reads.erase r
        fetched := s.fetched ++ [r] }
    else none
  | .save slot node =>
    if s.threads.writesInFlight.contains (slot, node) && !s.saved.contains (slot, node) then
      some { s with
        memory := s.memory.save P slot node
        saved := s.saved ++ [(slot, node)] }
    else none

/-- What the step of an action does, and under which condition. -/
inductive Stepped : Action → LabelPc1 → Prop
  | thread {a : Pc1.Action} {threads : Pc1} (hready : s.transferred a = true)
      (hstep : s.threads.step P a = some threads) :
      Stepped (.thread a) { s.effect P rest a with threads := threads }
  | fetch {r : ReadRequest} (hmem : r ∈ s.reads) :
      Stepped (.fetch r) { s with
        memory := s.memory.fetch P r
        reads := s.reads.erase r
        fetched := s.fetched ++ [r] }
  | save {slot node : ℕ} (hmem : (slot, node) ∈ s.threads.writesInFlight)
      (hnew : (slot, node) ∉ s.saved) :
      Stepped (.save slot node) { s with
        memory := s.memory.save P slot node
        saved := s.saved ++ [(slot, node)] }

variable {P rest s}

lemma step_inv {s' : LabelPc1} {a : Action} (h : s.step P rest a = some s') :
    Stepped P rest s a s' := by
  cases a with
  | thread a =>
    simp only [LabelPc1.step] at h
    split_ifs at h with hready
    split at h <;> cases h
    next hstep => exact .thread hready hstep
  | fetch r =>
    simp only [LabelPc1.step] at h
    split_ifs at h with hmem
    cases h
    exact .fetch hmem
  | save slot node =>
    simp only [LabelPc1.step] at h
    split_ifs at h with hmem
    cases h
    obtain ⟨hmem, hnew⟩ := Bool.and_eq_true_iff.mp hmem
    refine .save (List.contains_iff_mem.mp hmem) fun hsaved => ?_
    rw [List.contains_iff_mem.mpr hsaved] at hnew
    cases hnew

end LabelPc1

end SupraSeal
