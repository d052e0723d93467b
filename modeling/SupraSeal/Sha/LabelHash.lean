import SupraSeal.Pc1.Sdr
import SupraSeal.Sha.Routine

/-!
# The hash of a node

`hash` of `pc1/coordinator_t.hpp` calls the routine with pointers to its buffers. When these hold
what the pointers stand for, the labels of the node are where the digests were asked for.
-/

namespace SupraSeal.ShaExtMbx2

open Sections X86 Sha256

/-! ### Nodes in memory -/

/-- The words of a node are at an address. -/
def NodeAt (m : Memory) (a : Addr) (n : Node) : Prop :=
  ∀ k : Fin nodeWords, m.load32 (a + BitVec.ofNat 64 (4 * k)) = n.limbs k

instance (m : Memory) (a : Addr) (n : Node) : Decidable (NodeAt m a n) :=
  inferInstanceAs (Decidable (∀ k : Fin nodeWords, m.load32 (a + BitVec.ofNat 64 (4 * k)) = n.limbs k))

lemma NodeAt.words {m : Memory} {a : Addr} {n : Node} (h : NodeAt m a n) :
    (m.loadXmm a).dwords ++ (m.loadXmm (a + 16)).dwords = (List.finRange nodeWords).map n.limbs := by
  have hwords : (List.finRange nodeWords).map n.limbs =
      (List.finRange nodeWords).map fun k => m.load32 (a + BitVec.ofNat 64 (4 * k.val)) :=
    List.map_congr_left fun k _ => (h k).symm
  have hadd : ∀ i j, a + BitVec.ofNat 64 i + BitVec.ofNat 64 j = a + BitVec.ofNat 64 (i + j) := by
    intro i j
    rw [BitVec.add_assoc, BitVec.ofNat_add]
  have hfin : List.finRange nodeWords = [⟨0, by decide⟩, ⟨1, by decide⟩, ⟨2, by decide⟩,
    ⟨3, by decide⟩, ⟨4, by decide⟩, ⟨5, by decide⟩, ⟨6, by decide⟩, ⟨7, by decide⟩] := by decide
  rw [hwords, hfin]
  simp only [Memory.loadXmm, Xmm.dwords, List.cons_append, List.nil_append, List.map_cons,
    List.map_nil, List.cons.injEq, and_true]
  refine ⟨?_, rfl, rfl, rfl, rfl, ?_, ?_, ?_⟩
  · rw [Nat.mul_zero, BitVec.add_zero]
  · exact congrArg m.load32 (hadd 16 4)
  · exact congrArg m.load32 (hadd 16 8)
  · exact congrArg m.load32 (hadd 16 12)

/-- Where a pointer points to, when the objects lie at the given addresses. -/
def ptrAddr (address : ShaObject → Addr) (p : ShaPtr) : Addr :=
  address p.object + BitVec.ofNat 64 p.offset

/-- The pointers are in an array. -/
def PtrArray (m : Memory) (address : ShaObject → Addr) (a : Addr) (ptrs : ℕ → ShaPtr) (n : ℕ) : Prop :=
  ∀ j < n, m.load64 (a + BitVec.ofNat 64 (8 * j)) = ptrAddr address (ptrs j)

/-- The pointers of the blocks that `shaLoop` walks over. -/
def shaPtrs (rdx : ℕ → ShaPtr) (rcx r9 : ℕ) (pad : ShaPtr) :
    (r8 r13 : ℕ) → (r11 : ℕ → ShaPtr) → (i : ℕ) → List (ShaPtr × ShaPtr)
  | 0, _, _, _ => []
  | r8 + 1, r13, r11, i =>
    ((r11 i).add rcx, if r8 = 0 then pad else (r11 (i + 1)).add rcx) ::
      if r8 = 0 then []
      else if r13 - 1 = 0 then shaPtrs rdx rcx r9 pad r8 r9 rdx 0
      else shaPtrs rdx rcx r9 pad r8 (r13 - 1) r11 (i + 2)

variable {mem : ShaMem} {rdx r11 : ℕ → ShaPtr} {rcx r9 : ℕ} {pad : ShaPtr}

variable {m : Memory} {address : ShaObject → Addr}

section

variable (P : Setup) (labels : ℕ → ℕ → ℕ → Node) (memory : ℕ → ℕ → Node) (isLocal : ℕ → Bool)
  (rest : ℕ → ShaPtr) (k t : ℕ) (b : ReplicaIdBuffer) (id : ℕ)

/-- What the pointers of `hash` point into. -/
def hashMem : ShaMem := fun
  | .replicaIdBuffer, i => (b.setLoc (P.C.layer id + 1) (P.C.node id)).node i
  | .localPtr j, i => ((coordRingPtrs P labels isLocal id j).getD fun _ => ⟨fun _ => 0⟩) i
  | .parentNode j, i => coordCopy P labels k id memory j i
  | .other _, _ => ⟨fun _ => 0⟩

/-- `replica_id_ptrs` -/
def replicaIdPtrs : ℕ → ShaPtr := fun i =>
  if i = 0 then ⟨.replicaIdBuffer, 0⟩
  else if i = 1 then ⟨.replicaIdBuffer, nodesPerHasher * nodeSize⟩
  else rest i

/-- `cur_data_buf` -/
def curDataBuf : ℕ → ShaPtr :=
  if P.C.node id = 0 then fun i =>
    if i = 0 then ⟨.replicaIdBuffer, 2 * nodesPerHasher * nodeSize⟩ else rest i
  else fun i =>
    if i < parentPtrBatchSize then
      match coordRingPtrs P labels isLocal id i with
      | some _ => ⟨.localPtr i, Pc1.hasherSector P k t * nodeSize⟩
      | none => ⟨.parentNode i, t * nodesPerHasher * nodeSize⟩
    else rest i

/-- `blocks` -/
def hashBlocks : ℕ := if P.C.node id = 0 then node0Blocks else nodeGt0Blocks

/-- `repeat` -/
def hashRepeat : ℕ :=
  if P.C.node id = 0 then node0Repeat
  else if P.C.layer id + 1 = 1 then layer1Repeat else layersGt1Repeat

/-- The padding that the routine finds behind the first pointer. -/
def hashPad : ShaPtr :=
  if hashRepeat P id = 1 then (replicaIdPtrs rest 0).add 192
  else ((replicaIdPtrs rest 0).add 192).add 64

/-- The pointers of the blocks. -/
def hashPtrs : List (ShaPtr × ShaPtr) :=
  shaPtrs (curDataBuf P labels isLocal rest k t id) 0 (hashRepeat P id) (hashPad P rest id)
    (hashBlocks P id) 1 (replicaIdPtrs rest) 0

/-- A call by hasher `t` of coordinator `k` for a node: the arguments are in the registers, the
arrays hold the pointers, and what they point to is in memory. -/
structure HashCall (address : ShaObject → Addr) (c : Cpu) : Prop where
  offset : c.gpr .rcx = 0
  blocks : c.gpr .r8 = BitVec.ofNat 64 (hashBlocks P id)
  repeats : c.gpr .r9 = BitVec.ofNat 64 (hashRepeat P id)
  replicaIdBuf : PtrArray c.mem address (c.gpr .rsi) (replicaIdPtrs rest) 2
  dataBuf : PtrArray c.mem address (c.gpr .rdx) (curDataBuf P labels isLocal rest k t id)
    (2 * hashRepeat P id)
  held : ∀ p ∈ hashPtrs P labels isLocal rest k t id, ∀ lane < nodesPerHasher,
    NodeAt c.mem (ptrAddr address p.1 + BitVec.ofNat 64 (nodeSize * lane))
      ((hashMem P labels memory isLocal k b id).load p.1 lane) ∧
    NodeAt c.mem (ptrAddr address p.2 + BitVec.ofNat 64 (nodeSize * lane))
      ((hashMem P labels memory isLocal k b id).load p.2 lane)

end

variable {P : Setup} {labels : ℕ → ℕ → ℕ → Node} {memory : ℕ → ℕ → Node} {isLocal : ℕ → Bool}
  {rest : ℕ → ShaPtr} {k t : ℕ} {b : ReplicaIdBuffer} {id : ℕ} {c : Cpu} {R : Addr}
  {replicaIds : ℕ → BitVec 32}

namespace FirstNode

/-- Where the buffer of the thread is. -/
def place : ShaObject → Addr
  | .replicaIdBuffer => 0x2000
  | _ => 0

def behind : ℕ → ShaPtr := fun i => ⟨.other i, 0⟩

def buffer : ReplicaIdBuffer := .init (fun _ => 0) 0

end FirstNode

end SupraSeal.ShaExtMbx2
