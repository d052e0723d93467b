import SupraSeal.C1.VanillaProofs
import SupraSeal.Lib.Sha256
import SupraSeal.Pc1.Records
import SupraSeal.Pc1.System
import SupraSeal.Pc2.Cpu
import SupraSeal.Sealing.FieldElement

/-!
# The preimage of a label

PC1 hashes two sectors at a time (`hash` of `pc1/coordinator_t.hpp`, which calls
`sha/sha_ext_mbx2.S`), and C1 lists the labels that were hashed (`c1/label_proof.hpp`). Here is which
memory the assembly walks over, block by block; the rounds of SHA-256 are not part of the model. A
word that is loaded is added to the schedule as it is, so that its highest byte comes first in the
message.
-/

namespace SupraSeal

open Sections Sha256

/-! ### Constants -/

def node0Repeat : ℕ := 1

def node0Blocks : ℕ := 2

def layer1Repeat : ℕ := 3

def layersGt1Repeat : ℕ := 7

def nodeGt0Blocks : ℕ := 20

/-! ### Buffers of a hasher -/

/-- `replica_id_buffer_t`: nodes for each of the sectors of a hasher. -/
structure ReplicaIdBuffer where
  ids : ℕ → Node
  curLoc : ℕ → Node
  pad0 : ℕ → Node
  pad1 : ℕ → Node
  padding : ℕ → Node

namespace ReplicaIdBuffer

/-- The buffer as an array of nodes, in the order in which they lie in memory. -/
def node (b : ReplicaIdBuffer) (i : ℕ) : Node :=
  match i / nodesPerHasher with
  | 0 => b.ids (i % nodesPerHasher)
  | 1 => b.curLoc (i % nodesPerHasher)
  | 2 => b.pad0 (i % nodesPerHasher)
  | 3 => b.pad1 (i % nodesPerHasher)
  | _ => b.padding (i % nodesPerHasher)

/-- A node with all words zero but one. -/
def oneWord (k : Fin nodeWords) (w : BitVec 32) : Node := ⟨Function.update (fun _ => 0) k w⟩

/-- The buffer that `do_pc1` sets up for hasher `i`. -/
def init (replicaIds : ℕ → BitVec 32) (i : ℕ) : ReplicaIdBuffer where
  ids j := ⟨fun k => htonl (replicaIds (i * nodesPerHasher * nodeWords + j * nodeWords + k))⟩
  curLoc _ := ⟨fun _ => 0⟩
  pad0 _ := oneWord ⟨0, by decide⟩ 0x80000000
  pad1 _ := oneWord ⟨7, by decide⟩ 0x00000200
  padding _ := ⟨Function.update (Function.update (fun _ => 0) ⟨0, by decide⟩ 0x80000000)
    ⟨7, by decide⟩ 0x00002700⟩

/-- `hash` updates the location. -/
def setLoc (layer node : ℕ) (b : ReplicaIdBuffer) : ReplicaIdBuffer :=
  { b with
    curLoc := fun j => ⟨Function.update (Function.update (b.curLoc j).limbs ⟨0, by decide⟩
      (BitVec.ofNat 32 layer)) ⟨2, by decide⟩ (BitVec.ofNat 32 node)⟩ }

end ReplicaIdBuffer

/-! ### `sha_ext_mbx2` -/

/-- What the pointers of a hasher point into. -/
inductive ShaObject
  | replicaIdBuffer
  /-- A node of the node buffer, for a local parent. -/
  | localPtr (i : ℕ)
  /-- A copy that the coordinator made. -/
  | parentNode (i : ℕ)
  | other (i : ℕ)

/-- An address, in bytes from the start of an object. -/
structure ShaPtr where
  object : ShaObject
  offset : ℕ

def ShaPtr.add (p : ShaPtr) (n : ℕ) : ShaPtr := { p with offset := p.offset + n }

/-- Memory as nodes. -/
abbrev ShaMem : Type := ShaObject → ℕ → Node

/-- The node that lane `lane` loads, with offsets `0x20 * lane` and `0x20 * lane + 0x10`. -/
def ShaMem.load (mem : ShaMem) (p : ShaPtr) (lane : ℕ) : Node :=
  mem p.object ((p.offset + 0x20 * lane) / nodeSize)

section

variable (mem : ShaMem) (rdx : ℕ → ShaPtr) (rcx r9 : ℕ) (pad : ShaPtr) (lane : ℕ)

/-- The blocks from `shaloop` on, with `r8` of them left: each is the data behind two pointers,
except that the second half of the last one is the padding. The pointers start at entry `i` of the
array in `r11`; when `r13` blocks are done, the array in `rdx` is walked again from its start. -/
def shaLoop : (r8 r13 : ℕ) → (r11 : ℕ → ShaPtr) → (i : ℕ) → List (Node × Node)
  | 0, _, _, _ => []
  | r8 + 1, r13, r11, i =>
    let first := mem.load ((r11 i).add rcx) lane
    -- `cmove r12, rsi`
    let second := mem.load (if r8 = 0 then pad else (r11 (i + 1)).add rcx) lane
    (first, second) ::
      if r8 = 0 then []
      else if r13 - 1 = 0 then shaLoop r8 r9 rdx 0
      else shaLoop r8 (r13 - 1) r11 (i + 2)

/-- `sha_ext_mbx2`: the blocks of a lane. -/
def shaExtMbx2 (mem : ShaMem) (rsi rdx : ℕ → ShaPtr) (rcx r8 r9 lane : ℕ) : List (Node × Node) :=
  let pad := (rsi 0).add 192
  let pad := if r9 = 1 then pad else pad.add 64
  shaLoop mem rdx rcx r9 pad lane r8 1 rsi 0

end

/-! ### `hash` -/

/-- `coordinator_t::hash`: the location is updated in the buffer of the thread, and each lane walks
over its blocks. `parentNodes` are the copies of the parents, `localPtrs` the nodes that were not
copied; `rest` is what lies behind `pad_0_ptr`. -/
def Coordinator.hash (C : Config) (node : ℕ) (parentNodes : ℕ → ℕ → Node) (localPtrs : ℕ → Option (ℕ → Node))
    (rest : ℕ → ShaPtr) (offsetId threadId : ℕ) (replicaId : ReplicaIdBuffer) :
    ReplicaIdBuffer × (ℕ → List (Node × Node)) :=
  let curLayer := C.layer node + 1
  let replicaId := replicaId.setLoc curLayer (C.node node)
  let mem : ShaMem := fun
    | .replicaIdBuffer, i => replicaId.node i
    | .localPtr j, i => ((localPtrs j).getD fun _ => ⟨fun _ => 0⟩) i
    | .parentNode j, i => parentNodes j i
    | .other _, _ => ⟨fun _ => 0⟩
  let ptrBatch : ℕ → ShaPtr := fun i =>
    if i < parentPtrBatchSize then
      match localPtrs i with
      | some _ => ⟨.localPtr i, offsetId * nodeSize⟩
      | none => ⟨.parentNode i, threadId * nodesPerHasher * nodeSize⟩
    else rest i
  let replicaIdPtrs : ℕ → ShaPtr := fun i =>
    if i = 0 then ⟨.replicaIdBuffer, 0⟩
    else if i = 1 then ⟨.replicaIdBuffer, nodesPerHasher * nodeSize⟩
    else rest i
  let pad0Ptr : ℕ → ShaPtr := fun i =>
    if i = 0 then ⟨.replicaIdBuffer, 2 * nodesPerHasher * nodeSize⟩ else rest i
  if C.node node = 0 then
    (replicaId, shaExtMbx2 mem replicaIdPtrs pad0Ptr 0 node0Blocks node0Repeat)
  else
    let repeatCount := if curLayer = 1 then layer1Repeat else layersGt1Repeat
    (replicaId, shaExtMbx2 mem replicaIdPtrs ptrBatch 0 nodeGt0Blocks repeatCount)

/-- The bytes of a node as words of the message. -/
def Node.messageBytes (n : Node) : List Byte :=
  (List.finRange nodeWords).flatMap fun i => beBytes 4 (n.limbs i).toNat

/-- The message that blocks stand for. -/
def blocksMessage (blocks : List (Node × Node)) : List Byte :=
  blocks.flatMap fun b => b.1.messageBytes ++ b.2.messageBytes

/-! ### What the pointers of PC1 point to -/

/-- `parallel_node_t` of a node: its labels, by sector. -/
def parallelNode (C : Config) (labels : ℕ → ℕ → ℕ → Node) (id : ℕ) : ℕ → Node := fun sector =>
  labels (C.layer id) (C.node id) sector

variable (P : Setup) (labels : ℕ → ℕ → ℕ → Node)

/-- Parent `j` of a node as coordinator `k` copies it: the sectors of its hashers. -/
def coordCopy (k id : ℕ) (memory : ℕ → ℕ → Node) (j : ℕ) : ℕ → Node := fun s =>
  if s < P.numHashers k * nodesPerHasher then
    parallelNode P.C labels (P.parentOf id j) (Pc1.startSector P k + s)
  else memory j s

/-- The pointers that the coordinator passes on. -/
def coordRingPtrs (isLocal : ℕ → Bool) (id j : ℕ) : Option (ℕ → Node) :=
  if isLocal j then some (parallelNode P.C labels (P.parentOf id j)) else none

/-- Number of hasher `t` of coordinator `k`. -/
def hasherIndex (k t : ℕ) : ℕ := (P.hashers.take k).sum + t

/-- The id of a replica. -/
def replicaId (replicaIds : ℕ → BitVec 32) (sector : ℕ) : Node :=
  ⟨fun i => replicaIds (sector * nodeWords + i)⟩

/-- The start of the message: replica, layer and node. -/
def locationBytes (replicaId : Node) (layer node : ℕ) : List Byte :=
  replicaId.bytes ++ beBytes 4 layer ++ beBytes 8 node ++ List.replicate 20 0

/-- The labels that `C1Challenge::GetNodes` gets for a challenge. -/
def challengeLabels (C : Config) (parentsBuf : ℕ → ℕ) (challenge sector : ℕ) : ℕ → Node := fun idx =>
  ((challengeNodes C.numLayers challenge (getParents parentsBuf challenge)).map fun p =>
    (labels p.1 p.2 sector).reverseL).getD idx ⟨fun _ => 0⟩

/-- The label proof of a challenge. -/
def challengeLabelProof (C : Config) (parentsBuf : ℕ → ℕ) (challenge sector : ℕ) : LabelProof where
  challenge := challenge
  layers := C.numLayers
  labels := challengeLabels labels C parentsBuf challenge sector
  labelInc := parentCount + 1

variable {P labels}

/-! ### Bytes -/

lemma leBytes_htonl (w : BitVec 32) : leBytes 4 (htonl w).toNat = beBytes 4 w.toNat := by
  have hbyte : ∀ (v : BitVec 32) i, BitVec.ofNat 8 (v.toNat >>> (8 * i)) = v.extractLsb' (8 * i) 8 :=
    fun _ _ => rfl
  have h0 : (htonl w).extractLsb' 0 8 = w.extractLsb' 24 8 := by simp only [htonl]; grind
  have h1 : (htonl w).extractLsb' 8 8 = w.extractLsb' 16 8 := by simp only [htonl]; grind
  have h2 : (htonl w).extractLsb' 16 8 = w.extractLsb' 8 8 := by simp only [htonl]; grind
  have h3 : (htonl w).extractLsb' 24 8 = w.extractLsb' 0 8 := by simp only [htonl]; grind
  simp only [beBytes, leBytes, hbyte, List.range_succ, List.range_zero, List.nil_append,
    List.map_cons, List.map_nil, List.cons_append, Nat.mul_zero, Nat.mul_one, List.reverse_cons,
    List.reverse_nil, Nat.reduceMul, h0, h1, h2, h3]

/-- C1 reverses the words of a node and gets the bytes that were hashed. -/
lemma Node.bytes_reverseL (n : Node) : n.reverseL.bytes = n.messageBytes := by
  simp only [bytes, messageBytes, reverseL, leBytes_htonl]

lemma blocksMessage_append (bs bs' : List (Node × Node)) :
    blocksMessage (bs ++ bs') = blocksMessage bs ++ blocksMessage bs' := List.flatMap_append

/-! ### The walk -/

section

variable {mem : ShaMem} {rdx : ℕ → ShaPtr} {rcx r9 : ℕ} {pad : ShaPtr} {lane : ℕ}

/-- The pointers in `rdx` are walked cyclically, `2 * r9` of them in a round. -/
lemma shaLoop_nodes (r8 c : ℕ) (hc : c < r9) :
    (shaLoop mem rdx rcx r9 pad lane (r8 + 1) (r9 - c) rdx (2 * c)).flatMap (fun b => [b.1, b.2]) =
      (List.range (2 * r8 + 1)).map (fun k =>
        mem.load ((rdx ((2 * c + k) % (2 * r9))).add rcx) lane) ++ [mem.load pad lane] := by
  induction r8 generalizing c with
  | zero =>
    have hmod : 2 * c % (2 * r9) = 2 * c := Nat.mod_eq_of_lt (by omega)
    simp [shaLoop, hmod]
  | succ r8 ih =>
    have h0 : (2 * c + 0) % (2 * r9) = 2 * c := Nat.mod_eq_of_lt (by omega)
    have h1 : (2 * c + 1) % (2 * r9) = 2 * c + 1 := Nat.mod_eq_of_lt (by omega)
    have hrange : List.range (2 * (r8 + 1) + 1) =
        0 :: 1 :: (List.range (2 * r8 + 1)).map (· + 2) := by
      rw [show 2 * (r8 + 1) + 1 = 2 * r8 + 1 + 1 + 1 by omega, List.range_succ_eq_map,
        List.range_succ_eq_map, List.map_cons, List.map_map]
      rfl
    -- the round goes on, or the next one starts
    have hrest : ∃ c' < r9, (∀ k, (2 * c' + k) % (2 * r9) = (2 * c + (k + 2)) % (2 * r9)) ∧
        (if r9 - c - 1 = 0 then shaLoop mem rdx rcx r9 pad lane (r8 + 1) r9 rdx 0
          else shaLoop mem rdx rcx r9 pad lane (r8 + 1) (r9 - c - 1) rdx (2 * c + 2)) =
        shaLoop mem rdx rcx r9 pad lane (r8 + 1) (r9 - c') rdx (2 * c') := by
      by_cases hlast : c + 1 = r9
      · refine ⟨0, by omega, ?_, ?_⟩
        · intro k
          rw [show 2 * c + (k + 2) = 2 * 0 + k + 2 * r9 by omega, Nat.add_mod_right]
        · rw [if_pos (by omega)]
          rfl
      · refine ⟨c + 1, by omega, ?_, ?_⟩
        · intro k
          congr 1
          omega
        · rw [if_neg (by omega)]
          rfl
    obtain ⟨c', hc', hmod, hloop⟩ := hrest
    rw [shaLoop]
    simp only [Nat.add_eq_zero_iff, Nat.one_ne_zero, and_false, if_false, List.flatMap_cons, hrange,
      List.map_cons, List.map_map, h0, h1, hloop, ih c' hc', hmod, Function.comp_def]
    rfl

lemma length_shaLoop (r8 r13 : ℕ) (r11 : ℕ → ShaPtr) (i : ℕ) :
    (shaLoop mem rdx rcx r9 pad lane r8 r13 r11 i).length = r8 := by
  induction r8 generalizing r13 r11 i with
  | zero => rfl
  | succ r8 ih =>
    rw [shaLoop, List.length_cons]
    split_ifs with hlast hround
    · rw [hlast, List.length_nil]
    · rw [ih]
    · rw [ih]

/-- The blocks of a lane, half by half. -/
lemma shaExtMbx2_nodes {rsi : ℕ → ShaPtr} (r8 : ℕ) (hr9 : 0 < r9) :
    (shaExtMbx2 mem rsi rdx rcx (r8 + 2) r9 lane).flatMap (fun b => [b.1, b.2]) =
      mem.load ((rsi 0).add rcx) lane :: mem.load ((rsi 1).add rcx) lane ::
        ((List.range (2 * r8 + 1)).map (fun k => mem.load ((rdx (k % (2 * r9))).add rcx) lane) ++
          [mem.load (if r9 = 1 then (rsi 0).add 192 else ((rsi 0).add 192).add 64) lane]) := by
  have hloop : (shaLoop mem rdx rcx r9 (if r9 = 1 then (rsi 0).add 192
      else ((rsi 0).add 192).add 64) lane (r8 + 1) (r9 - 0) rdx (2 * 0)).flatMap
        (fun b => [b.1, b.2]) = _ := shaLoop_nodes r8 0 hr9
  simp only [Nat.sub_zero, Nat.mul_zero, Nat.zero_add] at hloop
  rw [shaExtMbx2, shaLoop]
  simp only [Nat.add_eq_zero_iff, Nat.one_ne_zero, and_false, if_false, Nat.sub_self, if_true,
    List.flatMap_cons, hloop]
  rfl

lemma length_shaExtMbx2 {rsi : ℕ → ShaPtr} (r8 : ℕ) :
    (shaExtMbx2 mem rsi rdx rcx r8 r9 lane).length = r8 := length_shaLoop _ _ _ _

end

/-- The message, half block by half block. -/
lemma blocksMessage_eq (blocks : List (Node × Node)) :
    blocksMessage blocks = (blocks.flatMap fun b => [b.1, b.2]).flatMap Node.messageBytes := by
  rw [blocksMessage, List.flatMap_assoc]
  simp

/-! ### Location and padding -/

namespace ReplicaIdBuffer

/-- A buffer between two hashes: only the words for layer and node have changed. -/
structure Ready (replicaIds : ℕ → BitVec 32) (i : ℕ) (b : ReplicaIdBuffer) : Prop where
  ids : b.ids = (init replicaIds i).ids
  pad0 : b.pad0 = (init replicaIds i).pad0
  pad1 : b.pad1 = (init replicaIds i).pad1
  padding : b.padding = (init replicaIds i).padding
  curLoc : ∀ j k, k.val ≠ 0 → k.val ≠ 2 → (b.curLoc j).limbs k = 0

variable {replicaIds : ℕ → BitVec 32} {i : ℕ} {b : ReplicaIdBuffer}

lemma Ready.setLoc (h : Ready replicaIds i b) (layer node : ℕ) :
    Ready replicaIds i (b.setLoc layer node) := by
  refine ⟨h.ids, h.pad0, h.pad1, h.padding, ?_⟩
  intro j k h0 h2
  have hk0 : k ≠ ⟨0, by decide⟩ := fun hk => h0 (congrArg Fin.val hk)
  have hk2 : k ≠ ⟨2, by decide⟩ := fun hk => h2 (congrArg Fin.val hk)
  simp only [ReplicaIdBuffer.setLoc, Function.update_of_ne hk2, Function.update_of_ne hk0]
  exact h.curLoc j k h0 h2

lemma ready_foldl (locations : List (ℕ × ℕ)) :
    Ready replicaIds i (locations.foldl (fun b p => b.setLoc p.1 p.2) (init replicaIds i)) := by
  induction locations using List.reverseRecOn with
  | nil => exact ⟨rfl, rfl, rfl, rfl, fun _ _ _ _ => rfl⟩
  | append_singleton locations p ih =>
    rw [List.foldl_append]
    exact ih.setLoc p.1 p.2

/-- The first block, for a sector of hasher `i`. -/
lemma Ready.location (h : Ready replicaIds i b) {layer node : ℕ} (hlayer : layer < 2 ^ 32)
    (hnode : node < 2 ^ 32) (j : ℕ) :
    ((b.setLoc layer node).ids j).messageBytes ++ ((b.setLoc layer node).curLoc j).messageBytes =
      locationBytes (replicaId replicaIds (i * nodesPerHasher + j)) layer node := by
  have hids : (b.setLoc layer node).ids j =
      (replicaId replicaIds (i * nodesPerHasher + j)).reverseL := by
    rw [(h.setLoc layer node).ids]
    simp only [init, replicaId, Node.reverseL, Nat.add_mul]
  have hloc : ((b.setLoc layer node).curLoc j).messageBytes =
      beBytes 4 layer ++ (beBytes 8 node ++ List.replicate 20 0) := by
    have hzero : ∀ k : Fin nodeWords, k.val ≠ 0 → k.val ≠ 2 →
        ((b.setLoc layer node).curLoc j).limbs k = 0 := (h.setLoc layer node).curLoc j
    have hl : ((b.setLoc layer node).curLoc j).limbs ⟨0, by decide⟩ = BitVec.ofNat 32 layer := by
      simp [ReplicaIdBuffer.setLoc]
    have hn : ((b.setLoc layer node).curLoc j).limbs ⟨2, by decide⟩ = BitVec.ofNat 32 node := by
      simp [ReplicaIdBuffer.setLoc]
    have hbe : beBytes 8 node = List.replicate 4 0 ++ beBytes 4 node :=
      beBytes_add (m := 4) (n := 4) hnode
    have hfin : List.finRange nodeWords = [⟨0, by decide⟩, ⟨1, by decide⟩, ⟨2, by decide⟩,
      ⟨3, by decide⟩, ⟨4, by decide⟩, ⟨5, by decide⟩, ⟨6, by decide⟩, ⟨7, by decide⟩] := by decide
    have hbe0 : beBytes 4 (0 : BitVec 32).toNat = List.replicate 4 0 := by decide
    rw [Node.messageBytes, hfin, hbe]
    simp (disch := decide) only [List.flatMap_cons, List.flatMap_nil, hl, hn, hzero, hbe0,
      BitVec.toNat_ofNat, Nat.mod_eq_of_lt hlayer, Nat.mod_eq_of_lt hnode, List.append_assoc]
    rfl
  rw [hids, hloc, ← Node.bytes_reverseL, Node.reverseL_reverseL, locationBytes]
  simp only [List.append_assoc]

/-- The second half of the last block. -/
lemma Ready.padding_bytes (h : Ready replicaIds i b) (j : ℕ) :
    (b.padding j).messageBytes = 0x80 :: List.replicate 23 0 ++ beBytes 8 (8 * 1248) := by
  rw [h.padding]
  exact (by decide : ((init (fun _ => 0) 0).padding 0).messageBytes =
    0x80 :: List.replicate 23 0 ++ beBytes 8 (8 * 1248))

/-- The last block of the first node. -/
lemma Ready.pad_bytes (h : Ready replicaIds i b) (j : ℕ) :
    (b.pad0 j).messageBytes ++ (b.pad1 j).messageBytes =
      0x80 :: List.replicate 55 0 ++ beBytes 8 (8 * 64) := by
  rw [h.pad0, h.pad1]
  exact (by decide : ((init (fun _ => 0) 0).pad0 0).messageBytes ++
    ((init (fun _ => 0) 0).pad1 0).messageBytes = 0x80 :: List.replicate 55 0 ++ beBytes 8 (8 * 64))

end ReplicaIdBuffer

/-! ### The labels of C1 -/

/-- The label proof lists the parents cyclically. -/
lemma LabelProof.parents_eq (p : LabelProof) (l : ℕ) :
    p.parents l = (List.range labelParents).map fun k =>
      if l = 1 then p.labels (k % parentCountBase + 1 + (l - 1) * p.labelInc)
      else if k % parentCount < parentCountBase then
        p.labels (k % parentCount + 1 + (l - 1) * p.labelInc)
      else p.labels (k % parentCount + 1 + (l - 2) * p.labelInc) := by
  rw [LabelProof.parents]
  by_cases hl : l = 1
  · simp only [if_pos hl]
    rfl
  · simp only [if_neg hl]
    rfl

/-! ### Agreement -/

/-- The file of parents lists the previous node first. -/
def ListsPrevious {C : Config} (G : ParentGraph C) : Prop :=
  ∀ v < C.numNodes, 0 < v → G.buf (v * parentCount) = v - 1

/-- A base parent. -/
lemma parentOf_base (hfirst : ListsPrevious P.G) (layer : ℕ) {n j : ℕ} (hn : n < P.C.numNodes)
    (hpos : 0 < n) (hj : j < parentCountBase) :
    P.C.layer (P.parentOf (P.C.nodeId layer n) j) = layer ∧
      P.C.node (P.parentOf (P.C.nodeId layer n) j) = P.G.buf (n * parentCount + j) := by
  have hlt : P.G.buf (n * parentCount + j) < P.C.numNodes :=
    P.G.lt_numNodes n hn j (hj.trans (by decide))
  have hparent : P.parentOf (P.C.nodeId layer n) j =
      P.C.nodeId layer (P.G.buf (n * parentCount + j)) := by
    rw [Setup.parentOf]
    by_cases hj0 : j = 0
    · subst hj0
      rw [if_pos rfl, Nat.add_zero, hfirst n hn hpos, P.C.nodeId_eq _ hn,
        P.C.nodeId_eq _ (by omega), Nat.add_sub_assoc hpos]
    · have hprev : (ParentIter.atParent P.C (P.C.nodeId layer n) j).isPrevLayer = false := by
        rw [← Bool.not_eq_true, ParentIter.isPrevLayer_atParent]
        omega
      rw [if_neg hj0, ParentGraph.parentNode, if_neg (by simp [hprev]), ParentIter.deref_atParent,
        P.C.layer_nodeId hn, P.C.node_nodeId hn]
      split_ifs with h0 h1
      · rw [h0]
      · omega
      · rfl
  rw [hparent]
  exact ⟨P.C.layer_nodeId hlt, P.C.node_nodeId hlt⟩

/-- An expander parent. -/
lemma parentOf_exp (P : Setup) {layer n j : ℕ} (hn : n < P.C.numNodes) (hlayer : layer ≠ 0)
    (hj : parentCountBase ≤ j) (hjlt : j < parentCount) :
    P.C.layer (P.parentOf (P.C.nodeId layer n) j) = layer - 1 ∧
      P.C.node (P.parentOf (P.C.nodeId layer n) j) = P.G.buf (n * parentCount + j) := by
  have hlt : P.G.buf (n * parentCount + j) < P.C.numNodes := P.G.lt_numNodes n hn j hjlt
  have hj0 : j ≠ 0 := (Nat.lt_of_lt_of_le (by decide) hj).ne'
  have hparent : P.parentOf (P.C.nodeId layer n) j =
      P.C.nodeId (layer - 1) (P.G.buf (n * parentCount + j)) := by
    rw [Setup.parentOf, if_neg hj0, ParentGraph.parentNode, P.C.layer_nodeId hn,
      if_neg (by simp [hlayer]), ParentIter.deref_atParent, P.C.layer_nodeId hn, P.C.node_nodeId hn,
      if_neg hlayer, if_pos hj]
  rw [hparent]
  exact ⟨P.C.layer_nodeId hlt, P.C.node_nodeId hlt⟩

/-- The labels of a challenge, by layer and slot. -/
lemma challengeLabels_eq (C : Config) (buf : ℕ → ℕ) (challenge sector : ℕ) {l q : ℕ}
    (hl : l < C.numLayers) (hq : q < parentCount + 1) :
    challengeLabels labels C buf challenge sector (q + l * (parentCount + 1)) =
      (labels l (slotNode challenge (getParents buf challenge) q) sector).reverseL := by
  have hget : (challengeNodes C.numLayers challenge (getParents buf challenge))[q + l *
      (parentCount + 1)]? = _ := challengeNodes_getElem hl hq
  rw [challengeLabels, List.getD_eq_getElem?_getD, List.getElem?_map, hget]
  rfl

/-- The node in a slot after the first is a parent. -/
lemma slotNode_succ (buf : ℕ → ℕ) (challenge j : ℕ) :
    slotNode challenge (getParents buf challenge) (j + 1) = buf (challenge * parentCount + j) := by
  rw [slotNode, if_neg (Nat.succ_ne_zero j)]
  split_ifs with hbase
  · rfl
  · simp only [getParents]
    congr 1
    omega

/-- The labels behind the pointers, walked cyclically, are those of the label proof. -/
lemma labels_eq_parents (hfirst : ListsPrevious P.G) {layer n sector : ℕ}
    (hl : layer < P.C.numLayers) (hn : n < P.C.numNodes) (hpos : 0 < n) :
    ((List.range labelParents).map fun k => (parallelNode P.C labels (P.parentOf
      (P.C.nodeId layer n) (k % (2 * if layer + 1 = 1 then layer1Repeat else layersGt1Repeat)))
        sector).reverseL) =
      (challengeLabelProof labels P.C P.G.buf n sector).parents (layer + 1) := by
  rw [LabelProof.parents_eq]
  apply List.map_congr_left
  intro k _
  have hbaseLt : k % parentCountBase < parentCountBase := Nat.mod_lt _ (by decide)
  have hlt : k % parentCount < parentCount := Nat.mod_lt _ (by decide)
  simp only [challengeLabelProof, parallelNode]
  by_cases hlayer : layer + 1 = 1
  · obtain rfl : layer = 0 := by omega
    obtain ⟨h1, h2⟩ := parentOf_base hfirst 0 hn hpos hbaseLt
    simp only [if_true, Nat.sub_self, Nat.zero_add]
    have hq : k % parentCountBase + 1 < parentCount + 1 :=
      Nat.succ_lt_succ (hbaseLt.trans (by decide))
    rw [show 2 * layer1Repeat = parentCountBase from rfl, h1, h2, challengeLabels_eq _ _ _ _ hl hq,
      slotNode_succ]
  · rw [if_neg hlayer, if_neg hlayer, show 2 * layersGt1Repeat = parentCount from rfl]
    by_cases hbase : k % parentCount < parentCountBase
    · obtain ⟨h1, h2⟩ := parentOf_base hfirst layer hn hpos hbase
      rw [if_pos hbase, h1, h2, Nat.add_sub_cancel,
        challengeLabels_eq _ _ _ _ hl (Nat.succ_lt_succ hlt), slotNode_succ]
    · obtain ⟨h1, h2⟩ := parentOf_exp P hn (show layer ≠ 0 by omega)
        (Nat.le_of_not_lt hbase) hlt
      rw [if_neg hbase, h1, h2, show layer + 1 - 2 = layer - 1 by omega,
        challengeLabels_eq _ _ _ _ (by omega) (Nat.succ_lt_succ hlt), slotNode_succ]

/-- The offsets at which the hasher reads the buffer, for both lanes. -/
lemma ReplicaIdBuffer.node_of_lane (b : ReplicaIdBuffer) {lane : ℕ} (hlane : lane < nodesPerHasher) :
    b.node ((0 + 0 + 0x20 * lane) / nodeSize) = b.ids lane ∧
      b.node ((nodesPerHasher * nodeSize + 0 + 0x20 * lane) / nodeSize) = b.curLoc lane ∧
      b.node ((2 * nodesPerHasher * nodeSize + 0 + 0x20 * lane) / nodeSize) = b.pad0 lane ∧
      b.node ((0 + 192 + 0x20 * lane) / nodeSize) = b.pad1 lane ∧
      b.node ((0 + 192 + 64 + 0x20 * lane) / nodeSize) = b.padding lane := by
  have hlanes : lane = 0 ∨ lane = 1 := Nat.le_one_iff_eq_zero_or_eq_one.mp (Nat.lt_succ_iff.mp hlane)
  rcases hlanes with rfl | rfl
  · exact ⟨rfl, rfl, rfl, rfl, rfl⟩
  · exact ⟨rfl, rfl, rfl, rfl, rfl⟩

section

variable {memory : ℕ → ℕ → Node} {isLocal : ℕ → Bool} {rest : ℕ → ShaPtr} {k t lane : ℕ}
  {b : ReplicaIdBuffer} {replicaIds : ℕ → BitVec 32}

/-- The blocks that hasher `t` of coordinator `k` hashes for a node, in one of its lanes. Some parents
are local and the others are copied; `memory` is what the copies held before. -/
def labelBlocks (P : Setup) (labels : ℕ → ℕ → ℕ → Node) (memory : ℕ → ℕ → Node)
    (isLocal : ℕ → Bool) (rest : ℕ → ShaPtr) (k t : ℕ) (b : ReplicaIdBuffer) (id lane : ℕ) :
    List (Node × Node) :=
  (Coordinator.hash P.C id (coordCopy P labels k id memory) (coordRingPtrs P labels isLocal id) rest
    (Pc1.hasherSector P k t) t b).2 lane

/-- The blocks of a node that has parents. -/
lemma labelBlocks_nodes {id : ℕ} (hid : P.C.node id ≠ 0) (ht : t < P.numHashers k)
    (hlane : lane < nodesPerHasher) :
    (labelBlocks P labels memory isLocal rest k t b id lane).flatMap (fun b => [b.1, b.2]) =
      (b.setLoc (P.C.layer id + 1) (P.C.node id)).ids lane ::
        (b.setLoc (P.C.layer id + 1) (P.C.node id)).curLoc lane ::
          ((List.range labelParents).map (fun i => parallelNode P.C labels (P.parentOf id
            (i % (2 * if P.C.layer id + 1 = 1 then layer1Repeat else layersGt1Repeat)))
              (Pc1.hasherSector P k t + lane)) ++
            [(b.setLoc (P.C.layer id + 1) (P.C.node id)).padding lane]) := by
  have hr9 : ∀ r, r = (if P.C.layer id + 1 = 1 then layer1Repeat else layersGt1Repeat) →
      0 < r ∧ r ≠ 1 ∧ 2 * r ≤ parentPtrBatchSize := by
    rintro r rfl
    split_ifs <;> decide
  rw [labelBlocks, Coordinator.hash]
  simp only [if_neg hid]
  generalize (if P.C.layer id + 1 = 1 then layer1Repeat else layersGt1Repeat) = r at hr9 ⊢
  obtain ⟨hpos, hne, hle⟩ := hr9 r rfl
  rw [show nodeGt0Blocks = 18 + 2 from rfl, shaExtMbx2_nodes 18 hpos, if_neg hne]
  generalize b.setLoc (P.C.layer id + 1) (P.C.node id) = b
  obtain ⟨hids, hloc, -, -, hpad⟩ := b.node_of_lane hlane
  refine congrArg₂ List.cons hids (congrArg₂ List.cons hloc (congrArg₂ (· ++ ·) ?_ ?_))
  · apply List.map_congr_left
    intro i _
    have hlt : i % (2 * r) < parentPtrBatchSize :=
      (Nat.mod_lt _ (by omega)).trans_le hle
    have hoff : ∀ x, (x * nodeSize + 0 + 0x20 * lane) / nodeSize = x + lane := by
      intro x
      rw [Nat.add_zero, show 0x20 * lane = lane * nodeSize from Nat.mul_comm _ _, ← Nat.add_mul,
        Nat.mul_div_cancel _ (by decide)]
    rw [if_pos hlt]
    generalize i % (2 * r) = j
    cases hlocal : isLocal j with
    | true =>
      simp only [coordRingPtrs, hlocal, if_true, ShaMem.load, ShaPtr.add, hoff, Option.getD_some]
    | false =>
      have hcopied : t * nodesPerHasher + lane < P.numHashers k * nodesPerHasher := by
        have := Nat.mul_le_mul_right nodesPerHasher (Nat.succ_le_of_lt ht)
        rw [Nat.succ_mul] at this
        omega
      simp only [coordRingPtrs, hlocal, Bool.false_eq_true, if_false, ShaMem.load, ShaPtr.add, hoff,
        coordCopy, if_pos hcopied]
      congr 1
      rw [Pc1.hasherSector, Nat.mul_comm t, Nat.add_assoc]
  · exact congrArg (fun n => [n]) hpad

lemma length_labelBlocks (id : ℕ) :
    (labelBlocks P labels memory isLocal rest k t b id lane).length =
      if P.C.node id = 0 then node0Blocks else nodeGt0Blocks := by
  rw [labelBlocks, Coordinator.hash]
  by_cases hid : P.C.node id = 0
  · simp only [if_pos hid, length_shaExtMbx2]
  · simp only [if_neg hid, length_shaExtMbx2]

/-- The blocks of the first node of a layer. -/
lemma labelBlocks_first {id : ℕ} (hid : P.C.node id = 0) (hlane : lane < nodesPerHasher) :
    (labelBlocks P labels memory isLocal rest k t b id lane).flatMap (fun b => [b.1, b.2]) =
      [(b.setLoc (P.C.layer id + 1) (P.C.node id)).ids lane,
        (b.setLoc (P.C.layer id + 1) (P.C.node id)).curLoc lane,
        (b.setLoc (P.C.layer id + 1) (P.C.node id)).pad0 lane,
        (b.setLoc (P.C.layer id + 1) (P.C.node id)).pad1 lane] := by
  rw [labelBlocks, Coordinator.hash]
  simp only [if_pos hid]
  rw [show node0Blocks = 0 + 2 from rfl, shaExtMbx2_nodes 0 (by decide)]
  generalize b.setLoc (P.C.layer id + 1) (P.C.node id) = b
  obtain ⟨hids, hloc, hpad0, hpad1, -⟩ := b.node_of_lane hlane
  exact congrArg₂ List.cons hids (congrArg₂ List.cons hloc (congrArg₂ List.cons hpad0
    (congrArg (fun n => [n]) hpad1)))

end

/-- PC1 and C1 agree on what a label is the hash of, for every sector size and every setup. Whatever
the thread has hashed before and whichever of the parents are local, the blocks that are walked for a
node and a sector are the padded message of the replica id, the layer, the node and the 37 labels of
the label proof that C1 writes for the node, in that order; for the first node of a layer they are
the padded message without labels. The file of parents lists the previous node first, which PC1
relies on when it takes the node that was just hashed. -/
theorem labelBlocks_eq_labelProof (P : Setup) (size : SectorSize) {lg : ℕ} (h1 : 1 ≤ lg) (h7 : lg ≤ 7)
    (hC : P.C = size.config h1 h7) (hfirst : ListsPrevious P.G) (replicaIds : ℕ → BitVec 32)
    (labels : ℕ → ℕ → ℕ → Node) (memory : ℕ → ℕ → Node) (isLocal : ℕ → Bool) (rest : ℕ → ShaPtr)
    (hashed : List (ℕ × ℕ)) {k t lane layer n : ℕ} (ht : t < P.numHashers k)
    (hlane : lane < nodesPerHasher) (hl : layer < P.C.numLayers) (hn : n < P.C.numNodes) :
    let b := hashed.foldl (fun b p => b.setLoc p.1 p.2)
      (ReplicaIdBuffer.init replicaIds (hasherIndex P k t))
    let blocks := labelBlocks P labels memory isLocal rest k t b (P.C.nodeId layer n) lane
    let sector := Pc1.hasherSector P k t + lane
    let location := locationBytes (replicaId replicaIds sector) (layer + 1) n
    (n ≠ 0 → blocks.length = 20 ∧
      ((challengeLabelProof labels P.C P.G.buf n sector).parents (layer + 1)).length = 37 ∧
      blocksMessage blocks = pad (location ++ nodeBytes
        ((challengeLabelProof labels P.C P.G.buf n sector).parents (layer + 1)))) ∧
    (n = 0 → blocks.length = 2 ∧ blocksMessage blocks = pad location) := by
  intro b blocks sector location
  have hlayer : P.C.layer (P.C.nodeId layer n) = layer := P.C.layer_nodeId hn
  have hnode : P.C.node (P.C.nodeId layer n) = n := P.C.node_nodeId hn
  have hlayerLt : layer + 1 < 2 ^ 32 := by
    have hnum : size.numLayers ≤ 11 := by cases size <;> decide
    rw [hC] at hl
    have hl : layer < size.numLayers := hl
    omega
  have hnodeLt : n < 2 ^ 32 := by
    have hnum : size.numLeaves ≤ 2 ^ 31 := by cases size <;> decide
    rw [hC, size.config_numNodes h1 h7] at hn
    omega
  have hsector : hasherIndex P k t * nodesPerHasher + lane = sector := by
    rw [hasherIndex, Nat.add_mul, Nat.mul_comm, Nat.mul_comm t]
    rfl
  have hready : ReplicaIdBuffer.Ready replicaIds (hasherIndex P k t) b :=
    ReplicaIdBuffer.ready_foldl hashed
  have hloc := hready.location hlayerLt hnodeLt lane
  have hset := hready.setLoc (layer + 1) n
  rw [hsector] at hloc
  have hlen : location.length = 64 := by
    simp only [location, locationBytes, List.length_append, Node.length_bytes, length_beBytes,
      List.length_replicate]
    rfl
  have hcount : blocks.length = if n = 0 then node0Blocks else nodeGt0Blocks := by
    rw [length_labelBlocks, hnode]
  constructor
  · intro hn0
    have hparents : ((challengeLabelProof labels P.C P.G.buf n sector).parents
        (layer + 1)).length = 37 := by
      rw [LabelProof.parents_eq, List.length_map, List.length_range]
      rfl
    have hmsg : (location ++ nodeBytes ((challengeLabelProof labels P.C P.G.buf n sector).parents
        (layer + 1))).length = 1248 := by
      rw [List.length_append, hlen, length_nodeBytes, hparents]
      rfl
    have hblocks : blocks.flatMap (fun b => [b.1, b.2]) = _ :=
      labelBlocks_nodes (by rwa [hnode]) ht hlane
    rw [hlayer, hnode] at hblocks
    refine ⟨by rw [hcount, if_neg hn0]; rfl, hparents, ?_⟩
    rw [blocksMessage_eq, hblocks, pad, hmsg, ← labels_eq_parents hfirst hl hn (by omega), nodeBytes,
      List.flatMap_map]
    simp only [List.flatMap_cons, List.flatMap_append, List.flatMap_nil, List.flatMap_map,
      Node.bytes_reverseL, hset.padding_bytes, ← hloc, location, List.append_assoc, List.append_nil]
    rfl
  · intro hn0
    have hblocks : blocks.flatMap (fun b => [b.1, b.2]) = _ :=
      labelBlocks_first (by rwa [hnode]) hlane
    rw [hlayer, hnode] at hblocks
    refine ⟨by rw [hcount, if_pos hn0]; rfl, ?_⟩
    rw [blocksMessage_eq, hblocks, pad, hlen]
    simp only [List.flatMap_cons, List.flatMap_nil, List.append_nil, hset.pad_bytes]
    rw [← List.append_assoc, hloc, List.append_assoc]
    rfl

/-- Two 2KiB sectors in which every parent is the node before. -/
def Setup.chain : Setup :=
  single (SectorSize.sector2KB.config (le_refl 1) Config.two_sectors_le)
    (ParentGraph.switch _ 64 0 (by decide) (le_refl 64)) rfl

/-- Node 5 of the second layer, for the second sector, with all parents local. -/
theorem labelBlocks_eq_labelProof_chain :
    (∀ (replicaIds : ℕ → BitVec 32) (labels : ℕ → ℕ → ℕ → Node) (rest : ℕ → ShaPtr),
      (labelBlocks Setup.chain labels (fun _ _ => ⟨fun _ => 0⟩) (fun _ => true) rest 0 0
        (ReplicaIdBuffer.init replicaIds 0) (Setup.chain.C.nodeId 1 5) 1).length = 20) ∧
    ∀ (replicaIds : ℕ → BitVec 32) (labels : ℕ → ℕ → ℕ → Node) (rest : ℕ → ShaPtr),
      blocksMessage (labelBlocks Setup.chain labels (fun _ _ => ⟨fun _ => 0⟩) (fun _ => true) rest 0 0
        (ReplicaIdBuffer.init replicaIds 0) (Setup.chain.C.nodeId 1 5) 1) =
          pad (locationBytes (replicaId replicaIds 1) 2 5 ++ nodeBytes ((challengeLabelProof labels
            Setup.chain.C Setup.chain.G.buf 5 1).parents 2)) := by
  have hfirst : ListsPrevious Setup.chain.G := by
    intro v hv _
    have hdiv : v * parentCount / parentCount = v := Nat.mul_div_cancel _ (by decide)
    show (if v * parentCount / parentCount < 64 then v * parentCount / parentCount - 1 else 0) = _
    rw [hdiv, if_pos (show v < 64 from hv)]
  have hagree := fun replicaIds labels rest =>
    labelBlocks_eq_labelProof Setup.chain .sector2KB (le_refl 1) (by decide) rfl hfirst
      replicaIds labels (fun _ _ => ⟨fun _ => 0⟩) (fun _ => true) rest [] (k := 0) (t := 0) (n := 5)
      (by decide : 0 < Setup.chain.numHashers 0) (by decide : 1 < nodesPerHasher)
      (by decide : 1 < Setup.chain.C.numLayers) (by decide : 5 < Setup.chain.C.numNodes)
  constructor
  · intro replicaIds labels rest
    exact ((hagree replicaIds labels rest).1 (by decide)).1
  · intro replicaIds labels rest
    exact ((hagree replicaIds labels rest).1 (by decide)).2.2

end SupraSeal
