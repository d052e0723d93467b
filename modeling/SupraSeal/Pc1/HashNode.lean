import SupraSeal.Pc1.LabelSystem

/-!
# The label that a hasher stores

What `hash` computes for a node, whatever its pointers lead to: the label of the node from the nodes
that the lane sees as its parents.
-/

namespace SupraSeal

open Sections Sha256

/-- What a lane sees as parent `j`: the node that the pointer leads to, or else the copy. -/
def seenParent (parentNodes : ℕ → ℕ → Node) (localPtrs : ℕ → Option (ℕ → Node))
    (offsetId threadId lane j : ℕ) : Node :=
  match localPtrs j with
  | some sectors => sectors (offsetId + lane)
  | none => parentNodes j (threadId * nodesPerHasher + lane)

section

variable {C : Config} {parentNodes : ℕ → ℕ → Node} {localPtrs : ℕ → Option (ℕ → Node)}
  {rest : ℕ → ShaPtr} {offsetId threadId lane id : ℕ} {b : ReplicaIdBuffer}

/-- `hash` only updates the location in the buffer of the thread. -/
lemma hash_fst : (Coordinator.hash C id parentNodes localPtrs rest offsetId threadId b).1 =
    b.setLoc (C.layer id + 1) (C.node id) := by
  rw [Coordinator.hash]
  by_cases hid : C.node id = 0
  · simp only [if_pos hid]
  · simp only [if_neg hid]

/-- The blocks of the first node of a layer. -/
lemma hash_first (hid : C.node id = 0) (hlane : lane < nodesPerHasher) :
    ((Coordinator.hash C id parentNodes localPtrs rest offsetId threadId b).2 lane).flatMap
        (fun b => [b.1, b.2]) =
      [(b.setLoc (C.layer id + 1) (C.node id)).ids lane,
        (b.setLoc (C.layer id + 1) (C.node id)).curLoc lane,
        (b.setLoc (C.layer id + 1) (C.node id)).pad0 lane,
        (b.setLoc (C.layer id + 1) (C.node id)).pad1 lane] := by
  rw [Coordinator.hash]
  simp only [if_pos hid]
  rw [show node0Blocks = 0 + 2 from rfl, shaExtMbx2_nodes 0 (by decide)]
  generalize b.setLoc (C.layer id + 1) (C.node id) = b
  obtain ⟨hids, hloc, hpad0, hpad1, -⟩ := b.node_of_lane hlane
  exact congrArg₂ List.cons hids (congrArg₂ List.cons hloc (congrArg₂ List.cons hpad0
    (congrArg (fun n => [n]) hpad1)))

/-- The blocks of a node that has parents. -/
lemma hash_nodes (hid : C.node id ≠ 0) (hlane : lane < nodesPerHasher) :
    ((Coordinator.hash C id parentNodes localPtrs rest offsetId threadId b).2 lane).flatMap
        (fun b => [b.1, b.2]) =
      (b.setLoc (C.layer id + 1) (C.node id)).ids lane ::
        (b.setLoc (C.layer id + 1) (C.node id)).curLoc lane ::
          ((List.range labelParents).map (fun i => seenParent parentNodes localPtrs offsetId threadId
            lane (i % parentsInTurn C id)) ++
            [(b.setLoc (C.layer id + 1) (C.node id)).padding lane]) := by
  have hr9 : ∀ r, r = (if C.layer id + 1 = 1 then layer1Repeat else layersGt1Repeat) →
      0 < r ∧ r ≠ 1 ∧ 2 * r ≤ parentPtrBatchSize := by
    rintro r rfl
    split_ifs <;> decide
  rw [Coordinator.hash, parentsInTurn]
  simp only [if_neg hid]
  generalize (if C.layer id + 1 = 1 then layer1Repeat else layersGt1Repeat) = r at hr9 ⊢
  obtain ⟨hpos, hne, hle⟩ := hr9 r rfl
  rw [show nodeGt0Blocks = 18 + 2 from rfl, shaExtMbx2_nodes 18 hpos, if_neg hne]
  generalize b.setLoc (C.layer id + 1) (C.node id) = b
  obtain ⟨hids, hloc, -, -, hpad⟩ := b.node_of_lane hlane
  refine congrArg₂ List.cons hids (congrArg₂ List.cons hloc (congrArg₂ (· ++ ·) ?_ ?_))
  · apply List.map_congr_left
    intro i _
    have hlt : i % (2 * r) < parentPtrBatchSize :=
      (Nat.mod_lt _ (Nat.mul_pos (by decide) hpos)).trans_le hle
    have hoff : ∀ x, (x * nodeSize + 0 + 0x20 * lane) / nodeSize = x + lane := by
      intro x
      rw [Nat.add_zero, show 0x20 * lane = lane * nodeSize from Nat.mul_comm _ _, ← Nat.add_mul,
        Nat.mul_div_cancel _ (by decide)]
    rw [if_pos hlt, seenParent]
    cases hlocal : localPtrs (i % (2 * r)) with
    | some sectors => simp only [hlocal, ShaMem.load, ShaPtr.add, hoff, Option.getD_some]
    | none => simp only [ShaMem.load, ShaPtr.add, hoff]
  · exact congrArg (fun n => [n]) hpad

end

variable {P : Setup} {replicaIds : ℕ → BitVec 32} {parentNodes : ℕ → ℕ → Node}
  {localPtrs : ℕ → Option (ℕ → Node)} {rest : ℕ → ShaPtr} {k t lane id : ℕ} {b : ReplicaIdBuffer}

/-- The number of a sector, from the buffer of its hasher. -/
lemma hasherIndex_sector (P : Setup) (k t lane : ℕ) :
    hasherIndex P k t * nodesPerHasher + lane = Pc1.hasherSector P k t + lane := by
  rw [hasherIndex, Nat.add_mul, Nat.mul_comm, Nat.mul_comm t]
  rfl

/-- The blocks are the message of the node with its padding. -/
lemma blocksMessage_hash (hlane : lane < nodesPerHasher)
    (hready : ReplicaIdBuffer.Ready replicaIds (hasherIndex P k t) b)
    (hlayer : P.C.layer id + 1 < 2 ^ 32) (hnode : P.C.node id < 2 ^ 32) :
    blocksMessage ((Coordinator.hash P.C id parentNodes localPtrs rest (Pc1.hasherSector P k t) t
        b).2 lane) =
      pad (labelMessage P replicaIds
        (seenParent parentNodes localPtrs (Pc1.hasherSector P k t) t lane) id
          (Pc1.hasherSector P k t + lane)) := by
  have hloc := hready.location hlayer hnode lane
  have hset := hready.setLoc (P.C.layer id + 1) (P.C.node id)
  rw [hasherIndex_sector] at hloc
  have hlen : (locationBytes (replicaId replicaIds (Pc1.hasherSector P k t + lane))
      (P.C.layer id + 1) (P.C.node id)).length = 64 := by
    simp only [locationBytes, List.length_append, Node.length_bytes, length_beBytes,
      List.length_replicate]
    rfl
  rw [blocksMessage_eq, labelMessage]
  by_cases hzero : P.C.node id = 0
  · rw [hash_first hzero hlane, if_pos hzero, List.append_nil, pad, hlen]
    simp only [List.flatMap_cons, List.flatMap_nil, List.append_nil, hset.pad_bytes]
    rw [← List.append_assoc, hloc, List.append_assoc]
    rfl
  · have hparents : ((List.range labelParents).flatMap fun i => (seenParent parentNodes localPtrs
        (Pc1.hasherSector P k t) t lane (i % parentsInTurn P.C id)).messageBytes).length =
          labelParents * nodeSize := by
      rw [length_flatMap_const fun i => length_messageBytes _, List.length_range]
    rw [hash_nodes hzero hlane, if_neg hzero, pad, List.length_append, hparents, hlen]
    simp only [List.flatMap_cons, List.flatMap_append, List.flatMap_nil, List.flatMap_map,
      hset.padding_bytes, ← hloc, List.append_assoc, List.append_nil]
    rfl

/-- The digest is the label of the node, from the parents that the lane sees. -/
lemma blocksNode_hash (hlane : lane < nodesPerHasher)
    (hready : ReplicaIdBuffer.Ready replicaIds (hasherIndex P k t) b)
    (hlayer : P.C.layer id + 1 < 2 ^ 32) (hnode : P.C.node id < 2 ^ 32) :
    blocksNode ((Coordinator.hash P.C id parentNodes localPtrs rest (Pc1.hasherSector P k t) t
        b).2 lane) =
      labelFrom P replicaIds (seenParent parentNodes localPtrs (Pc1.hasherSector P k t) t lane) id
        (Pc1.hasherSector P k t + lane) := by
  rw [labelFrom, blocksNode, hash_eq_foldl length_blockBytes
    (blocksMessage_hash hlane hready hlayer hnode)]

end SupraSeal
