import SupraSeal.C1.LabelPreimage
import SupraSeal.Lib.ShaNi

/-!
# The labels that PC1 is for

Each node of a layer has a label: a digest over the replica id, the place of the node and the labels
of its parents, again and again until there are 37 of them. What a hasher hashes for a node is that
message with its padding, when the labels of the parents are where the pointers point to.
-/

namespace SupraSeal

open Sections Sha256

/-- The node that a digest is stored as: two bits of the last word are cleared, so that it is an
element of the field. -/
def digestNode (s : State) : Node :=
  ⟨fun k => [s.a, s.b, s.c, s.d, s.e, s.f, s.g, s.h &&& 0xFFFFFF3F].getD k 0⟩

variable (P : Setup) (replicaIds : ℕ → BitVec 32)

/-- How many parents take turns in the message of a node. -/
def parentsInTurn (C : Config) (id : ℕ) : ℕ :=
  2 * if C.layer id + 1 = 1 then layer1Repeat else layersGt1Repeat

/-- The message of a node, for the labels of its parents. -/
def labelMessage (parent : ℕ → Node) (id sector : ℕ) : List Byte :=
  locationBytes (replicaId replicaIds sector) (P.C.layer id + 1) (P.C.node id) ++
    if P.C.node id = 0 then []
    else (List.range labelParents).flatMap fun i => (parent (i % parentsInTurn P.C id)).messageBytes

/-- The label of a node, from the labels of its parents. -/
def labelFrom (parent : ℕ → Node) (id sector : ℕ) : Node :=
  digestNode (Sha256.hash (labelMessage P replicaIds parent id sector))

/-- The label of a node of the graph. -/
def sdrLabel (id sector : ℕ) : Node :=
  labelFrom P replicaIds (fun j =>
    if P.parentOf id j < id then sdrLabel (P.parentOf id j) sector else ⟨fun _ => 0⟩) id sector
termination_by id
decreasing_by assumption

variable {P replicaIds}

/-- The message depends on the parents in turn only. -/
lemma labelMessage_congr {parent parent' : ℕ → Node} {id sector : ℕ}
    (h : P.C.node id ≠ 0 → ∀ j < parentCount, parent j = parent' j) :
    labelMessage P replicaIds parent id sector = labelMessage P replicaIds parent' id sector := by
  rw [labelMessage, labelMessage]
  by_cases hzero : P.C.node id = 0
  · rw [if_pos hzero, if_pos hzero]
  · rw [if_neg hzero, if_neg hzero]
    have hturn : ∀ i, i % parentsInTurn P.C id < parentCount := by
      intro i
      have hpos : 0 < parentsInTurn P.C id ∧ parentsInTurn P.C id ≤ parentCount := by
        rw [parentsInTurn]
        split <;> decide
      exact (Nat.mod_lt _ hpos.1).trans_le hpos.2
    simp only [h hzero _ (hturn _)]

/-- A node that does not start a layer comes after its parents. -/
lemma parentOf_lt {id j : ℕ} (hid : P.C.node id ≠ 0) (hj : j < parentCount) :
    P.parentOf id j < id := by
  have hpos : id ≠ 0 := by
    rintro rfl
    exact hid (by rw [P.C.node_eq_mod, Nat.zero_mod])
  rw [Setup.parentOf]
  split_ifs
  · exact Nat.sub_lt (Nat.pos_of_ne_zero hpos) Nat.one_pos
  · exact P.G.parentNode_lt hj hpos fun h => absurd h hid

/-- The labels of the graph: each is made from those of the parents. -/
lemma sdrLabel_eq (id sector : ℕ) :
    sdrLabel P replicaIds id sector =
      labelFrom P replicaIds (fun j => sdrLabel P replicaIds (P.parentOf id j) sector) id sector := by
  rw [sdrLabel, labelFrom, labelFrom, labelMessage_congr]
  intro hid j hj
  rw [if_pos (parentOf_lt hid hj)]

/-! ### The message is what is hashed -/

lemma length_messageBytes (n : Node) : n.messageBytes.length = nodeSize := by
  rw [← Node.bytes_reverseL, Node.length_bytes]

lemma length_blockBytes (b : Node × Node) :
    (b.1.messageBytes ++ b.2.messageBytes).length = blockSize := by
  rw [List.length_append, length_messageBytes, length_messageBytes]
  rfl

variable {labels : ℕ → ℕ → ℕ → Node} {memory : ℕ → ℕ → Node} {isLocal : ℕ → Bool}
  {rest : ℕ → ShaPtr} {k t lane id : ℕ} {b : ReplicaIdBuffer}

end SupraSeal
