import SupraSeal.C1.CcTreeNodes
import SupraSeal.C1.LabelPreimage

/-!
# Vanilla proofs

What C1 is for: a vanilla proof shows, for one challenged node of a sealed sector, that its data is in tree
D, that its replica is in tree R and encodes the data, that the columns of the node and of its parents are in
tree C, and that its label in each layer is the hash of the labels of its parents. Here are the proof as an
object, how it is written to the file, and what a verifier checks of it.
-/

namespace SupraSeal

open MerkleTree Sections Sha256

/-! ### Paths -/

/-- A path with its root shows that `leaf` is node `index` of the tree with the root `root`. -/
structure TreeProofData.Proves (hash : List Node → Node) (d : TreeProofData) (index : ℕ)
    (leaf root : Node) : Prop where
  root_eq : d.root = root
  leaf_eq : d.leaf = some leaf
  indices : d.path.map Step.index = TreeProof.getTreePaths d.arity d.levels index
  siblings : ∀ step ∈ d.path, step.hashes.length = d.arity - 1
  folds : fold hash leaf d.path = root

lemma getTreePaths_eq_map (g levels c : ℕ) : TreeProof.getTreePaths (2 ^ g) levels c =
    (List.range levels).map fun l => c / (2 ^ g) ^ l % 2 ^ g := by
  induction levels generalizing c with
  | zero => rfl
  | succ levels ih =>
    rw [TreeProof.getTreePaths, ih, List.range_succ_eq_map, List.map_cons, List.map_map,
      Nat.and_two_pow_sub_one_eq_mod, pow_zero, Nat.div_one]
    congr 1
    apply List.map_congr_left
    intro l _
    rw [Function.comp_apply, Nat.log2_two_pow, Nat.shiftRight_eq_div_pow, Nat.div_div_eq_div_mul,
      pow_succ']

/-- A path of openings is a proof. -/
lemma TreeProofData.proves_of_openings {hash : List Node → Node} {d : TreeProofData}
    {leaves : ℕ → Node} {g c : ℕ} {root : Node} (harity : d.arity = 2 ^ g) (hroot : d.root = root)
    (hleaf : d.leaf = some (leaves c))
    (hpath : d.path = (List.range d.levels).map (opening hash d.arity leaves c))
    (hc : c < d.arity ^ d.levels) (htree : row hash d.arity leaves d.levels 0 = root) :
    d.Proves hash c (leaves c) root := by
  have hpos : 0 < d.arity := harity ▸ Nat.two_pow_pos g
  constructor
  case root_eq => exact hroot
  case leaf_eq => exact hleaf
  case indices =>
    rw [hpath, List.map_map, harity, getTreePaths_eq_map]
    rfl
  case siblings =>
    intro step hstep
    rw [hpath] at hstep
    obtain ⟨l, -, rfl⟩ := List.mem_map.mp hstep
    rw [opening, MerkleTree.siblings, List.length_map]
    exact TreeProof.length_siblings (Nat.mod_lt _ hpos)
  case folds => rw [hpath, fold_opening hpos, Nat.div_eq_of_lt hc, htree]

/-! ### The proof of a challenge -/

/-- Slot 0 is the challenged node, and the slots after it are its parents. `labels l` is what is hashed
for the label of layer `l`. -/
structure VanillaProof where
  challenge : ℕ
  treeD : TreeProofData
  treeR : TreeProofData
  nodes : ℕ → ℕ
  columns : ℕ → List Node
  columnTrees : ℕ → TreeProofData
  labels : ℕ → List Node

namespace VanillaProof

variable (p : VanillaProof) (cfg : C1Config)

/-- A column proof in the file. -/
def columnBytes (slot : ℕ) : Option (List Byte) := do
  let tree ← (p.columnTrees slot).writeProof cfg.treeRCConfig
  return u32 (p.nodes slot) ++ u64 cfg.numLayers ++ nodeBytes (p.columns slot) ++ tree

/-- The label of a layer in the file. -/
def labelBytes (l : ℕ) : List Byte :=
  u64 labelParents ++ nodeBytes (p.labels l) ++ u32 l ++ u64 p.challenge

/-- The proof in the file: the paths, the columns, the labels of all layers, and once more what the last
label is the hash of, which encodes the data. -/
def bytes : Option (List Byte) := do
  let treeD ← p.treeD.writeProof singleProofData
  let treeR ← p.treeR.writeProof cfg.treeRCConfig
  let column ← p.columnBytes cfg 0
  let drg ← concat ((List.range parentCountBase).map fun k => p.columnBytes cfg (k + 1))
  let exp ← concat ((List.range parentCountExp).map fun k =>
    p.columnBytes cfg (k + 1 + parentCountBase))
  let labels := u64 cfg.numLayers ++ (List.range' 1 cfg.numLayers).flatMap p.labelBytes
  return treeD ++ treeR ++ (column ++ u64 parentCountBase ++ drg ++ u64 parentCountExp ++ exp ++
    labels ++ p.labelBytes cfg.numLayers)

end VanillaProof

namespace C1

variable {cfg : C1Config} (c1 : C1 cfg) (heap : Heap) (challenge : ℕ)

/-- What C1 puts together for a challenge, with its path in tree D. -/
def proofWith (treeD : TreeProofData) : VanillaProof :=
  let parents := getParents c1.parentsBuf challenge
  let nodes := c1.reader (challengeNodes cfg.numLayers challenge parents)
  let labelInc := parentCount + 1
  { challenge
    treeD
    treeR := c1.treeRProof heap challenge
    nodes := slotNode challenge parents
    columns slot := (List.range cfg.numLayers).map fun l => nodes (slot + l * labelInc)
    columnTrees slot := c1.treeCProof heap (slotNode challenge parents slot)
    labels := LabelProof.parents ⟨challenge, cfg.numLayers, nodes, labelInc⟩ }

def vanillaProof : Option VanillaProof :=
  (c1.treeDProof heap challenge).map (c1.proofWith heap challenge)

variable {c1 heap challenge}

lemma columnBytes_proofWith (treeD : TreeProofData) (slot : ℕ) :
    (c1.proofWith heap challenge treeD).columnBytes cfg slot = c1.writeColumnProof heap
      (slotNode challenge (getParents c1.parentsBuf challenge) slot)
      (c1.reader (challengeNodes cfg.numLayers challenge (getParents c1.parentsBuf challenge))) slot
      (parentCount + 1) := rfl

/-- The labels are written as `LabelProof` does. -/
lemma writeProof_labels (treeD : TreeProofData) :
    let proof : LabelProof := ⟨challenge, cfg.numLayers,
      c1.reader (challengeNodes cfg.numLayers challenge (getParents c1.parentsBuf challenge)),
      parentCount + 1⟩
    proof.writeProof false = u64 cfg.numLayers ++
        (List.range' 1 cfg.numLayers).flatMap (c1.proofWith heap challenge treeD).labelBytes ∧
      proof.writeProof true = (c1.proofWith heap challenge treeD).labelBytes cfg.numLayers := by
  intro proof
  constructor
  · simp only [LabelProof.writeProof, Bool.false_eq_true, if_false, Nat.add_sub_cancel]
    rfl
  · simp only [LabelProof.writeProof, if_true, Nat.add_sub_cancel_left, List.nil_append]
    exact List.flatMap_singleton ..

/-- `WriteProof` writes the vanilla proof of the challenge. -/
lemma writeProof_eq {p : VanillaProof} (hp : c1.vanillaProof heap challenge = some p) :
    c1.writeProof heap challenge = p.bytes cfg := by
  obtain ⟨treeD, htreeD, rfl⟩ := Option.map_eq_some_iff.mp hp
  have hdrg : (List.range parentCountBase).map (fun k =>
      (c1.proofWith heap challenge treeD).columnBytes cfg (k + 1)) = (List.range parentCountBase).map
        fun k => c1.writeColumnProof heap ((getParents c1.parentsBuf challenge).drgParents k)
          (c1.reader (challengeNodes cfg.numLayers challenge (getParents c1.parentsBuf challenge)))
          (k + 1) (parentCount + 1) := by
    apply List.map_congr_left
    intro k hk
    have hk := List.mem_range.mp hk
    rw [columnBytes_proofWith, slotNode, if_neg (Nat.succ_ne_zero k), if_pos (by omega),
      Nat.add_sub_cancel]
  have hexp : (List.range parentCountExp).map (fun k =>
      (c1.proofWith heap challenge treeD).columnBytes cfg (k + 1 + parentCountBase)) =
        (List.range parentCountExp).map fun k =>
          c1.writeColumnProof heap ((getParents c1.parentsBuf challenge).expParents k)
            (c1.reader (challengeNodes cfg.numLayers challenge (getParents c1.parentsBuf challenge)))
            (k + 1 + parentCountBase) (parentCount + 1) := by
    apply List.map_congr_left
    intro k _
    rw [columnBytes_proofWith, slotNode, if_neg (by omega), if_neg (by omega),
      show k + 1 + parentCountBase - 1 - parentCountBase = k by omega]
  obtain ⟨hlabels, hencoding⟩ := @writeProof_labels cfg c1 heap challenge treeD
  rw [writeProof, writeTreeProof, writeNodeProof, VanillaProof.bytes, hdrg, hexp, htreeD]
  simp only [hlabels, hencoding, columnBytes_proofWith, bind_assoc, pure_bind, List.append_assoc]
  rfl

end C1

/-! ### What a verifier checks -/

/-- What prover and verifier agree on: the graph and the functions. `poseidon` has the number of its inputs,
and `encode` makes the node of a replica from a label and the data. -/
structure Porep where
  numLayers : ℕ
  parentsBuf : ℕ → ℕ
  poseidon : ℕ → List Node → Node
  hashNode : List Node → Node
  encode : Node → Node → Node

/-- What is said of a sector. -/
structure SectorStatement where
  replicaId : Node
  commD : Node
  commC : Node
  commRLast : Node
  commR : Node

namespace VanillaProof

variable (p : VanillaProof)

/-- The label of parent `k` that goes into a label of layer `l`; expander parents are in the layer
before. -/
def parentLabel (l k : ℕ) : Node :=
  (p.columns (k + 1)).getD (if k < parentCountBase then l - 1 else l - 2) Node.zero

/-- The labels of the parents, again and again. -/
def parentLabels (l : ℕ) : List Node :=
  (List.range labelParents).map fun i =>
    p.parentLabel l (i % if l = 1 then parentCountBase else parentCount)

/-- The verifier accepts the proof of the challenge, for a node with the data `data` and the replica
`replica`. -/
structure Accepted (S : Porep) (st : SectorStatement) (challenge : ℕ) (data replica : Node) : Prop where
  challenge_eq : p.challenge = challenge
  commR : st.commR = S.poseidon 2 [st.commC, st.commRLast]
  treeD : p.treeD.Proves S.hashNode challenge data st.commD
  treeR : p.treeR.Proves (S.poseidon treeRCArity) challenge replica st.commRLast
  nodes : p.nodes = slotNode challenge (getParents S.parentsBuf challenge)
  columns : ∀ slot ≤ parentCount, (p.columns slot).length = S.numLayers ∧
    (p.columnTrees slot).Proves (S.poseidon treeRCArity) (p.nodes slot)
      (S.poseidon S.numLayers (p.columns slot)) st.commC
  parents : ∀ l < S.numLayers, p.labels (l + 1) = p.parentLabels (l + 1)
  labels : ∀ l < S.numLayers, (p.columns 0)[l]? = some (TreeD.truncatedHash
    (locationBytes st.replicaId (l + 1) challenge ++ nodeBytes (p.labels (l + 1))))
  encodes : (p.columns 0)[S.numLayers - 1]?.map (S.encode · data) = some replica

end VanillaProof

/-- C1 lists the labels that the verifier expects. -/
lemma C1.labels_proofWith {cfg : C1Config} (c1 : C1 cfg) (heap : Heap) (challenge : ℕ)
    (treeD : TreeProofData) {l : ℕ} (hl : l < cfg.numLayers) :
    (c1.proofWith heap challenge treeD).labels (l + 1) =
      (c1.proofWith heap challenge treeD).parentLabels (l + 1) := by
  have hcolumn : ∀ slot k, k < cfg.numLayers →
      ((c1.proofWith heap challenge treeD).columns slot).getD k Node.zero =
        c1.reader (challengeNodes cfg.numLayers challenge (getParents c1.parentsBuf challenge))
          (slot + k * (parentCount + 1)) := by
    intro slot k hk
    simp [C1.proofWith, hk]
  rw [VanillaProof.parentLabels, C1.proofWith]
  dsimp only
  rw [LabelProof.parents_eq]
  apply List.map_congr_left
  intro i _
  have hbase : i % parentCountBase < parentCountBase := Nat.mod_lt _ (by decide)
  simp only [VanillaProof.parentLabel]
  by_cases hfirst : l + 1 = 1
  · rw [if_pos hfirst, if_pos hfirst, if_pos hbase]
    exact (hcolumn _ _ hl).symm
  · rw [if_neg hfirst, if_neg hfirst]
    split_ifs with hdrg
    · exact (hcolumn _ _ hl).symm
    · exact (hcolumn _ _ (by omega)).symm

end SupraSeal
