import SupraSeal.C1.TreeProof
import SupraSeal.Lib.Sections
import SupraSeal.Nvme.NodeLayout

/-!
# The proofs of one challenge

What C1 writes for a challenge: the paths of tree D and tree R, the column proofs of the challenged
node and its parents, and the label and encoding proofs (`c1/path_element.hpp`,
`c1/tree_proof.hpp`, `c1/column_proof.hpp`, `c1/label_proof.hpp`, `c1/challenge.hpp`). The bytes
that a writer adds at `buf_index` are its section of the file; a writer that follows a pointer
that was never set, or fails an assertion, has none.
-/

namespace SupraSeal

open Sections

/-! ### Parameters and inputs -/

def treeDArity : ℕ := 2

def treeRCArity : ℕ := 8

/-- The sector parameters that C1 reads. A path of tree R has at least two levels, which
`PerformFirstLevels` builds, and `WriteProof` knows the proof types 0 and 1. -/
structure C1Config where
  numLayers : ℕ
  numPartitions : ℕ
  numChallenges : ℕ
  treeDLevels : ℕ
  treeRCLevels : ℕ
  treeRCConfig : ℕ
  treeRCFiles : ℕ
  treeRDiscardRows : ℕ
  numLayers_pos : 0 < numLayers
  numPartitions_pos : 0 < numPartitions
  partitions_dvd : numPartitions ∣ numChallenges
  treeDLevels_pos : 0 < treeDLevels
  two_le_treeRCLevels : 2 ≤ treeRCLevels
  treeRCConfig_le : treeRCConfig ≤ 1

namespace C1Config

variable (cfg : C1Config)

/-- `challenges_count_`: the challenges of a partition. -/
def challengesCount : ℕ := cfg.numChallenges / cfg.numPartitions

/-- `tree_r_labels_`. -/
def treeRLabels : ℕ := treeRCArity ^ (cfg.treeRDiscardRows + 1)

end C1Config

/-- The inputs of `C1`: the challenges, the parents, what `get_node` returns for a list of loaded
nodes, the replica, the tree files, with no file of tree D for a CC sector, and the texts that
close the file. -/
structure C1 (cfg : C1Config) where
  poseidon : List Node → Node
  ccTreeDNodeValues : ℕ → Node
  challenges : ℕ → ℕ
  parentsBuf : ℕ → ℕ
  reader : List (ℕ × ℕ) → ℕ → Node
  replicaBuf : ℕ → Node
  treeRBufs : ℕ → ℕ → Node
  treeCBufs : ℕ → ℕ → Node
  treeDBuf : Option (ℕ → Node)
  treeRRoot : Node
  treeCRoot : Node
  commR : Node
  commD : Node
  replicaId : Node
  seed : Node
  ticket : Node
  /-- `SetTreeDBuf` asserts this. -/
  cc_levels : treeDBuf = none → cfg.treeDLevels ≤ 31

/-- What memory holds when a challenge allocates it. -/
structure Heap where
  treeRNodes : ℕ → Node
  pathBuf : ℕ → Node

/-! ### Bytes -/

def u32 (x : ℕ) : List Byte := leBytes 4 x

def u64 (x : ℕ) : List Byte := leBytes 8 x

/-- A `node_t` in memory. -/
def Node.bytes (n : Node) : List Byte :=
  (List.finRange nodeWords).flatMap fun i => leBytes 4 (n.limbs i).toNat

@[simp] lemma Node.length_bytes (n : Node) : n.bytes.length = nodeSize := by
  rw [Node.bytes, length_flatMap_const (fun _ => length_leBytes 4 _), List.length_finRange]
  rfl

def nodeBytes (ns : List Node) : List Byte := ns.flatMap Node.bytes

/-! ### Tree proofs -/

/-- `PathElement::Write`; a hash that was not set is a null pointer. -/
def writePathElement (arity : ℕ) (e : MerkleTree.Step Node) : Option (List Byte) :=
  let len := arity - 1
  if len ≤ e.hashes.length then some (u64 len ++ nodeBytes (e.hashes.take len) ++ u64 e.index)
  else none

/-- The fields of a `TreeProof` that `WriteProof` reads. -/
structure TreeProofData where
  arity : ℕ
  levels : ℕ
  root : Node
  leaf : Option Node
  path : List (MerkleTree.Step Node)

namespace TreeProofData

variable (t : TreeProofData)

/-- `path_[i]->Write`. -/
def writePath (i : ℕ) : Option (List Byte) := t.path[i]?.bind (writePathElement t.arity)

/-- `TreeProof::WriteProof`. -/
def writeProof (proofType : ℕ) : Option (List Byte) :=
  if proofType = 0 then do
    let leaf ← t.leaf
    let proofs ← concat ((List.range t.levels).map t.writePath)
    return u32 proofType ++ t.root.bytes ++ leaf.bytes ++ u64 t.levels ++ proofs
  else if proofType = 1 then do
    -- only supports a single level of sub proof
    let baseProofVecLen := t.levels - 1
    let baseProofs ← concat ((List.range baseProofVecLen).map t.writePath)
    let subProofVecLen := 1
    let subProof ← t.writePath baseProofVecLen
    let leaf ← t.leaf
    return u32 proofType ++ u64 baseProofVecLen ++ baseProofs ++ u64 subProofVecLen ++ subProof ++
      t.root.bytes ++ leaf.bytes
  else some (u32 proofType)

end TreeProofData

/-- `TreeProof::ProofSize`. -/
def TreeProof.proofSize (arity levels proofType : ℕ) : ℕ :=
  4 + nodeSize + nodeSize + 8 + (nodeSize * (arity - 1) + 8 + 8) * levels +
    if proofType = 1 then 8 else 0

/-- A tree proof with its root, after `GenInclusionPath`. -/
def TreeProof.data (hash : List Node → Node) (t : TreeProof Node) (root : Node) (challenge : ℕ)
    (firstLevel : Option (ℕ → Node)) : TreeProofData :=
  let p := t.genInclusionPath hash challenge firstLevel
  let deref := p.deref t (firstLevel.getD fun _ => root)
  { arity := t.arity
    levels := t.levels
    root := root
    leaf := p.leaf.map deref
    path := p.path.map fun e => ⟨e.index, e.hashes.map deref⟩ }

/-- `TreeDCCProof`, after its `GenInclusionPath` with the nodes of the tree of a CC sector. -/
def treeDCCProof (ccTreeDNodeValues : ℕ → Node) (arity levels challenge : ℕ) :
    Option TreeProofData :=
  if levels ≤ 31 then
    some
      { arity := arity
        levels := levels
        root := ccTreeDNodeValues levels
        leaf := some (ccTreeDNodeValues 0)
        path := (List.range levels).map fun l =>
          ⟨(TreeProof.getTreePaths arity levels challenge).getD l 0, [ccTreeDNodeValues l]⟩ }
  else none

/-! ### Label proofs -/

/-- `LabelProof`; the labels of a layer are `labelInc` apart. -/
structure LabelProof where
  challenge : ℕ
  layers : ℕ
  labels : ℕ → Node
  labelInc : ℕ

namespace LabelProof

/-- `LabelProof::ProofSize`. -/
def proofSize (layers : ℕ) (enc : Bool) : ℕ :=
  let (proofSize, layers) :=
    if enc = false ∨ layers = 1 then
      (8 + (if enc = false then layers * 8 else 0) +
        nodeSize * layerOneRepeatSeq * parentCountBase + nodeSize * layerOneFinalSeq + 4 + 8,
        layers - 1)
    else (8, layers)
  let layers := if enc = true ∧ 1 < layers then 1 else layers
  proofSize + layers * nodeSize * layerNRepeatSeq * parentCountBase +
    layers * nodeSize * layerNRepeatSeq * parentCountExp + layers * nodeSize * layerNFinalSeq +
    layers * 4 + layers * 8

variable (p : LabelProof)

/-- The labels that the proof of layer `l` lists, from 1 on: what is hashed for the label. -/
def parents (l : ℕ) : List Node :=
  let base := fun c => p.labels (c + 1 + (l - 1) * p.labelInc)
  if l = 1 then
    (List.range layerOneRepeatSeq).flatMap (fun _ => (List.range parentCountBase).map base) ++
      (List.range layerOneFinalSeq).map base
  else
    (List.range layerNRepeatSeq).flatMap (fun _ =>
      (List.range parentCountBase).map base ++ (List.range parentCountExp).map fun c =>
        p.labels (c + 1 + parentCountBase + (l - 2) * p.labelInc)) ++
    (List.range layerNFinalSeq).map fun c =>
      if c < parentCountBase then base c else p.labels (c + 1 + (l - 2) * p.labelInc)

/-- The section of one layer. -/
def writeLayer (l : ℕ) : List Byte :=
  u64 labelParents ++ nodeBytes (p.parents l) ++ u32 l ++ u64 p.challenge

/-- `LabelProof::WriteProof`; an encoding proof has only the last layer. -/
def writeProof (enc : Bool) : List Byte :=
  let l := if enc then p.layers else 1
  (if enc then [] else u64 p.layers) ++
    (List.range' l (p.layers + 1 - l)).flatMap p.writeLayer

end LabelProof

/-! ### Challenges -/

/-- The parents that `GetParents` reads: those of the same layer, then the expander parents. -/
structure ChallengeParents where
  drgParents : ℕ → ℕ
  expParents : ℕ → ℕ

/-- `C1Challenge::GetParents`. -/
def getParents (parentsBuf : ℕ → ℕ) (challenge : ℕ) : ChallengeParents where
  drgParents k := parentsBuf (challenge * parentCount + k)
  expParents k := parentsBuf (challenge * parentCount + parentCountBase + k)

/-- The nodes that `C1Challenge::GetNodes` asks for: in every layer the challenge, its base parents
and its expander parents. -/
def challengeNodes (layerCount challenge : ℕ) (parents : ChallengeParents) : List (ℕ × ℕ) :=
  (List.range layerCount).flatMap fun l =>
    [(l, challenge)] ++ (List.range parentCountBase).map (fun k => (l, parents.drgParents k)) ++
      (List.range parentCountExp).map fun k => (l, parents.expParents k)

namespace C1

variable {cfg : C1Config} (c1 : C1 cfg) (heap : Heap) (challenge : ℕ)

/-- The path of a column in tree C. -/
def treeCProof : TreeProofData :=
  let t : TreeProof Node :=
    ⟨treeRCArity, cfg.treeRCLevels, c1.treeCBufs, cfg.treeRCFiles, 0, heap.pathBuf⟩
  t.data c1.poseidon c1.treeCRoot challenge none

/-- The path of a node in tree D, which has no file for a CC sector. -/
def treeDProof : Option TreeProofData :=
  match c1.treeDBuf with
  | none => treeDCCProof c1.ccTreeDNodeValues treeDArity cfg.treeDLevels challenge
  | some treeDBuf =>
    let t : TreeProof Node := ⟨treeDArity, cfg.treeDLevels, fun _ => treeDBuf, 1, 0, heap.pathBuf⟩
    some (t.data c1.poseidon c1.commD challenge none)

/-- The path of a node in tree R, after `GetTreeRNodes`. -/
def treeRProof : TreeProofData :=
  let treeRNodes := getTreeRNodes cfg.treeRLabels c1.replicaBuf heap.treeRNodes challenge
  let t : TreeProof Node := ⟨treeRCArity, cfg.treeRCLevels, c1.treeRBufs, cfg.treeRCFiles,
    cfg.treeRDiscardRows, heap.pathBuf⟩
  t.data c1.poseidon c1.treeRRoot challenge (some treeRNodes)

/-- `ColumnProof::WriteProof` for the column of node `challenge`, whose label of layer `l` is at
`labelIdx + l * labelInc`. -/
def writeColumnProof (labels : ℕ → Node) (labelIdx labelInc : ℕ) : Option (List Byte) := do
  let tree ← (c1.treeCProof heap challenge).writeProof cfg.treeRCConfig
  return u32 challenge ++ u64 cfg.numLayers ++
    nodeBytes ((List.range cfg.numLayers).map fun l => labels (labelIdx + l * labelInc)) ++ tree

/-- `C1Challenge::WriteTreeProof`. -/
def writeTreeProof : Option (List Byte) := do
  let treeD ← (← c1.treeDProof heap challenge).writeProof singleProofData
  let treeR ← (c1.treeRProof heap challenge).writeProof cfg.treeRCConfig
  return treeD ++ treeR

/-- `C1Challenge::WriteNodeProof`, after `GetParents` and `GetNodes`. -/
def writeNodeProof : Option (List Byte) := do
  let parents := getParents c1.parentsBuf challenge
  let nodes := c1.reader (challengeNodes cfg.numLayers challenge parents)
  let labelInc := parentCount + 1
  let column ← c1.writeColumnProof heap challenge nodes 0 labelInc
  let drg ← concat ((List.range parentCountBase).map fun k =>
    c1.writeColumnProof heap (parents.drgParents k) nodes (k + 1) labelInc)
  let exp ← concat ((List.range parentCountExp).map fun k =>
    c1.writeColumnProof heap (parents.expParents k) nodes (k + 1 + parentCountBase) labelInc)
  let labelProof : LabelProof := ⟨challenge, cfg.numLayers, nodes, labelInc⟩
  return column ++ u64 parentCountBase ++ drg ++ u64 parentCountExp ++ exp ++
    labelProof.writeProof false ++ labelProof.writeProof true

/-- `C1Challenge::WriteProof`. -/
def writeProof : Option (List Byte) := do
  return (← c1.writeTreeProof heap challenge) ++ (← c1.writeNodeProof heap challenge)

end C1

end SupraSeal
