import SupraSeal.Lib.MerkleTree
import SupraSeal.Lib.Wrap

/-!
# Tree proofs

`TreeProof` of `c1/tree_proof.hpp` with `PathElement` of `c1/path_element.hpp`, and the nodes that
`C1Challenge` of `c1/challenge.hpp` collects for the first levels of tree R. A proof holds
pointers to the nodes of the path: into the tree files, into the nodes of the first levels or into
`path_buf_`, where hashes of discarded rows are rebuilt. `x & ~mask` is `Nat.ldiff x mask`.
-/

namespace SupraSeal

/-- A `node_t*` of a proof. -/
inductive PathPtr
  | treeBuf (buf idx : ℕ)
  | firstLevel (idx : ℕ)
  | pathBuf (idx : ℕ)
  deriving DecidableEq

/-- `PathElement`. -/
abbrev PathElement : Type := MerkleTree.Step PathPtr

/-- What the constructor of `TreeProof` sets; `path_buf_` is not initialized. -/
structure TreeProof (α : Type*) where
  arity : ℕ
  levels : ℕ
  treeBufs : ℕ → ℕ → α
  treeBufsLen : ℕ
  discardRows : ℕ
  pathBuf : ℕ → α

/-- What `GenInclusionPath` sets. -/
structure InclusionPath (α : Type*) where
  leaf : Option PathPtr
  path : List PathElement
  pathBuf : ℕ → α

namespace TreeProof

variable {α : Type*} (hash : List α → α) (t : TreeProof α)

/-- `GetTreePaths`. -/
def getTreePaths (arity : ℕ) : ℕ → ℕ → List ℕ
  | 0, _ => []
  | levels + 1, challenge =>
    (challenge &&& (arity - 1)) :: getTreePaths arity levels (challenge >>> Nat.log2 arity)

/-- The siblings of `skip`, in order. -/
def pathHashes (arity skip : ℕ) (ptr : ℕ → PathPtr) : List PathPtr :=
  ((List.range arity).filter (· ≠ skip)).map ptr

/-- The loop that hashes the siblings of `skip` into `path_buf_` from `base` on; `hash_idx` is the
number of hashes set so far. -/
def hashSiblings (arity skip base : ℕ) (value : ℕ → α) (pathBuf : ℕ → α) :
    (ℕ → α) × List PathPtr :=
  ((List.range arity).filter (· ≠ skip)).foldl
    (fun st a =>
      let hashIdx := st.2.length
      (Function.update st.1 (base + hashIdx) (value a), st.2 ++ [.pathBuf (base + hashIdx)]))
    (pathBuf, [])

/-- `PerformFirstLevels`: whether the path is complete, and the path so far. -/
def performFirstLevels (challenge : ℕ) (firstLevel : ℕ → α) (indices : List ℕ) :
    Bool × InclusionPath α :=
  let labels := t.arity ^ (t.discardRows + 1)
  let indexMask := labels - 1
  let secMask := t.arity * t.arity - 1
  -- first level labels are separate from the tree files
  let leafStart := Nat.ldiff challenge (t.arity - 1) &&& indexMask
  let leafIdx := indices.getD 0 0
  let leaf := PathPtr.firstLevel (leafStart + leafIdx)
  let level0 : PathElement := ⟨leafIdx, pathHashes t.arity leafIdx fun a => .firstLevel (leafStart + a)⟩
  -- second level needs to hash adjacent labels
  let leafIdx := indices.getD 1 0
  let leafStart := Nat.ldiff leafStart secMask
  let (pathBuf, hashes) := hashSiblings t.arity leafIdx 0
    (fun a => hash (MerkleTree.group t.arity firstLevel (leafStart + a * t.arity))) t.pathBuf
  let level1 : PathElement := ⟨leafIdx, hashes⟩
  if t.levels = 2 then (true, ⟨some leaf, [level0, level1], pathBuf⟩)
  else
    -- third level needs to hash adjacent labels for two levels
    let leafStart := leafStart >>> Nat.log2 (t.arity * t.arity)
    let (pathBuf, hashes) := hashSiblings t.arity leafStart (t.arity - 1)
      (fun ao => hash (MerkleTree.group t.arity (fun ai =>
        hash (MerkleTree.group t.arity firstLevel (ao * t.arity * t.arity + ai * t.arity))) 0))
      pathBuf
    let level2 : PathElement := ⟨indices.getD 2 0, hashes⟩
    (t.levels == 3, ⟨some leaf, [level0, level1, level2], pathBuf⟩)

/-- The locals of the loop of `GenInclusionPath`. -/
structure LevelState (α : Type*) where
  addLevelSize : ℕ
  curLevelSize : ℕ
  proof : InclusionPath α

/-- One level of the path, read from tree file `bufIdx`. -/
def levelStep (challenge treeIdxMask bufIdx : ℕ) (indices : List ℕ) (st : LevelState α) (l : ℕ) :
    LevelState α :=
  let arityLg := Nat.log2 t.arity
  let leafIdx := indices.getD l 0
  let leafStart :=
    Nat.ldiff ((challenge &&& treeIdxMask) >>> (l * arityLg)) (t.arity - 1) + st.addLevelSize
  { addLevelSize := st.addLevelSize + st.curLevelSize
    curLevelSize := st.curLevelSize >>> arityLg
    proof := { st.proof with
      leaf := if l = 0 then some (.treeBuf bufIdx (leafStart + leafIdx)) else st.proof.leaf
      path := st.proof.path ++
        [⟨leafIdx, pathHashes t.arity leafIdx fun a => .treeBuf bufIdx (leafStart + a)⟩] } }

/-- The part of `GenInclusionPath` that reads the tree files, from level `startingLevel` on. -/
def readTreeBufs (challenge : ℕ) (discarded : Bool) (startingLevel : ℕ) (proof : InclusionPath α) :
    InclusionPath α :=
  let indices := getTreePaths t.arity t.levels challenge
  let finishLevel := if t.treeBufsLen = 1 then t.levels else t.levels - 1
  let arityLg := Nat.log2 t.arity
  let leaves := 2 ^ (t.levels * arityLg)
  let fileLeaves := leaves / t.treeBufsLen
  let fileShift := Nat.log2 fileLeaves
  let treeIdxMask := fileLeaves - 1
  let startLevelSize :=
    if discarded then 2 ^ ((t.levels - (t.discardRows + 1)) * arityLg) / t.treeBufsLen
    else fileLeaves
  let bufIdx := challenge >>> fileShift
  let st := (List.range' startingLevel (finishLevel - startingLevel)).foldl
    (t.levelStep challenge treeIdxMask bufIdx indices) ⟨0, startLevelSize, proof⟩
  if t.treeBufsLen = 1 then st.proof
  else
    -- the last level has one root per file
    let leafIdx := indices.getD (t.levels - 1) 0
    { st.proof with
      path := st.proof.path ++
        [⟨leafIdx, pathHashes t.arity leafIdx fun a => .treeBuf a st.addLevelSize⟩] }

/-- `GenInclusionPath`; `first_level` may be null. -/
def genInclusionPath (challenge : ℕ) : Option (ℕ → α) → InclusionPath α
  | some firstLevel =>
    let (done, proof) := t.performFirstLevels hash challenge firstLevel
      (getTreePaths t.arity t.levels challenge)
    if done then proof else t.readTreeBufs challenge true 3 proof
  | none => t.readTreeBufs challenge false 0 ⟨none, [], t.pathBuf⟩

end TreeProof

/-- `C1Challenge::GetTreeRNodes`: the `labels` replica nodes around the challenge, over what
`tree_r_nodes_` held. -/
def getTreeRNodes {α : Type*} (labels : ℕ) (replica treeRNodes : ℕ → α) (challenge : ℕ) : ℕ → α :=
  (List.range labels).foldl
    (fun nodes k => Function.update nodes k (replica (Nat.ldiff challenge (labels - 1) + k)))
    treeRNodes

namespace InclusionPath

variable {α : Type*}

/-- The node that a pointer of a proof points to. -/
def deref (t : TreeProof α) (firstLevel : ℕ → α) (p : InclusionPath α) : PathPtr → α
  | .treeBuf buf idx => t.treeBufs buf idx
  | .firstLevel idx => firstLevel idx
  | .pathBuf idx => p.pathBuf idx

/-- The steps of the path, as nodes. -/
def steps (t : TreeProof α) (firstLevel : ℕ → α) (p : InclusionPath α) : List (MerkleTree.Step α) :=
  p.path.map fun e => ⟨e.index, e.hashes.map (p.deref t firstLevel)⟩

end InclusionPath

end SupraSeal
