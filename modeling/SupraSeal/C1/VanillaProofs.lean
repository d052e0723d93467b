import SupraSeal.C1.Challenge
import SupraSeal.C1.TreeInclusion

/-!
# The output of C1

`ProofSize`, `WriteProofs` and `CombineProofs` of `c1/c1.hpp`. C1 writes the proofs of all
challenges at once, or the tree proofs and the node proofs to a file each, which `CombineProofs`
merges. It takes the two files apart with the sizes that `ProofSize` adds up, so the main lemmas say
that every writer writes as many bytes as its size function tells.
-/

namespace SupraSeal

open Sections

variable {cfg : C1Config}

/-! ### Sizes -/

namespace C1Config

variable (cfg)

/-- `ColumnProof::ProofSize`. -/
def columnProofSize : ℕ :=
  4 + 8 + nodeSize * cfg.numLayers +
    TreeProof.proofSize treeRCArity cfg.treeRCLevels cfg.treeRCConfig

def treeProofSize : ℕ :=
  TreeProof.proofSize treeDArity cfg.treeDLevels singleProofData +
    TreeProof.proofSize treeRCArity cfg.treeRCLevels cfg.treeRCConfig

def nodeProofSize : ℕ :=
  let labelProofSize := LabelProof.proofSize cfg.numLayers false
  let encProofSize := LabelProof.proofSize cfg.numLayers true
  let colProofSize := (1 + parentCountBase + parentCountExp) * cfg.columnProofSize + 2 * 8
  labelProofSize + encProofSize + colProofSize

/-- The nodes that `GetTreeRNodes` reads are those that `PerformFirstLevels` uses: all but for three
levels with one discarded row. -/
def FirstLevelsCovered : Prop :=
  cfg.treeRCLevels = 2 ∧ 1 ≤ cfg.treeRDiscardRows ∨ 2 ≤ cfg.treeRDiscardRows

/-- `C1::ProofSize`. -/
def proofSize (doTree doNode : Bool) : ℕ :=
  cfg.numPartitions * 8 + 8 +
    (if doTree then cfg.treeProofSize * cfg.numChallenges + 2 * nodeSize else 0) +
    if doNode then cfg.nodeProofSize * cfg.numChallenges + 3 * nodeSize else 0

end C1Config

/-! ### Files -/

namespace C1

variable (c1 : C1 cfg)

/-- What `WriteProofs` writes for one challenge. -/
def writeChallenge (heap : Heap) (doTree doNode : Bool) (challenge : ℕ) : Option (List Byte) :=
  if doNode then
    if doTree then c1.writeProof heap challenge else c1.writeNodeProof heap challenge
  else c1.writeTreeProof heap challenge

/-- `C1::WriteProofs`; `heap` is the memory that each challenge allocates. -/
def writeProofs (heap : ℕ → Heap) (doTree doNode : Bool) : Option (List Byte) := do
  let proofs ← concat ((List.range cfg.numPartitions).map fun i => do
    return u64 cfg.challengesCount ++ (← concat ((List.range cfg.challengesCount).map fun j =>
      let k := j + i * cfg.challengesCount
      c1.writeChallenge (heap k) doTree doNode (c1.challenges k))))
  let file := u64 cfg.numPartitions ++ proofs ++
    (if doTree then c1.commR.bytes ++ c1.commD.bytes else []) ++
    if doNode then c1.replicaId.bytes ++ c1.seed.bytes ++ c1.ticket.bytes else []
  if file.length = cfg.proofSize doTree doNode then some file else none

end C1

/-- A file mapped by `mmap_write`: `posix_fallocate` keeps what the file holds. -/
def mmapWrite (file : List Byte) (size : ℕ) : List Byte :=
  (file ++ List.replicate (size - file.length) 0).take size

/-- The locals of `CombineProofs`: what it has written, and the cursors of the files it reads. -/
structure CombineState where
  file : List Byte
  treeBufIndex : ℕ
  nodeBufIndex : ℕ

namespace CombineState

variable (treePtr nodePtr : List Byte) (n : ℕ) (st : CombineState)

/-- A length that all files have. -/
def length (x : ℕ) : CombineState :=
  ⟨st.file ++ u64 x, st.treeBufIndex + 8, st.nodeBufIndex + 8⟩

def copyTree : Option CombineState := do
  return { st with
    file := st.file ++ (← slice treePtr st.treeBufIndex n), treeBufIndex := st.treeBufIndex + n }

def copyNode : Option CombineState := do
  return { st with
    file := st.file ++ (← slice nodePtr st.nodeBufIndex n), nodeBufIndex := st.nodeBufIndex + n }

/-- The proofs of one challenge. -/
def challenge (cfg : C1Config) : Option CombineState := do
  let st ← st.copyTree treePtr cfg.treeProofSize
  st.copyNode nodePtr cfg.nodeProofSize

/-- One partition. -/
def part (cfg : C1Config) : Option CombineState :=
  (List.range cfg.challengesCount).foldlM (fun st _ => st.challenge treePtr nodePtr cfg)
    (st.length cfg.challengesCount)

end CombineState

/-- `C1::CombineProofs`, with its closing assertions. -/
def combineProofs (cfg : C1Config) (treeFile nodePtr : List Byte) : Option (List Byte) := do
  let treePtr := mmapWrite treeFile (cfg.proofSize true false)
  let st : CombineState := ⟨[], 0, 0⟩
  let st ← (List.range cfg.numPartitions).foldlM (fun st _ => st.part treePtr nodePtr cfg)
    (st.length cfg.numPartitions)
  let st ← st.copyTree treePtr nodeSize  -- Comm R
  let st ← st.copyTree treePtr nodeSize  -- Comm D
  let st ← st.copyNode nodePtr nodeSize  -- Replica ID
  let st ← st.copyNode nodePtr nodeSize  -- Seed
  let st ← st.copyNode nodePtr nodeSize  -- Ticket
  if st.file.length = cfg.proofSize true true ∧ st.treeBufIndex = cfg.proofSize true false ∧
      st.nodeBufIndex = nodePtr.length then
    some st.file
  else none

/-! ### Lengths of the sections -/

@[simp] lemma length_u32 (x : ℕ) : (u32 x).length = 4 := length_leBytes 4 x

@[simp] lemma length_u64 (x : ℕ) : (u64 x).length = 8 := length_leBytes 8 x

@[simp] lemma length_nodeBytes (ns : List Node) : (nodeBytes ns).length = ns.length * nodeSize :=
  length_flatMap_const Node.length_bytes ns

lemma writePathElement_sized {arity : ℕ} {e : MerkleTree.Step Node}
    (h : arity - 1 ≤ e.hashes.length) :
    Sized (writePathElement arity e) (nodeSize * (arity - 1) + 8 + 8) := by
  refine ⟨_, if_pos h, ?_⟩
  simp only [List.length_append, length_u64, length_nodeBytes, List.length_take, Nat.min_eq_left h]
  ring

/-- A tree proof that can be written: it has a leaf, and all hashes of all levels. -/
structure TreeProofData.Complete (t : TreeProofData) : Prop where
  leaf : t.leaf.isSome
  levels : t.levels ≤ t.path.length
  hashes : ∀ e ∈ t.path, t.arity - 1 ≤ e.hashes.length

namespace TreeProofData.Complete

variable {t : TreeProofData}

lemma writePath_sized (h : t.Complete) {i : ℕ} (hi : i < t.levels) :
    Sized (t.writePath i) (nodeSize * (t.arity - 1) + 8 + 8) := by
  have hlen : i < t.path.length := hi.trans_le h.levels
  rw [writePath, List.getElem?_eq_getElem hlen, Option.bind_some]
  exact writePathElement_sized (h.hashes _ (List.getElem_mem hlen))

lemma concat_writePath_sized (h : t.Complete) {n : ℕ} (hn : n ≤ t.levels) :
    Sized (concat ((List.range n).map t.writePath)) (n * (nodeSize * (t.arity - 1) + 8 + 8)) := by
  have hpath : ∀ s ∈ (List.range n).map t.writePath, Sized s (nodeSize * (t.arity - 1) + 8 + 8) := by
    intro s hs
    obtain ⟨i, hi, rfl⟩ := List.mem_map.mp hs
    exact h.writePath_sized ((List.mem_range.mp hi).trans_le hn)
  have hsized := Sized.concat hpath
  rwa [List.length_map, List.length_range] at hsized

/-- `WriteProof` writes `ProofSize` bytes, for both proof types. -/
lemma writeProof_sized (h : t.Complete) (hlevels : 0 < t.levels) {proofType : ℕ}
    (htype : proofType ≤ 1) :
    Sized (t.writeProof proofType) (TreeProof.proofSize t.arity t.levels proofType) := by
  obtain ⟨leaf, hleaf⟩ := Option.isSome_iff_exists.mp h.leaf
  rcases Nat.le_one_iff_eq_zero_or_eq_one.mp htype with rfl | rfl
  · obtain ⟨proofs, hproofs, hlen⟩ := h.concat_writePath_sized le_rfl
    refine ⟨u32 0 ++ t.root.bytes ++ leaf.bytes ++ u64 t.levels ++ proofs, ?_, ?_⟩
    · simp [writeProof, hleaf, hproofs]
    · simp only [List.length_append, length_u32, length_u64, Node.length_bytes, hlen,
        TreeProof.proofSize]
      rw [if_neg (by decide)]
      ring
  · obtain ⟨proofs, hproofs, hlen⟩ := h.concat_writePath_sized (Nat.sub_le t.levels 1)
    obtain ⟨sub, hsub, hlen'⟩ := h.writePath_sized (Nat.sub_lt hlevels Nat.one_pos)
    refine ⟨u32 1 ++ u64 (t.levels - 1) ++ proofs ++ u64 1 ++ sub ++ t.root.bytes ++ leaf.bytes,
      ?_, ?_⟩
    · simp [writeProof, hleaf, hproofs, hsub]
    · simp only [List.length_append, length_u32, length_u64, Node.length_bytes, hlen, hlen',
        TreeProof.proofSize]
      obtain ⟨n, hn⟩ : ∃ n, t.levels = n + 1 := ⟨t.levels - 1, by omega⟩
      rw [if_pos trivial, hn, Nat.add_sub_cancel]
      ring

end TreeProofData.Complete

namespace LabelProof

variable (p : LabelProof)

lemma length_parents (l : ℕ) : (p.parents l).length = labelParents := by
  unfold parents
  split_ifs
  · simp only [List.length_append, List.length_map, List.length_range, List.length_flatMap,
      List.map_const', List.sum_replicate]
    rfl
  · simp only [List.length_append, List.length_map, List.length_range, List.length_flatMap,
      List.map_const', List.sum_replicate]
    rfl

lemma length_writeLayer (l : ℕ) : (p.writeLayer l).length = 8 + labelParents * nodeSize + 4 + 8 := by
  simp only [writeLayer, List.length_append, length_u64, length_u32, length_nodeBytes,
    length_parents]

/-- The label proof has all layers, the encoding proof the last one. -/
lemma length_writeProof (hlayers : 0 < p.layers) (enc : Bool) :
    (p.writeProof enc).length = proofSize p.layers enc := by
  obtain ⟨n, hn⟩ : ∃ n, p.layers = n + 1 := ⟨p.layers - 1, by omega⟩
  cases enc with
  | false =>
    simp only [writeProof, List.length_append, length_flatMap_const p.length_writeLayer,
      List.length_range', proofSize, hn]
    simp [layerOneRepeatSeq, layerOneFinalSeq, layerNRepeatSeq, layerNFinalSeq, labelParents,
      parentCountBase, parentCountExp, parentCount, nodeSize, nodeSizeLg]
    ring
  | true =>
    simp only [writeProof, List.length_append, length_flatMap_const p.length_writeLayer,
      List.length_range', proofSize, hn]
    rcases Nat.eq_zero_or_pos n with rfl | hpos
    · rfl
    · have h1 : 1 < n + 1 := by omega
      simp [h1, hpos.ne', layerNRepeatSeq, layerNFinalSeq, labelParents,
        parentCountBase, parentCountExp, parentCount, nodeSize, nodeSizeLg]

end LabelProof

/-! ### Paths are complete -/

namespace TreeProof

variable {α : Type*} {hash : List α → α} {t : TreeProof α} {c : ℕ}

lemma le_length_siblings (arity skip : ℕ) :
    arity - 1 ≤ ((List.range arity).filter (· ≠ skip)).length := by
  rcases Nat.lt_or_ge skip arity with h | h
  · rw [length_siblings h]
  · rw [List.filter_eq_self.mpr fun a ha => by
      have := List.mem_range.mp ha
      simp; omega]
    simp

lemma getTreePaths_getD_lt {arity : ℕ} (harity : 0 < arity) (levels c l : ℕ) :
    (getTreePaths arity levels c).getD l 0 < arity := by
  induction levels generalizing c l with
  | zero => simpa [getTreePaths] using harity
  | succ levels ih =>
    cases l with
    | zero =>
      have := Nat.and_le_right (n := c) (m := arity - 1)
      simp only [getTreePaths, List.getD_cons_zero]
      omega
    | succ l => simpa only [getTreePaths, List.getD_cons_succ] using ih _ l

/-- What reading the tree files adds to a path: `n` elements with pointers into the files. -/
structure ReadsFiles (t : TreeProof α) (p : InclusionPath α) (n : ℕ) (q : InclusionPath α) :
    Prop where
  length : q.path.length = p.path.length + n
  elements : ∀ e ∈ q.path, e ∈ p.path ∨
    t.arity - 1 ≤ e.hashes.length ∧ ∀ ptr ∈ e.hashes, ∃ b i, ptr = .treeBuf b i
  leaf : q.leaf = p.leaf ∨ ∃ b i, q.leaf = some (.treeBuf b i)

lemma ReadsFiles.refl (p : InclusionPath α) : ReadsFiles t p 0 p :=
  ⟨rfl, fun _ he => .inl he, .inl rfl⟩

lemma pathHashes_treeBuf (arity skip : ℕ) (b i : ℕ → ℕ) :
    arity - 1 ≤ (pathHashes arity skip fun a => .treeBuf (b a) (i a)).length ∧
      ∀ ptr ∈ pathHashes arity skip fun a => .treeBuf (b a) (i a), ∃ b i, ptr = .treeBuf b i := by
  constructor
  · rw [pathHashes, List.length_map]
    exact le_length_siblings arity skip
  · intro ptr hptr
    obtain ⟨a, -, rfl⟩ := List.mem_map.mp hptr
    exact ⟨_, _, rfl⟩

/-- One more element. -/
lemma ReadsFiles.append {p q : InclusionPath α} {n : ℕ} (h : ReadsFiles t p n q) {e : PathElement}
    (he : t.arity - 1 ≤ e.hashes.length ∧ ∀ ptr ∈ e.hashes, ∃ b i, ptr = .treeBuf b i)
    {leaf : Option PathPtr} (hleaf : leaf = q.leaf ∨ ∃ b i, leaf = some (.treeBuf b i)) :
    ReadsFiles t p (n + 1) { q with leaf := leaf, path := q.path ++ [e] } := by
  constructor
  · simp only [List.length_append, List.length_singleton, h.length]
    ring
  · intro e' he'
    rcases List.mem_append.mp he' with he' | he'
    · exact h.elements e' he'
    · rw [List.mem_singleton.mp he']
      exact .inr he
  · rcases hleaf with rfl | hleaf
    · exact h.leaf
    · exact .inr hleaf

section Levels

variable (mask bufIdx : ℕ) (indices : List ℕ) {p : InclusionPath α} {n : ℕ} {st : LevelState α}

lemma levelStep_readsFiles (h : ReadsFiles t p n st.proof) (l : ℕ) :
    ReadsFiles t p (n + 1) (t.levelStep c mask bufIdx indices st l).proof := by
  refine h.append (pathHashes_treeBuf _ _ _ _) ?_
  split_ifs with hl
  · exact .inr ⟨_, _, rfl⟩
  · exact .inl rfl

lemma levelSteps_readsFiles (ls : List ℕ) (h : ReadsFiles t p n st.proof) :
    ReadsFiles t p (n + ls.length) (ls.foldl (t.levelStep c mask bufIdx indices) st).proof := by
  induction ls generalizing n st with
  | nil => exact h
  | cons l ls ih =>
    have hrest := ih (levelStep_readsFiles (c := c) mask bufIdx indices h l)
    rwa [Nat.add_assoc, Nat.add_comm 1, ← List.length_cons] at hrest

/-- The loop never looks at `path_buf_`. -/
lemma levelSteps_pathBuf (ls : List ℕ) (st : LevelState α) (b : ℕ → α) :
    ls.foldl (t.levelStep c mask bufIdx indices) { st with proof.pathBuf := b } =
      { ls.foldl (t.levelStep c mask bufIdx indices) st with
        proof.pathBuf := b } := by
  induction ls generalizing st with
  | nil => rfl
  | cons l ls ih => exact ih (t.levelStep c mask bufIdx indices st l)

end Levels

/-- The levels that are read from the files. -/
def fileLevels (t : TreeProof α) (startingLevel : ℕ) : ℕ :=
  (if t.treeBufsLen = 1 then t.levels else t.levels - 1) - startingLevel +
    if t.treeBufsLen = 1 then 0 else 1

lemma readTreeBufs_readsFiles (discarded : Bool) (startingLevel : ℕ) (p : InclusionPath α) :
    ReadsFiles t p (t.fileLevels startingLevel) (t.readTreeBufs c discarded startingLevel p) := by
  have hloop : ∀ mask bufIdx indices size n, ReadsFiles t p n
      ((List.range' startingLevel n).foldl (t.levelStep c mask bufIdx indices) ⟨0, size, p⟩).proof := by
    intro mask bufIdx indices size n
    have h : ReadsFiles t p 0 (LevelState.mk 0 size p).proof := ReadsFiles.refl p
    have hsteps := levelSteps_readsFiles (c := c) mask bufIdx indices (List.range' startingLevel n) h
    rwa [List.length_range', Nat.zero_add] at hsteps
  rw [readTreeBufs, fileLevels]
  by_cases hlen : t.treeBufsLen = 1
  · simp only [if_pos hlen, Nat.add_zero]
    exact hloop _ _ _ _ _
  · simp only [if_neg hlen]
    exact (hloop _ _ _ _ _).append (pathHashes_treeBuf _ _ _ _) (.inl rfl)

lemma readTreeBufs_pathBuf (discarded : Bool) (startingLevel : ℕ) (p : InclusionPath α)
    (b : ℕ → α) :
    t.readTreeBufs c discarded startingLevel { p with pathBuf := b } =
      { t.readTreeBufs c discarded startingLevel p with pathBuf := b } := by
  have hloop : ∀ mask bufIdx indices size n,
      (List.range' startingLevel n).foldl (t.levelStep c mask bufIdx indices)
        ⟨0, size, { p with pathBuf := b }⟩ =
      { (List.range' startingLevel n).foldl (t.levelStep c mask bufIdx indices) ⟨0, size, p⟩ with
        proof.pathBuf := b } := fun mask bufIdx indices size n =>
    levelSteps_pathBuf mask bufIdx indices _ ⟨0, size, p⟩ b
  simp only [readTreeBufs, hloop]
  split_ifs <;> rfl

/-- The leaf is found at level 0. -/
lemma readTreeBufs_leaf (hlevels : 0 < if t.treeBufsLen = 1 then t.levels else t.levels - 1)
    (p : InclusionPath α) : (t.readTreeBufs c false 0 p).leaf.isSome := by
  obtain ⟨n, hn⟩ := Nat.exists_eq_succ_of_ne_zero hlevels.ne'
  have hloop : ∀ mask bufIdx indices size,
      ((List.range' 0 (n + 1)).foldl (t.levelStep c mask bufIdx indices)
        ⟨0, size, p⟩).proof.leaf.isSome := by
    intro mask bufIdx indices size
    rw [List.range'_succ, List.foldl_cons]
    -- the first step sets the leaf, and later ones keep it
    have h := levelSteps_readsFiles (c := c) mask bufIdx indices (List.range' (0 + 1) n)
      (ReadsFiles.refl (t := t) (t.levelStep c mask bufIdx indices ⟨0, size, p⟩ 0).proof)
    rcases h.leaf with h | ⟨b, i, h⟩
    · rw [h]
      rfl
    · rw [h]
      rfl
  simp only [readTreeBufs, hn, Nat.sub_zero, Bool.false_eq_true, if_false]
  split_ifs
  · exact hloop _ _ _ _
  · exact hloop _ _ _ _

/-! ### Paths do not depend on fresh memory -/

/-- Rebuilding the same hashes over different memory. -/
lemma Rebuilt.agree {xs : List ℕ} {base : ℕ} {value value' pathBuf pathBuf' : ℕ → α}
    {r r' : (ℕ → α) × List PathPtr} (h : Rebuilt xs base value pathBuf r)
    (h' : Rebuilt xs base value' pathBuf' r') (hvalue : ∀ a ∈ xs, value a = value' a) :
    r.2 = r'.2 ∧ ∀ i < xs.length, r.1 (base + i) = r'.1 (base + i) := by
  constructor
  · rw [h.ptrs, h'.ptrs]
  · intro i hi
    have hhashes := (h.hashes.trans (List.map_congr_left hvalue)).trans h'.hashes.symm
    exact List.map_inj_left.mp hhashes i (List.mem_range.mpr hi)

/-- The nodes that `PerformFirstLevels` reads around the challenge: those of the first level and,
for the second, the ones under the same node two levels up. -/
lemma firstLevels_bounds (g d c : ℕ) :
    (∀ a < 2 ^ g, (Nat.ldiff c (2 ^ g - 1) &&& ((2 ^ g) ^ (d + 1) - 1)) + a < (2 ^ g) ^ (d + 1)) ∧
    (1 ≤ d → ∀ a < 2 ^ g, ∀ b < 2 ^ g,
      Nat.ldiff (Nat.ldiff c (2 ^ g - 1) &&& ((2 ^ g) ^ (d + 1) - 1)) (2 ^ g * 2 ^ g - 1) +
        a * 2 ^ g + b < (2 ^ g) ^ (d + 1)) := by
  have hpos := Nat.two_pow_pos g
  have hstart : Nat.ldiff c (2 ^ g - 1) &&& ((2 ^ g) ^ (d + 1) - 1) =
      2 ^ g * (c / 2 ^ g % (2 ^ g) ^ d) := by
    rw [Wrap.ldiff_two_pow_sub_one, and_pow_sub_one, pow_succ', Nat.mul_mod_mul_left]
  have hsub : Nat.ldiff (2 ^ g * (c / 2 ^ g % (2 ^ g) ^ d)) (2 ^ g * 2 ^ g - 1) =
      2 ^ g * 2 ^ g * (c / 2 ^ g % (2 ^ g) ^ d / 2 ^ g) := by
    rw [← pow_add, Wrap.ldiff_two_pow_sub_one, pow_add, Nat.mul_div_mul_left _ _ hpos]
  have hlt := Nat.mod_lt (c / 2 ^ g) (Nat.pow_pos hpos : 0 < (2 ^ g) ^ d)
  rw [hstart, hsub]
  generalize c / 2 ^ g % (2 ^ g) ^ d = x at hlt ⊢
  generalize 2 ^ g = n at hpos hlt ⊢
  constructor
  · intro a ha
    calc n * x + a < n * (x + 1) := by rw [Nat.mul_add, Nat.mul_one]; omega
      _ ≤ n * n ^ d := Nat.mul_le_mul_left _ hlt
      _ = n ^ (d + 1) := (pow_succ' n d).symm
  · intro hd a ha b hb
    obtain ⟨e, rfl⟩ : ∃ e, d = e + 1 := ⟨d - 1, by omega⟩
    have hx : x / n < n ^ e := Nat.div_lt_of_lt_mul (by rwa [← pow_succ'])
    have hab : a * n + b < n * n := by
      calc a * n + b < a * n + n := Nat.add_lt_add_left hb _
        _ = (a + 1) * n := (Nat.succ_mul a n).symm
        _ ≤ n * n := Nat.mul_le_mul_right _ ha
    calc n * n * (x / n) + a * n + b < n * n * (x / n + 1) := by
          rw [Nat.mul_add, Nat.mul_one, Nat.add_assoc]; exact Nat.add_lt_add_left hab _
      _ ≤ n * n * n ^ e := Nat.mul_le_mul_left _ hx
      _ = n ^ (e + 1 + 1) := by ring

/-- Two runs of `GenInclusionPath` found the same path: the pointers are the same, and so are the
nodes they point to. -/
structure SamePath (t t' : TreeProof α) (first first' : ℕ → α) (p p' : InclusionPath α) : Prop where
  leaf : p.leaf = p'.leaf
  path : p.path = p'.path
  deref_leaf : ∀ ptr, p.leaf = some ptr → p.deref t first ptr = p'.deref t' first' ptr
  deref_path : ∀ e ∈ p.path, ∀ ptr ∈ e.hashes, p.deref t first ptr = p'.deref t' first' ptr

/-- Pointers to hashes rebuilt over different memory. -/
lemma Rebuilt.deref_same {xs : List ℕ} {base : ℕ} {value pathBuf : ℕ → α}
    {r : (ℕ → α) × List PathPtr} (h : Rebuilt xs base value pathBuf r) {p p' : InclusionPath α}
    (hp : ∀ i < xs.length, p.pathBuf (base + i) = p'.pathBuf (base + i)) (t' : TreeProof α)
    (first first' : ℕ → α) : ∀ ptr ∈ r.2, p.deref t first ptr = p'.deref t' first' ptr := by
  intro ptr hptr
  rw [h.ptrs] at hptr
  obtain ⟨i, hi, rfl⟩ := List.mem_map.mp hptr
  exact hp i (List.mem_range.mp hi)

lemma digits_lt {n x y z : ℕ} (hx : x < n) (hy : y < n) (hz : z < n) :
    x * n * n + y * n + z < n ^ 3 := by
  have hyz : y * n + z < n * n := by
    calc y * n + z < (y + 1) * n := by rw [Nat.succ_mul]; omega
      _ ≤ n * n := Nat.mul_le_mul_right _ hy
  calc x * n * n + y * n + z < x * n * n + n * n := by rw [Nat.add_assoc]; omega
    _ = (x + 1) * (n * n) := by ring
    _ ≤ n * (n * n) := Nat.mul_le_mul_right _ hx
    _ = n ^ 3 := by ring

/-- The first levels are the same when the nodes around the challenge are. -/
lemma performFirstLevels_same {g : ℕ} (harity : t.arity = 2 ^ g) (b : ℕ → α) {first first' : ℕ → α}
    (hfirst : ∀ k < t.arity ^ (t.discardRows + 1), first k = first' k)
    (hcover : t.levels = 2 ∧ 1 ≤ t.discardRows ∨ 2 ≤ t.discardRows) (indices : List ℕ)
    (hindices : ∀ l, indices.getD l 0 < t.arity) :
    (t.performFirstLevels hash c first indices).1 =
      ({ t with pathBuf := b }.performFirstLevels hash c first' indices).1 ∧
    SamePath t { t with pathBuf := b } first first' (t.performFirstLevels hash c first indices).2
      ({ t with pathBuf := b }.performFirstLevels hash c first' indices).2 := by
  obtain ⟨hb0, hb1⟩ := firstLevels_bounds g t.discardRows c
  rw [← harity] at hb0 hb1
  simp only [performFirstLevels]
  set n := t.arity with hn
  set start := Nat.ldiff c (n - 1) &&& (n ^ (t.discardRows + 1) - 1)
  -- the second level
  have hr₁ := rebuilt_foldl ((List.range n).filter (· ≠ indices.getD 1 0)) 0
    (fun a => hash (MerkleTree.group n first (Nat.ldiff start (n * n - 1) + a * n))) t.pathBuf
  have hr₁' := rebuilt_foldl ((List.range n).filter (· ≠ indices.getD 1 0)) 0
    (fun a => hash (MerkleTree.group n first' (Nat.ldiff start (n * n - 1) + a * n))) b
  rw [← hashSiblings] at hr₁ hr₁'
  generalize hashSiblings n (indices.getD 1 0) 0 _ t.pathBuf = r₁ at hr₁ ⊢
  generalize hashSiblings n (indices.getD 1 0) 0 _ b = r₁' at hr₁' ⊢
  have hagree₁ := hr₁.agree hr₁' (by
    intro a ha
    have ha : a < n := List.mem_range.mp (List.mem_of_mem_filter ha)
    exact congrArg hash (MerkleTree.group_congr fun i hi => hfirst _ (hb1 (by omega) a ha i hi)))
  have hlen₁ := length_siblings (hindices 1)
  have hleaf₀ : ∀ p p' : InclusionPath α, ∀ a < n, p.deref t first (.firstLevel (start + a)) =
      p'.deref { t with pathBuf := b } first' (.firstLevel (start + a)) :=
    fun p p' a ha => hfirst _ (hb0 a ha)
  have hlevel₀ : ∀ p p' : InclusionPath α,
      ∀ ptr ∈ pathHashes n (indices.getD 0 0) (fun a => .firstLevel (start + a)),
        p.deref t first ptr = p'.deref { t with pathBuf := b } first' ptr := by
    intro p p' ptr hptr
    obtain ⟨a, ha, rfl⟩ := List.mem_map.mp hptr
    exact hleaf₀ p p' a (List.mem_range.mp (List.mem_of_mem_filter ha))
  by_cases hlev : t.levels = 2
  · simp only [if_pos hlev, true_and]
    constructor
    · rfl
    · simp only [hagree₁.1]
    · rintro _ ⟨⟩
      exact hleaf₀ _ _ _ (hindices 0)
    · intro e he
      simp only [List.mem_cons, List.not_mem_nil, or_false] at he
      rcases he with rfl | rfl
      · exact hlevel₀ _ _
      · exact hr₁.deref_same hagree₁.2 _ first first'
  · simp only [if_neg hlev, true_and]
    have hdisc : 2 ≤ t.discardRows := by omega
    -- the third level, rebuilt after the hashes of the second
    set skip := Nat.ldiff start (n * n - 1) >>> Nat.log2 (n * n)
    have hr₂ := rebuilt_foldl ((List.range n).filter (· ≠ skip)) (n - 1)
      (fun ao => hash (MerkleTree.group n (fun ai =>
        hash (MerkleTree.group n first (ao * n * n + ai * n))) 0)) r₁.1
    have hr₂' := rebuilt_foldl ((List.range n).filter (· ≠ skip)) (n - 1)
      (fun ao => hash (MerkleTree.group n (fun ai =>
        hash (MerkleTree.group n first' (ao * n * n + ai * n))) 0)) r₁'.1
    rw [← hashSiblings] at hr₂ hr₂'
    generalize hashSiblings n skip (n - 1) _ r₁.1 = r₂ at hr₂ ⊢
    generalize hashSiblings n skip (n - 1) _ r₁'.1 = r₂' at hr₂' ⊢
    have hagree₂ := hr₂.agree hr₂' (by
      intro ao ha
      have ha : ao < n := List.mem_range.mp (List.mem_of_mem_filter ha)
      refine congrArg hash (MerkleTree.group_congr fun ai hai => congrArg hash ?_)
      refine MerkleTree.group_congr fun i hi => hfirst _ ?_
      rw [Nat.zero_add]
      calc ao * n * n + ai * n + i < n ^ 3 := digits_lt ha hai hi
        _ ≤ n ^ (t.discardRows + 1) := Nat.pow_le_pow_right (Nat.zero_lt_of_lt ha) (by omega))
    have hframe : ∀ i < ((List.range n).filter (· ≠ indices.getD 1 0)).length,
        r₂.1 (0 + i) = r₂'.1 (0 + i) := by
      intro i hi
      rw [hr₂.frame _ (by omega), hr₂'.frame _ (by omega)]
      exact hagree₁.2 i hi
    constructor
    · rfl
    · simp only [hagree₁.1, hagree₂.1]
    · rintro _ ⟨⟩
      exact hleaf₀ _ _ _ (hindices 0)
    · intro e he
      simp only [List.mem_cons, List.not_mem_nil, or_false] at he
      rcases he with rfl | rfl | rfl
      · exact hlevel₀ _ _
      · exact hr₁.deref_same hframe _ first first'
      · exact hr₂.deref_same hagree₂.2 _ first first'

/-- Reading the tree files after the first levels. -/
lemma SamePath.readTreeBufs {first first' b : ℕ → α} {p p' : InclusionPath α}
    (h : SamePath t { t with pathBuf := b } first first' p p') (discarded : Bool)
    (startingLevel : ℕ) :
    SamePath t { t with pathBuf := b } first first' (t.readTreeBufs c discarded startingLevel p)
      ({ t with pathBuf := b }.readTreeBufs c discarded startingLevel p') := by
  have hp' : p' = { p with pathBuf := p'.pathBuf } := by
    rw [InclusionPath.mk.injEq]
    exact ⟨h.leaf.symm, h.path.symm, rfl⟩
  have hread : { t with pathBuf := b }.readTreeBufs c discarded startingLevel p' =
      { t.readTreeBufs c discarded startingLevel p with pathBuf := p'.pathBuf } := by
    rw [← readTreeBufs_pathBuf, ← hp']
    rfl
  have hbuf : (t.readTreeBufs c discarded startingLevel p).pathBuf = p.pathBuf :=
    (congrArg InclusionPath.pathBuf (readTreeBufs_pathBuf (t := t) discarded startingLevel p p.pathBuf) :)
  have hfiles := readTreeBufs_readsFiles (t := t) (c := c) discarded startingLevel p
  -- pointers of the first levels point where they did
  have hderef : ∀ ptr, p.deref t first ptr = p'.deref { t with pathBuf := b } first' ptr →
      (t.readTreeBufs c discarded startingLevel p).deref t first ptr =
        ({ t with pathBuf := b }.readTreeBufs c discarded startingLevel p').deref { t with pathBuf := b }
          first' ptr := by
    intro ptr hptr
    rw [hread]
    cases ptr with
    | treeBuf buf idx => rfl
    | firstLevel idx => exact hptr
    | pathBuf idx => exact (congrFun hbuf idx).trans hptr
  constructor
  · rw [hread]
  · rw [hread]
  · intro ptr hptr
    rcases hfiles.leaf with hleaf | ⟨buf, idx, hleaf⟩
    · exact hderef ptr (h.deref_leaf ptr (hleaf.symm.trans hptr))
    · rw [hleaf, Option.some.injEq] at hptr
      subst hptr
      exact hderef _ rfl
  · intro e he ptr hptr
    rcases hfiles.elements e he with he | ⟨-, he⟩
    · exact hderef ptr (h.deref_path e he ptr hptr)
    · obtain ⟨buf, idx, rfl⟩ := he ptr hptr
      exact hderef _ rfl

lemma SamePath.data_eq {hash : List Node → Node} {t : TreeProof Node} {b : ℕ → Node} {root : Node}
    {first first' : Option (ℕ → Node)}
    (h : SamePath t { t with pathBuf := b } (first.getD fun _ => root) (first'.getD fun _ => root)
      (t.genInclusionPath hash c first) ({ t with pathBuf := b }.genInclusionPath hash c first')) :
    t.data hash root c first = { t with pathBuf := b }.data hash root c first' := by
  simp only [data, TreeProofData.mk.injEq, true_and]
  constructor
  · rw [← h.leaf]
    exact Option.map_congr h.deref_leaf
  · rw [← h.path]
    refine List.map_congr_left fun e he => congrArg _ ?_
    exact List.map_congr_left (h.deref_path e he)

/-- The data of a tree proof that rebuilds discarded rows does not depend on fresh memory. -/
lemma data_same {hash : List Node → Node} {t : TreeProof Node} {g : ℕ} (harity : t.arity = 2 ^ g)
    (root : Node) (b : ℕ → Node) {first first' : ℕ → Node}
    (hfirst : ∀ k < t.arity ^ (t.discardRows + 1), first k = first' k)
    (hcover : t.levels = 2 ∧ 1 ≤ t.discardRows ∨ 2 ≤ t.discardRows) :
    t.data hash root c (some first) = { t with pathBuf := b }.data hash root c (some first') := by
  refine SamePath.data_eq ?_
  obtain ⟨hdone, hsame⟩ :
      (t.performFirstLevels hash c first (getTreePaths t.arity t.levels c)).1 = _ ∧ _ :=
    performFirstLevels_same harity b hfirst hcover (getTreePaths t.arity t.levels c)
      (fun l => getTreePaths_getD_lt (harity ▸ Nat.two_pow_pos g) t.levels c l)
  simp only [genInclusionPath, ← hdone]
  split_ifs
  · exact hsame
  · exact hsame.readTreeBufs true 3

/-- Without discarded rows all pointers are into the tree files. -/
lemma data_same_none {hash : List Node → Node} {t : TreeProof Node} (root : Node) (b : ℕ → Node) :
    t.data hash root c none = { t with pathBuf := b }.data hash root c none := by
  have hempty : SamePath t { t with pathBuf := b } (fun _ => root) (fun _ => root)
      ⟨none, [], t.pathBuf⟩ ⟨none, [], b⟩ :=
    ⟨rfl, rfl, fun _ h => (nomatch h), fun _ h => absurd h List.not_mem_nil⟩
  exact SamePath.data_eq (hempty.readTreeBufs false 0)

/-- Paths of trees without discarded rows have all their levels. -/
lemma data_complete_none {hash : List Node → Node} {t : TreeProof Node} (root : Node)
    (hlevels : 0 < if t.treeBufsLen = 1 then t.levels else t.levels - 1) :
    (t.data hash root c none).Complete := by
  have hfiles := readTreeBufs_readsFiles (t := t) (c := c) false 0 ⟨none, [], t.pathBuf⟩
  constructor
  · simp only [data, Option.isSome_map]
    exact readTreeBufs_leaf hlevels _
  · simp only [data, List.length_map]
    refine le_trans ?_ hfiles.length.ge
    rw [fileLevels]
    split_ifs
    · simp
    · simp only [List.length_nil]
      omega
  · intro e he
    obtain ⟨e', he', rfl⟩ := List.mem_map.mp he
    rw [List.length_map]
    rcases hfiles.elements e' he' with hmem | ⟨hlen, -⟩
    · exact absurd hmem List.not_mem_nil
    · exact hlen

lemma length_hashSiblings (arity skip base : ℕ) (value pathBuf : ℕ → α) :
    arity - 1 ≤ (hashSiblings arity skip base value pathBuf).2.length := by
  rw [hashSiblings, (rebuilt_foldl _ base value pathBuf).ptrs, List.length_map, List.length_range]
  exact le_length_siblings arity skip

/-- The first levels are complete: two or three of them. -/
lemma performFirstLevels_complete (first : ℕ → α) (indices : List ℕ) :
    (t.performFirstLevels hash c first indices).2.leaf.isSome ∧
    ((t.performFirstLevels hash c first indices).1 = true →
      t.levels ≤ (t.performFirstLevels hash c first indices).2.path.length) ∧
    ((t.performFirstLevels hash c first indices).1 = false →
      3 ≤ (t.performFirstLevels hash c first indices).2.path.length) ∧
    ∀ e ∈ (t.performFirstLevels hash c first indices).2.path, t.arity - 1 ≤ e.hashes.length := by
  have hlevel₀ : ∀ skip ptr, t.arity - 1 ≤ (pathHashes t.arity skip ptr).length := by
    intro skip ptr
    rw [pathHashes, List.length_map]
    exact le_length_siblings t.arity skip
  simp only [performFirstLevels]
  by_cases hlev : t.levels = 2
  · simp only [if_pos hlev]
    refine ⟨rfl, fun _ => hlev.le, fun h => absurd h (by decide), ?_⟩
    intro e he
    simp only [List.mem_cons, List.not_mem_nil, or_false] at he
    rcases he with rfl | rfl
    · exact hlevel₀ _ _
    · exact length_hashSiblings _ _ _ _ _
  · simp only [if_neg hlev]
    refine ⟨rfl, fun h => (beq_iff_eq.mp h).le, fun _ => le_rfl, ?_⟩
    intro e he
    simp only [List.mem_cons, List.not_mem_nil, or_false] at he
    rcases he with rfl | rfl | rfl
    · exact hlevel₀ _ _
    · exact length_hashSiblings _ _ _ _ _
    · exact length_hashSiblings _ _ _ _ _

/-- Paths of trees with discarded rows have all their levels. -/
lemma data_complete_some {hash : List Node → Node} {t : TreeProof Node} (root : Node)
    (hlevels : 2 ≤ t.levels) (first : ℕ → Node) : (t.data hash root c (some first)).Complete := by
  obtain ⟨hleaf, hdone, hrest, hhashes⟩ :
      (t.performFirstLevels hash c first (getTreePaths t.arity t.levels c)).2.leaf.isSome ∧ _ :=
    performFirstLevels_complete first (getTreePaths t.arity t.levels c)
  have hpath : (t.genInclusionPath hash c (some first)).leaf.isSome ∧
      t.levels ≤ (t.genInclusionPath hash c (some first)).path.length ∧
      ∀ e ∈ (t.genInclusionPath hash c (some first)).path, t.arity - 1 ≤ e.hashes.length := by
    simp only [genInclusionPath]
    split_ifs with h
    · exact ⟨hleaf, hdone h, hhashes⟩
    · have hfiles := readTreeBufs_readsFiles (t := t) (c := c) true 3
        (t.performFirstLevels hash c first (getTreePaths t.arity t.levels c)).2
      refine ⟨?_, ?_, ?_⟩
      · rcases hfiles.leaf with hl | ⟨b, i, hl⟩
        · rw [hl]
          exact hleaf
        · rw [hl]
          rfl
      · have hthree := hrest (Bool.eq_false_of_not_eq_true h)
        rw [hfiles.length, fileLevels]
        split_ifs <;> omega
      · intro e he
        rcases hfiles.elements e he with he | ⟨he, -⟩
        · exact hhashes e he
        · exact he
  constructor
  · simp only [data, Option.isSome_map]
    exact hpath.1
  · simp only [data, List.length_map]
    exact hpath.2.1
  · intro e he
    obtain ⟨e', he', rfl⟩ := List.mem_map.mp he
    rw [List.length_map]
    exact hpath.2.2 e' he'

end TreeProof

/-! ### The sections of a challenge -/

namespace C1

variable (c1 : C1 cfg) (heap : Heap) (challenge : ℕ)

lemma treeCProof_complete : (c1.treeCProof heap challenge).Complete := by
  refine TreeProof.data_complete_none _ ?_
  have := cfg.two_le_treeRCLevels
  dsimp only
  split_ifs <;> omega

lemma treeDProof_complete : ∃ treeD, c1.treeDProof heap challenge = some treeD ∧ treeD.Complete ∧
    treeD.arity = treeDArity ∧ treeD.levels = cfg.treeDLevels := by
  rw [treeDProof]
  cases hbuf : c1.treeDBuf with
  | none =>
    refine ⟨_, if_pos (c1.cc_levels hbuf), ⟨rfl, ?_, ?_⟩, rfl, rfl⟩
    · simp
    · intro e he
      obtain ⟨l, -, rfl⟩ := List.mem_map.mp he
      exact le_rfl
  | some treeDBuf =>
    exact ⟨_, rfl, TreeProof.data_complete_none _ cfg.treeDLevels_pos, rfl, rfl⟩

lemma treeRProof_complete : (c1.treeRProof heap challenge).Complete :=
  TreeProof.data_complete_some _ cfg.two_le_treeRCLevels _

/-- `WriteTreeProof` writes as many bytes as `ProofSize` counts. -/
lemma writeTreeProof_sized : Sized (c1.writeTreeProof heap challenge) cfg.treeProofSize := by
  obtain ⟨treeD, htreeD, hD, harity, hlevels⟩ := c1.treeDProof_complete heap challenge
  obtain ⟨dBytes, hdBytes, hdLen⟩ := hD.writeProof_sized (hlevels ▸ cfg.treeDLevels_pos)
    (show singleProofData ≤ 1 by decide)
  obtain ⟨rBytes, hrBytes, hrLen⟩ := (c1.treeRProof_complete heap challenge).writeProof_sized
    (Nat.zero_lt_of_lt cfg.two_le_treeRCLevels) cfg.treeRCConfig_le
  refine ⟨dBytes ++ rBytes, ?_, ?_⟩
  · simp [writeTreeProof, htreeD, hdBytes, hrBytes]
  · rw [List.length_append, hdLen, hrLen, harity, hlevels]
    rfl

lemma writeColumnProof_sized (labels : ℕ → Node) (labelIdx labelInc : ℕ) :
    Sized (c1.writeColumnProof heap challenge labels labelIdx labelInc) cfg.columnProofSize := by
  obtain ⟨bytes, hbytes, hlen⟩ := (c1.treeCProof_complete heap challenge).writeProof_sized
    (Nat.zero_lt_of_lt cfg.two_le_treeRCLevels) cfg.treeRCConfig_le
  refine ⟨_, by simp only [writeColumnProof, hbytes]; rfl, ?_⟩
  simp only [List.length_append, length_u32, length_u64, length_nodeBytes, List.length_map,
    List.length_range, hlen, C1Config.columnProofSize, Nat.mul_comm nodeSize]
  rfl

/-- The column proofs of `n` parents. -/
lemma columnProofs_sized (n : ℕ) (node : ℕ → ℕ) (labels : ℕ → Node) (labelIdx : ℕ → ℕ)
    (labelInc : ℕ) :
    Sized (concat ((List.range n).map fun k =>
      c1.writeColumnProof heap (node k) labels (labelIdx k) labelInc)) (n * cfg.columnProofSize) := by
  have hall : ∀ s ∈ (List.range n).map fun k =>
      c1.writeColumnProof heap (node k) labels (labelIdx k) labelInc,
      Sized s cfg.columnProofSize := by
    intro s hs
    obtain ⟨k, -, rfl⟩ := List.mem_map.mp hs
    exact c1.writeColumnProof_sized heap (node k) labels (labelIdx k) labelInc
  have hsized := Sized.concat hall
  rwa [List.length_map, List.length_range] at hsized

/-- `WriteNodeProof` writes as many bytes as `ProofSize` counts. -/
lemma writeNodeProof_sized : Sized (c1.writeNodeProof heap challenge) cfg.nodeProofSize := by
  simp only [writeNodeProof]
  generalize c1.reader (challengeNodes cfg.numLayers challenge (getParents c1.parentsBuf challenge)) =
    nodes
  obtain ⟨column, hcolumn, hcol⟩ := c1.writeColumnProof_sized heap challenge nodes 0 (parentCount + 1)
  obtain ⟨drg, hdrg, hdrgLen⟩ := c1.columnProofs_sized heap parentCountBase
    (getParents c1.parentsBuf challenge).drgParents nodes (fun k => k + 1) (parentCount + 1)
  obtain ⟨exp, hexp, hexpLen⟩ := c1.columnProofs_sized heap parentCountExp
    (getParents c1.parentsBuf challenge).expParents nodes (fun k => k + 1 + parentCountBase)
    (parentCount + 1)
  refine ⟨_, by simp only [hcolumn, hdrg, hexp]; rfl, ?_⟩
  have hlabel : ∀ enc, (LabelProof.writeProof ⟨challenge, cfg.numLayers, nodes, parentCount + 1⟩
      enc).length = LabelProof.proofSize cfg.numLayers enc :=
    fun enc => LabelProof.length_writeProof _ cfg.numLayers_pos enc
  simp only [List.length_append, length_u64, hcol, hdrgLen, hexpLen, hlabel,
    C1Config.nodeProofSize]
  ring

/-- `WriteNodeProof` does not depend on fresh memory. -/
lemma writeNodeProof_heap (heap' : Heap) :
    c1.writeNodeProof heap challenge = c1.writeNodeProof heap' challenge := by
  have htree : ∀ node, c1.treeCProof heap node = c1.treeCProof heap' node :=
    fun node => TreeProof.data_same_none _ _
  simp only [writeNodeProof, writeColumnProof, htree]

/-- `WriteTreeProof` does not depend on fresh memory when the first levels read only nodes of the
replica. -/
lemma writeTreeProof_heap (hcover : cfg.FirstLevelsCovered) (heap' : Heap) :
    c1.writeTreeProof heap challenge = c1.writeTreeProof heap' challenge := by
  have hD : c1.treeDProof heap challenge = c1.treeDProof heap' challenge := by
    rw [treeDProof, treeDProof]
    cases c1.treeDBuf with
    | none => rfl
    | some treeDBuf => exact congrArg some (TreeProof.data_same_none _ _)
  have hR : c1.treeRProof heap challenge = c1.treeRProof heap' challenge := by
    refine TreeProof.data_same (g := 3) rfl _ _ ?_ hcover
    intro k hk
    have hk : k < cfg.treeRLabels := hk
    rw [TreeProof.getTreeRNodes_apply _ _ _ hk, TreeProof.getTreeRNodes_apply _ _ _ hk]
  rw [writeTreeProof, writeTreeProof, hD, hR]

end C1

/-! ### Files -/

/-- The partitions of a file with section `f k` for challenge `k`. -/
def C1Config.partitions (cfg : C1Config) (f : ℕ → List Byte) : List Byte :=
  (List.range cfg.numPartitions).flatMap fun i => u64 cfg.challengesCount ++
    (List.range cfg.challengesCount).flatMap fun j => f (j + i * cfg.challengesCount)

lemma C1Config.length_partitions {f : ℕ → List Byte} {n : ℕ} (hf : ∀ k, (f k).length = n) :
    (cfg.partitions f).length = cfg.numPartitions * 8 + n * cfg.numChallenges := by
  have hpart : ∀ i, (u64 cfg.challengesCount ++ (List.range cfg.challengesCount).flatMap fun j =>
      f (j + i * cfg.challengesCount)).length = 8 + cfg.challengesCount * n := by
    intro i
    rw [List.length_append, length_u64, length_flatMap_const (fun j => hf _), List.length_range]
  have hcount : cfg.numPartitions * cfg.challengesCount = cfg.numChallenges :=
    Nat.mul_div_cancel' cfg.partitions_dvd
  rw [partitions, length_flatMap_const hpart, List.length_range, Nat.mul_add, ← Nat.mul_assoc, hcount,
    Nat.mul_comm n]

/-- The file that `WriteProofs` writes. -/
lemma C1.writeProofs_eq (c1 : C1 cfg) {heap : ℕ → Heap} {doTree doNode : Bool}
    {f : ℕ → List Byte} {n : ℕ} (hf : ∀ k, (f k).length = n)
    (hwrite : ∀ k, c1.writeChallenge (heap k) doTree doNode (c1.challenges k) = some (f k))
    (hn : n * cfg.numChallenges =
      (if doTree then cfg.treeProofSize * cfg.numChallenges else 0) +
        if doNode then cfg.nodeProofSize * cfg.numChallenges else 0) :
    c1.writeProofs heap doTree doNode = some (u64 cfg.numPartitions ++ cfg.partitions f ++
      (if doTree then c1.commR.bytes ++ c1.commD.bytes else []) ++
      if doNode then c1.replicaId.bytes ++ c1.seed.bytes ++ c1.ticket.bytes else []) := by
  have hparts : concat ((List.range cfg.numPartitions).map fun i => do
      return u64 cfg.challengesCount ++ (← concat ((List.range cfg.challengesCount).map fun j =>
        let k := j + i * cfg.challengesCount
        c1.writeChallenge (heap k) doTree doNode (c1.challenges k)))) =
      some (cfg.partitions f) := by
    simp only [hwrite, concat_map_some, Option.bind_eq_bind, Option.bind_some, Option.pure_def,
      C1Config.partitions]
  rw [writeProofs, hparts]
  refine if_pos ?_
  rw [C1Config.proofSize]
  simp only [List.length_append, length_u64, C1Config.length_partitions hf, hn]
  cases doTree <;> cases doNode <;>
    simp only [if_true, Bool.false_eq_true, if_false, List.length_append, List.length_nil,
      Node.length_bytes] <;> ring

lemma mmapWrite_eq {file : List Byte} {size : ℕ} (h : file.length = size) :
    mmapWrite file size = file := by
  rw [mmapWrite, h, Nat.sub_self, List.replicate_zero, List.append_nil, ← h, List.take_length]

/-! ### Combining -/

namespace CombineState

variable {treePtr nodePtr s restT restN : List Byte} {n : ℕ} {st : CombineState}

/-- Both cursors are at known places. -/
structure At (treePtr nodePtr restT restN : List Byte) (st : CombineState) : Prop where
  tree : Ahead treePtr st.treeBufIndex restT
  node : Ahead nodePtr st.nodeBufIndex restN

lemma copyTree_eq (h : At treePtr nodePtr (s ++ restT) restN st) (hn : s.length = n) :
    ∃ st', st.copyTree treePtr n = some st' ∧ st'.file = st.file ++ s ∧
      At treePtr nodePtr restT restN st' := by
  refine ⟨⟨st.file ++ s, st.treeBufIndex + n, st.nodeBufIndex⟩, ?_, rfl, h.tree.skip hn, h.node⟩
  rw [copyTree, h.tree.slice hn]
  rfl

lemma copyNode_eq (h : At treePtr nodePtr restT (s ++ restN) st) (hn : s.length = n) :
    ∃ st', st.copyNode nodePtr n = some st' ∧ st'.file = st.file ++ s ∧
      At treePtr nodePtr restT restN st' := by
  refine ⟨⟨st.file ++ s, st.treeBufIndex, st.nodeBufIndex + n⟩, ?_, rfl, h.tree, h.node.skip hn⟩
  rw [copyNode, h.node.slice hn]
  rfl

lemma length_eq {x : ℕ} (h : At treePtr nodePtr (u64 x ++ restT) (u64 x ++ restN) st) :
    At treePtr nodePtr restT restN (st.length x) :=
  ⟨h.tree.skip (length_u64 x), h.node.skip (length_u64 x)⟩

section Sections

variable {tree node : ℕ → List Byte} (htree : ∀ k, (tree k).length = cfg.treeProofSize)
  (hnode : ∀ k, (node k).length = cfg.nodeProofSize)
include htree hnode

/-- The proofs of the challenges of a partition. -/
lemma challenges_eq (ks : List ℕ) (f : ℕ → ℕ)
    (h : At treePtr nodePtr (ks.flatMap (fun k => tree (f k)) ++ restT)
      (ks.flatMap (fun k => node (f k)) ++ restN) st) :
    ∃ st', ks.foldlM (fun st _ => st.challenge treePtr nodePtr cfg) st = some st' ∧
      st'.file = st.file ++ ks.flatMap (fun k => tree (f k) ++ node (f k)) ∧
      At treePtr nodePtr restT restN st' := by
  induction ks generalizing st with
  | nil => exact ⟨st, rfl, by simp, h⟩
  | cons k ks ih =>
    rw [List.flatMap_cons, List.flatMap_cons, List.append_assoc, List.append_assoc] at h
    obtain ⟨st₁, hst₁, hfile₁, h₁⟩ := copyTree_eq h (htree (f k))
    obtain ⟨st₂, hst₂, hfile₂, h₂⟩ := copyNode_eq h₁ (hnode (f k))
    obtain ⟨st₃, hst₃, hfile₃, h₃⟩ := ih h₂
    have hchallenge : st.challenge treePtr nodePtr cfg = some st₂ := by
      rw [challenge, hst₁]
      exact hst₂
    refine ⟨st₃, ?_, ?_, h₃⟩
    · rw [List.foldlM_cons, hchallenge]
      exact hst₃
    · rw [hfile₃, hfile₂, hfile₁, List.flatMap_cons]
      simp only [List.append_assoc]

/-- All partitions. -/
lemma partitions_eq (is : List ℕ)
    (h : At treePtr nodePtr
      (is.flatMap (fun i => u64 cfg.challengesCount ++ (List.range cfg.challengesCount).flatMap fun j =>
        tree (j + i * cfg.challengesCount)) ++ restT)
      (is.flatMap (fun i => u64 cfg.challengesCount ++ (List.range cfg.challengesCount).flatMap fun j =>
        node (j + i * cfg.challengesCount)) ++ restN) st) :
    ∃ st', is.foldlM (fun st _ => st.part treePtr nodePtr cfg) st = some st' ∧
      st'.file = st.file ++ is.flatMap (fun i => u64 cfg.challengesCount ++
        (List.range cfg.challengesCount).flatMap fun j =>
          tree (j + i * cfg.challengesCount) ++ node (j + i * cfg.challengesCount)) ∧
      At treePtr nodePtr restT restN st' := by
  induction is generalizing st with
  | nil => exact ⟨st, rfl, by simp, h⟩
  | cons i is ih =>
    rw [List.flatMap_cons, List.flatMap_cons] at h
    simp only [List.append_assoc] at h
    obtain ⟨st₁, hst₁, hfile₁, h₁⟩ := challenges_eq htree hnode (List.range cfg.challengesCount)
      (fun j => j + i * cfg.challengesCount) (length_eq h)
    obtain ⟨st₂, hst₂, hfile₂, h₂⟩ := ih (by simpa only [List.append_assoc] using h₁)
    refine ⟨st₂, ?_, ?_, h₂⟩
    · rw [List.foldlM_cons, part, hst₁]
      exact hst₂
    · rw [hfile₂, hfile₁, List.flatMap_cons, length]
      simp only [List.append_assoc]

end Sections

end CombineState

open CombineState in
/-- `CombineProofs` on files of tree proofs and node proofs. -/
lemma combineProofs_eq (c1 : C1 cfg) {tree node : ℕ → List Byte}
    (htree : ∀ k, (tree k).length = cfg.treeProofSize)
    (hnode : ∀ k, (node k).length = cfg.nodeProofSize) :
    combineProofs cfg
      (u64 cfg.numPartitions ++ cfg.partitions tree ++ (c1.commR.bytes ++ c1.commD.bytes))
      (u64 cfg.numPartitions ++ cfg.partitions node ++
        (c1.replicaId.bytes ++ c1.seed.bytes ++ c1.ticket.bytes)) =
      some (u64 cfg.numPartitions ++ cfg.partitions (fun k => tree k ++ node k) ++
        (c1.commR.bytes ++ c1.commD.bytes) ++
        (c1.replicaId.bytes ++ c1.seed.bytes ++ c1.ticket.bytes)) := by
  have hboth : ∀ k, (tree k ++ node k).length = cfg.treeProofSize + cfg.nodeProofSize := by
    intro k
    rw [List.length_append, htree, hnode]
  set treePtr := u64 cfg.numPartitions ++ cfg.partitions tree ++
    (c1.commR.bytes ++ c1.commD.bytes) with htreePtr
  set nodePtr := u64 cfg.numPartitions ++ cfg.partitions node ++
    (c1.replicaId.bytes ++ c1.seed.bytes ++ c1.ticket.bytes) with hnodePtr
  have htreeLen : treePtr.length = cfg.proofSize true false := by
    simp only [htreePtr, List.length_append, length_u64, C1Config.length_partitions htree,
      Node.length_bytes, C1Config.proofSize, if_true, Bool.false_eq_true, if_false]
    ring
  have hstart : At treePtr nodePtr treePtr nodePtr ⟨[], 0, 0⟩ :=
    ⟨Ahead.start _, Ahead.start _⟩
  conv at hstart =>
    arg 3
    rw [htreePtr, List.append_assoc]
  conv at hstart =>
    arg 4
    rw [hnodePtr, List.append_assoc]
  obtain ⟨st₁, hst₁, hfile₁, h₁⟩ := partitions_eq htree hnode _ (length_eq hstart)
  obtain ⟨st₂, hst₂, hfile₂, h₂⟩ := copyTree_eq h₁ c1.commR.length_bytes
  rw [← List.append_nil c1.commD.bytes] at h₂
  obtain ⟨st₃, hst₃, hfile₃, h₃⟩ := copyTree_eq h₂ c1.commD.length_bytes
  rw [List.append_assoc] at h₃
  obtain ⟨st₄, hst₄, hfile₄, h₄⟩ := copyNode_eq h₃ c1.replicaId.length_bytes
  obtain ⟨st₅, hst₅, hfile₅, h₅⟩ := copyNode_eq h₄ c1.seed.length_bytes
  rw [← List.append_nil c1.ticket.bytes] at h₅
  obtain ⟨st₆, hst₆, hfile₆, h₆⟩ := copyNode_eq h₅ c1.ticket.length_bytes
  have hfile : st₆.file = u64 cfg.numPartitions ++ cfg.partitions (fun k => tree k ++ node k) ++
      (c1.commR.bytes ++ c1.commD.bytes) ++
      (c1.replicaId.bytes ++ c1.seed.bytes ++ c1.ticket.bytes) := by
    rw [hfile₆, hfile₅, hfile₄, hfile₃, hfile₂, hfile₁, CombineState.length, C1Config.partitions]
    simp only [List.nil_append, List.append_assoc]
  have hsize : st₆.file.length = cfg.proofSize true true := by
    rw [hfile]
    simp only [List.length_append, length_u64, C1Config.length_partitions hboth,
      Node.length_bytes, C1Config.proofSize, if_true]
    ring
  rw [combineProofs, mmapWrite_eq htreeLen]
  simp only [Option.bind_eq_bind, hst₁, hst₂, hst₃, hst₄, hst₅, hst₆, Option.bind_some]
  rw [if_pos ⟨hsize, h₆.tree.eof.trans htreeLen, h₆.node.eof⟩, hfile]

/-- Combining the file of the tree proofs with the file of the node proofs gives the file of all
proofs, for all parameters and all inputs. Every run succeeds, with all size assertions. The runs may
find different bytes in fresh memory, as long as no path depends on them. -/
theorem combineProofs_writeProofs (cfg : C1Config) (c1 : C1 cfg) (heap treeHeap nodeHeap : ℕ → Heap)
    (hheap : cfg.FirstLevelsCovered ∨ treeHeap = heap) :
    ∃ tree node full, c1.writeProofs treeHeap true false = some tree ∧
      c1.writeProofs nodeHeap false true = some node ∧ c1.writeProofs heap true true = some full ∧
      combineProofs cfg tree node = some full := by
  choose tree htree htreeLen using fun k => c1.writeTreeProof_sized (heap k) (c1.challenges k)
  choose node hnode hnodeLen using fun k => c1.writeNodeProof_sized (heap k) (c1.challenges k)
  have htree' : ∀ k, c1.writeTreeProof (treeHeap k) (c1.challenges k) = some (tree k) := by
    intro k
    rcases hheap with hcover | rfl
    · rw [← htree k]
      exact c1.writeTreeProof_heap _ _ hcover _
    · exact htree k
  have hnode' : ∀ k, c1.writeNodeProof (nodeHeap k) (c1.challenges k) = some (node k) :=
    fun k => (c1.writeNodeProof_heap _ _ _).trans (hnode k)
  have hboth : ∀ k, c1.writeChallenge (heap k) true true (c1.challenges k) =
      some (tree k ++ node k) := by
    intro k
    show c1.writeProof (heap k) (c1.challenges k) = _
    rw [C1.writeProof, htree k, hnode k]
    rfl
  have hbothLen : ∀ k, (tree k ++ node k).length = cfg.treeProofSize + cfg.nodeProofSize := by
    intro k
    rw [List.length_append, htreeLen, hnodeLen]
  refine ⟨_, _, _, c1.writeProofs_eq htreeLen htree' rfl, c1.writeProofs_eq hnodeLen hnode' ?_,
    c1.writeProofs_eq hbothLen hboth ?_, ?_⟩
  · rw [if_neg (by decide), if_pos rfl, Nat.zero_add]
  · rw [if_pos rfl, if_pos rfl, Nat.add_mul]
  · have h := combineProofs_eq c1 htreeLen hnodeLen
    simpa only [if_true, Bool.false_eq_true, if_false, List.append_nil] using h

/-- A sector of 2KiB, without a file of tree D: two layers, one partition of two challenges. -/
theorem combineProofs_writeProofs_twoKiB :
    let cfg : C1Config := ⟨2, 1, 2, 6, 2, 0, 1, 1, by decide, by decide, by decide, by decide,
      by decide, by decide⟩
    let n (x : ℕ) : Node := ⟨fun _ => BitVec.ofNat 32 x⟩
    let c1 : C1 cfg := ⟨fun ns => ns.headD (n 0), n, fun k => k + 1, fun k => k % 64,
      fun nodes i => n (nodes.getD i (0, 0)).2, n, fun _ => n, fun _ => n, none, n 0, n 1, n 2, n 3,
      n 4, n 5, n 6, fun _ => by decide⟩
    ∃ tree node full, c1.writeProofs (fun _ => ⟨n, n⟩) true false = some tree ∧
      c1.writeProofs (fun k => ⟨fun _ => n k, n⟩) false true = some node ∧
      c1.writeProofs (fun k => ⟨n, fun _ => n k⟩) true true = some full ∧
      combineProofs cfg tree node = some full := by
  intro cfg n c1
  exact combineProofs_writeProofs cfg c1 _ _ _ (.inl (.inl ⟨rfl, le_rfl⟩))

end SupraSeal
