import SupraSeal.C1.VanillaProofs
import SupraSeal.Lib.Cursor

/-!
# The sizes of the output of C1

The writers of C1 as they move `buf_index` through the mapped file, for any shape of the trees: the
sizes that `ProofSize` adds up are what the writers advance by, so they fill the file exactly.
-/

namespace SupraSeal

open Cursor

/-- The sector parameters that sizes depend on. -/
structure ProofShape where
  numLayers : ℕ
  numPartitions : ℕ
  numChallenges : ℕ
  treeDArity : ℕ
  treeDLevels : ℕ
  treeRCArity : ℕ
  treeRCLevels : ℕ
  treeRCConfig : ℕ
  numLayers_pos : 0 < numLayers
  partitions_dvd : numPartitions ∣ numChallenges
  treeDLevels_pos : 0 < treeDLevels
  treeRCLevels_pos : 0 < treeRCLevels
  treeRCConfig_le : treeRCConfig ≤ 1

def C1Config.shape (cfg : C1Config) : ProofShape where
  numLayers := cfg.numLayers
  numPartitions := cfg.numPartitions
  numChallenges := cfg.numChallenges
  treeDArity := treeDArity
  treeDLevels := cfg.treeDLevels
  treeRCArity := treeRCArity
  treeRCLevels := cfg.treeRCLevels
  treeRCConfig := cfg.treeRCConfig
  numLayers_pos := cfg.numLayers_pos
  partitions_dvd := cfg.partitions_dvd
  treeDLevels_pos := cfg.treeDLevels_pos
  treeRCLevels_pos := Nat.zero_lt_of_lt cfg.two_le_treeRCLevels
  treeRCConfig_le := cfg.treeRCConfig_le

/-! ### Writers -/

namespace WriteAt

/-- `PathElement::Write`. -/
def pathElement (arity : ℕ) : Writer :=
  seq [memcpy 8, loop 0 (arity - 1) fun _ => memcpy nodeSize, memcpy 8]

/-- `TreeProof::WriteProof`. -/
def treeProof (arity levels proofType : ℕ) : Writer :=
  seq [memcpy 4,
    if proofType = 0 then
      seq [memcpy nodeSize, memcpy nodeSize, memcpy 8, loop 0 levels fun _ => pathElement arity]
    else if proofType = 1 then
      seq [memcpy 8, loop 0 (levels - 1) fun _ => pathElement arity, memcpy 8, pathElement arity,
        memcpy nodeSize, memcpy nodeSize]
    else seq []]

/-- The parents of layer `l`, from 1 on. -/
def labelParents (l : ℕ) : Writer :=
  if l = 1 then
    seq [loop 0 layerOneRepeatSeq fun _ => loop 0 parentCountBase fun _ => memcpy nodeSize,
      loop 0 layerOneFinalSeq fun _ => memcpy nodeSize]
  else
    seq [loop 0 layerNRepeatSeq fun _ =>
        seq [loop 0 parentCountBase fun _ => memcpy nodeSize,
          loop 0 parentCountExp fun _ => memcpy nodeSize],
      loop 0 layerNFinalSeq fun _ => memcpy nodeSize]

/-- `LabelProof::WriteProof`. -/
def labelProof (layers : ℕ) (enc : Bool) : Writer :=
  let l := if enc then layers else 1
  seq [if enc then seq [] else memcpy 8,
    loop l (layers + 1 - l) fun l => seq [memcpy 8, labelParents l, memcpy 4, memcpy 8]]

end WriteAt

namespace ProofShape

variable (s : ProofShape)

/-- `challenges_count_`. -/
def challengesCount : ℕ := s.numChallenges / s.numPartitions

/-- `ColumnProof::ProofSize`. -/
def columnProofSize : ℕ :=
  4 + 8 + nodeSize * s.numLayers + TreeProof.proofSize s.treeRCArity s.treeRCLevels s.treeRCConfig

def treeProofSize : ℕ :=
  TreeProof.proofSize s.treeDArity s.treeDLevels singleProofData +
    TreeProof.proofSize s.treeRCArity s.treeRCLevels s.treeRCConfig

def nodeProofSize : ℕ :=
  LabelProof.proofSize s.numLayers false + LabelProof.proofSize s.numLayers true +
    ((1 + parentCountBase + parentCountExp) * s.columnProofSize + 2 * 8)

/-- `C1::ProofSize`. -/
def proofSize (doTree doNode : Bool) : ℕ :=
  s.numPartitions * 8 + 8 +
    (if doTree then s.treeProofSize * s.numChallenges + 2 * nodeSize else 0) +
    if doNode then s.nodeProofSize * s.numChallenges + 3 * nodeSize else 0

/-- `ColumnProof::WriteProof`. -/
def writeColumnProof : Writer :=
  seq [memcpy 4, memcpy 8, loop 0 s.numLayers fun _ => memcpy nodeSize,
    WriteAt.treeProof s.treeRCArity s.treeRCLevels s.treeRCConfig]

/-- `C1Challenge::WriteTreeProof`. -/
def writeTreeProof : Writer :=
  seq [WriteAt.treeProof s.treeDArity s.treeDLevels singleProofData,
    WriteAt.treeProof s.treeRCArity s.treeRCLevels s.treeRCConfig]

/-- `C1Challenge::WriteNodeProof`. -/
def writeNodeProof : Writer :=
  seq [s.writeColumnProof, memcpy 8, loop 0 parentCountBase fun _ => s.writeColumnProof, memcpy 8,
    loop 0 parentCountExp fun _ => s.writeColumnProof, WriteAt.labelProof s.numLayers false,
    WriteAt.labelProof s.numLayers true]

/-- What is written for one challenge. -/
def writeChallenge (doTree doNode : Bool) : Writer :=
  if doNode then if doTree then seq [s.writeTreeProof, s.writeNodeProof] else s.writeNodeProof
  else s.writeTreeProof

/-- `C1::WriteProofs`. -/
def writeProofs (doTree doNode : Bool) : Writer :=
  seq [memcpy 8,
    loop 0 s.numPartitions fun _ =>
      seq [memcpy 8, loop 0 s.challengesCount fun _ => s.writeChallenge doTree doNode],
    if doTree then seq [memcpy nodeSize, memcpy nodeSize] else seq [],
    if doNode then seq [memcpy nodeSize, memcpy nodeSize, memcpy nodeSize] else seq []]

end ProofShape

/-! ### Writers advance by their sizes -/

namespace WriteAt

lemma pathElement_advances (arity : ℕ) :
    Advances (pathElement arity) (nodeSize * (arity - 1) + 8 + 8) := by
  have hloop : Advances (loop 0 (arity - 1) fun _ => memcpy nodeSize) ((arity - 1) * nodeSize) :=
    .loop fun _ _ _ => .memcpy nodeSize
  refine ((Advances.memcpy 8).cons (hloop.cons ((Advances.memcpy 8).cons .nil))).of_eq ?_
  ring

/-- For a tree with one level of sub proofs the last element stands apart. -/
lemma treeProof_advances (arity : ℕ) {levels proofType : ℕ} (hlevels : 0 < levels)
    (htype : proofType ≤ 1) :
    Advances (treeProof arity levels proofType) (TreeProof.proofSize arity levels proofType) := by
  have helem := pathElement_advances arity
  have hloop : ∀ n, Advances (loop 0 n fun _ => pathElement arity)
      (n * (nodeSize * (arity - 1) + 8 + 8)) := fun n => .loop fun _ _ _ => helem
  have hnode := Advances.memcpy nodeSize
  have h8 := Advances.memcpy 8
  rcases Nat.le_one_iff_eq_zero_or_eq_one.mp htype with rfl | rfl
  · have hrest := hnode.cons (hnode.cons (h8.cons ((hloop levels).cons .nil)))
    refine ((Advances.memcpy 4).cons (hrest.cons .nil)).of_eq ?_
    rw [TreeProof.proofSize, if_neg (by decide)]
    ring
  · have hrest := h8.cons ((hloop (levels - 1)).cons (h8.cons (helem.cons (hnode.cons
      (hnode.cons .nil)))))
    refine ((Advances.memcpy 4).cons (hrest.cons .nil)).of_eq ?_
    obtain ⟨n, rfl⟩ : ∃ n, levels = n + 1 := ⟨levels - 1, by omega⟩
    rw [TreeProof.proofSize, if_pos rfl, Nat.add_sub_cancel]
    ring

/-- All layers list as many parents. -/
lemma labelParents_advances (l : ℕ) :
    Advances (labelParents l) (SupraSeal.labelParents * nodeSize) := by
  have hloop : ∀ n, Advances (loop 0 n fun _ => memcpy nodeSize) (n * nodeSize) :=
    fun n => .loop fun _ _ _ => .memcpy nodeSize
  rw [labelParents]
  split_ifs
  · have hrepeat : Advances (loop 0 layerOneRepeatSeq fun _ => loop 0 parentCountBase fun _ =>
        memcpy nodeSize) (layerOneRepeatSeq * (parentCountBase * nodeSize)) :=
      .loop fun _ _ _ => hloop parentCountBase
    exact (hrepeat.cons ((hloop layerOneFinalSeq).cons .nil)).of_eq (by decide)
  · have hrepeat : Advances (loop 0 layerNRepeatSeq fun _ =>
        seq [loop 0 parentCountBase fun _ => memcpy nodeSize,
          loop 0 parentCountExp fun _ => memcpy nodeSize])
        (layerNRepeatSeq * (parentCountBase * nodeSize + (parentCountExp * nodeSize + 0))) :=
      .loop fun _ _ _ => (hloop parentCountBase).cons ((hloop parentCountExp).cons .nil)
    exact (hrepeat.cons ((hloop layerNFinalSeq).cons .nil)).of_eq (by decide)

/-- The label proof has all layers, the encoding proof the last one. -/
lemma labelProof_advances {layers : ℕ} (hlayers : 0 < layers) (enc : Bool) :
    Advances (labelProof layers enc) (LabelProof.proofSize layers enc) := by
  have hlayer : ∀ l, Advances (seq [memcpy 8, labelParents l, memcpy 4, memcpy 8])
      (8 + (SupraSeal.labelParents * nodeSize + (4 + (8 + 0)))) := fun l =>
    (Advances.memcpy 8).cons ((labelParents_advances l).cons
      ((Advances.memcpy 4).cons ((Advances.memcpy 8).cons .nil)))
  have hloop : ∀ start n, Advances
      (loop start n fun l => seq [memcpy 8, labelParents l, memcpy 4, memcpy 8])
      (n * (8 + (SupraSeal.labelParents * nodeSize + (4 + (8 + 0))))) := fun start n =>
    .loop fun l _ _ => hlayer l
  obtain ⟨n, rfl⟩ : ∃ n, layers = n + 1 := ⟨layers - 1, by omega⟩
  cases enc with
  | false =>
    refine ((Advances.memcpy 8).cons ((hloop 1 (n + 1 + 1 - 1)).cons .nil)).of_eq ?_
    simp [LabelProof.proofSize, layerOneRepeatSeq, layerOneFinalSeq, layerNRepeatSeq, layerNFinalSeq,
      SupraSeal.labelParents, parentCountBase, parentCountExp, parentCount, nodeSize, nodeSizeLg]
    ring
  | true =>
    refine (Advances.nil.cons ((hloop (n + 1) (n + 1 + 1 - (n + 1))).cons .nil)).of_eq ?_
    rw [Nat.add_sub_cancel_left]
    rcases Nat.eq_zero_or_pos n with rfl | hpos
    · rfl
    · have h1 : 1 < n + 1 := by omega
      simp [LabelProof.proofSize, h1, hpos.ne', layerNRepeatSeq, layerNFinalSeq,
        SupraSeal.labelParents, parentCountBase, parentCountExp, parentCount, nodeSize, nodeSizeLg]

end WriteAt

namespace ProofShape

variable (s : ProofShape)

lemma writeColumnProof_advances : Advances s.writeColumnProof s.columnProofSize := by
  have hlabels : Advances (loop 0 s.numLayers fun _ => memcpy nodeSize) (s.numLayers * nodeSize) :=
    .loop fun _ _ _ => .memcpy nodeSize
  have htree := WriteAt.treeProof_advances s.treeRCArity s.treeRCLevels_pos s.treeRCConfig_le
  refine ((Advances.memcpy 4).cons ((Advances.memcpy 8).cons (hlabels.cons (htree.cons .nil)))).of_eq ?_
  rw [columnProofSize]
  ring

lemma writeTreeProof_advances : Advances s.writeTreeProof s.treeProofSize := by
  have htreeD := WriteAt.treeProof_advances s.treeDArity s.treeDLevels_pos
    (show singleProofData ≤ 1 by decide)
  have htreeR := WriteAt.treeProof_advances s.treeRCArity s.treeRCLevels_pos s.treeRCConfig_le
  exact htreeD.cons (htreeR.cons .nil)

lemma writeNodeProof_advances : Advances s.writeNodeProof s.nodeProofSize := by
  have hcolumn := s.writeColumnProof_advances
  have hcolumns : ∀ n, Advances (loop 0 n fun _ => s.writeColumnProof) (n * s.columnProofSize) :=
    fun n => .loop fun _ _ _ => hcolumn
  have hlabel := WriteAt.labelProof_advances s.numLayers_pos
  have h8 := Advances.memcpy 8
  refine (hcolumn.cons (h8.cons ((hcolumns parentCountBase).cons (h8.cons
    ((hcolumns parentCountExp).cons ((hlabel false).cons ((hlabel true).cons .nil))))))).of_eq ?_
  rw [nodeProofSize]
  ring

/-- What one challenge adds. -/
lemma writeChallenge_advances {doTree doNode : Bool} (hdo : doTree = true ∨ doNode = true) :
    Advances (s.writeChallenge doTree doNode)
      ((if doTree then s.treeProofSize else 0) + if doNode then s.nodeProofSize else 0) := by
  have htree := s.writeTreeProof_advances
  have hnode := s.writeNodeProof_advances
  cases doTree with
  | false =>
    obtain rfl := hdo.resolve_left (by decide)
    exact hnode.of_eq (Nat.zero_add _).symm
  | true =>
    cases doNode with
    | false => exact htree
    | true => exact htree.cons (hnode.cons .nil)

/-- The whole file. -/
lemma writeProofs_advances {doTree doNode : Bool} (hdo : doTree = true ∨ doNode = true) :
    Advances (s.writeProofs doTree doNode) (s.proofSize doTree doNode) := by
  have hchallenges : ∀ n, Advances (loop 0 n fun _ => s.writeChallenge doTree doNode)
      (n * ((if doTree then s.treeProofSize else 0) + if doNode then s.nodeProofSize else 0)) :=
    fun n => .loop fun _ _ _ => s.writeChallenge_advances hdo
  have hpartitions : Advances (loop 0 s.numPartitions fun _ =>
      seq [memcpy 8, loop 0 s.challengesCount fun _ => s.writeChallenge doTree doNode])
      (s.numPartitions * (8 + (s.challengesCount * ((if doTree then s.treeProofSize else 0) +
        if doNode then s.nodeProofSize else 0) + 0))) :=
    .loop fun _ _ _ => (Advances.memcpy 8).cons ((hchallenges _).cons .nil)
  have hnode := Advances.memcpy nodeSize
  have htreeEnd : Advances (if doTree then seq [memcpy nodeSize, memcpy nodeSize] else seq [])
      (if doTree then nodeSize + (nodeSize + 0) else 0) :=
    .ite (fun _ => hnode.cons (hnode.cons .nil)) fun _ => .nil
  have hnodeEnd : Advances
      (if doNode then seq [memcpy nodeSize, memcpy nodeSize, memcpy nodeSize] else seq [])
      (if doNode then nodeSize + (nodeSize + (nodeSize + 0)) else 0) :=
    .ite (fun _ => hnode.cons (hnode.cons (hnode.cons .nil))) fun _ => .nil
  refine ((Advances.memcpy 8).cons (hpartitions.cons (htreeEnd.cons (hnodeEnd.cons .nil)))).of_eq ?_
  -- the challenges of all partitions are all challenges
  have hcount : s.numPartitions * s.challengesCount = s.numChallenges :=
    Nat.mul_div_cancel' s.partitions_dvd
  rw [proofSize, ← hcount]
  cases doTree <;> cases doNode <;> simp only [if_true, Bool.false_eq_true, if_false] <;> ring

/-- `WriteProofs` fills the file that `ProofSize` sizes, and writes nothing behind its end; each kind of
proof takes what its own size function tells. -/
theorem writeProofs_proofSize {doTree doNode : Bool} (hdo : doTree = true ∨ doNode = true) :
    (s.writeProofs doTree doNode 0).2 = s.proofSize doTree doNode ∧
      (∀ p ∈ (s.writeProofs doTree doNode 0).1, p.off + p.len ≤ s.proofSize doTree doNode) ∧
      (∀ enc, Advances (WriteAt.labelProof s.numLayers enc) (LabelProof.proofSize s.numLayers enc)) ∧
      Advances (WriteAt.treeProof s.treeDArity s.treeDLevels singleProofData)
        (TreeProof.proofSize s.treeDArity s.treeDLevels singleProofData) ∧
      Advances (WriteAt.treeProof s.treeRCArity s.treeRCLevels s.treeRCConfig)
        (TreeProof.proofSize s.treeRCArity s.treeRCLevels s.treeRCConfig) ∧
      Advances s.writeColumnProof s.columnProofSize := by
  have hall := s.writeProofs_advances hdo
  refine ⟨?_, fun p hp => ?_, WriteAt.labelProof_advances s.numLayers_pos, ?_, ?_,
    s.writeColumnProof_advances⟩
  · rw [hall.cursor, Nat.zero_add]
  · have hlt := (hall.pieces 0 p hp).2
    rwa [Nat.zero_add] at hlt
  · exact WriteAt.treeProof_advances _ s.treeDLevels_pos (by decide)
  · exact WriteAt.treeProof_advances _ s.treeRCLevels_pos s.treeRCConfig_le

/-- The shape of a sector of 32GiB: eleven layers, ten partitions, a tree with a sub tree. -/
theorem writeProofs_proofSize_32GiB :
    let s : ProofShape := ⟨11, 10, 180, 2, 30, 8, 10, 1, by decide, by decide, by decide, by decide,
      by decide⟩
    (s.writeProofs true true 0).2 = s.proofSize true true ∧
      ∀ p ∈ (s.writeProofs true true 0).1, p.off + p.len ≤ s.proofSize true true := by
  intro s
  have hdo : true = true ∨ true = true := .inl rfl
  have h := writeProofs_proofSize s hdo
  exact ⟨h.1, h.2.1⟩

/-- The cursor of the writers is the length of what they write. -/
theorem length_writeProofs {cfg : C1Config} (c1 : C1 cfg) {heap : ℕ → Heap} {doTree doNode : Bool}
    (hdo : doTree = true ∨ doNode = true) {file : List Sections.Byte}
    (h : c1.writeProofs heap doTree doNode = some file) :
    file.length = (cfg.shape.writeProofs doTree doNode 0).2 := by
  rw [(cfg.shape.writeProofs_advances hdo).cursor, Nat.zero_add]
  simp only [C1.writeProofs, Option.bind_eq_bind, Option.bind_eq_some_iff] at h
  obtain ⟨proofs, -, h⟩ := h
  rw [Option.ite_none_right_eq_some] at h
  rw [← Option.some.inj h.2]
  exact h.1

end ProofShape

end SupraSeal
