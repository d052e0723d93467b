import SupraSeal.C1.SealedFiles

/-!
# Sealed sectors can be proved

With the labels of the graph on disk and the files that PC2 has written, the vanilla proof that C1 writes
for a challenge is one that the verifier accepts.
-/

namespace SupraSeal

open MerkleTree Sections Sha256

/-! ### Digests as field elements -/

lemma htonl_and (x y : BitVec 32) : htonl (x &&& y) = htonl x &&& htonl y := by
  apply BitVec.eq_of_getElem_eq
  intro i hi
  rw [htonl_getElem _ i hi, BitVec.getElem_and, htonl_getElem _ i hi, htonl_getElem _ i hi,
    BitVec.getLsbD_and]

/-- What the hasher stores, with the bytes of its words reversed. -/
lemma reverseL_digestNode (msg : List Byte) :
    (digestNode (Sha256.hash msg)).reverseL = TreeD.truncatedHash msg := by
  refine congrArg Node.ofWords (funext fun i : Fin 8 => ?_)
  match i with
  | 0 | 1 | 2 | 3 | 4 | 5 | 6 => rfl
  | 7 =>
    -- the bits that are cleared are those of the last byte
    have hmask : htonl 0xFFFFFF3F = 0x3FFFFFFF := by decide
    exact (htonl_and _ _).trans (by rw [hmask]; rfl)

/-- A node whose last word has two bits to spare. -/
lemma Node.val_lt_of_words {n : Node} (h : (n.words (Fin.last 7)).toNat < 2 ^ 30) :
    n.val < 2 ^ 254 := by
  have hlow : Nat.ofDigits (2 ^ 32) (List.ofFn fun i : Fin 7 => (n.words i.castSucc).toNat) <
      2 ^ 224 := by
    refine (Nat.ofDigits_lt_base_pow_length (by decide) ?_).trans_le (by simp)
    intro d hd
    obtain ⟨i, rfl⟩ := (List.mem_ofFn' _ _).mp hd
    exact (n.words _).isLt
  have hval : n.val = Nat.ofDigits (2 ^ 32) (List.ofFn fun i : Fin 7 => (n.words i.castSucc).toNat) +
      2 ^ 224 * (n.words (Fin.last 7)).toNat := by
    change Nat.ofDigits (2 ^ 32) (List.ofFn fun i : Fin 8 => (n.words i).toNat) = _
    rw [List.ofFn_succ_last, Nat.ofDigits_append, List.length_ofFn, Nat.ofDigits_singleton, ← pow_mul]
  omega

lemma val_truncatedHash_lt (msg : List Byte) : (TreeD.truncatedHash msg).val < frModulus := by
  refine (Node.val_lt_of_words ?_).trans (by decide)
  show (_ &&& 0x3FFFFFFF : BitVec 32).toNat < 2 ^ 30
  rw [BitVec.toNat_and]
  exact Nat.and_le_right.trans_lt (by decide)

/-- Zero as data changes nothing. -/
lemma elementAdd_zero (F : FrT) {label : Node} (hlabel : label.val < frModulus) :
    elementAdd F Node.zero label = label := by
  have hzero : Node.zero.val = 0 := by decide
  apply Node.val_injective
  rw [elementAdd, F.val_toScalar_add hlabel (hzero.trans_lt frModulus_pos), hzero, Nat.add_zero,
    Nat.mod_eq_of_lt hlabel]

namespace Sealing

variable {Z : Sealing} {R : Z.Pc2Run} {i c k l : ℕ} {files : SectorFiles}

/-! ### Labels -/

/-- A label is the hash of the labels of the parents, as C1 lists them. -/
lemma fieldLabel_eq (hl : l < Z.size.numLayers) (hc : c < Z.size.numLeaves) (hpos : 0 < c) :
    Z.fieldLabel l c i = TreeD.truncatedHash (locationBytes (replicaId Z.replicaIds i) (l + 1) c ++
      nodeBytes ((challengeLabelProof Z.label Z.setup.C Z.setup.G.buf c i).parents (l + 1))) := by
  have hlayers : l < Z.setup.C.numLayers := by
    rw [Z.config_eq]
    exact hl
  have hnodes : c < Z.setup.C.numNodes := by
    rw [Z.config_eq, Z.size.config_numNodes]
    exact hc
  have hlayer : Z.setup.C.layer (Z.setup.C.nodeId l c) = l := Z.setup.C.layer_nodeId hnodes
  have hnode : Z.setup.C.node (Z.setup.C.nodeId l c) = c := Z.setup.C.node_nodeId hnodes
  rw [fieldLabel, label, sdrLabel_eq, labelFrom, reverseL_digestNode, labelMessage, hlayer, hnode,
    if_neg hpos.ne', ← labels_eq_parents Z.listsPrevious hlayers hnodes hpos, nodeBytes,
    List.flatMap_map]
  have hparent : ∀ id, parallelNode Z.setup.C Z.label id i = sdrLabel Z.setup Z.replicaIds id i := by
    intro id
    rw [parallelNode, label, Z.setup.C.nodeId_eq _ (Z.setup.C.node_lt id),
      Z.setup.C.layer_mul_add_node]
  simp only [Node.bytes_reverseL, parentsInTurn, hlayer, hparent]

variable (Z) in
lemma fieldLabel_lt (l n i : ℕ) : (Z.fieldLabel l n i).val < frModulus := by
  rw [fieldLabel, label, sdrLabel_eq, labelFrom, reverseL_digestNode]
  exact val_truncatedHash_lt _

/-! ### The replica -/

variable (Z) in
/-- With zero for the data of a CC sector, the replica encodes the data. -/
lemma replica_eq_encode (i n : ℕ) :
    Z.trees.replica i n = Z.encode (Z.fieldLabel (Z.size.numLayers - 1) n i) (Z.data i n) := by
  have hfiles : Z.trees.dataFiles i = Z.dataFiles i := rfl
  rw [GpuTrees.replica, data, hfiles]
  cases Z.dataFiles i with
  | none => exact (elementAdd_zero Z.F (Z.fieldLabel_lt _ _ _)).symm
  | some file => rfl

/-! ### Batches -/

section Batches

variable {numControllers blockOffset : ℕ} {written : List ℕ} {disk : Disk}

lemma batches_numNodes (hk : Z.size.GpuUniform k) :
    (Z.batches numControllers blockOffset written disk).numNodes = Z.size.numLeaves := by
  refine Nat.mul_div_cancel' ?_
  show Z.size.treeRCFiles ∣ _
  rw [hk.leaves]
  rcases hk.layout with ⟨h1, -⟩ | ⟨h8, hlevels⟩
  · exact h1 ▸ one_dvd _
  · rw [h8, hlevels]
    exact dvd_pow_self _ (Nat.succ_ne_zero k)

/-- The labels are where PC2 reads them. -/
lemma batches_stores (hk : Z.size.GpuUniform k)
    (hall : ∀ m < Z.setup.C.numLayers * (Z.setup.C.numNodes / Z.setup.C.nodesPerPage), m ∈ written) :
    (Z.batches numControllers blockOffset written disk).Stores Z.fieldLabel := by
  have hlabels : (fun l n i => (Z.fieldLabel l n i).reverseL) = Z.label := by
    funext l n i
    exact Node.reverseL_reverseL _
  refine ⟨Z.one_le, ?_, written, disk, ?_, ?_⟩
  · rw [Z.size.config_numNodes, batches_numNodes hk]
  · rw [← Z.config_eq]
    exact hall
  · rw [hlabels]

lemma batches_inField (hk : Z.size.GpuUniform k) :
    (Z.batches numControllers blockOffset written disk).InField Z.fieldLabel := by
  constructor
  · intro n _ i _
    exact Z.fieldLabel_lt _ _ _
  · intro i _ file hfile n hn
    exact Z.data_lt i file hfile n (batches_numNodes hk ▸ hn)

end Batches

/-- The sealed file holds the replica. -/
lemma Pc2Run.sealed_eq (R : Z.Pc2Run) (hi : i < Z.setup.C.parallelSectors)
    (hk : Z.size.GpuUniform k) (hc : c < Z.size.numLeaves) :
    R.sealed i c = Z.trees.replica i c := by
  set P := Z.batches R.numControllers R.blockOffset R.written R.disk with hP
  have hsectors : P.parallelSectors = Z.setup.C.parallelSectors := by
    rw [Z.config_eq]
    rfl
  have hnodes : P.numNodes = Z.size.numLeaves := batches_numNodes hk
  obtain ⟨sealed, hrun, hsealed⟩ := Pc2.sealBatches_eq (F := Z.F) (batches_stores hk R.written_all)
    (batches_inField hk) R.isBatch R.before
  obtain ⟨start, hstart, hle, hlt⟩ := Pc2.exists_isBatch (P := P) (hnodes.symm ▸ hc)
  obtain ⟨m, hm⟩ := R.all_mem start hstart
  have heq : sealed = R.sealed := Option.some.inj (hrun.symm.trans R.sealBatches_eq)
  have hfiles : P.dataFiles i = Z.dataFiles i ∧ Z.trees.dataFiles i = Z.dataFiles i := ⟨rfl, rfl⟩
  rw [← heq, hsealed i (hsectors.symm ▸ hi) c (.inl ⟨_, hm, hle, hlt⟩), Pc2.replica,
    GpuTrees.replica, hfiles.1, hfiles.2]
  cases Z.dataFiles i with
  | none => rfl
  | some file => rfl

/-! ### Runs -/

/-- The first nodes of the batches, partition by partition. -/
def batchStarts (P : Pc2) : List ℕ :=
  (List.range P.numPartitions).flatMap fun partition =>
    (List.range P.streamCount).flatMap fun id =>
      (List.range (P.nodesToRead / P.streamCount / P.batchSize)).map (P.startNode partition id)

lemma mem_batchStarts {P : Pc2} {start : ℕ} : start ∈ batchStarts P ↔ P.IsBatch start := by
  simp only [batchStarts, Pc2.IsBatch, List.mem_flatMap, List.mem_map, List.mem_range]
  constructor
  · rintro ⟨partition, hpartition, id, hid, node, hnode, rfl⟩
    exact ⟨partition, id, node, hpartition, hid, hnode, rfl⟩
  · rintro ⟨partition, id, node, hpartition, hid, hnode, rfl⟩
    exact ⟨partition, hpartition, id, hid, node, hnode, rfl⟩

/-- PC2 runs through. -/
lemma nonempty_run (Z : Sealing) : Nonempty Z.Pc2Run := by
  obtain ⟨k, hk⟩ := SectorSize.exists_gpuUniform Z.gpu Z.uniform
  let zeros : ℕ → Node := fun _ => Node.zero
  let stream : GpuStream Node := ⟨zeros, fun _ => zeros, zeros, zeros, [], []⟩
  let memory : BatchMemory := ⟨fun _ => zeros, zeros, zeros, zeros, zeros⟩
  obtain ⟨partitions, hhash, -⟩ : ∃ partitions,
      Z.trees.hashAll (10 * (Z.size.numLeaves / Z.size.treeRCFiles)) (fun _ _ _ => zeros)
        (fun _ => stream) = some partitions ∧
        List.Forall₂ (Z.trees.AsBuilt fun _ => zeros) (List.range Z.size.treeRCFiles) partitions :=
    GpuTrees.doPc2_asBuilt Z.gpu le_rfl _ _ _
  -- pages are written in turn, and batches are sealed in turn
  let written := List.range (Z.setup.C.numLayers * (Z.setup.C.numNodes / Z.setup.C.nodesPerPage))
  have hall : ∀ m < Z.setup.C.numLayers * (Z.setup.C.numNodes / Z.setup.C.nodesPerPage),
      m ∈ written := fun m hm => List.mem_range.mpr hm
  let P := Z.batches 1 0 written fun _ _ => zeros
  have hbatch : ∀ b ∈ (batchStarts P).map (Prod.mk memory), P.IsBatch b.2 := by
    intro b hb
    obtain ⟨start, hstart, rfl⟩ := List.mem_map.mp hb
    exact mem_batchStarts.mp hstart
  obtain ⟨sealed, hsealed, -⟩ := Pc2.sealBatches_eq (F := Z.F) (batches_stores hk hall)
    (batches_inField hk) hbatch fun _ => zeros
  exact ⟨{
    fuel := _
    bufs := _
    streams := _
    partitions := partitions
    hashAll_eq := hhash
    fuel_ge := le_rfl
    numControllers := 1
    blockOffset := 0
    written := written
    disk := fun _ _ => zeros
    written_all := hall
    order := (batchStarts P).map (Prod.mk memory)
    isBatch := hbatch
    all_mem := fun start hstart =>
      ⟨memory, List.mem_map_of_mem (mem_batchStarts.mpr hstart)⟩
    before := fun _ => zeros
    sealed := sealed
    sealBatches_eq := hsealed }⟩

/-- What a run has written can be kept in files. -/
lemma Pc2Run.exists_leaves (R : Z.Pc2Run) (hi : i < Z.setup.C.parallelSectors) :
    ∃ files, R.Leaves i files := by
  let mem : TreeMem Node := fun _ _ => Node.zero
  let roots (select : PartitionWrites Node → ℕ → Node) : Node :=
    rootOfFiles Z.poseidon Z.size.treeRCFiles fun b =>
      R.roots select (b * Z.setup.C.parallelSectors + i)
  let treeDMem (file : ℕ → Node) : TreeMem Node
    | .input => file
    | _ => fun _ => Node.zero
  let files : SectorFiles :=
    { treeC := fun b => (Z.trees.treeCFile mem b i).2
      treeR := fun b => (Z.trees.treeRFile mem b i).2
      treeD := (Z.dataFiles i).map fun file =>
        (TreeD.buildTree (TreeD.hashNode Z.blst) Z.size.numLeaves true (treeDMem file)).2 .out
      replica := R.sealed i
      pAux := fun n => if n = 0 then roots PartitionWrites.rootsC else roots PartitionWrites.rootsR }
  refine ⟨files, ?_⟩
  constructor
  case treeC =>
    intro b w hw x hx
    exact (((R.asBuilt_partition mem hw).treeC rfl i hi _ (List.Perm.refl _)).2 x hx).symm
  case treeR =>
    intro b w hw x hx
    exact (((R.asBuilt_partition mem hw).treeR i hi _ (List.Perm.refl _)).2 x hx).symm
  case replica => rfl
  case pAux => exact writeRoots_eq treeRCFiles_pos _ _ _ _ _ _
  case treeD =>
    intro file hfile
    refine ⟨treeDMem file, rfl, ?_⟩
    simp only [files, hfile, Option.map_some]
  case noTreeD =>
    intro hnone
    simp only [files, hnone, Option.map_none]

/-! ### Tree D -/

variable {heap : Heap} {seed ticket : Node} {challenges : ℕ → ℕ}

variable (Z) in
lemma size_ne : Z.size ≠ .sector64GB := by
  intro h
  have huniform := Z.uniform
  rw [h] at huniform
  exact absurd huniform (by decide)

/-- The table has the path of a node in the tree over zeros. -/
lemma treeDCCProof_proves (hc : c < Z.size.numLeaves) :
    ∃ d, treeDCCProof ccTreeDNode treeDArity Z.size.treeDLevels c = some d ∧
      d.Proves (TreeD.hashNode Z.blst) c Node.zero (ccTreeDNode Z.size.treeDLevels) := by
  have hchain := TreeD.zeroChain_ccTreeDNode Z.blst_sha256 Z.size_ne
  refine ⟨_, if_pos (TreeD.treeDLevels_le Z.size), ?_⟩
  refine @TreeProofData.proves_of_openings _ _ (fun _ => Node.zero) 1 _ _ rfl rfl ?_ ?_ ?_ ?_
  · exact congrArg some TreeD.ccTreeDNode_zero
  · refine List.map_congr_left fun l hl => ?_
    have hl := List.mem_range.mp hl
    rw [hchain l hl.le]
    refine Eq.trans ?_ (TreeD.opening_zeros c l).symm
    exact congrArg (Step.mk · _) (TreeProof.getTreePaths_getD 1 hl c)
  · rw [Z.size.numLeaves_eq_treeDLevels] at hc
    exact hc
  · rw [hchain _ le_rfl]
    exact TreeD.row_zeros _ _

variable (Z) in
/-- The path in a file of tree D, whose last node is the root. -/
def fileProof (tree pathBuf : ℕ → Node) (c : ℕ) : TreeProofData :=
  let t : TreeProof Node := ⟨treeDArity, Z.size.treeDLevels, fun _ => tree, 1, 0, pathBuf⟩
  t.data (Z.poseidon treeRCArity) (tree (2 * Z.size.numLeaves - 2)) c none

/-- The file of tree D has the path of a node of the data. -/
lemma fileProof_proves {mem : TreeMem Node} {tree : ℕ → Node} (pathBuf : ℕ → Node)
    (htree : tree = (TreeD.buildTree (TreeD.hashNode Z.blst) Z.size.numLeaves true mem).2 .out)
    (hc : c < Z.size.numLeaves) :
    (Z.fileProof tree pathBuf c).Proves (TreeD.hashNode Z.blst) c (mem .input c)
      (tree (2 * Z.size.numLeaves - 2)) := by
  rw [fileProof]
  rw [Z.size.numLeaves_eq_treeDLevels] at htree hc ⊢
  set t : TreeProof Node := ⟨treeDArity, Z.size.treeDLevels, fun _ => tree, 1, 0, pathBuf⟩
  have hstores : Stores (TreeD.hashNode Z.blst) treeDArity tree (mem .input) Z.size.treeDLevels :=
    htree ▸ (TreeD.buildTree_copy (TreeD.hashNode Z.blst) mem Z.size.treeDLevels).1
  have hfiles : t.Files (TreeD.hashNode Z.blst) (mem .input) 1 Z.size.treeDLevels 0 :=
    { arity := rfl
      arity_lg := Nat.one_pos
      layout := .inl ⟨rfl, rfl⟩
      start_le := Nat.zero_le _
      stores := by
        intro b hb
        obtain rfl : b = 0 := Nat.lt_one_iff.mp hb
        have hfirst : (fun j => mem .input (0 * t.arity ^ Z.size.treeDLevels + j)) = mem .input := by
          funext j
          rw [Nat.zero_mul, Nat.zero_add]
        rw [hfirst]
        exact hstores }
  obtain ⟨hleaf, hsteps⟩ := TreeProof.genInclusionPath_none hfiles (TreeD.treeDLevels_pos Z.size) hc
    fun _ => tree (2 * 2 ^ Z.size.treeDLevels - 2)
  have hroot := hstores _ le_rfl 0 (Nat.pow_pos (by decide))
  rw [Nat.add_zero] at hroot
  refine TreeProofData.proves_of_openings (g := 1) rfl rfl hleaf hsteps hc ?_
  exact hroot.symm.trans (congrArg tree (TreeD.rowStart_levels _))

/-- The path of tree D, in its file or in the table for zeros. -/
lemma Pc2Run.Leaves.treeD_proves (h : R.Leaves i files) (hc : c < Z.size.numLeaves) :
    ∃ d, (Z.c1 i files seed ticket challenges).treeDProof heap c = some d ∧
      d.Proves (TreeD.hashNode Z.blst) c (Z.data i c) (Z.c1 i files seed ticket challenges).commD := by
  cases hdata : Z.dataFiles i with
  | none =>
    have hbuf : files.treeD = none := h.noTreeD hdata
    obtain ⟨d, hd, hproves⟩ := treeDCCProof_proves (Z := Z) hc
    refine ⟨d, ?_, ?_⟩
    · simp only [C1.treeDProof, c1, hbuf]
      exact hd
    · simp only [data, c1, hbuf, hdata]
      exact hproves
  | some file =>
    obtain ⟨mem, rfl, hbuf⟩ := h.treeD file hdata
    set tree := (TreeD.buildTree (TreeD.hashNode Z.blst) Z.size.numLeaves true mem).2 .out with htree
    refine ⟨Z.fileProof tree heap.pathBuf c, ?_, ?_⟩
    · simp only [C1.treeDProof, c1, hbuf]
      rfl
    · simp only [data, c1, hbuf, hdata]
      exact fileProof_proves heap.pathBuf htree hc

/-! ### Vanilla proofs -/

variable (Z) in
/-- What prover and verifier agree on. -/
def porep : Porep where
  numLayers := Z.size.numLayers
  parentsBuf := Z.setup.G.buf
  poseidon := Z.poseidon
  hashNode := TreeD.hashNode Z.blst
  encode := Z.encode

/-- What C1 says of the sector. -/
def statement (c1 : C1 (SectorSize.c1Config Z.uniform)) : SectorStatement where
  replicaId := c1.replicaId
  commD := c1.commD
  commC := c1.treeCRoot
  commRLast := c1.treeRRoot
  commR := c1.commR

lemma slotNode_lt (hc : c < Z.size.numLeaves) {slot : ℕ} (hslot : slot ≤ parentCount) :
    slotNode c (getParents Z.setup.G.buf c) slot < Z.size.numLeaves := by
  have hnodes : Z.setup.C.numNodes = Z.size.numLeaves := by
    rw [Z.config_eq, Z.size.config_numNodes]
  cases slot with
  | zero => exact hc
  | succ j =>
    rw [slotNode_succ, ← hnodes]
    exact Z.setup.G.lt_numNodes c (hnodes.symm ▸ hc) j hslot

/-- The labels that C1 reads for a challenge. -/
lemma reader_eq (c : ℕ) (hl : l < Z.size.numLayers) {slot : ℕ} (hslot : slot ≤ parentCount) :
    (Z.c1 i files seed ticket challenges).reader (challengeNodes Z.size.numLayers c
        (getParents Z.setup.G.buf c)) (slot + l * (parentCount + 1)) =
      Z.fieldLabel l (slotNode c (getParents Z.setup.G.buf c) slot) i := by
  set parents := getParents Z.setup.G.buf c
  have hget : (challengeNodes Z.size.numLayers c parents)[slot + l * (parentCount + 1)]? =
      some (l, slotNode c parents slot) := challengeNodes_getElem hl (Nat.lt_succ_of_le hslot)
  simp only [c1, List.getD_eq_getElem?_getD, List.getElem?_map, hget, Option.map_some,
    Option.getD_some]

/-- The column of a slot. -/
lemma columns_eq (heap : Heap) (c : ℕ) (treeD : TreeProofData) {slot : ℕ} (hslot : slot ≤ parentCount) :
    ((Z.c1 i files seed ticket challenges).proofWith heap c treeD).columns slot =
      Z.column i (slotNode c (getParents Z.setup.G.buf c) slot) := by
  refine List.map_congr_left fun l hl => ?_
  exact reader_eq c (List.mem_range.mp hl) hslot

/-- The labels of the parents are those that the label proof of PC1's preimage lists. -/
lemma labels_eq (heap : Heap) (c : ℕ) (treeD : TreeProofData) (l : ℕ) :
    ((Z.c1 i files seed ticket challenges).proofWith heap c treeD).labels l =
      (challengeLabelProof Z.label Z.setup.C Z.setup.G.buf c i).parents l := by
  have hlayers : Z.setup.C.numLayers = Z.size.numLayers := by
    rw [Z.config_eq]
    rfl
  have hread : challengeLabels Z.label Z.setup.C Z.setup.G.buf c i =
      (Z.c1 i files seed ticket challenges).reader
        (challengeNodes Z.size.numLayers c (getParents Z.setup.G.buf c)) := by
    funext k
    rw [challengeLabels, hlayers]
    rfl
  rw [challengeLabelProof, hread, hlayers]
  rfl

/-- What the verifier checks of a challenge other than the first node. -/
lemma accepted (R : Z.Pc2Run) (hi : i < Z.setup.C.parallelSectors) (h : R.Leaves i files)
    (hc : c < Z.size.numLeaves) (hpos : 0 < c) {treeD : TreeProofData}
    (htreeD : treeD.Proves (TreeD.hashNode Z.blst) c (Z.data i c)
      (Z.c1 i files seed ticket challenges).commD) :
    ((Z.c1 i files seed ticket challenges).proofWith heap c treeD).Accepted Z.porep
      (statement (Z.c1 i files seed ticket challenges)) c (Z.data i c) (files.replica c) := by
  obtain ⟨k, hk⟩ := SectorSize.exists_gpuUniform Z.gpu Z.uniform
  have hreplica : ∀ n < Z.size.numLeaves, files.replica n = Z.trees.replica i n := by
    intro n hn
    rw [h.replica, R.sealed_eq hi hk hn]
  have hlast : Z.size.numLayers - 1 < Z.size.numLayers := Nat.sub_lt Z.size.numLayers_pos Nat.one_pos
  have hcolumn : ∀ l < Z.size.numLayers,
      (((Z.c1 i files seed ticket challenges).proofWith heap c treeD).columns 0)[l]? =
        some (Z.fieldLabel l c i) := by
    intro l hl
    rw [columns_eq heap c treeD (Nat.zero_le _), column, List.getElem?_map, List.getElem?_range hl]
    rfl
  constructor
  case challenge_eq => rfl
  case commR => rfl
  case treeD => exact htreeD
  case treeR =>
    rw [hreplica c hc]
    exact h.treeR_proves hi hk hc hreplica
  case nodes => rfl
  case columns =>
    intro slot hslot
    rw [columns_eq heap c treeD hslot]
    refine ⟨?_, h.treeC_proves hi hk (slotNode_lt hc hslot)⟩
    rw [column, List.length_map, List.length_range]
    rfl
  case parents =>
    intro l hl
    exact C1.labels_proofWith _ heap c treeD hl
  case labels =>
    intro l hl
    rw [hcolumn l hl, labels_eq, fieldLabel_eq hl hc hpos]
    rfl
  case encodes =>
    refine (congrArg _ (hcolumn _ hlast)).trans ?_
    rw [hreplica c hc, Z.replica_eq_encode]
    rfl

/-- Whatever the data of the sectors, and in whatever order PC2 seals its batches, the vanilla proof that C1
writes for a challenge is accepted, with the data of the challenged node and its replica. -/
theorem vanillaProof_accepted (R : Z.Pc2Run) (hi : i < Z.setup.C.parallelSectors)
    (h : R.Leaves i files) (heap : Heap) (seed ticket : Node) (challenges : ℕ → ℕ) {j : ℕ}
    (hj : j < Z.size.numChallenges) :
    let c1 := Z.c1 i files seed ticket challenges
    let c := Z.size.challenge (replicaId Z.replicaIds i) seed j
    c1.challenges j = c ∧ ∃ p bytes, c1.vanillaProof heap c = some p ∧
      c1.writeProof heap c = some bytes ∧ p.bytes (SectorSize.c1Config Z.uniform) = some bytes ∧
      p.Accepted Z.porep (statement c1) c (Z.data i c) (files.replica c) := by
  intro c1 c
  have hc : c < Z.size.numLeaves := Z.size.challenge_lt _ _ _
  obtain ⟨treeD, htreeD, hproves⟩ : ∃ d, c1.treeDProof heap c = some d ∧
      d.Proves (TreeD.hashNode Z.blst) c (Z.data i c) c1.commD := h.treeD_proves hc
  have hp : c1.vanillaProof heap c = some (c1.proofWith heap c treeD) :=
    congrArg (Option.map (c1.proofWith heap c)) htreeD
  obtain ⟨tree, htree, -⟩ := c1.writeTreeProof_sized heap c
  obtain ⟨node, hnode, -⟩ := c1.writeNodeProof_sized heap c
  have hbytes : c1.writeProof heap c = some (tree ++ node) := by
    rw [C1.writeProof, htree, hnode]
    rfl
  refine ⟨?_, _, _, hp, hbytes, ?_, ?_⟩
  · exact Z.size.deriveChallenges_apply Z.blst_sha256 _ seed challenges hj
  · rw [← C1.writeProof_eq hp, hbytes]
  · exact accepted R hi h hc (Nat.succ_pos _) hproves

/-- Two sectors of 8MiB, of which the first has data, and each node has the one before it for a parent. -/
def chain8MB : Sealing where
  size := .sector8MB
  gpu := by decide
  uniform := by decide
  lgSectors := 1
  one_le := Nat.one_pos
  le_seven := Config.two_sectors_le
  setup := .single (SectorSize.sector8MB.config Nat.one_pos Config.two_sectors_le)
    (ParentGraph.switch _ 262144 0 (by decide) (le_refl 262144)) rfl
  config_eq := rfl
  listsPrevious := by
    intro v hv _
    have hdiv : v * parentCount / parentCount = v := Nat.mul_div_cancel _ (by decide)
    show (if v * parentCount / parentCount < 262144 then v * parentCount / parentCount - 1 else 0) = _
    rw [hdiv, if_pos (show v < 262144 from hv)]
  replicaIds := fun _ => 0
  dataFiles := fun i => if i = 0 then some fun _ => Node.ofVal 2 else none
  data_lt := by
    intro i file hfile n _
    obtain ⟨-, hfile⟩ := Option.ite_none_right_eq_some.mp hfile
    have hval : (Node.ofVal 2).val < frModulus := by decide
    exact Option.some.inj hfile ▸ hval
  poseidon := fun _ nodes => nodes.headD Node.zero
  blst := TreeD.specBlst
  blst_sha256 := TreeD.specBlst_sha256
  F := FrT.ofVal

/-- PC2 leaves files of the first sector, and the vanilla proof of its first challenge is accepted. -/
theorem vanillaProof_accepted_chain8MB : ∃ (R : chain8MB.Pc2Run) (files : SectorFiles),
    R.Leaves 0 files ∧
    let c1 := chain8MB.c1 0 files Node.zero Node.zero fun _ => 0
    let heap : Heap := ⟨fun _ => Node.zero, fun _ => Node.zero⟩
    let c := SectorSize.sector8MB.challenge (replicaId (fun _ => 0) 0) Node.zero 0
    c1.challenges 0 = c ∧ ∃ p bytes, c1.vanillaProof heap c = some p ∧
      c1.writeProof heap c = some bytes ∧
      p.bytes (SectorSize.c1Config chain8MB.uniform) = some bytes ∧
      p.Accepted chain8MB.porep (statement c1) c (Node.ofVal 2) (files.replica c) := by
  have hi : 0 < chain8MB.setup.C.parallelSectors := by decide
  obtain ⟨R⟩ := nonempty_run chain8MB
  obtain ⟨files, h⟩ := R.exists_leaves hi
  exact ⟨R, files, h, vanillaProof_accepted R hi h _ _ _ _
    (by decide : 0 < SectorSize.sector8MB.numChallenges)⟩

end Sealing

end SupraSeal
