import SupraSeal.C1.DeriveChallenges
import SupraSeal.C1.Verifier
import SupraSeal.Pc1.Sdr
import SupraSeal.Pc2.Encode
import SupraSeal.Pc2.Roots
import SupraSeal.Pc2.TreeRefinement
import SupraSeal.Sealing.PAux

/-!
# The files of a sealed sector

The phases together: PC1 leaves the labels of the graph on disk, PC2 reads them, writes the files of tree C
and tree R, the sealed file and the roots in `p_aux`, `TreeD` writes the file of tree D for a sector with
data, and C1 opens all of them. The paths that C1 finds in the files of tree C and tree R are proofs for the
roots in `p_aux`.

The sectors are those of the sizes that PC2 hashes on the GPUs and whose trees C1 can open.
-/

namespace SupraSeal

open MerkleTree Sections Sha256

/-! ### Parameters of C1 -/

namespace SectorSize

variable (s : SectorSize)

/-- `tree_rc_config_`. -/
def treeRCConfig : ℕ :=
  if s.sectorSize = 2 * oneKB ∨ s.sectorSize = 8 * oneMB ∨ s.sectorSize = 512 * oneMB then 0
  else if s.sectorSize = 32 * oneKB ∨ s.sectorSize = 64 * oneGB then 2
  else 1

lemma treeRCLevels_eq : s.treeRCLevels = s.treeDLevels / 3 := rfl

variable {s}

/-- The parameters with which C1 runs. -/
def c1Config (h : s.TreeRCUniform) : C1Config where
  numLayers := s.numLayers
  numPartitions := s.numPartitions
  numChallenges := s.numChallenges
  treeDLevels := s.treeDLevels
  treeRCLevels := s.treeRCLevels
  treeRCConfig := s.treeRCConfig
  treeRCFiles := s.treeRCFiles
  treeRDiscardRows := s.treeRDiscardRows
  numLayers_pos := s.numLayers_pos
  numPartitions_pos := by
    rw [numPartitions]
    split_ifs <;> decide
  partitions_dvd := ⟨s.challengesCount, by rw [← s.challengesCount_mul, Nat.mul_comm]⟩
  treeDLevels_pos := TreeD.treeDLevels_pos s
  two_le_treeRCLevels := by
    rw [treeRCLevels_eq, s.treeDLevels_eq]
    rcases s.treeRCUniform_iff.mp h with rfl | rfl | rfl | rfl | rfl <;> decide
  treeRCConfig_le := by
    rcases s.treeRCUniform_iff.mp h with rfl | rfl | rfl | rfl | rfl <;> decide

/-- The files and the rows of the sectors that C1 opens and the GPUs hash. -/
structure GpuUniform (s : SectorSize) (k : ℕ) : Prop where
  layout : s.treeRCFiles = 1 ∧ s.treeRCLevels = k ∨ s.treeRCFiles = treeRCArity ∧ s.treeRCLevels = k + 1
  leaves : s.numLeaves = treeRCArity ^ s.treeRCLevels
  file : s.numLeaves / s.treeRCFiles = treeRCArity ^ k
  four_le : 4 ≤ s.treeRCLevels
  three_le : 3 ≤ k
  discard : s.treeRDiscardRows = 2

lemma exists_gpuUniform (hgpu : ¬s.lg ≤ 15) (h : s.TreeRCUniform) : ∃ k, s.GpuUniform k := by
  have hlevels : s.treeRCLevels = s.treeDLevels / 3 := s.treeRCLevels_eq
  rw [s.treeDLevels_eq] at hlevels
  rcases s.treeRCUniform_iff.mp h with rfl | rfl | rfl | rfl | rfl
  · exact absurd (by decide) hgpu
  · exact absurd (by decide) hgpu
  · exact ⟨6, .inl ⟨by decide, hlevels⟩, by rw [hlevels]; decide, by decide, by rw [hlevels]; decide,
      by decide, by decide⟩
  · exact ⟨8, .inl ⟨by decide, hlevels⟩, by rw [hlevels]; decide, by decide, by rw [hlevels]; decide,
      by decide, by decide⟩
  · exact ⟨9, .inr ⟨by decide, hlevels⟩, by rw [hlevels]; decide, by decide, by rw [hlevels]; decide,
      by decide, by decide⟩

end SectorSize

/-! ### A sealing -/

/-- What is sealed: the sectors of one run of PC1, with the data of those that are not CC, and the functions
of the libraries. -/
structure Sealing where
  size : SectorSize
  gpu : ¬size.lg ≤ 15
  uniform : size.TreeRCUniform
  lgSectors : ℕ
  one_le : 1 ≤ lgSectors
  le_seven : lgSectors ≤ 7
  setup : Setup
  config_eq : setup.C = size.config one_le le_seven
  listsPrevious : ListsPrevious setup.G
  replicaIds : ℕ → BitVec 32
  dataFiles : ℕ → Option (ℕ → Node)
  data_lt : ∀ i file, dataFiles i = some file → ∀ n < size.numLeaves,
    (file n).val < frModulus
  poseidon : ℕ → List Node → Node
  blst : Blst
  blst_sha256 : blst.Sha256
  F : FrT

namespace Sealing

variable (Z : Sealing)

/-- A label, as it was hashed. -/
def label (l n i : ℕ) : Node := sdrLabel Z.setup Z.replicaIds (Z.setup.C.nodeId l n) i

/-- A label as an element of the field. -/
def fieldLabel (l n i : ℕ) : Node := (Z.label l n i).reverseL

/-- A node of the data of a sector. -/
def data (i n : ℕ) : Node :=
  match Z.dataFiles i with
  | none => Node.zero
  | some file => file n

/-- `ElementAdd`, as the verifier encodes. -/
def encode (label data : Node) : Node := elementAdd Z.F data label

/-- The trees of PC2. -/
def trees : GpuTrees Node :=
  GpuTrees.doPc2 Z.size Z.setup.C.parallelSectors_pos Z.fieldLabel Z.dataFiles Z.encode
    (Z.poseidon Z.size.numLayers) (Z.poseidon treeRCArity)

/-- The batches of PC2, over the disks that PC1 has written. -/
def batches (numControllers blockOffset : ℕ) (written : List ℕ) (disk : Disk) : Pc2 :=
  .doPc2 Z.size Z.gpu Z.one_le Z.le_seven numControllers blockOffset
    (pc1Write (Z.size.config Z.one_le Z.le_seven) numControllers blockOffset Z.label written disk)
    Z.dataFiles

/-- A run of PC2: the trees of all partitions, and the batches that are sealed. -/
structure Pc2Run where
  fuel : ℕ
  bufs : ℕ → TreeResource.Tree → ℕ → ℕ → Node
  streams : ℕ → GpuStream Node
  partitions : List (PartitionWrites Node)
  hashAll_eq : Z.trees.hashAll fuel bufs streams = some partitions
  fuel_ge : 10 * (Z.size.numLeaves / Z.size.treeRCFiles) ≤ fuel
  numControllers : ℕ
  blockOffset : ℕ
  written : List ℕ
  disk : Disk
  written_all : ∀ m < Z.setup.C.numLayers * (Z.setup.C.numNodes / Z.setup.C.nodesPerPage), m ∈ written
  order : List (BatchMemory × ℕ)
  isBatch : ∀ b ∈ order, (Z.batches numControllers blockOffset written disk).IsBatch b.2
  all_mem : ∀ start, (Z.batches numControllers blockOffset written disk).IsBatch start →
    ∃ m, (m, start) ∈ order
  before : ℕ → ℕ → Node
  sealed : ℕ → ℕ → Node
  sealBatches_eq :
    (Z.batches numControllers blockOffset written disk).sealBatches Z.F order before = some sealed

/-- The files of a sector. -/
structure SectorFiles where
  treeC : ℕ → ℕ → Node
  treeR : ℕ → ℕ → Node
  treeD : Option (ℕ → Node)
  replica : ℕ → Node
  pAux : PAux Node

variable {Z}

/-- The roots of the partitions, as the arrays that `write_roots` reads. -/
def Pc2Run.roots (R : Z.Pc2Run) (select : PartitionWrites Node → ℕ → Node) (j : ℕ) : Node :=
  (R.partitions[j / Z.setup.C.parallelSectors]?.map fun w =>
    select w (j % Z.setup.C.parallelSectors)).getD Node.zero

/-- The files of sector `i` hold what PC2 and `TreeD` have written to them. -/
structure Pc2Run.Leaves (R : Z.Pc2Run) (i : ℕ) (files : SectorFiles) : Prop where
  treeC : ∀ (b : ℕ) w, R.partitions[b]? = some w →
    ∀ x ∈ w.writesC.flatMap fun w => w.nodes i, files.treeC b x.1 = x.2
  treeR : ∀ (b : ℕ) w, R.partitions[b]? = some w →
    ∀ x ∈ w.writesR.flatMap fun w => w.nodes i, files.treeR b x.1 = x.2
  replica : files.replica = R.sealed i
  pAux : writeRoots Z.poseidon Z.size.treeRCFiles Z.setup.C.parallelSectors false Node.zero
    (R.roots PartitionWrites.rootsC) (R.roots PartitionWrites.rootsR) i =
      some (files.pAux 0, files.pAux 1)
  treeD : ∀ file, Z.dataFiles i = some file → ∃ mem : TreeMem Node, mem .input = file ∧
    files.treeD =
      some ((TreeD.buildTree (TreeD.hashNode Z.blst) Z.size.numLeaves true mem).2 .out)
  noTreeD : Z.dataFiles i = none → files.treeD = none

variable (Z) in
/-- C1 with the files of sector `i`. -/
def c1 (i : ℕ) (files : SectorFiles) (seed ticket : Node) (challenges : ℕ → ℕ) :
    C1 (SectorSize.c1Config Z.uniform) where
  poseidon := Z.poseidon treeRCArity
  ccTreeDNodeValues := ccTreeDNode
  challenges := Z.size.deriveChallenges Z.blst (replicaId Z.replicaIds i) seed challenges
  parentsBuf := Z.setup.G.buf
  reader := fun nodes k => (nodes.map fun p => Z.fieldLabel p.1 p.2 i).getD k Node.zero
  replicaBuf := files.replica
  treeRBufs := files.treeR
  treeCBufs := files.treeC
  treeDBuf := files.treeD
  treeRRoot := files.pAux 1
  treeCRoot := files.pAux 0
  commR := Z.poseidon 2 [files.pAux 0, files.pAux 1]
  commD := match files.treeD with
    | none => ccTreeDNode Z.size.treeDLevels
    | some file => file (2 * Z.size.numLeaves - 2)
  replicaId := replicaId Z.replicaIds i
  seed := seed
  ticket := ticket
  cc_levels := fun _ => TreeD.treeDLevels_le Z.size

variable {R : Z.Pc2Run} {i c k : ℕ} {files : SectorFiles}

/-! ### Partitions -/

lemma treeRCFiles_pos : 0 < Z.size.treeRCFiles := Z.size.treeRCFiles_pos

/-- What each partition has written is as built. -/
lemma Pc2Run.asBuilt (R : Z.Pc2Run) (mem : TreeMem Node) :
    List.Forall₂ (Z.trees.AsBuilt mem) (List.range Z.size.treeRCFiles) R.partitions := by
  obtain ⟨partitions, hrun, hall⟩ : ∃ partitions,
      Z.trees.hashAll R.fuel R.bufs R.streams = some partitions ∧
        List.Forall₂ (Z.trees.AsBuilt mem) (List.range Z.size.treeRCFiles) partitions :=
    GpuTrees.doPc2_asBuilt Z.gpu R.fuel_ge R.bufs R.streams mem
  have heq : partitions = R.partitions := Option.some.inj (hrun.symm.trans R.hashAll_eq)
  exact heq ▸ hall

lemma Pc2Run.asBuilt_partition (R : Z.Pc2Run) (mem : TreeMem Node) {b : ℕ} {w : PartitionWrites Node}
    (hw : R.partitions[b]? = some w) : Z.trees.AsBuilt mem b w := by
  obtain ⟨hlen, rfl⟩ := List.getElem?_eq_some_iff.mp hw
  have hall := R.asBuilt mem
  have hget := hall.get (hall.length_eq ▸ hlen) hlen
  simpa using hget

lemma Pc2Run.exists_partition (R : Z.Pc2Run) (mem : TreeMem Node) {b : ℕ}
    (hb : b < Z.size.treeRCFiles) :
    ∃ w, R.partitions[b]? = some w ∧ Z.trees.AsBuilt mem b w := by
  have hlen : b < R.partitions.length := by
    rw [← (R.asBuilt mem).length_eq, List.length_range]
    exact hb
  have hw : R.partitions[b]? = some R.partitions[b] := List.getElem?_eq_getElem hlen
  exact ⟨_, hw, R.asBuilt_partition mem hw⟩

/-! ### Tree files -/

open GpuTrees in
/-- A file with all that was written to it stores the rows of the tree. -/
lemma stores_of_fills {P : GpuTrees Node} {m b : ℕ} (h : P.Shape k m) (tree : TreeResource.Tree)
    {mem : TreeMem Node} {content : ℕ → Node} {writes : List (ℕ × Node)}
    (hfills : Fills (P.treeFile tree mem b i).2 (P.treeSize tree) writes)
    (hcontent : ∀ x ∈ writes, content x.1 = x.2) :
    Stores P.hash treeRCArity content (row P.hash treeRCArity (P.leaves tree b i) (P.firstRow tree))
      (k - P.firstRow tree) := by
  obtain ⟨hstores, -, hsize⟩ := treeFile_spec h tree mem b i
  rw [hsize] at hfills
  exact hfills.stores hcontent hstores

variable (Z) in
/-- The shape of the trees. -/
lemma exists_shape (hk : Z.size.GpuUniform k) : ∃ m, Z.trees.Shape k m := by
  obtain ⟨k', -, m, hnodes, hbatch, hstreams, hm⟩ := GpuTrees.exists_batches Z.gpu
  have heq : k' = k := Nat.pow_right_injective (by decide : 2 ≤ 8) (hnodes.symm.trans hk.file)
  subst heq
  exact ⟨m, hnodes, hbatch, hstreams, hm⟩

/-- The column of a node. -/
def column (Z : Sealing) (i n : ℕ) : List Node :=
  (List.range Z.size.numLayers).map fun l => Z.fieldLabel l n i

/-- A leaf of tree C. -/
def columnHash (Z : Sealing) (i n : ℕ) : Node := Z.poseidon Z.size.numLayers (Z.column i n)

/-- The leaves of a file are a stretch of those of the sector. -/
lemma leaves_treeC (hk : Z.size.GpuUniform k) (b i : ℕ) :
    Z.trees.leaves .c b i = fun j => Z.columnHash i (b * treeRCArity ^ k + j) := by
  funext j
  rw [GpuTrees.treeBuilder_columns, ← hk.file]
  rfl

lemma leaves_treeR (hk : Z.size.GpuUniform k) (b i : ℕ) :
    Z.trees.leaves .r b i = fun j => Z.trees.replica i (b * treeRCArity ^ k + j) := by
  funext j
  rw [← hk.file]
  rfl

variable (pathBuf : ℕ → Node)

/-- The files of tree C, as C1 opens them. -/
def treeC (Z : Sealing) (files : SectorFiles) (pathBuf : ℕ → Node) : TreeProof Node :=
  ⟨treeRCArity, Z.size.treeRCLevels, files.treeC, Z.size.treeRCFiles, 0, pathBuf⟩

def treeR (Z : Sealing) (files : SectorFiles) (pathBuf : ℕ → Node) : TreeProof Node :=
  ⟨treeRCArity, Z.size.treeRCLevels, files.treeR, Z.size.treeRCFiles, Z.size.treeRDiscardRows, pathBuf⟩

lemma Pc2Run.Leaves.files_treeC (h : R.Leaves i files) (hi : i < Z.setup.C.parallelSectors)
    (hk : Z.size.GpuUniform k) :
    (Z.treeC files pathBuf).Files (Z.poseidon treeRCArity) (Z.columnHash i) 3 k 0 where
  arity := rfl
  arity_lg := by decide
  layout := hk.layout
  start_le := Nat.zero_le k
  stores := by
    intro b hb
    obtain ⟨m, hm⟩ := exists_shape Z hk
    obtain ⟨w, hw, hbuilt⟩ := R.exists_partition (fun _ _ => Node.zero) hb
    have hstores := stores_of_fills hm .c (hbuilt.treeC rfl i hi _ (List.Perm.refl _)) (h.treeC b w hw)
    rw [leaves_treeC hk] at hstores
    exact hstores

lemma Pc2Run.Leaves.files_treeR (h : R.Leaves i files) (hi : i < Z.setup.C.parallelSectors)
    (hk : Z.size.GpuUniform k) :
    (Z.treeR files pathBuf).Files (Z.poseidon treeRCArity) (Z.trees.replica i) 3 k 3 where
  arity := rfl
  arity_lg := by decide
  layout := hk.layout
  start_le := hk.three_le
  stores := by
    intro b hb
    obtain ⟨m, hm⟩ := exists_shape Z hk
    obtain ⟨w, hw, hbuilt⟩ := R.exists_partition (fun _ _ => Node.zero) hb
    have hstores := stores_of_fills hm .r (hbuilt.treeR i hi _ (List.Perm.refl _)) (h.treeR b w hw)
    have hfirst : Z.trees.firstRow .r = 3 := congrArg (· + 1) hk.discard
    rw [leaves_treeR hk, hfirst] at hstores
    exact hstores

/-! ### Roots -/

/-- The root over the files, when each file has the root of its subtree. -/
lemma rootOfFiles_eq {poseidon : ℕ → List Node → Node} {numFiles levels : ℕ} {roots leaves : ℕ → Node}
    (hlayout : numFiles = 1 ∧ levels = k ∨ numFiles = treeRCArity ∧ levels = k + 1)
    (hroots : ∀ b < numFiles, roots b = row (poseidon treeRCArity) treeRCArity
      (fun j => leaves (b * treeRCArity ^ k + j)) k 0) :
    rootOfFiles poseidon numFiles roots =
      row (poseidon treeRCArity) treeRCArity leaves levels 0 := by
  have hroot := @TreeProof.filesRoot_eq _ (poseidon treeRCArity) leaves _ _ _ _ hlayout fun _ => rfl
  refine Eq.trans ?_ hroot
  rcases hlayout with ⟨rfl, -⟩ | ⟨rfl, -⟩
  · rw [rootOfFiles, if_pos rfl, if_pos rfl, hroots 0 Nat.one_pos]
    rfl
  · rw [rootOfFiles, if_neg (by decide), if_neg (by decide), if_neg (by decide)]
    refine congrArg _ (List.map_congr_left fun b hb => ?_)
    exact hroots b (List.mem_range.mp hb)

lemma Pc2Run.roots_eq {select : PartitionWrites Node → ℕ → Node} {b : ℕ} {w : PartitionWrites Node}
    (hi : i < Z.setup.C.parallelSectors) (hw : R.partitions[b]? = some w) :
    R.roots select (b * Z.setup.C.parallelSectors + i) = select w i := by
  have hpos : 0 < Z.setup.C.parallelSectors := Nat.zero_lt_of_lt hi
  rw [Pc2Run.roots, Nat.mul_comm b, Nat.mul_add_div hpos, Nat.div_eq_of_lt hi, Nat.add_zero,
    Nat.mul_add_mod, Nat.mod_eq_of_lt hi, hw]
  rfl

/-- The root over the files of a tree. -/
lemma Pc2Run.rootOfFiles_roots (R : Z.Pc2Run) (hi : i < Z.setup.C.parallelSectors)
    (hk : Z.size.GpuUniform k) (tree : TreeResource.Tree) {select : PartitionWrites Node → ℕ → Node}
    {leaves : ℕ → Node}
    (hselect : ∀ b w, Z.trees.AsBuilt (fun _ _ => Node.zero) b w →
      select w i = (Z.trees.treeFile tree (fun _ _ => Node.zero) b i).1)
    (hleaves : ∀ b, Z.trees.leaves tree b i = fun j => leaves (b * treeRCArity ^ k + j)) :
    rootOfFiles Z.poseidon Z.size.treeRCFiles
        (fun b => R.roots select (b * Z.setup.C.parallelSectors + i)) =
      row (Z.poseidon treeRCArity) treeRCArity leaves Z.size.treeRCLevels 0 := by
  obtain ⟨m, hm⟩ := exists_shape Z hk
  refine rootOfFiles_eq hk.layout fun b hb => ?_
  obtain ⟨w, hw, hbuilt⟩ := R.exists_partition (fun _ _ => Node.zero) hb
  have hroot := (GpuTrees.treeFile_spec hm tree (fun _ _ => Node.zero) b i).2.1
  rw [Pc2Run.roots_eq hi hw, hselect b w hbuilt, hroot, hleaves]
  rfl

/-- The roots in `p_aux` are those of the trees over all files. -/
lemma Pc2Run.Leaves.roots (h : R.Leaves i files) (hi : i < Z.setup.C.parallelSectors)
    (hk : Z.size.GpuUniform k) :
    files.pAux 0 = row (Z.poseidon treeRCArity) treeRCArity (Z.columnHash i) Z.size.treeRCLevels 0 ∧
      files.pAux 1 =
        row (Z.poseidon treeRCArity) treeRCArity (Z.trees.replica i) Z.size.treeRCLevels 0 := by
  have hwrite := h.pAux
  rw [writeRoots_eq treeRCFiles_pos] at hwrite
  obtain ⟨hC, hR⟩ := Prod.mk.inj (Option.some.inj hwrite)
  constructor
  · refine hC.symm.trans (R.rootOfFiles_roots hi hk .c ?_ fun b => leaves_treeC hk b i)
    exact fun b w hbuilt => hbuilt.rootsC rfl i hi
  · refine hR.symm.trans (R.rootOfFiles_roots hi hk .r ?_ fun b => leaves_treeR hk b i)
    exact fun b w hbuilt => hbuilt.rootsR i hi

/-! ### Paths in tree C and tree R -/

variable {heap : Heap} {seed ticket : Node} {challenges : ℕ → ℕ}

lemma Pc2Run.Leaves.treeC_proves (h : R.Leaves i files) (hi : i < Z.setup.C.parallelSectors)
    (hk : Z.size.GpuUniform k) (hc : c < Z.size.numLeaves) :
    ((Z.c1 i files seed ticket challenges).treeCProof heap c).Proves (Z.poseidon treeRCArity) c
      (Z.columnHash i c) (files.pAux 0) := by
  rw [hk.leaves] at hc
  have hpos : 0 < k := Nat.zero_lt_of_lt hk.three_le
  obtain ⟨hleaf, hsteps⟩ := TreeProof.genInclusionPath_none (h.files_treeC heap.pathBuf hi hk) hpos
    hc fun _ => files.pAux 0
  exact TreeProofData.proves_of_openings (g := 3) rfl rfl hleaf hsteps hc (h.roots hi hk).1.symm

/-- The window of the replica that C1 copies. -/
lemma treeRNodes_eq {replica replica' treeRNodes : ℕ → Node} {levels : ℕ} (hlevels : 3 ≤ levels)
    (hc : c < treeRCArity ^ levels) (hreplica : ∀ n < treeRCArity ^ levels, replica n = replica' n) :
    ∀ j < treeRCArity ^ 3, getTreeRNodes (treeRCArity ^ 3) replica treeRNodes c j =
      replica' (treeRCArity ^ 3 * (c / treeRCArity ^ 3) + j) := by
  intro j hj
  refine (TreeProof.getTreeRNodes_window 3 3 replica treeRNodes c j hj).trans (hreplica _ ?_)
  have hsplit : treeRCArity ^ levels = treeRCArity ^ 3 * treeRCArity ^ (levels - 3) := by
    rw [← pow_add, Nat.add_sub_cancel' hlevels]
  have hwindow : c / treeRCArity ^ 3 < treeRCArity ^ (levels - 3) := by
    rw [Nat.div_lt_iff_lt_mul (by decide), Nat.mul_comm, ← hsplit]
    exact hc
  calc treeRCArity ^ 3 * (c / treeRCArity ^ 3) + j
      < treeRCArity ^ 3 * (c / treeRCArity ^ 3 + 1) := by
        rw [Nat.mul_succ]
        exact Nat.add_lt_add_left hj _
    _ ≤ treeRCArity ^ levels := hsplit ▸ Nat.mul_le_mul_left _ hwindow

/-- The path of tree R: three levels are rebuilt from the replica, and the others are in the files. -/
lemma Pc2Run.Leaves.treeR_proves (h : R.Leaves i files) (hi : i < Z.setup.C.parallelSectors)
    (hk : Z.size.GpuUniform k) (hc : c < Z.size.numLeaves)
    (hreplica : ∀ n < Z.size.numLeaves, files.replica n = Z.trees.replica i n) :
    ((Z.c1 i files seed ticket challenges).treeRProof heap c).Proves (Z.poseidon treeRCArity) c
      (Z.trees.replica i c) (files.pAux 1) := by
  rw [hk.leaves] at hc hreplica
  set t := Z.treeR files heap.pathBuf with ht
  have hfiles := h.files_treeR heap.pathBuf hi hk
  have hlevels := hk.four_le
  set nodes := getTreeRNodes (treeRCArity ^ (Z.size.treeRDiscardRows + 1)) files.replica
    heap.treeRNodes c with hnodes
  have hwindow : ∀ j < treeRCArity ^ 3, nodes j =
      Z.trees.replica i (treeRCArity ^ 3 * (c / treeRCArity ^ 3) + j) := by
    rw [hnodes, hk.discard]
    exact treeRNodes_eq (Nat.le_of_succ_le hlevels) hc hreplica
  obtain ⟨q, hq, hleaf, hsteps⟩ := @TreeProof.performFirstLevels_steps _ (Z.poseidon treeRCArity) t _ 3
    c rfl hk.discard (Nat.le_of_succ_le hlevels) _ hwindow
  have hmore : (t.levels == 3) = false := beq_eq_false_iff_ne.mpr (Nat.ne_of_gt hlevels)
  have hpath : t.genInclusionPath (Z.poseidon treeRCArity) c (some nodes) = t.filePath c k 3 q := by
    have hstart : (if true then t.discardRows + 1 else 0) = 3 := congrArg (· + 1) hk.discard
    rw [TreeProof.genInclusionPath, hq, hmore, ← TreeProof.readTreeBufs_eq hfiles true q hstart]
    rfl
  have hall := TreeProof.steps_filePath hfiles hc hsteps
  refine TreeProofData.proves_of_openings (g := 3) rfl rfl ?_ ?_ hc (h.roots hi hk).2.symm
  · show (t.genInclusionPath (Z.poseidon treeRCArity) c (some nodes)).leaf.map
      ((t.genInclusionPath (Z.poseidon treeRCArity) c (some nodes)).deref t nodes) = _
    rw [hpath]
    exact hleaf
  · show (t.genInclusionPath (Z.poseidon treeRCArity) c (some nodes)).steps t nodes = _
    rw [hpath]
    exact hall

end Sealing

end SupraSeal
