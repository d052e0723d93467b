import SupraSeal.C1.Challenge
import SupraSeal.Sealing.FieldElement

/-!
# The sealed file

PC2 adds the data of a sector to its last layer. The result is written to the sealed file and is the
leaves of tree R (`hash_gpu` and `process_writes` of `pc2/cuda/pc2.cu`, the first kernel of
`poseidon/cuda/poseidon_kernels.cu`). A batch of nodes is read with the labels of all sectors next to
each other; the pages of PC1 have the bytes of each word in reverse order, layer files do not
(`data_is_big_endian`). `TreeR::ElementAdd` of `pc1/tree_r.hpp` is the encoding on the CPU.
-/

namespace SupraSeal

/-! ### Encoding on the CPU -/

/-- `TreeR::ElementAdd`. -/
def elementAdd (F : FrT) (a b : Node) : Node :=
  let aMont := F.toMont a
  let out := F.toMont b
  let out := F.add out aMont
  F.toScalar out

/-! ### Memory -/

/-- Copy `size` elements to position `offset`: `memcpy`, `HtoD`, or `write_data` on a file. -/
def copyTo (dst : ℕ → Node) (offset : ℕ) (src : ℕ → Node) (size : ℕ) : ℕ → Node := fun k =>
  if offset ≤ k ∧ k < offset + size then src (k - offset) else dst k

/-- What the buffers of a resource hold when a batch starts: the slot of the reader, as pages or as
nodes, and the buffers of the host, the device and the disk. -/
structure BatchMemory where
  pages : ℕ → Page
  slot : ℕ → Node
  replicaData : ℕ → Node
  columnDataD : ℕ → Node
  toDiskData : ℕ → Node

/-! ### Readers -/

/-- `streaming_node_reader_t`, from NVMe (`nvme/streaming_node_reader_nvme.hpp`) or from layer files
(`c1/streaming_node_reader_files.hpp`). -/
inductive NodeReader
  | nvme (C : Config) (numControllers blockOffset : ℕ) (disk : Disk)
  | files (numLayers : ℕ) (layerFiles : List (ℕ → Node))

namespace NodeReader

/-- `PARALLEL_SECTORS`; the reader of files asserts that it is one. -/
def parallelSectors : NodeReader → ℕ
  | nvme C _ _ _ => C.parallelSectors
  | files _ _ => 1

def numLayers : NodeReader → ℕ
  | nvme C _ _ _ => C.numLayers
  | files numLayers _ => numLayers

def dataIsBigEndian : NodeReader → Bool
  | nvme _ _ _ _ => false
  | files _ _ => true

/-- `load_layers`, `none` when an assertion fails. -/
def loadLayers (m : BatchMemory) (layer node nodeCount numLayers : ℕ) :
    NodeReader → Option (ℕ → Node)
  | nvme C numControllers blockOffset disk =>
    some (SupraSeal.loadLayers C numControllers blockOffset disk m.pages layer node nodeCount
      numLayers)
  | files totalLayers layerFiles =>
    if numLayers = 1 then
      if layer = totalLayers - 1 ∧ layerFiles.length = 1 then
        layerFiles[0]?.map fun file k => file (node + k)
      else none
    else if layerFiles.length = numLayers ∧ nodeCount % (pageSize / nodeSize) = 0 then
      some ((List.range numLayers).foldl (fun dest i => copyTo dest (i * nodeCount)
        (fun k => (layerFiles.getD i fun _ => ⟨fun _ => 0⟩) (node + k)) nodeCount) m.slot)
    else none

end NodeReader

/-! ### `hash_gpu` -/

/-- The members of `pc2_t` that matter here. The constructor and the callers make sure that the
batches of a stream fill its nodes. -/
structure Pc2 where
  reader : NodeReader
  treeROnly : Bool
  nodesToRead : ℕ
  batchSize : ℕ
  streamCount : ℕ
  numPartitions : ℕ
  /-- The data of the sectors that are not CC. -/
  dataFiles : ℕ → Option (ℕ → Node)
  numLayers_pos : 0 < reader.numLayers
  batchSize_pos : 0 < batchSize
  arity_dvd : treeRCArity ∣ batchSize
  nodesPerPage_dvd : pageSize / (reader.parallelSectors * nodeSize) ∣ batchSize
  batches_dvd : streamCount * batchSize ∣ nodesToRead

/-- `do_pc2` of `pc2/pc2.hpp`, for the sectors that are not hashed on the CPU. -/
def Pc2.doPc2 (size : SectorSize) (hgpu : ¬size.lg ≤ 15) {lg : ℕ} (h1 : 1 ≤ lg) (h7 : lg ≤ 7)
    (numControllers blockOffset : ℕ) (disk : Disk) (dataFiles : ℕ → Option (ℕ → Node)) : Pc2 where
  reader := .nvme (size.config h1 h7) numControllers blockOffset disk
  treeROnly := false
  nodesToRead := size.numLeaves / size.treeRCFiles
  batchSize := if size.lg < 24 then 64 * 8 else 64
  streamCount := if size.lg < 24 then 8 else 64
  numPartitions := size.treeRCFiles
  dataFiles := dataFiles
  numLayers_pos := size.numLayers_pos
  batchSize_pos := by split_ifs <;> decide
  arity_dvd := by split_ifs <;> decide
  nodesPerPage_dvd := by
    have hpage : pageSize / ((size.config h1 h7).parallelSectors * nodeSize) ∣ 64 := by
      have := (size.config h1 h7).nodesPerPage_eq
      rw [Config.nodesPerPage] at this
      rw [this, show 64 = 2 ^ 6 from rfl]
      exact Nat.pow_dvd_pow 2 (Nat.sub_le_sub_left h1 7)
    split_ifs
    · exact hpage.mul_right 8
    · exact hpage
  batches_dvd := by
    cases size <;> first | exact absurd (by decide) hgpu | decide

/-- `gpu_tree_r` of `tools/tree_r.cpp`. -/
def Pc2.gpuTreeR (size : SectorSize) (hgpu : ¬size.lg ≤ 15) (lastLayer : ℕ → Node)
    (data : Option (ℕ → Node)) : Pc2 where
  reader := .files size.numLayers [lastLayer]
  treeROnly := true
  nodesToRead := size.numLeaves / size.treeRCFiles
  batchSize := if size.lg ≤ 24 then 64 * 8 else 64 * 64
  streamCount := if size.lg ≤ 24 then 8 else 64
  numPartitions := size.treeRCFiles
  dataFiles _ := data
  numLayers_pos := size.numLayers_pos
  batchSize_pos := by split_ifs <;> decide
  arity_dvd := by split_ifs <;> decide
  nodesPerPage_dvd := by
    rw [NodeReader.parallelSectors]
    split_ifs <;> decide
  batches_dvd := by
    cases size <;> first | exact absurd (by decide) hgpu | decide

/-- `gpu_single_pc2` of `tools/pc2.cu`. -/
def Pc2.gpuSinglePc2 (size : SectorSize) (hgpu : ¬size.lg ≤ 15) (layers : List (ℕ → Node))
    (data : Option (ℕ → Node)) : Pc2 where
  reader := .files size.numLayers layers
  treeROnly := false
  nodesToRead := size.numLeaves / size.treeRCFiles
  batchSize := if size.lg ≤ 24 then 64 * 8 else 64 * 64 * 8
  streamCount := if size.lg ≤ 24 then 8 else 64
  numPartitions := size.treeRCFiles
  dataFiles _ := data
  numLayers_pos := size.numLayers_pos
  batchSize_pos := by split_ifs <;> decide
  arity_dvd := by split_ifs <;> decide
  nodesPerPage_dvd := by
    rw [NodeReader.parallelSectors]
    split_ifs <;> decide
  batches_dvd := by
    cases size <;> first | exact absurd (by decide) hgpu | decide

/-- `buf_to_disk_t`; `src` gives positions in `data`. -/
structure BufToDisk where
  data : ℕ → Node
  offset : ℕ
  src : ℕ → Option ℕ
  size : ℕ
  stride : ℕ
  reverse : Bool

namespace Pc2

variable (F : FrT) (P : Pc2)

def parallelSectors : ℕ := P.reader.parallelSectors

def numLayers : ℕ := P.reader.numLayers

/-- Nodes of a sector. -/
def numNodes : ℕ := P.numPartitions * P.nodesToRead

/-- `has_non_cc_sectors`, which `open_files` sets. -/
def hasNonCcSectors : Bool := (List.range P.parallelSectors).any fun i => (P.dataFiles i).isSome

/-- `start_node` of a batch: the node of the work item, the resource and the partition. -/
def startNode (partition id node : ℕ) : ℕ :=
  node * P.batchSize + P.nodesToRead / P.streamCount * id + partition * P.nodesToRead

/-- `DATA_READ`. -/
def dataRead (m : BatchMemory) (startNode : ℕ) : Option (ℕ → Node) :=
  P.reader.loadLayers m (if P.treeROnly then P.numLayers - 1 else 0) startNode P.batchSize
    (if P.treeROnly then 1 else P.numLayers)

/-- `layer11`. -/
def layer11 (columnData : ℕ → Node) : ℕ → Node :=
  if P.treeROnly then columnData
  else fun k => columnData (P.parallelSectors * (P.numLayers - 1) * P.batchSize + k)

/-- `if (!reader.data_is_big_endian()) n->reverse_l()`. -/
def fixEndian (n : Node) : Node := if !P.reader.dataIsBigEndian then n.reverseL else n

/-- The inner loop that encodes sector `i`. -/
def encodeSector (startNode i : ℕ) (encodeBuf : ℕ → Node) : ℕ → Node :=
  match P.dataFiles i with
  | none => encodeBuf
  | some file => (List.range P.batchSize).foldl (fun encodeBuf j =>
      let data := file (startNode + j)
      let elmt := i + j * P.parallelSectors
      let n := P.fixEndian (encodeBuf elmt)
      let n := F.add n data
      Function.update encodeBuf elmt (P.fixEndian n)) encodeBuf

/-- Encode the sectors that are not CC. -/
def encode (startNode : ℕ) (encodeBuf : ℕ → Node) : ℕ → Node :=
  (List.range P.parallelSectors).foldl (fun encodeBuf i => P.encodeSector F startNode i encodeBuf)
    encodeBuf

/-- `replica_data` after `DATA_WAIT`. -/
def replicaData (m : BatchMemory) (startNode : ℕ) (columnData : ℕ → Node) : ℕ → Node :=
  P.encode F startNode (copyTo m.replicaData 0 (P.layer11 columnData)
    (P.parallelSectors * P.batchSize))

/-- The buffer that `DATA_WAIT` hands to the disk. -/
def sealedToDisk (m : BatchMemory) (startNode : ℕ) (replicaData : ℕ → Node) : BufToDisk where
  data := copyTo m.toDiskData 0 replicaData (P.batchSize * P.parallelSectors)
  offset := startNode
  src i := if i < P.parallelSectors then some i else none
  size := P.batchSize
  stride := P.parallelSectors
  reverse := true

/-- `column_data_d` when tree R is hashed: `HASH_COLUMN` copies all layers, and
`HASH_COLUMN_LEAVES` the encoded layer over the last one. -/
def columnDataD (m : BatchMemory) (columnData replicaData : ℕ → Node) : ℕ → Node :=
  let columnDataD := if P.treeROnly then m.columnDataD
    else copyTo m.columnDataD 0 columnData (P.parallelSectors * P.numLayers * P.batchSize)
  if P.hasNonCcSectors || P.treeROnly then
    copyTo columnDataD (P.batchSize * P.parallelSectors * (P.numLayers - 1)) replicaData
      (P.parallelSectors * P.batchSize)
  else columnDataD

end Pc2

/-- The element that a thread of `poseidon_hash_1_0` takes for input `hashInput` of hash `hashNum`
when `first_tree_r` is set. -/
def treeRElement (inPtr : ℕ → Node) (numHashes stride : ℕ) (doBswap : Bool)
    (hashNum hashInput : ℕ) : Node :=
  let numBatches := (numHashes + stride - 1) / stride
  let node := hashNum % numBatches
  let sector := hashNum / numBatches
  let firstElement := node * treeRCArity * stride + sector
  let elementIndex := firstElement + (hashInput - 1) * stride
  let element := inPtr elementIndex
  -- `bswap` permutes the bytes of each word as `reverse_l` does
  if doBswap then element.reverseL else element

namespace Pc2

variable (F : FrT) (P : Pc2)

/-- Inputs of the hash of tree R in `HASH_COLUMN_LEAVES`. -/
def treeRInput (columnDataD : ℕ → Node) (hashNum hashInput : ℕ) : Node :=
  treeRElement (fun k => columnDataD (P.batchSize * P.parallelSectors * (P.numLayers - 1) + k))
    (P.batchSize * P.parallelSectors / treeRCArity) P.parallelSectors (!P.reader.dataIsBigEndian)
    hashNum hashInput

/-- A batch: the buffer for the sealed files and the inputs of tree R. -/
def hashBatch (m : BatchMemory) (startNode : ℕ) : Option (BufToDisk × (ℕ → ℕ → Node)) := do
  let columnData ← P.dataRead m startNode
  let replicaData := P.replicaData F m startNode columnData
  let columnDataD := P.columnDataD m columnData replicaData
  return (P.sealedToDisk m startNode replicaData, P.treeRInput columnDataD)

/-- `process_writes` on one buffer, for the files of the sectors; `none` when the assertion on the
size fails. -/
def processWrites (toDisk : BufToDisk) (files : ℕ → ℕ → Node) : Option (ℕ → ℕ → Node) :=
  let maxWriteSize := P.batchSize
  let write (staging : ℕ → ℕ → Node) : ℕ → ℕ → Node := fun i =>
    if i < P.parallelSectors then
      match toDisk.src i with
      | none => files i
      | some src => copyTo (files i) toDisk.offset (staging src) toDisk.size
    else files i
  if toDisk.size = 0 then some files
  else if toDisk.stride = 1 then some (write fun src j => toDisk.data (src + j))
  else if maxWriteSize ≤ toDisk.size then
    some (write fun src j =>
      let n := toDisk.data (src + j * toDisk.stride)
      if toDisk.reverse then n.reverseL else n)
  else none

/-- Encode and write batches. -/
def sealBatches : List (BatchMemory × ℕ) → (ℕ → ℕ → Node) → Option (ℕ → ℕ → Node)
  | [], files => some files
  | (m, startNode) :: batches, files => do
    let (toDisk, _) ← P.hashBatch F m startNode
    let files ← P.processWrites toDisk files
    sealBatches batches files

/-! ### What is read and what should come out -/

/-- A batch of some partition and resource. -/
def IsBatch (start : ℕ) : Prop :=
  ∃ partition id node, partition < P.numPartitions ∧ id < P.streamCount ∧
    node < P.nodesToRead / P.streamCount / P.batchSize ∧ start = P.startNode partition id node

/-- The labels, by layer, node and sector, are where the reader looks for them. PC1 has written all
its pages, to at least two sectors, with the words of the labels turned around; the layer files have
the labels of one sector as they are. -/
def Stores (labels : ℕ → ℕ → ℕ → Node) : Prop :=
  match P.reader with
  | .nvme C numControllers blockOffset disk =>
    1 ≤ C.lgParallelSectors ∧ C.numNodes = P.numNodes ∧ ∃ written disk₀,
      (∀ m < C.numLayers * (C.numNodes / C.nodesPerPage), m ∈ written) ∧
      disk = pc1Write C numControllers blockOffset (fun l n i => (labels l n i).reverseL) written
        disk₀
  | .files numLayers layerFiles =>
    layerFiles = if P.treeROnly then [fun n => labels (numLayers - 1) n 0]
      else (List.range numLayers).map fun l n => labels l n 0

/-- The replica of a sector: the last layer, encoded on the CPU when the sector has data. -/
def replica (labels : ℕ → ℕ → ℕ → Node) (i n : ℕ) : Node :=
  match P.dataFiles i with
  | none => labels (P.numLayers - 1) n i
  | some file => elementAdd F (file n) (labels (P.numLayers - 1) n i)

variable {F P} {labels : ℕ → ℕ → ℕ → Node} {start i j : ℕ}

/-! ### Batches -/

lemma nodesPerStream_eq (hstreams : 0 < P.streamCount) :
    ∃ c, P.nodesToRead = P.streamCount * (c * P.batchSize) ∧
      P.nodesToRead / P.streamCount = c * P.batchSize ∧
      P.nodesToRead / P.streamCount / P.batchSize = c := by
  obtain ⟨c, hc⟩ := P.batches_dvd
  have hread : P.nodesToRead = P.streamCount * (c * P.batchSize) := by
    rw [hc, Nat.mul_assoc, Nat.mul_comm c]
  refine ⟨c, hread, ?_, ?_⟩
  · rw [hread, Nat.mul_div_cancel_left _ hstreams]
  · rw [hread, Nat.mul_div_cancel_left _ hstreams, Nat.mul_div_cancel _ P.batchSize_pos]

/-- A batch starts at a multiple of its size and ends before the sector does. -/
lemma IsBatch.bounds (h : P.IsBatch start) :
    P.batchSize ∣ start ∧ start + P.batchSize ≤ P.numNodes := by
  obtain ⟨partition, id, node, hpart, hid, hnode, rfl⟩ := h
  obtain ⟨c, hread, hstream, hc⟩ := P.nodesPerStream_eq (Nat.zero_lt_of_lt hid)
  rw [hc] at hnode
  simp only [startNode, hstream, numNodes]
  constructor
  · refine Nat.dvd_add (Nat.dvd_add (Nat.dvd_mul_left _ _) ?_) ?_
    · exact (Nat.dvd_mul_left _ c).mul_right id
    · rw [hread]
      exact (((Nat.dvd_mul_left _ c).mul_left _).mul_left _)
  · have hbatch : node * P.batchSize + P.batchSize ≤ c * P.batchSize := by
      rw [← Nat.succ_mul]
      exact Nat.mul_le_mul_right _ hnode
    have hres : c * P.batchSize * id + c * P.batchSize ≤ P.nodesToRead := by
      rw [hread, ← Nat.mul_succ, Nat.mul_comm P.streamCount]
      exact Nat.mul_le_mul_left _ hid
    have hparts : partition * P.nodesToRead + P.nodesToRead ≤ P.numPartitions * P.nodesToRead := by
      rw [← Nat.succ_mul]
      exact Nat.mul_le_mul_right _ hpart
    omega

/-- Every node is in a batch. -/
lemma exists_isBatch {n : ℕ} (hn : n < P.numNodes) :
    ∃ start, P.IsBatch start ∧ start ≤ n ∧ n < start + P.batchSize := by
  have hpos : 0 < P.nodesToRead := by
    apply Nat.pos_of_ne_zero
    intro hzero
    rw [numNodes, hzero, Nat.mul_zero] at hn
    exact Nat.not_lt_zero n hn
  have hstreams : 0 < P.streamCount := by
    apply Nat.pos_of_ne_zero
    intro hzero
    have hdvd := P.batches_dvd
    rw [hzero, Nat.zero_mul, Nat.zero_dvd] at hdvd
    omega
  obtain ⟨c, hread, hstream, hc⟩ := P.nodesPerStream_eq hstreams
  have hcb : 0 < c * P.batchSize := by
    apply Nat.pos_of_ne_zero
    intro hzero
    rw [hread, hzero, Nat.mul_zero] at hpos
    exact Nat.lt_irrefl 0 hpos
  -- the partition, the resource in it and the work item of the resource
  have hpart := Nat.div_add_mod n P.nodesToRead
  have hid := Nat.div_add_mod (n % P.nodesToRead) (c * P.batchSize)
  have hnode := Nat.div_add_mod (n % P.nodesToRead % (c * P.batchSize)) P.batchSize
  refine ⟨_, ⟨n / P.nodesToRead, n % P.nodesToRead / (c * P.batchSize),
    n % P.nodesToRead % (c * P.batchSize) / P.batchSize, ?_, ?_, ?_, rfl⟩, ?_⟩
  · exact Nat.div_lt_of_lt_mul (by rwa [Nat.mul_comm])
  · refine Nat.div_lt_of_lt_mul ?_
    rw [Nat.mul_comm, ← hread]
    exact Nat.mod_lt _ hpos
  · rw [hc]
    refine Nat.div_lt_of_lt_mul ?_
    rw [Nat.mul_comm P.batchSize]
    exact Nat.mod_lt _ hcb
  · have hlt := Nat.mod_lt (n % P.nodesToRead % (c * P.batchSize)) P.batchSize_pos
    simp only [startNode, hstream]
    rw [Nat.mul_comm (_ / P.batchSize), Nat.mul_comm (n / P.nodesToRead)]
    omega

end Pc2

/-! ### Copies -/

@[simp]
lemma copyTo_add {dst src : ℕ → Node} {offset size k : ℕ} (hk : k < size) :
    copyTo dst offset src size (offset + k) = src k := by
  rw [copyTo, if_pos ⟨Nat.le_add_right _ _, Nat.add_lt_add_left hk _⟩, Nat.add_sub_cancel_left]

lemma copyTo_of_not_mem {dst src : ℕ → Node} {offset size k : ℕ}
    (hk : k < offset ∨ offset + size ≤ k) : copyTo dst offset src size k = dst k := by
  rw [copyTo, if_neg]
  omega

lemma copyTo_zero {dst src : ℕ → Node} {size k : ℕ} (hk : k < size) :
    copyTo dst 0 src size k = src k := by
  have hadd : copyTo dst 0 src size (0 + k) = src k := copyTo_add hk
  rwa [Nat.zero_add] at hadd

/-- Copies one after the other, each of `size` elements. -/
lemma foldl_copyTo {src : ℕ → ℕ → Node} {dst : ℕ → Node} {size i k num : ℕ} (hi : i < num)
    (hk : k < size) :
    (List.range num).foldl (fun dst i => copyTo dst (i * size) (src i) size) dst (i * size + k) =
      src i k := by
  induction num with
  | zero => exact absurd hi (Nat.not_lt_zero i)
  | succ num ih =>
    rw [List.range_succ, List.foldl_append, List.foldl_cons, List.foldl_nil]
    rcases Nat.lt_succ_iff_lt_or_eq.mp hi with hlt | rfl
    · rw [copyTo_of_not_mem (.inl ?_)]
      · exact ih hlt
      · have := Nat.mul_le_mul_right size (Nat.succ_le_of_lt hlt)
        rw [Nat.succ_mul] at this
        omega
    · exact copyTo_add hk

section Updates

variable {α β γ : Type*} [DecidableEq β] (key : α → β) (g : α → γ → γ) {xs : List α}

/-- A loop leaves the places alone that it does not reach. -/
lemma foldl_modify_of_not_mem {b : β} (hb : b ∉ xs.map key) (f : β → γ) :
    xs.foldl (fun f y => Function.update f (key y) (g y (f (key y)))) f b = f b := by
  induction xs generalizing f with
  | nil => rfl
  | cons y xs ih =>
    rw [List.map_cons, List.mem_cons, not_or] at hb
    rw [List.foldl_cons, ih hb.2, Function.update_of_ne hb.1]

/-- A loop that reaches every place at most once changes each of them once. -/
lemma foldl_modify_eq (hnodup : (xs.map key).Nodup) {x : α} (hx : x ∈ xs) (f : β → γ) :
    xs.foldl (fun f y => Function.update f (key y) (g y (f (key y)))) f (key x) =
      g x (f (key x)) := by
  induction xs generalizing f with
  | nil => exact absurd hx List.not_mem_nil
  | cons y xs ih =>
    rw [List.map_cons, List.nodup_cons] at hnodup
    rw [List.foldl_cons]
    rcases List.mem_cons.mp hx with rfl | hmem
    · rw [foldl_modify_of_not_mem key g hnodup.1, Function.update_self]
    · have hne : key x ≠ key y := fun h => hnodup.1 (h ▸ List.mem_map_of_mem hmem)
      rw [ih hnodup.2 hmem, Function.update_of_ne hne]

end Updates

/-- The layers of a batch, read from files. -/
lemma NodeReader.loadLayers_files (m : BatchMemory) (layerFiles : List (ℕ → Node))
    {nodeCount num : ℕ} (numLayers layer node : ℕ) (hlen : layerFiles.length = num) (hnum : num ≠ 1)
    (hmod : nodeCount % (pageSize / nodeSize) = 0) :
    ∃ columnData, (files numLayers layerFiles).loadLayers m layer node nodeCount num =
      some columnData ∧ ∀ l < num, ∀ k < nodeCount, columnData (l * nodeCount + k) =
        layerFiles.getD l (fun _ => ⟨fun _ => 0⟩) (node + k) := by
  refine ⟨(List.range num).foldl (fun dest i => copyTo dest (i * nodeCount) (fun k =>
    layerFiles.getD i (fun _ => ⟨fun _ => 0⟩) (node + k)) nodeCount) m.slot, ?_, ?_⟩
  · rw [NodeReader.loadLayers, if_neg hnum, if_pos ⟨hlen, hmod⟩]
  · intro l hl k hk
    exact foldl_copyTo hl hk

namespace Pc2

variable {F : FrT} {P : Pc2} {labels : ℕ → ℕ → ℕ → Node} {start i j : ℕ}

/-! ### What is read -/

lemma parallelSectors_pos : 0 < P.parallelSectors := by
  rw [parallelSectors]
  cases P.reader with
  | nvme C => exact C.parallelSectors_pos
  | files => exact Nat.one_pos

@[simp]
lemma fixEndian_fixEndian (n : Node) : P.fixEndian (P.fixEndian n) = n := by
  simp only [fixEndian]
  split_ifs <;> simp

/-- The position of a node in a batch. -/
lemma pos_lt (hi : i < P.parallelSectors) (hj : j < P.batchSize) :
    i + j * P.parallelSectors < P.parallelSectors * P.batchSize := by
  have := Nat.mul_le_mul_right P.parallelSectors (Nat.succ_le_of_lt hj)
  rw [Nat.succ_mul, Nat.mul_comm P.batchSize] at this
  omega

/-- The last layer of a batch, as it lies in memory. -/
lemma dataRead_eq (hstores : P.Stores labels) (hstart : P.IsBatch start) (m : BatchMemory) :
    ∃ columnData, P.dataRead m start = some columnData ∧ ∀ i < P.parallelSectors,
      ∀ j < P.batchSize, P.layer11 columnData (i + j * P.parallelSectors) =
        P.fixEndian (labels (P.numLayers - 1) (start + j) i) := by
  obtain ⟨hdvd, hle⟩ := hstart.bounds
  have hL := P.numLayers_pos
  have hpages := P.nodesPerPage_dvd
  simp only [dataRead, layer11, fixEndian, parallelSectors, numLayers]
  simp only [Stores] at hstores
  cases hreader : P.reader with
  | nvme C numControllers blockOffset disk =>
    rw [hreader] at hstores hL hpages
    obtain ⟨-, hnodes, written, disk₀, hw, rfl⟩ := hstores
    refine ⟨_, rfl, ?_⟩
    intro i hi j hj
    have hi : i < C.parallelSectors := hi
    have hpages : C.nodesPerPage ∣ P.batchSize := hpages
    have hL : 0 < C.numLayers := hL
    rw [← hnodes] at hle
    cases htree : P.treeROnly with
    | true =>
      have hread : loadLayers C numControllers blockOffset (pc1Write C numControllers blockOffset
          (fun l n i => (labels l n i).reverseL) written disk₀) m.pages (C.numLayers - 1) start
          P.batchSize 1 ((0 * P.batchSize + j) * C.parallelSectors + i) =
            (labels (C.numLayers - 1) (start + j) i).reverseL :=
        loadLayers_pc1Write hw (by omega) (hpages.trans hdvd) hpages hle Nat.one_pos hj hi
      rw [Nat.zero_mul, Nat.zero_add, Nat.add_comm _ i] at hread
      simpa [NodeReader.numLayers, NodeReader.dataIsBigEndian, NodeReader.parallelSectors] using hread
    | false =>
      have hread : loadLayers C numControllers blockOffset (pc1Write C numControllers blockOffset
          (fun l n i => (labels l n i).reverseL) written disk₀) m.pages 0 start P.batchSize
          C.numLayers (((C.numLayers - 1) * P.batchSize + j) * C.parallelSectors + i) =
            (labels (0 + (C.numLayers - 1)) (start + j) i).reverseL :=
        loadLayers_pc1Write hw (by omega) (hpages.trans hdvd) hpages hle (by omega) hj hi
      have hpos : ((C.numLayers - 1) * P.batchSize + j) * C.parallelSectors + i =
          C.parallelSectors * (C.numLayers - 1) * P.batchSize + (i + j * C.parallelSectors) := by
        ring
      rw [hpos, Nat.zero_add] at hread
      simpa [NodeReader.numLayers, NodeReader.dataIsBigEndian, NodeReader.parallelSectors] using hread
  | files numLayers layerFiles =>
    rw [hreader] at hstores hL hpages
    have hL : 0 < numLayers := hL
    dsimp only at hstores
    cases htree : P.treeROnly with
    | true =>
      rw [htree, if_pos rfl] at hstores
      subst hstores
      refine ⟨fun k => labels (numLayers - 1) (start + k) 0, ?_, ?_⟩
      · simp [NodeReader.loadLayers, NodeReader.numLayers]
      · intro i hi j hj
        obtain rfl : i = 0 := Nat.lt_one_iff.mp hi
        simp [NodeReader.numLayers, NodeReader.dataIsBigEndian, NodeReader.parallelSectors]
    | false =>
      rw [htree, if_neg (by decide)] at hstores
      subst hstores
      by_cases hone : numLayers = 1
      · subst hone
        refine ⟨fun k => labels 0 (start + k) 0, ?_, ?_⟩
        · simp [NodeReader.loadLayers, NodeReader.numLayers]
        · intro i hi j hj
          obtain rfl : i = 0 := Nat.lt_one_iff.mp hi
          simp [NodeReader.numLayers, NodeReader.dataIsBigEndian, NodeReader.parallelSectors]
      · have hmod : P.batchSize % (pageSize / nodeSize) = 0 :=
          Nat.mod_eq_zero_of_dvd (by simpa [NodeReader.parallelSectors] using hpages)
        obtain ⟨columnData, hload, hdata⟩ := NodeReader.loadLayers_files m
          ((List.range numLayers).map fun l n => labels l n 0) numLayers 0 start
          (by simp) hone hmod
        refine ⟨columnData, hload, ?_⟩
        intro i hi j hj
        obtain rfl : i = 0 := Nat.lt_one_iff.mp hi
        have hlast := hdata (numLayers - 1) (by omega) j hj
        rw [List.getD_eq_getElem _ _ (by simp; omega), List.getElem_map, List.getElem_range] at hlast
        simpa [NodeReader.numLayers, NodeReader.dataIsBigEndian, NodeReader.parallelSectors]
          using hlast

/-! ### The loops of the encoding -/

/-- One sector, at one position. -/
lemma encodeSector_eq {file : ℕ → Node} (hfile : P.dataFiles i = some file) (buf : ℕ → Node)
    (hj : j < P.batchSize) : P.encodeSector F start i buf (i + j * P.parallelSectors) =
      P.fixEndian (F.add (P.fixEndian (buf (i + j * P.parallelSectors))) (file (start + j))) := by
  have hpos := P.parallelSectors_pos
  rw [encodeSector, hfile]
  dsimp only
  refine foldl_modify_eq (fun j => i + j * P.parallelSectors)
    (fun j n => P.fixEndian (F.add (P.fixEndian n) (file (start + j)))) ?_
    (List.mem_range.mpr hj) buf
  refine List.Nodup.map ?_ List.nodup_range
  intro j j' h
  exact Nat.eq_of_mul_eq_mul_right hpos (Nat.add_left_cancel h)

/-- The other sectors are left as they are. -/
lemma encodeSector_of_ne {i' : ℕ} (buf : ℕ → Node) (hi : i < P.parallelSectors)
    (hi' : i' < P.parallelSectors) (hne : i ≠ i') :
    P.encodeSector F start i' buf (i + j * P.parallelSectors) =
      buf (i + j * P.parallelSectors) := by
  rw [encodeSector]
  cases P.dataFiles i' with
  | none => rfl
  | some file =>
    dsimp only
    refine foldl_modify_of_not_mem (fun j => i' + j * P.parallelSectors)
      (fun j n => P.fixEndian (F.add (P.fixEndian n) (file (start + j)))) ?_ buf
    intro hmem
    obtain ⟨j', -, hj'⟩ := List.mem_map.mp hmem
    -- the sector is the remainder of the position
    have hmod := congrArg (· % P.parallelSectors) hj'
    simp only [Nat.add_mul_mod_self_right, Nat.mod_eq_of_lt hi, Nat.mod_eq_of_lt hi'] at hmod
    exact hne hmod.symm

/-- What the encoding makes of an element of sector `i`. -/
def encodeElement (F : FrT) (P : Pc2) (start i j : ℕ) (n : Node) : Node :=
  match P.dataFiles i with
  | none => n
  | some file => P.fixEndian (F.add (P.fixEndian n) (file (start + j)))

lemma encode_eq (buf : ℕ → Node) (hi : i < P.parallelSectors) (hj : j < P.batchSize) :
    P.encode F start buf (i + j * P.parallelSectors) =
      P.encodeElement F start i j (buf (i + j * P.parallelSectors)) := by
  have hloop : ∀ num ≤ P.parallelSectors, (List.range num).foldl (fun buf i =>
      P.encodeSector F start i buf) buf (i + j * P.parallelSectors) =
        if i < num then P.encodeElement F start i j (buf (i + j * P.parallelSectors))
        else buf (i + j * P.parallelSectors) := by
    intro num hnum
    induction num with
    | zero => rfl
    | succ num ih =>
      rw [List.range_succ, List.foldl_append, List.foldl_cons, List.foldl_nil]
      by_cases heq : i = num
      · subst heq
        have hbuf := ih (by omega)
        rw [if_neg (Nat.lt_irrefl i)] at hbuf
        rw [if_pos (Nat.lt_succ_self i), encodeElement]
        cases hfile : P.dataFiles i with
        | none =>
          rw [encodeSector, hfile]
          exact hbuf
        | some file => rw [encodeSector_eq hfile _ hj, hbuf]
      · rw [encodeSector_of_ne _ hi (by omega) heq, ih (by omega)]
        have hiff : i < num ↔ i < num + 1 := by omega
        simp only [hiff]
  rw [encode, hloop _ (le_refl _), if_pos hi]

/-! ### Agreement -/

/-- The addition of the encoding is that of the CPU. -/
lemma add_eq_elementAdd {label data : Node} (hlabel : label.val < frModulus)
    (hdata : data.val < frModulus) : F.add label data = elementAdd F data label := by
  apply Node.val_injective
  rw [F.val_add _ _ hlabel hdata, elementAdd, F.val_toScalar_add hlabel hdata]

/-- The labels of the last layer and the data are field elements. -/
structure InField (P : Pc2) (labels : ℕ → ℕ → ℕ → Node) : Prop where
  labels : ∀ n < P.numNodes, ∀ i < P.parallelSectors,
    (labels (P.numLayers - 1) n i).val < frModulus
  data : ∀ i < P.parallelSectors, ∀ file, P.dataFiles i = some file → ∀ n < P.numNodes,
    (file n).val < frModulus

lemma replica_val (hfield : P.InField labels) {n : ℕ} (hn : n < P.numNodes)
    (hi : i < P.parallelSectors) : (P.replica F labels i n).val =
      match P.dataFiles i with
      | none => (labels (P.numLayers - 1) n i).val
      | some file => ((labels (P.numLayers - 1) n i).val + (file n).val) % frModulus := by
  rw [replica]
  cases hfile : P.dataFiles i with
  | none => rfl
  | some file =>
    exact F.val_toScalar_add (hfield.labels n hn i hi) (hfield.data i hi file hfile n hn)

/-- The replica of a batch in the buffer of the host. -/
lemma replicaData_eq (hfield : P.InField labels) (hstart : P.IsBatch start) (m : BatchMemory)
    {columnData : ℕ → Node} (hi : i < P.parallelSectors) (hj : j < P.batchSize)
    (hread : P.layer11 columnData (i + j * P.parallelSectors) =
      P.fixEndian (labels (P.numLayers - 1) (start + j) i)) :
    P.replicaData F m start columnData (i + j * P.parallelSectors) =
      P.fixEndian (P.replica F labels i (start + j)) := by
  have hn : start + j < P.numNodes := by
    have := hstart.bounds.2
    omega
  rw [replicaData, encode_eq _ hi hj, copyTo_zero (pos_lt hi hj), hread, encodeElement, replica]
  cases hfile : P.dataFiles i with
  | none => rfl
  | some file =>
    dsimp only
    rw [fixEndian_fixEndian, add_eq_elementAdd (hfield.labels _ hn i hi)
      (hfield.data i hi file hfile _ hn)]

/-- One sector is read from files, several from NVMe. -/
lemma parallelSectors_eq_one_iff (hstores : P.Stores labels) :
    P.parallelSectors = 1 ↔ P.reader.dataIsBigEndian = true := by
  rw [Stores] at hstores
  rw [parallelSectors]
  cases hreader : P.reader with
  | nvme C =>
    rw [hreader] at hstores
    have htwo : 2 ^ 1 ≤ C.parallelSectors := Nat.pow_le_pow_right (by decide) hstores.1
    simp only [NodeReader.parallelSectors, NodeReader.dataIsBigEndian, Bool.false_eq_true, iff_false]
    omega
  | files => simp [NodeReader.parallelSectors, NodeReader.dataIsBigEndian]

/-- The writer puts the elements of each sector in a row, with their bytes in order, and leaves the
rest of the files alone. -/
lemma processWrites_sealedToDisk (hstores : P.Stores labels) (m : BatchMemory) (start : ℕ)
    (replicaData : ℕ → Node) (files : ℕ → ℕ → Node) :
    ∃ files', P.processWrites (P.sealedToDisk m start replicaData) files = some files' ∧
      ∀ i < P.parallelSectors,
        (∀ j < P.batchSize, files' i (start + j) =
          P.fixEndian (replicaData (i + j * P.parallelSectors))) ∧
        ∀ n, n < start ∨ start + P.batchSize ≤ n → files' i n = files i n := by
  have hdata : ∀ i < P.parallelSectors, ∀ j < P.batchSize,
      copyTo m.toDiskData 0 replicaData (P.batchSize * P.parallelSectors)
        (i + j * P.parallelSectors) = replicaData (i + j * P.parallelSectors) := by
    intro i hi j hj
    refine copyTo_zero ?_
    rw [Nat.mul_comm P.batchSize]
    exact pos_lt hi hj
  have hone := P.parallelSectors_eq_one_iff hstores
  simp only [processWrites, sealedToDisk, P.batchSize_pos.ne', if_false, le_refl, if_true]
  by_cases hS : P.parallelSectors = 1
  · rw [if_pos hS]
    refine ⟨_, rfl, ?_⟩
    intro i hi
    simp only [if_pos hi]
    refine ⟨?_, fun n hn => copyTo_of_not_mem hn⟩
    intro j hj
    rw [copyTo_add hj, fixEndian, hone.mp hS]
    have hpos := hdata i hi j hj
    simp only [hS, Nat.mul_one] at hpos ⊢
    exact hpos
  · rw [if_neg hS]
    refine ⟨_, rfl, ?_⟩
    intro i hi
    simp only [if_pos hi]
    refine ⟨?_, fun n hn => copyTo_of_not_mem hn⟩
    intro j hj
    rw [copyTo_add hj, hdata i hi j hj, fixEndian, Bool.eq_false_iff.mpr (mt hone.mpr hS)]
    rfl

/-- The inputs of the hashes of tree R. -/
lemma treeRInput_eq (columnDataD : ℕ → Node) (hj : j < P.batchSize) :
    P.treeRInput columnDataD (i * (P.batchSize / treeRCArity) + j / treeRCArity)
        (j % treeRCArity + 1) =
      P.fixEndian (columnDataD (P.batchSize * P.parallelSectors * (P.numLayers - 1) +
        (i + j * P.parallelSectors))) := by
  have hS := P.parallelSectors_pos
  obtain ⟨b, hb⟩ := P.arity_dvd
  have harity : 0 < treeRCArity := by decide
  have hjb : j / treeRCArity < b := Nat.div_lt_of_lt_mul (hb ▸ hj)
  have hbatch : P.batchSize / treeRCArity = b := by
    rw [hb, Nat.mul_div_cancel_left _ harity]
  have hhashes : P.batchSize * P.parallelSectors / treeRCArity = P.parallelSectors * b := by
    rw [hb, Nat.mul_assoc, Nat.mul_div_cancel_left _ harity, Nat.mul_comm]
  have hbatches : (P.parallelSectors * b + P.parallelSectors - 1) / P.parallelSectors = b := by
    rw [Nat.add_sub_assoc hS, Nat.mul_add_div hS, Nat.div_eq_of_lt (by omega), Nat.add_zero]
  have hpos : j / treeRCArity * treeRCArity * P.parallelSectors + i +
      j % treeRCArity * P.parallelSectors = i + j * P.parallelSectors := by
    conv_rhs => rw [← Nat.div_add_mod j treeRCArity]
    ring
  simp only [treeRInput, treeRElement, hbatch, hhashes, hbatches, Nat.add_sub_cancel, fixEndian]
  rw [Nat.mul_comm i, Nat.mul_add_mod, Nat.mod_eq_of_lt hjb, Nat.mul_add_div (Nat.zero_lt_of_lt hjb),
    Nat.div_eq_of_lt hjb, Nat.add_zero, hpos]

/-- The last layer on the device is the replica, whether it was copied over or not. -/
lemma columnDataD_eq (m : BatchMemory) {columnData : ℕ → Node} (hi : i < P.parallelSectors)
    (hj : j < P.batchSize) (hread : P.layer11 columnData (i + j * P.parallelSectors) =
      P.fixEndian (labels (P.numLayers - 1) (start + j) i)) {replicaData : ℕ → Node}
    (hreplica : replicaData (i + j * P.parallelSectors) =
      P.fixEndian (P.replica F labels i (start + j))) :
    P.columnDataD m columnData replicaData (P.batchSize * P.parallelSectors * (P.numLayers - 1) +
      (i + j * P.parallelSectors)) = P.fixEndian (P.replica F labels i (start + j)) := by
  have hlt := pos_lt (P := P) hi hj
  simp only [columnDataD]
  by_cases hcopy : (P.hasNonCcSectors || P.treeROnly) = true
  · rw [if_pos hcopy, copyTo_add hlt, hreplica]
  · rw [Bool.or_eq_true, not_or, Bool.not_eq_true, Bool.not_eq_true] at hcopy
    obtain ⟨hcc, htree⟩ := hcopy
    -- all sectors are CC, so that the layer itself is the replica
    have hfile : P.dataFiles i = none := by
      simp only [hasNonCcSectors, List.any_eq_false, List.mem_range] at hcc
      simpa using hcc i hi
    simp only [layer11, htree, Bool.false_eq_true, if_false] at hread
    simp only [hcc, htree, Bool.false_eq_true, if_false, Bool.or_self]
    rw [replica, hfile]
    dsimp only
    rw [← hread, copyTo_zero]
    · congr 1
      ring
    · obtain ⟨l, hl⟩ := Nat.exists_eq_succ_of_ne_zero P.numLayers_pos.ne'
      have hL : P.numLayers = l + 1 := hl
      rw [hL, Nat.add_sub_cancel]
      calc P.batchSize * P.parallelSectors * l + (i + j * P.parallelSectors)
          < P.batchSize * P.parallelSectors * l + P.parallelSectors * P.batchSize :=
            Nat.add_lt_add_left hlt _
        _ = P.parallelSectors * (l + 1) * P.batchSize := by ring

/-- A batch: what is written for it and what is hashed. -/
lemma hashBatch_eq (hstores : P.Stores labels) (hfield : P.InField labels)
    (hstart : P.IsBatch start) (m : BatchMemory) : ∃ replicaData input,
      P.hashBatch F m start = some (P.sealedToDisk m start replicaData, input) ∧
      ∀ i < P.parallelSectors, ∀ j < P.batchSize,
        replicaData (i + j * P.parallelSectors) = P.fixEndian (P.replica F labels i (start + j)) ∧
        input (i * (P.batchSize / treeRCArity) + j / treeRCArity) (j % treeRCArity + 1) =
          P.replica F labels i (start + j) := by
  obtain ⟨columnData, hload, hread⟩ := dataRead_eq hstores hstart m
  refine ⟨P.replicaData F m start columnData, P.treeRInput (P.columnDataD m columnData
    (P.replicaData F m start columnData)), ?_, ?_⟩
  · rw [hashBatch, hload]
    rfl
  · intro i hi j hj
    have hreplica := replicaData_eq (F := F) hfield hstart m hi hj (hread i hi j hj)
    refine ⟨hreplica, ?_⟩
    rw [treeRInput_eq _ hj, columnDataD_eq m hi hj (hread i hi j hj) hreplica,
      fixEndian_fixEndian]

/-- The sealed files after some batches, in any order and also more than once. -/
lemma sealBatches_eq (hstores : P.Stores labels) (hfield : P.InField labels)
    {batches : List (BatchMemory × ℕ)} (hbatches : ∀ b ∈ batches, P.IsBatch b.2)
    (files : ℕ → ℕ → Node) : ∃ sealed, P.sealBatches F batches files = some sealed ∧
      ∀ i < P.parallelSectors, ∀ n,
        ((∃ b ∈ batches, b.2 ≤ n ∧ n < b.2 + P.batchSize) ∨ files i n = P.replica F labels i n) →
        sealed i n = P.replica F labels i n := by
  induction batches generalizing files with
  | nil =>
    refine ⟨files, rfl, ?_⟩
    intro i _ n h
    simpa using h
  | cons b batches ih =>
    obtain ⟨replicaData, input, hhash, hreplica⟩ :=
      hashBatch_eq (F := F) hstores hfield (hbatches b List.mem_cons_self) b.1
    obtain ⟨files', hwrite, hfiles⟩ :=
      processWrites_sealedToDisk hstores b.1 b.2 replicaData files
    obtain ⟨sealed, hseal, hsealed⟩ := ih (fun b hb => hbatches b (List.mem_cons_of_mem _ hb)) files'
    refine ⟨sealed, ?_, ?_⟩
    · simp only [sealBatches, hhash, hwrite, Option.bind_eq_bind, Option.bind_some, hseal]
    · intro i hi n h
      apply hsealed i hi n
      by_cases hin : b.2 ≤ n ∧ n < b.2 + P.batchSize
      · right
        obtain ⟨j, rfl⟩ := Nat.exists_eq_add_of_le hin.1
        have hj : j < P.batchSize := Nat.lt_of_add_lt_add_left hin.2
        rw [(hfiles i hi).1 j hj, (hreplica i hi j hj).1, fixEndian_fixEndian]
      · rcases h with ⟨b', hmem, hb'⟩ | hold
        · rcases List.mem_cons.mp hmem with rfl | hmem
          · exact absurd hb' hin
          · exact .inl ⟨b', hmem, hb'⟩
        · right
          rw [(hfiles i hi).2 n (by omega), hold]

/-- The sealed files, the leaves of tree R and the encoding on the CPU agree, for both readers and
any mixture of CC sectors and sectors with data. However the batches are ordered, every node of the
sealed file of a sector is its replica when all of them are written; in each batch the hash of tree R
takes the same element for it; and the replica is the label, or the sum of label and data in the
field for a sector with data. -/
theorem sealed_eq_replica (F : FrT) (P : Pc2) (labels : ℕ → ℕ → ℕ → Node)
    (hstores : P.Stores labels) (hfield : P.InField labels) :
    (∀ batches files, (∀ b ∈ batches, P.IsBatch b.2) →
      (∀ start, P.IsBatch start → ∃ m, (m, start) ∈ batches) →
      ∃ sealed, P.sealBatches F batches files = some sealed ∧ ∀ n < P.numNodes,
        ∀ i < P.parallelSectors, sealed i n = P.replica F labels i n) ∧
    (∀ m start, P.IsBatch start → ∃ toDisk input, P.hashBatch F m start = some (toDisk, input) ∧
      ∀ j < P.batchSize, ∀ i < P.parallelSectors,
        input (i * (P.batchSize / treeRCArity) + j / treeRCArity) (j % treeRCArity + 1) =
          P.replica F labels i (start + j)) ∧
    (∀ n < P.numNodes, ∃ start j, P.IsBatch start ∧ j < P.batchSize ∧ n = start + j) ∧
    ∀ n < P.numNodes, ∀ i < P.parallelSectors, (P.replica F labels i n).val =
      match P.dataFiles i with
      | none => (labels (P.numLayers - 1) n i).val
      | some file => ((labels (P.numLayers - 1) n i).val + (file n).val) % frModulus := by
  refine ⟨?_, ?_, ?_, ?_⟩
  · intro batches files hbatches hall
    obtain ⟨sealed, hseal, hsealed⟩ := sealBatches_eq (F := F) hstores hfield hbatches files
    refine ⟨sealed, hseal, ?_⟩
    intro n hn i hi
    obtain ⟨start, hstart, hle, hlt⟩ := exists_isBatch hn
    obtain ⟨m, hmem⟩ := hall start hstart
    exact hsealed i hi n (.inl ⟨_, hmem, hle, hlt⟩)
  · intro m start hstart
    obtain ⟨replicaData, input, hhash, hreplica⟩ := hashBatch_eq (F := F) hstores hfield hstart m
    exact ⟨_, input, hhash, fun j hj i hi => (hreplica i hi j hj).2⟩
  · intro n hn
    obtain ⟨start, hstart, hle, hlt⟩ := exists_isBatch hn
    exact ⟨start, n - start, hstart, by omega, by omega⟩
  · intro n hn i hi
    exact replica_val hfield hn hi

/-- Tree R of an 8MiB sector whose labels are all `r - 1` and whose data are all two: the replica is
all ones, and so is the sealed file. -/
theorem sealed_eq_replica_gpuTreeR :
    (∀ n < 262144, ((gpuTreeR .sector8MB (by decide) (fun _ => Node.ofVal (frModulus - 1))
      (some fun _ => Node.ofVal 2)).replica FrT.ofVal
        (fun _ _ _ => Node.ofVal (frModulus - 1)) 0 n).val = 1) ∧
    ∀ batches files, (∀ b ∈ batches, (gpuTreeR .sector8MB (by decide)
        (fun _ => Node.ofVal (frModulus - 1)) (some fun _ => Node.ofVal 2)).IsBatch b.2) →
      (∀ start, (gpuTreeR .sector8MB (by decide) (fun _ => Node.ofVal (frModulus - 1))
        (some fun _ => Node.ofVal 2)).IsBatch start → ∃ m, (m, start) ∈ batches) →
      ∃ sealed, (gpuTreeR .sector8MB (by decide) (fun _ => Node.ofVal (frModulus - 1))
          (some fun _ => Node.ofVal 2)).sealBatches FrT.ofVal batches files = some sealed ∧
        ∀ n < 262144, (sealed 0 n).val = 1 := by
  have hlabel : (Node.ofVal (frModulus - 1)).val = frModulus - 1 := Node.val_ofVal (by decide)
  have hdata : (Node.ofVal 2).val = 2 := Node.val_ofVal (by decide)
  have hagree := sealed_eq_replica FrT.ofVal (gpuTreeR .sector8MB (by decide)
    (fun _ => Node.ofVal (frModulus - 1)) (some fun _ => Node.ofVal 2))
    (fun _ _ _ => Node.ofVal (frModulus - 1)) rfl
    ⟨fun n _ i _ => by rw [hlabel]; decide, fun i _ file hfile n _ => by
      obtain rfl := Option.some.inj hfile
      rw [hdata]
      decide⟩
  obtain ⟨hseal, -, -, hval⟩ := hagree
  have hone : ∀ n < 262144, ((gpuTreeR .sector8MB (by decide) (fun _ => Node.ofVal (frModulus - 1))
      (some fun _ => Node.ofVal 2)).replica FrT.ofVal
        (fun _ _ _ => Node.ofVal (frModulus - 1)) 0 n).val = 1 := by
    intro n hn
    rw [hval n hn 0 Nat.one_pos]
    show ((Node.ofVal (frModulus - 1)).val + (Node.ofVal 2).val) % frModulus = 1
    rw [hlabel, hdata]
    decide
  refine ⟨hone, ?_⟩
  intro batches files hbatches hall
  obtain ⟨sealed, hrun, hsealed⟩ := hseal batches files hbatches hall
  refine ⟨sealed, hrun, ?_⟩
  intro n hn
  rw [hsealed n hn 0 Nat.one_pos, hone n hn]

end Pc2

end SupraSeal
