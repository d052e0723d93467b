import SupraSeal.Pc1.TreeBuilder
import SupraSeal.Pc2.TreeAddress
import SupraSeal.Pc2.WorkItems
import SupraSeal.Poseidon.Addressing

/-!
# The trees on the GPUs and the CPU

What `pc2_t` of `pc2/cuda/pc2.cu` writes to the tree files. The streams hash the rows of their parts
of a partition in batches (`hash_gpu`, from `HASH_COLUMN` to `HASH_LEAF`), and `hash_cpu` the rows
above. The trees of a partition go to one file of each sector.

An element stands for its value: byte order and Montgomery form are left to the hash functions. The
nodes of the sectors in device memory are where the kernels look for them.
-/

namespace SupraSeal

/-- `pc2_t`, with the sector parameters that it reads. The callers read a file in a partition, and
give batches of whole nodes. -/
structure GpuTrees (α : Type) where
  numNodes : ℕ
  numTreeRCFiles : ℕ
  numLayers : ℕ
  parallelSectors : ℕ
  discardRows : ℕ
  treeROnly : Bool
  nodesToRead : ℕ
  batchSize : ℕ
  streamCount : ℕ
  dataIsBigEndian : Bool
  /-- What `reader` has, by layer, node and sector. -/
  labels : ℕ → ℕ → ℕ → α
  /-- The data of the sectors that are not CC. -/
  dataFiles : ℕ → Option (ℕ → α)
  /-- A label and the data of its node. -/
  encode : α → α → α
  colHash : List α → α
  hash : List α → α
  numLayers_pos : 0 < numLayers
  parallelSectors_pos : 0 < parallelSectors
  discardRows_pos : 1 ≤ discardRows
  discardRows_le : discardRows ≤ 2
  arity_dvd : treeRCArity ∣ batchSize
  nodesToRead_eq : nodesToRead = numNodes / numTreeRCFiles

/-- `buf_to_disk_t` with stride one; `src` gives positions in `data`. -/
structure TreeWrite (α : Type) where
  data : ℕ → α
  offset : ℕ
  size : ℕ
  src : ℕ → ℕ

/-- The nodes that are written for a sector, with their positions in the file. -/
def TreeWrite.nodes {α : Type} (w : TreeWrite α) (sector : ℕ) : List (ℕ × α) :=
  (List.range w.size).map fun j => (w.offset + j, w.data (w.src sector + j))

/-- What a stream has in device memory, its part of `gpu_results_c` and `gpu_results_r`, and what it
handed to the disk. -/
structure GpuStream (α : Type) where
  columnDataD : ℕ → α
  buffers : ℕ → ℕ → α
  resultsC : ℕ → α
  resultsR : ℕ → α
  writesC : List (TreeWrite α)
  writesR : List (TreeWrite α)

/-- What is written in a partition, and the roots of the sectors. -/
structure PartitionWrites (α : Type) where
  writesC : List (TreeWrite α)
  writesR : List (TreeWrite α)
  rootsC : ℕ → α
  rootsR : ℕ → α

namespace GpuTrees

variable {α : Type} (P : GpuTrees α)

def nodesPerStream : ℕ := P.nodesToRead / P.streamCount

def treeCAddress : TreeAddress := .new (P.numNodes / P.numTreeRCFiles) nodeSize 0

def treeRAddress : TreeAddress :=
  .new (P.numNodes / P.numTreeRCFiles) nodeSize (P.discardRows + 1)

def layerOffsetsC : List ℕ := layerOffsets P.nodesPerStream

def layerOffsetsR : List ℕ :=
  layerOffsets ((· / treeRCArity)^[P.discardRows + 1] P.nodesPerStream)

/-- `nodes_to_hash` of `hash_cpu`, one layer above its input. -/
def nodesToHash : ℕ := P.batchSize * P.streamCount / treeRCArity / treeRCArity

def finalTree : TreeAddress := .new P.nodesToHash nodeSize 0

def finalGpuOffsetC : ℕ := P.treeCAddress.dataSize - P.finalTree.dataSize

def finalGpuOffsetR : ℕ := P.treeRAddress.dataSize - P.finalTree.dataSize

/-! ### Launches -/

lemma dvd_columns : P.parallelSectors ∣ P.batchSize * P.parallelSectors := Nat.dvd_mul_left ..

lemma leaves_eq : P.batchSize * P.parallelSectors / treeRCArity =
    P.batchSize / treeRCArity * P.parallelSectors := by
  rw [Nat.mul_comm, Nat.mul_div_assoc _ P.arity_dvd, Nat.mul_comm]

lemma dvd_leaves : P.parallelSectors ∣ P.batchSize * P.parallelSectors / treeRCArity :=
  ⟨P.batchSize / treeRCArity, by rw [leaves_eq, Nat.mul_comm]⟩

/-- The hashes of the columns. -/
def columnBatch : Poseidon.Batch where
  numHashes := P.batchSize * P.parallelSectors
  stride := P.parallelSectors
  stride_pos := P.parallelSectors_pos
  dvd := P.dvd_columns
  firstTreeC := true
  firstTreeR := false
  multiInPtr := false
  toMont := true
  fromMont := true
  doBswap := !P.dataIsBigEndian

/-- The first hashes of tree-c over the columns. -/
def treeCBatch : Poseidon.Batch where
  numHashes := P.batchSize * P.parallelSectors / treeRCArity
  stride := 1
  stride_pos := Nat.one_pos
  dvd := Nat.one_dvd _
  firstTreeC := false
  firstTreeR := false
  multiInPtr := false
  toMont := true
  fromMont := true
  doBswap := !P.dataIsBigEndian

/-- The first hashes of tree-r over the replica. -/
def treeRBatch : Poseidon.Batch where
  numHashes := P.batchSize * P.parallelSectors / treeRCArity
  stride := P.parallelSectors
  stride_pos := P.parallelSectors_pos
  dvd := P.dvd_leaves
  firstTreeC := false
  firstTreeR := true
  multiInPtr := false
  toMont := true
  fromMont := true
  doBswap := !P.dataIsBigEndian

/-- The other hashes, over the outputs of `treeRCArity` items. -/
def leafBatch : Poseidon.Batch where
  numHashes := P.batchSize * P.parallelSectors / treeRCArity
  stride := P.parallelSectors
  stride_pos := P.parallelSectors_pos
  dvd := P.dvd_leaves
  firstTreeC := false
  firstTreeR := false
  multiInPtr := true
  toMont := true
  fromMont := true
  doBswap := !P.dataIsBigEndian

/-- What a launch leaves in its output: the hash of the inputs of each node of each sector, as
`Poseidon.hashBatchPtrs_eq_hash` has it for the kernels. -/
def hashBatch (batch : Poseidon.Batch) (arity : ℕ) (hash : List α → α) (inPtrs : ℕ → ℕ → α)
    (out : ℕ → α) : ℕ → α := fun idx =>
  if idx < batch.numHashes then
    hash ((List.range arity).map fun a =>
      let cell := batch.inputCell arity (idx / batch.nodes) (idx % batch.nodes) a
      inPtrs cell.1 cell.2)
  else out idx

/-! ### A stream -/

/-- `HtoD` of `size` elements to position `offset`. -/
def htoD (dst : ℕ → α) (offset : ℕ) (src : ℕ → α) (size : ℕ) : ℕ → α := fun k =>
  if offset ≤ k ∧ k < offset + size then src (k - offset) else dst k

/-- `start_node`. -/
def startNode (partition id node : ℕ) : ℕ :=
  node * P.batchSize + P.nodesPerStream * id + partition * P.nodesToRead

/-- `column_data`: the labels from the first layer that is read on. -/
def columnData (startNode k : ℕ) : α :=
  let startLayer := if P.treeROnly then P.numLayers - 1 else 0
  P.labels (startLayer + k / (P.batchSize * P.parallelSectors))
    (startNode + k / P.parallelSectors % P.batchSize) (k % P.parallelSectors)

/-- `layer11`. -/
def layer11 (startNode k : ℕ) : α :=
  if P.treeROnly then P.columnData startNode k
  else P.columnData startNode (P.parallelSectors * (P.numLayers - 1) * P.batchSize + k)

/-- `replica_data`: the last layer, encoded where there is data. -/
def replicaData (startNode k : ℕ) : α :=
  match P.dataFiles (k % P.parallelSectors) with
  | none => P.layer11 startNode k
  | some file => P.encode (P.layer11 startNode k) (file (startNode + k / P.parallelSectors))

def hasNonCcSectors : Bool := (List.range P.parallelSectors).any fun i => (P.dataFiles i).isSome

/-- The write of a result to a tree file: one node for `per` nodes of a batch. -/
def treeWrite (t : TreeAddress) (layerOffsets : List ℕ) (id layer node per : ℕ) (data : ℕ → α) :
    Option (TreeWrite α) := do
  let layerOffset ← layerOffsets[layer]?
  let offset ← t.address layer (node * P.batchSize / per + layerOffset * id)
  some {
    data
    offset := offset / nodeSize
    size := P.batchSize / per
    src := fun i => i * P.batchSize / per }

/-- A write that is made when a flag is set. -/
def writeWhen (write : Bool) (w : Option (TreeWrite α)) : Option (List (TreeWrite α)) :=
  if write then w.map ([·]) else some []

/-- `HASH_COLUMN`. -/
def hashColumn (id : ℕ) (columnData : ℕ → α) (c : WorkItem) (s : GpuStream α) :
    Option (GpuStream α) := do
  let columnDataD := htoD s.columnDataD 0 columnData
    (P.parallelSectors * P.numLayers * P.batchSize)
  let buffers := Function.update s.buffers c.buf
    (hashBatch P.columnBatch P.numLayers P.colHash (fun _ => columnDataD) (s.buffers c.buf))
  let write ← P.treeWrite P.treeCAddress P.layerOffsetsC id (c.idx.1 - 1) c.idx.2 1 (buffers c.buf)
  some { s with columnDataD, buffers, writesC := s.writesC ++ [write] }

/-- `HASH_COLUMN_LEAVES`. The result of tree-c is copied to the host after both hashes. -/
def hashColumnLeaves (id : ℕ) (replicaData : ℕ → α) (c r : WorkItem) (s : GpuStream α) :
    Option (GpuStream α) := do
  let buffers := if P.treeROnly then s.buffers
    else Function.update s.buffers c.buf
      (hashBatch P.treeCBatch treeRCArity P.hash (fun _ => s.buffers c.buf) (s.buffers c.buf))
  let columnDataD := if P.hasNonCcSectors || P.treeROnly then
      htoD s.columnDataD (P.batchSize * P.parallelSectors * (P.numLayers - 1)) replicaData
        (P.parallelSectors * P.batchSize)
    else s.columnDataD
  let inR k := columnDataD (P.batchSize * P.parallelSectors * (P.numLayers - 1) + k)
  let buffers := Function.update buffers r.buf
    (hashBatch P.treeRBatch treeRCArity P.hash (fun _ => inR) (buffers r.buf))
  if P.treeROnly then some { s with columnDataD, buffers }
  else do
    let write ← P.treeWrite P.treeCAddress P.layerOffsetsC id c.idx.1 c.idx.2 treeRCArity
      (buffers c.buf)
    some { s with columnDataD, buffers, writesC := s.writesC ++ [write] }

/-- `HASH_LEAF`. -/
def hashLeaf (id : ℕ) (c r : WorkItem) (last : Bool) (s : GpuStream α) : Option (GpuStream α) := do
  let buffers := if P.treeROnly then s.buffers
    else Function.update s.buffers c.buf
      (hashBatch P.leafBatch treeRCArity P.hash (fun a => s.buffers (c.inputs a)) (s.buffers c.buf))
  let buffers := Function.update buffers r.buf
    (hashBatch P.leafBatch treeRCArity P.hash (fun a => buffers (r.inputs a)) (buffers r.buf))
  let writesC ← writeWhen (!P.treeROnly)
    (P.treeWrite P.treeCAddress P.layerOffsetsC id c.idx.1 c.idx.2 treeRCArity (buffers c.buf))
  let writesR ← writeWhen (P.discardRows < r.idx.1)
    (P.treeWrite P.treeRAddress P.layerOffsetsR id (r.idx.1 - P.discardRows - 1) r.idx.2 treeRCArity
      (buffers r.buf))
  some { s with
    buffers
    resultsC := if last && !P.treeROnly then buffers c.buf else s.resultsC
    resultsR := if last then buffers r.buf else s.resultsR
    writesC := s.writesC ++ writesC
    writesR := s.writesR ++ writesR }

/-- The hashes of a visit. -/
def hashItem (partition id : ℕ) (c r : WorkItem) (last : Bool) (s : GpuStream α) :
    Option (GpuStream α) :=
  if c.isLeaf then do
    let startNode := P.startNode partition id c.idx.2
    let s ← (if P.treeROnly then some s else P.hashColumn id (P.columnData startNode) c s :)
    P.hashColumnLeaves id (P.replicaData startNode) c r s
  else P.hashLeaf id c r last s

/-- The visits of a stream, in order; `last` is set for the last one. -/
def hashItems (partition id : ℕ) : List (WorkItem × WorkItem) → GpuStream α → Option (GpuStream α)
  | [], s => some s
  | (c, r) :: items, s => do
    let s ← P.hashItem partition id c r items.isEmpty s
    hashItems partition id items s

/-- The streams do not share buffers, and none has anything left for the disk when a partition
starts. -/
def hashStreams (partition : ℕ) (items : List (WorkItem × WorkItem)) :
    List ℕ → (ℕ → GpuStream α) → Option (ℕ → GpuStream α)
  | [], streams => some streams
  | id :: ids, streams => do
    let s ← P.hashItems partition id items { streams id with writesC := [], writesR := [] }
    hashStreams partition items ids (Function.update streams id s)

/-! ### The CPU -/

/-- Elements of `gpu_results_c` or `gpu_results_r` for a stream. -/
def resultStride : ℕ := P.batchSize * P.parallelSectors / treeRCArity

/-- `hash_func` of `hash_cpu`: the buffers after the item, and its write. -/
def hashFunc (input : ℕ → α) (fileOffset : ℕ) (w : WorkItem) (bufs : ℕ → ℕ → α) :
    Option (TreeWrite α × (ℕ → ℕ → α)) := do
  let groupSize := P.batchSize / treeRCArity
  let offset ← P.finalTree.address (w.idx.1 - 1) w.idx.2
  let firstInputNode := w.idx.2 * treeRCArity
  let leafInput sector i :=
    let inputGroup := (firstInputNode + i) / groupSize
    let nodeInGroup := (firstInputNode + i) % groupSize
    input (inputGroup * groupSize * P.parallelSectors + sector * groupSize + nodeInGroup)
  let out sector := P.hash ((List.range treeRCArity).map fun i =>
    if w.isLeaf then leafInput sector i else bufs (w.inputs i) sector)
  let bufs := Function.update bufs w.buf fun sector =>
    if sector < P.parallelSectors then out sector else bufs w.buf sector
  some (⟨bufs w.buf, (offset + fileOffset) / nodeSize, 1, fun sector => sector⟩, bufs)

def hashFuncs (input : ℕ → α) (fileOffset : ℕ) :
    List WorkItem → (ℕ → ℕ → α) → Option (List (TreeWrite α) × (ℕ → ℕ → α))
  | [], bufs => some ([], bufs)
  | w :: items, bufs => do
    let (write, bufs) ← P.hashFunc input fileOffset w bufs
    let (writes, bufs) ← hashFuncs input fileOffset items bufs
    some (write :: writes, bufs)

/-- `hash_cpu`: the writes, and the roots. The buffers of the host hold anything at first. -/
def hashCpu (fuel : ℕ) (input : ℕ → α) (fileOffset : ℕ) (bufs : ℕ → ℕ → α) :
    Option (List (TreeWrite α) × (ℕ → α)) := do
  let (items, scheduler, _) ← TreeScheduler.runLoop treeRCArity fuel (.reset P.nodesToHash) .init
  let (writes, bufs) ← P.hashFuncs input fileOffset items bufs
  some (writes, bufs scheduler.result)

/-! ### The partitions -/

/-- A partition: `hash_gpu`, then `hash_cpu` on the results of all streams. -/
def hashPartition (fuel : ℕ) (bufs : TreeResource.Tree → ℕ → ℕ → α) (partition : ℕ)
    (items : List (WorkItem × WorkItem)) (streams : ℕ → GpuStream α) :
    Option (PartitionWrites α × (ℕ → GpuStream α)) := do
  let ids := List.range P.streamCount
  let streams ← P.hashStreams partition items ids streams
  let gpuResultsC k := (streams (k / P.resultStride)).resultsC (k % P.resultStride)
  let gpuResultsR k := (streams (k / P.resultStride)).resultsR (k % P.resultStride)
  let (writesC, rootsC) ← (if P.treeROnly then some ([], bufs .c 0)
    else P.hashCpu fuel gpuResultsC P.finalGpuOffsetC (bufs .c) :)
  let (writesR, rootsR) ← P.hashCpu fuel gpuResultsR P.finalGpuOffsetR (bufs .r)
  some ({
    writesC := (ids.flatMap fun id => (streams id).writesC) ++ writesC
    writesR := (ids.flatMap fun id => (streams id).writesR) ++ writesR
    rootsC, rootsR }, streams)

/-- Partitions, one after the other. The schedulers of all streams are in the same state. -/
def hashPartitions (fuel : ℕ) (bufs : ℕ → TreeResource.Tree → ℕ → ℕ → α) :
    List ℕ → TreeResource → (ℕ → GpuStream α) → Option (List (PartitionWrites α))
  | [], _, _ => some []
  | partition :: partitions, resource, streams => do
    let initialNodes := P.nodesPerStream / P.batchSize
    let (items, resource) ← resource.hashGpu treeRCArity initialNodes fuel
    let (writes, streams) ← P.hashPartition fuel (bufs partition) partition items streams
    let rest ← hashPartitions fuel bufs partitions resource streams
    some (writes :: rest)

/-- `hash`, from any contents of the buffers. -/
def hashAll (fuel : ℕ) (bufs : ℕ → TreeResource.Tree → ℕ → ℕ → α) (streams : ℕ → GpuStream α) :
    Option (List (PartitionWrites α)) :=
  P.hashPartitions fuel bufs (List.range P.numTreeRCFiles)
    (.init (P.nodesPerStream / P.batchSize)) streams

/-! ### The builder on the CPU -/

/-- The builder of tree-c and tree-r. -/
def treeBuilder : TreeBuilder α where
  colArity := P.numLayers
  arity := treeRCArity
  discardRows := P.discardRows
  colHash := P.colHash
  hash := P.hash
  colArity_pos := P.numLayers_pos
  one_lt_arity := one_lt_treeRCArity

/-- The labels of the nodes of a partition, node by node. -/
def treeCInput (partition sector : ℕ) : ℕ → α := fun k =>
  P.labels (k % P.numLayers) (partition * P.nodesToRead + k / P.numLayers) sector

/-- A node of the replica. -/
def replica (sector node : ℕ) : α :=
  match P.dataFiles sector with
  | none => P.labels (P.numLayers - 1) node sector
  | some file => P.encode (P.labels (P.numLayers - 1) node sector) (file node)

def treeRInput (partition sector : ℕ) : ℕ → α := fun k =>
  P.replica sector (partition * P.nodesToRead + k)

/-- Nodes of the file of tree-c, from `size`. -/
def treeCSize : ℕ := P.treeBuilder.size (P.numLayers * P.nodesToRead) true false

def treeRSize : ℕ := P.treeBuilder.size P.nodesToRead false false

/-- What `BuildTree` returns and leaves in its output. -/
def treeCFile (mem : TreeMem α) (partition sector : ℕ) : α × (ℕ → α) :=
  let result := P.treeBuilder.buildTree (P.numLayers * P.nodesToRead) ⟨.out, 0⟩ ⟨.input, 0⟩ true
    false (Function.update mem .input (P.treeCInput partition sector))
  (result.1, result.2 .out)

def treeRFile (mem : TreeMem α) (partition sector : ℕ) : α × (ℕ → α) :=
  let result := P.treeBuilder.buildTree P.nodesToRead ⟨.out, 0⟩ ⟨.input, 0⟩ false false
    (Function.update mem .input (P.treeRInput partition sector))
  (result.1, result.2 .out)

end GpuTrees

end SupraSeal
