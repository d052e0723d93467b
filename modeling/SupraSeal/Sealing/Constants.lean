import Mathlib.Data.Nat.Bitwise
import Mathlib.Algebra.Order.Group.Nat

/-!
# Sizes and counts

The constants of `sealing/constants.hpp` that the modelled code reads, and the sealing
configuration: the sector parameters and the number of nodes that share a page.
-/

namespace SupraSeal

/-! ### Nodes and parents -/

def nodeSizeLg : ℕ := 5

/-- Bytes of a node, a SHA-256 digest. -/
def nodeSize : ℕ := 2 ^ nodeSizeLg

def pageSize : ℕ := 4096

/-- Parents from the same layer. -/
def parentCountBase : ℕ := 6

/-- Parents from the previous layer. -/
def parentCountExp : ℕ := 8

def parentCount : ℕ := parentCountBase + parentCountExp

/-! ### Buffers of PC1 -/

/-- Parent pointers contain pointers to all 14 parents. -/
def parentPtrBatchSize : ℕ := parentCount

/-- Only 13 nodes come from disk or cache since one was always just hashed. -/
def pageBatchSize : ℕ := parentCount - 1

def parentBufferBatches : ℕ := 2 ^ 18

def nodeBufferBatches : ℕ := parentBufferBatches * 2

def nodeBufferSyncLgBatchSize : ℕ := 2

def nodeBufferSyncBatchSize : ℕ := 2 ^ nodeBufferSyncLgBatchSize

def nodeBufferSyncBatchMask : ℕ := nodeBufferSyncBatchSize - 1

/-- `NODE_IDX_TO_SYNC_IDX`. -/
def nodeIdxToSyncIdx (idx : ℕ) : ℕ := idx >>> nodeBufferSyncLgBatchSize

def coordBatchSize : ℕ := 256

def coordBatchCount : ℕ := 4

def coordBatchNodeCount : ℕ := coordBatchSize * coordBatchCount

/-- `nvme_controller_t::queue_size`. -/
def queueSize : ℕ := 1024

/-- Sectors hashed by one hashing thread. -/
def nodesPerHasher : ℕ := 2

/-! ### Proofs of C1 -/

/-- Parents that are hashed for a label, with repetitions. -/
def labelParents : ℕ := 37

def layerOneRepeatSeq : ℕ := 6

def layerOneFinalSeq : ℕ := labelParents % (layerOneRepeatSeq * parentCountBase)

def layerNRepeatSeq : ℕ := 2

def layerNFinalSeq : ℕ := labelParents % (layerNRepeatSeq * parentCount)

def singleProofData : ℕ := 0

/-! ### Configuration -/

/-- `sealing_config_t`: the sector parameters PC1 reads and the number of sectors sealed in
parallel, a power of two that fits in a page. A page never spans two layers, since a layer has at
least `NODES_PER_PAGE` nodes. -/
structure Config where
  nodeBits : ℕ
  numLayers : ℕ
  lgParallelSectors : ℕ
  sectors_le : lgParallelSectors ≤ 7
  page_le_layer : 7 - lgParallelSectors ≤ nodeBits

namespace Config

lemma one_sector_le : 0 ≤ 7 := by decide

lemma two_sectors_le : 1 ≤ 7 := by decide

variable (C : Config)

def numNodes : ℕ := 2 ^ C.nodeBits

def nodeMask : ℕ := 2 ^ C.nodeBits - 1

def parallelSectors : ℕ := 2 ^ C.lgParallelSectors

def nodesPerPage : ℕ := pageSize / (C.parallelSectors * nodeSize)

/-- `node_stop` of `do_pc1`: all nodes of all layers. -/
def nodeStop : ℕ := C.numNodes * C.numLayers

lemma nodesPerPage_eq : C.nodesPerPage = 2 ^ (7 - C.lgParallelSectors) := by
  have hpage : pageSize = 2 ^ (7 - C.lgParallelSectors) * (C.parallelSectors * nodeSize) := by
    rw [parallelSectors, nodeSize, ← Nat.pow_add, ← Nat.pow_add,
      show 7 - C.lgParallelSectors + (C.lgParallelSectors + nodeSizeLg) = 12 by
        have := C.sectors_le
        rw [nodeSizeLg]
        omega]
    rfl
  rw [nodesPerPage, hpage, Nat.mul_div_cancel]
  exact Nat.mul_pos (Nat.two_pow_pos _) (Nat.two_pow_pos _)

lemma nodesPerPage_pos : 0 < C.nodesPerPage := by
  rw [nodesPerPage_eq]
  exact Nat.two_pow_pos _

lemma nodesPerPage_le : C.nodesPerPage ≤ 128 := by
  rw [nodesPerPage_eq]
  exact Nat.pow_le_pow_right (by decide) (Nat.sub_le 7 _)

lemma numNodes_pos : 0 < C.numNodes := Nat.two_pow_pos _

lemma nodesPerPage_dvd_numNodes : C.nodesPerPage ∣ C.numNodes := by
  rw [nodesPerPage_eq]
  exact Nat.pow_dvd_pow 2 C.page_le_layer

lemma nodesPerPage_dvd_nodeStop : C.nodesPerPage ∣ C.nodeStop :=
  C.nodesPerPage_dvd_numNodes.mul_right _

/-! ### Node ids -/

/-- `node_id_t(layer, node)`: layer and node combined into one id. -/
def nodeId (layer node : ℕ) : ℕ := (layer <<< C.nodeBits) ||| node

/-- `node_id_t::node()`. -/
def node (id : ℕ) : ℕ := id &&& C.nodeMask

/-- `node_id_t::layer()`. -/
def layer (id : ℕ) : ℕ := id >>> C.nodeBits

lemma node_eq_mod (id : ℕ) : C.node id = id % C.numNodes := by
  rw [node, nodeMask, numNodes, Nat.and_two_pow_sub_one_eq_mod]

lemma layer_eq_div (id : ℕ) : C.layer id = id / C.numNodes := by
  rw [layer, numNodes, Nat.shiftRight_eq_div_pow]

lemma nodeId_eq (layer : ℕ) {node : ℕ} (h : node < C.numNodes) :
    C.nodeId layer node = layer * C.numNodes + node := by
  rw [nodeId, ← Nat.shiftLeft_add_eq_or_of_lt h, Nat.shiftLeft_eq, numNodes]

lemma node_lt (id : ℕ) : C.node id < C.numNodes := by
  rw [node_eq_mod]
  exact Nat.mod_lt _ C.numNodes_pos

/-- A page never spans two layers, so the position in the page is the same for the id and for
the node within its layer. -/
lemma node_mod_nodesPerPage (id : ℕ) : C.node id % C.nodesPerPage = id % C.nodesPerPage := by
  rw [node_eq_mod, Nat.mod_mod_of_dvd _ C.nodesPerPage_dvd_numNodes]

lemma layer_mul_add_node (id : ℕ) : C.layer id * C.numNodes + C.node id = id := by
  rw [layer_eq_div, node_eq_mod, Nat.mul_comm]
  exact Nat.div_add_mod id _

end Config

end SupraSeal
