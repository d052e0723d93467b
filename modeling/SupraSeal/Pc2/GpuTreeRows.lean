import Mathlib.Tactic.Ring
import SupraSeal.Lib.StoredRows
import SupraSeal.Pc1.TreeRows
import SupraSeal.Pc2.GpuTrees

/-!
# Rows of the GPU trees

A batch of a stream is a piece of a row. The kernels hash pieces of a row to a piece of the next one,
and the tables of offsets put each piece where its row has it.
-/

namespace SupraSeal

open MerkleTree

namespace GpuTrees

variable {α : Type} {P : GpuTrees α} {k m q id v i x : ℕ}

/-! ### Sizes -/

variable (P) in
/-- A partition has `8 ^ k` nodes and a stream `8 ^ m` batches. -/
structure Shape (k m : ℕ) : Prop where
  nodes : P.nodesToRead = treeRCArity ^ k
  batch : 64 ∣ P.batchSize
  subtrees : P.nodesToRead = P.streamCount * P.batchSize * treeRCArity ^ m
  pos : 1 ≤ m

variable (P) in
/-- Hashes of a batch, in each sector. -/
def groupSize : ℕ := P.batchSize / treeRCArity

variable (P) in
/-- Nodes of row `q` in a batch. The columns of a batch are in row zero. -/
def pieceSize (q : ℕ) : ℕ := if q = 0 then P.batchSize else P.groupSize

/-- Pieces of a stream in row `q`. -/
def pieceCount (m q : ℕ) : ℕ := treeRCArity ^ (m + 1 - max q 1)

variable (P) in
/-- The nodes of piece `v` of stream `id` in row `q`, with their row. -/
def piece (m q id v : ℕ) : List (ℕ × ℕ) :=
  (List.range (P.pieceSize q)).map fun x => (q, (id * pieceCount m q + v) * P.pieceSize q + x)

lemma arity_pos : 0 < treeRCArity := Nat.zero_lt_of_lt one_lt_treeRCArity

variable (P) in
lemma batchSize_eq : P.batchSize = treeRCArity * P.groupSize := (Nat.mul_div_cancel' P.arity_dvd).symm

namespace Shape

lemma batchSize_pos (h : P.Shape k m) : 0 < P.batchSize := by
  refine Nat.pos_of_ne_zero fun h0 => ?_
  have hpow := h.nodes.symm.trans h.subtrees
  rw [h0, Nat.mul_zero, Nat.zero_mul] at hpow
  exact (Nat.pow_pos arity_pos).ne' hpow

lemma streamCount_pos (h : P.Shape k m) : 0 < P.streamCount := by
  refine Nat.pos_of_ne_zero fun h0 => ?_
  have hpow := h.nodes.symm.trans h.subtrees
  rw [h0, Nat.zero_mul, Nat.zero_mul] at hpow
  exact (Nat.pow_pos arity_pos).ne' hpow

lemma arity_dvd_groupSize (h : P.Shape k m) : treeRCArity ∣ P.groupSize :=
  Nat.dvd_div_of_mul_dvd h.batch

lemma groupSize_pos (h : P.Shape k m) : 0 < P.groupSize :=
  Nat.div_pos (Nat.le_of_dvd h.batchSize_pos P.arity_dvd) arity_pos

lemma nodesPerStream_eq (h : P.Shape k m) : P.nodesPerStream = treeRCArity ^ (m + 1) * P.groupSize := by
  rw [nodesPerStream, h.subtrees, Nat.mul_assoc, Nat.mul_div_cancel_left _ h.streamCount_pos,
    P.batchSize_eq, pow_succ]
  ring

lemma initialNodes_eq (h : P.Shape k m) : P.nodesPerStream / P.batchSize = treeRCArity ^ m := by
  rw [h.nodesPerStream_eq, pow_succ, Nat.mul_assoc, ← P.batchSize_eq,
    Nat.mul_div_cancel _ h.batchSize_pos]

lemma nodesPerStream_div (h : P.Shape k m) (hq : q ≤ m + 1) :
    P.nodesPerStream / treeRCArity ^ q = treeRCArity ^ (m + 1 - q) * P.groupSize := by
  have hsplit : treeRCArity ^ (m + 1) = treeRCArity ^ q * treeRCArity ^ (m + 1 - q) := by
    rw [← pow_add, Nat.add_sub_cancel' hq]
  rw [h.nodesPerStream_eq, hsplit, Nat.mul_assoc, Nat.mul_div_cancel_left _ (Nat.pow_pos arity_pos)]

/-- The pieces of a stream are its part of the row. -/
lemma pieceCount_mul (h : P.Shape k m) (hq : q ≤ m + 1) :
    pieceCount m q * P.pieceSize q = P.nodesPerStream / treeRCArity ^ q := by
  rw [h.nodesPerStream_div hq, pieceCount, pieceSize]
  split_ifs with h0
  · rw [h0, Nat.zero_max, Nat.add_sub_cancel, P.batchSize_eq, ← Nat.mul_assoc, ← pow_succ, Nat.sub_zero]
  · rw [Nat.max_eq_left (Nat.one_le_iff_ne_zero.mpr h0)]

/-- The parts of the streams are the row. -/
lemma streams_mul (h : P.Shape k m) (hq : q ≤ m + 1) :
    P.streamCount * (pieceCount m q * P.pieceSize q) * treeRCArity ^ q = treeRCArity ^ k := by
  have hsplit : treeRCArity ^ (m + 1 - q) * treeRCArity ^ q = treeRCArity ^ (m + 1) := by
    rw [← pow_add, Nat.sub_add_cancel hq]
  calc P.streamCount * (pieceCount m q * P.pieceSize q) * treeRCArity ^ q
      = P.streamCount * P.groupSize * (treeRCArity ^ (m + 1 - q) * treeRCArity ^ q) := by
        rw [h.pieceCount_mul hq, h.nodesPerStream_div hq]
        ring
    _ = P.streamCount * P.batchSize * treeRCArity ^ m := by
        rw [hsplit, P.batchSize_eq, pow_succ]
        ring
    _ = treeRCArity ^ k := h.subtrees.symm.trans h.nodes

/-- The CPU starts below the root. -/
lemma lt_k (h : P.Shape k m) : m + 2 ≤ k := by
  obtain ⟨g, hg⟩ := h.arity_dvd_groupSize
  have hk := h.streams_mul (Nat.le_refl (m + 1))
  rw [h.pieceCount_mul le_rfl, h.nodesPerStream_div le_rfl, Nat.sub_self, pow_zero, Nat.one_mul, hg] at hk
  have hdvd : treeRCArity ^ (m + 2) ∣ treeRCArity ^ k := by
    refine ⟨P.streamCount * g, ?_⟩
    rw [← hk, pow_succ _ (m + 1)]
    ring
  exact (Nat.pow_dvd_pow_iff_le_right one_lt_treeRCArity).mp hdvd

lemma streams_mul_pieces (h : P.Shape k m) (hq : q ≤ m + 1) :
    P.streamCount * (pieceCount m q * P.pieceSize q) = treeRCArity ^ (k - q) := by
  have hk := h.lt_k
  refine Nat.eq_of_mul_eq_mul_right (Nat.pow_pos arity_pos (n := q)) ?_
  rw [h.streams_mul hq, ← pow_add, Nat.sub_add_cancel (by omega)]

/-- The CPU hashes the groups of the streams. -/
lemma nodesToHash_eq (h : P.Shape k m) : P.nodesToHash = treeRCArity ^ (k - m - 2) := by
  have hk := h.lt_k
  have hrow := h.streams_mul_pieces (Nat.le_refl (m + 1))
  rw [h.pieceCount_mul le_rfl, h.nodesPerStream_div le_rfl, Nat.sub_self, pow_zero, Nat.one_mul] at hrow
  have hexp : k - (m + 1) = k - m - 2 + 1 := by omega
  rw [nodesToHash, P.batchSize_eq, Nat.mul_assoc, Nat.mul_div_cancel_left _ arity_pos,
    Nat.mul_comm P.groupSize, hrow, hexp, pow_succ, Nat.mul_div_cancel _ arity_pos]

end Shape

/-! ### Writes -/

/-- A write goes to the place of its piece. -/
lemma treeWrite_eq (h : P.Shape k m) {kept per : ℕ} (hkept : kept ≤ q) (hq : q ≤ m + 1)
    (hper : per = if q = 0 then 1 else treeRCArity) (data : ℕ → α) :
    P.treeWrite (.new (P.numNodes / P.numTreeRCFiles) nodeSize kept)
        (layerOffsets ((· / treeRCArity)^[kept] P.nodesPerStream)) id (q - kept) v per data =
      some ⟨data, rowStart treeRCArity (k - kept) (q - kept) +
        (id * pieceCount m q + v) * P.pieceSize q, P.pieceSize q, fun i => i * P.pieceSize q⟩ := by
  have hk := h.lt_k
  have hsize : ∀ n, n * P.batchSize / per = n * P.pieceSize q := by
    intro n
    rw [hper, pieceSize]
    split_ifs
    · rw [Nat.div_one]
    · rw [Nat.mul_div_assoc _ P.arity_dvd, groupSize]
  have hsize1 : P.batchSize / per = P.pieceSize q := by
    have := hsize 1
    rwa [Nat.one_mul, Nat.one_mul] at this
  have hdiv := h.nodesPerStream_div (hkept.trans hq)
  have hoffset : (layerOffsets ((· / treeRCArity)^[kept] P.nodesPerStream))[q - kept]? =
      some (pieceCount m q * P.pieceSize q) := by
    obtain ⟨g, hg⟩ := h.arity_dvd_groupSize
    rw [iterate_div, getElem?_layerOffsets, Nat.div_div_eq_div_mul, ← pow_add, Nat.add_sub_cancel' hkept,
      h.pieceCount_mul hq]
    · rw [hdiv]
      exact Nat.mul_pos (Nat.pow_pos arity_pos) h.groupSize_pos
    · rw [hdiv, hg, ← Nat.mul_assoc, ← pow_succ]
      exact Nat.dvd_mul_right_of_dvd (Nat.pow_dvd_pow _ (by omega)) g
  have hnode : 0 < nodeSize := by decide
  rw [treeWrite, hoffset, ← P.nodesToRead_eq, h.nodes, Option.bind_eq_bind, Option.bind_some,
    TreeAddress.address_new _ _ (by omega) (by omega), Option.bind_some, Nat.mul_div_cancel _ hnode]
  simp only [hsize, hsize1, Option.some.injEq, TreeWrite.mk.injEq, true_and, and_true]
  ring

/-- The nodes of a write whose data are a piece. -/
lemma nodes_piece {kept offset : ℕ} {leaves data : ℕ → α}
    (hoffset : offset = rowStart treeRCArity (k - kept) (q - kept) +
      (id * pieceCount m q + v) * P.pieceSize q)
    (hdata : ∀ x < P.pieceSize q, data (i * P.pieceSize q + x) =
      row P.hash treeRCArity leaves q ((id * pieceCount m q + v) * P.pieceSize q + x)) :
    (TreeWrite.mk data offset (P.pieceSize q) fun i => i * P.pieceSize q).nodes i =
      (P.piece m q id v).map (place P.hash treeRCArity leaves kept k) := by
  rw [TreeWrite.nodes, piece, List.map_map]
  refine List.map_congr_left fun x hx => ?_
  rw [Function.comp_apply, place, ← hdata x (List.mem_range.mp hx), hoffset, ← Nat.add_assoc]

/-! ### Launches -/

lemma hashBatch_apply (batch : Poseidon.Batch) (arity : ℕ) (hash : List α → α)
    (inPtrs : ℕ → ℕ → α) (out : ℕ → α) {sector node : ℕ} (hsector : sector < batch.stride) (hnode : node < batch.nodes) :
    hashBatch batch arity hash inPtrs out (sector * batch.nodes + node) =
      hash ((List.range arity).map fun a =>
        inPtrs (batch.inputCell arity sector node a).1 (batch.inputCell arity sector node a).2) := by
  have hlt : sector * batch.nodes + node < batch.numHashes := by
    rw [← batch.stride_mul_nodes]
    exact Poseidon.mul_add_lt hsector hnode
  rw [hashBatch, if_pos hlt, Poseidon.mul_add_div' _ hnode, Poseidon.mul_add_mod' _ hnode]

lemma nodes_columnBatch : P.columnBatch.nodes = P.batchSize :=
  Nat.mul_div_cancel _ P.parallelSectors_pos

lemma nodes_treeCBatch : P.treeCBatch.nodes = P.groupSize * P.parallelSectors :=
  (Nat.div_one _).trans P.leaves_eq

variable (P) in
lemma leaves_div : P.batchSize * P.parallelSectors / treeRCArity / P.parallelSectors = P.groupSize := by
  rw [leaves_eq, Nat.mul_div_cancel _ P.parallelSectors_pos, groupSize]

lemma nodes_treeRBatch : P.treeRBatch.nodes = P.groupSize := P.leaves_div

lemma nodes_leafBatch : P.leafBatch.nodes = P.groupSize := P.leaves_div

/-- The column hashes of a batch. -/
lemma hashBatch_columns {hash : List α → α} {input out : ℕ → α} (hi : i < P.parallelSectors)
    (hx : x < P.batchSize) :
    hashBatch P.columnBatch P.numLayers hash (fun _ => input) out (i * P.batchSize + x) =
      hash ((List.range P.numLayers).map fun l =>
        input ((l * P.batchSize + x) * P.parallelSectors + i)) := by
  have hnodes := P.nodes_columnBatch
  have h := hashBatch_apply P.columnBatch P.numLayers hash (fun _ => input) out hi (hnodes.symm ▸ hx)
  rw [hnodes] at h
  rw [h]
  refine congrArg hash (List.map_congr_left fun l _ => ?_)
  have hcell : P.columnBatch.inputCell P.numLayers i x l =
      (0, (l * P.batchSize + x) * P.parallelSectors + i) := by
    rw [Poseidon.Batch.inputCell, if_pos ⟨rfl, rfl⟩, Poseidon.Batch.columnCell, hnodes]
    rfl
  rw [hcell]

/-- The first hashes of tree-c, over the outputs of the columns. -/
lemma hashBatch_treeC {input out : ℕ → α} (hi : i < P.parallelSectors) (hx : x < P.groupSize) :
    hashBatch P.treeCBatch treeRCArity P.hash (fun _ => input) out (i * P.groupSize + x) =
      P.hash (group treeRCArity input (i * P.batchSize + treeRCArity * x)) := by
  have hnode : i * P.groupSize + x < P.treeCBatch.nodes := by
    rw [nodes_treeCBatch, Nat.mul_comm P.groupSize]
    exact Poseidon.mul_add_lt hi hx
  have h := hashBatch_apply P.treeCBatch treeRCArity P.hash (fun _ => input) out Nat.one_pos hnode
  rw [Nat.zero_mul, Nat.zero_add] at h
  rw [h, group]
  refine congrArg P.hash (List.map_congr_left fun a _ => ?_)
  simp only [Poseidon.Batch.inputCell, Poseidon.Batch.childCell, treeCBatch, Bool.false_eq_true,
    and_false, if_false, Nat.zero_mul, Nat.zero_add]
  congr 1
  rw [P.batchSize_eq]
  ring

/-- The first hashes of tree-r, over a layer with the sectors next to each other. -/
lemma hashBatch_treeR {input out : ℕ → α} (hi : i < P.parallelSectors) (hx : x < P.groupSize) :
    hashBatch P.treeRBatch treeRCArity P.hash (fun _ => input) out (i * P.groupSize + x) =
      P.hash (group treeRCArity (fun y => input (y * P.parallelSectors + i)) (treeRCArity * x)) := by
  have hnodes := P.nodes_treeRBatch
  have h := hashBatch_apply P.treeRBatch treeRCArity P.hash (fun _ => input) out hi
    (hnodes.symm ▸ hx)
  rw [hnodes] at h
  rw [h, group]
  simp [Poseidon.Batch.inputCell, Poseidon.Batch.childCell, treeRBatch]

/-- The other hashes, over the pieces of the children one after the other. -/
lemma hashBatch_leaf {inPtrs : ℕ → ℕ → α} {out f : ℕ → α} (hi : i < P.parallelSectors)
    (hx : x < P.groupSize)
    (hf : ∀ a < treeRCArity, ∀ y < P.groupSize, inPtrs a (i * P.groupSize + y) = f (a * P.groupSize + y)) :
    hashBatch P.leafBatch treeRCArity P.hash inPtrs out (i * P.groupSize + x) =
      P.hash (group treeRCArity f (treeRCArity * x)) := by
  have hnodes := P.nodes_leafBatch
  have h := hashBatch_apply P.leafBatch treeRCArity P.hash inPtrs out hi (hnodes.symm ▸ hx)
  rw [hnodes] at h
  rw [h, group]
  refine congrArg P.hash (List.map_congr_left fun a ha => ?_)
  have hpos : 0 < P.groupSize := Nat.zero_lt_of_lt hx
  have hchild : treeRCArity * x + a < treeRCArity * P.groupSize := by
    rw [Nat.mul_comm, Nat.mul_comm treeRCArity]
    exact Poseidon.mul_add_lt hx (List.mem_range.mp ha)
  have hcell : P.leafBatch.inputCell treeRCArity i x a = ((treeRCArity * x + a) / P.groupSize,
      i * P.groupSize + (treeRCArity * x + a) % P.groupSize) := by
    rw [Poseidon.Batch.inputCell, Poseidon.Batch.childCell, hnodes]
    rfl
  rw [hcell, hf _ ((Nat.div_lt_iff_lt_mul hpos).mpr hchild) _ (Nat.mod_lt _ hpos), Nat.mul_comm _ P.groupSize,
    Nat.div_add_mod]

end GpuTrees

end SupraSeal
