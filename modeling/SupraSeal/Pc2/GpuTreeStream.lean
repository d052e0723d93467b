import SupraSeal.Lib.LiveBuffers
import SupraSeal.Pc2.GpuTreeRows
import SupraSeal.Pc2.StreamRun

/-!
# The rows of a stream

The buffer of a work item holds a piece of a row until the item of the parent has read it. What a
stream hands to the disk are the pieces of all its items, and its last results are its piece of the
row that the CPU goes on from.
-/

namespace SupraSeal

open MerkleTree LiveBuffers TreeScheduler TreeResource

namespace GpuStream

variable {α : Type} (s : GpuStream α)

def writes : Tree → List (TreeWrite α)
  | .c => s.writesC
  | .r => s.writesR

/-- What a stream handed to the disk for a sector. -/
def nodes (tree : Tree) (sector : ℕ) : List (ℕ × α) :=
  (s.writes tree).flatMap fun w => w.nodes sector

def results : Tree → ℕ → α
  | .c => s.resultsC
  | .r => s.resultsR

end GpuStream

namespace GpuTrees

variable {α : Type} {P : GpuTrees α} {k m id v i x y start partition : ℕ} {c r : WorkItem}
  {s s' : GpuStream α} {last : Bool}

variable (P) in
/-- The leaves of a tree of a sector. -/
def leaves (tree : Tree) (partition sector : ℕ) : ℕ → α :=
  match tree with
  | .c => P.treeBuilder.columns (P.treeCInput partition sector)
  | .r => P.treeRInput partition sector

variable (P) in
/-- The output of a work item, in all sectors. -/
def Holds (leaves : ℕ → ℕ → α) (m id : ℕ) (idx : ℕ × ℕ) (content : ℕ → α) : Prop :=
  ∀ i < P.parallelSectors, ∀ x < P.groupSize, content (i * P.groupSize + x) =
    row P.hash treeRCArity (leaves i) idx.1 ((id * pieceCount m idx.1 + idx.2) * P.groupSize + x)

/-! ### Leaves -/

lemma treeBuilder_columns (partition i n : ℕ) : P.leaves .c partition i n =
    P.colHash ((List.range P.numLayers).map fun l => P.labels l (partition * P.nodesToRead + n) i) := by
  refine congrArg P.colHash (List.map_congr_left fun l hl => ?_)
  have hl : l < P.numLayers := List.mem_range.mp hl
  have hpos : P.numLayers * n + l = n * P.numLayers + l := by rw [Nat.mul_comm]
  show P.treeCInput partition i (P.numLayers * n + l) = _
  rw [hpos, treeCInput, Poseidon.mul_add_div' _ hl, Poseidon.mul_add_mod' _ hl]

lemma startNode_eq (h : P.Shape k m) (partition id v : ℕ) : P.startNode partition id v =
    partition * P.nodesToRead + (id * treeRCArity ^ m + v) * P.batchSize := by
  have hstream : P.nodesPerStream = treeRCArity ^ m * P.batchSize := by
    rw [h.nodesPerStream_eq, pow_succ, Nat.mul_assoc, ← P.batchSize_eq]
  rw [startNode, hstream]
  ring

lemma columnData_eq (hRO : P.treeROnly = false) (l : ℕ) (hy : y < P.batchSize)
    (hi : i < P.parallelSectors) :
    P.columnData start ((l * P.batchSize + y) * P.parallelSectors + i) = P.labels l (start + y) i := by
  have hpos : (l * P.batchSize + y) * P.parallelSectors + i =
      l * (P.batchSize * P.parallelSectors) + (y * P.parallelSectors + i) := by ring
  have hdiv := Poseidon.mul_add_div' l (Poseidon.mul_add_lt hy hi)
  rw [← hpos] at hdiv
  rw [columnData, hRO, hdiv, Poseidon.mul_add_div' _ hi, Poseidon.mul_add_mod' _ hi,
    Poseidon.mul_add_mod' _ hy]
  simp

lemma replicaData_eq (start : ℕ) (hy : y < P.batchSize) (hi : i < P.parallelSectors) :
    P.replicaData start (y * P.parallelSectors + i) = P.replica i (start + y) := by
  have hlayer : P.layer11 start (y * P.parallelSectors + i) =
      P.labels (P.numLayers - 1) (start + y) i := by
    rw [layer11]
    cases hRO : P.treeROnly with
    | true =>
      rw [if_pos rfl, columnData, hRO, if_pos rfl, Nat.div_eq_of_lt (Poseidon.mul_add_lt hy hi),
        Nat.add_zero, Poseidon.mul_add_div' _ hi, Poseidon.mul_add_mod' _ hi, Nat.mod_eq_of_lt hy]
    | false =>
      have hpos : P.parallelSectors * (P.numLayers - 1) * P.batchSize + (y * P.parallelSectors + i) =
          ((P.numLayers - 1) * P.batchSize + y) * P.parallelSectors + i := by ring
      rw [if_neg Bool.false_ne_true, hpos, columnData_eq hRO _ hy hi]
  rw [replicaData, replica, hlayer, Poseidon.mul_add_mod' _ hi, Poseidon.mul_add_div' _ hi]

lemma htoD_zero {dst src : ℕ → α} {size n : ℕ} (hn : n < size) : htoD dst 0 src size n = src n := by
  rw [htoD, if_pos ⟨Nat.zero_le n, by rwa [Nat.zero_add]⟩, Nat.sub_zero]

lemma htoD_add {dst src : ℕ → α} {offset size n : ℕ} (hn : n < size) :
    htoD dst offset src size (offset + n) = src n := by
  rw [htoD, if_pos ⟨Nat.le_add_right .., Nat.add_lt_add_left hn _⟩, Nat.add_sub_cancel_left]

/-- The inputs of the columns are in the memory of the device. -/
lemma columns_input {dst : ℕ → α} (hRO : P.treeROnly = false) {l : ℕ} (hl : l < P.numLayers)
    (hy : y < P.batchSize) (hi : i < P.parallelSectors) :
    htoD dst 0 (P.columnData start) (P.parallelSectors * P.numLayers * P.batchSize)
      ((l * P.batchSize + y) * P.parallelSectors + i) = P.labels l (start + y) i := by
  have hlt : (l * P.batchSize + y) * P.parallelSectors + i <
      P.parallelSectors * P.numLayers * P.batchSize := by
    have hsize : P.parallelSectors * P.numLayers * P.batchSize =
        P.numLayers * P.batchSize * P.parallelSectors := by ring
    rw [hsize]
    exact Poseidon.mul_add_lt (Poseidon.mul_add_lt hl hy) hi
  rw [htoD_zero hlt, columnData_eq hRO l hy hi]

variable (P) in
/-- `column_data_d` when tree-r is hashed. -/
def replicaD (columnDataD : ℕ → α) (start : ℕ) : ℕ → α :=
  if P.hasNonCcSectors || P.treeROnly then
    htoD columnDataD (P.batchSize * P.parallelSectors * (P.numLayers - 1)) (P.replicaData start)
      (P.parallelSectors * P.batchSize)
  else columnDataD

/-- The replica is there, copied or as the last layer. -/
lemma treeR_input {columnDataD : ℕ → α} (hcolumns : P.treeROnly = false → ∃ dst, columnDataD =
      htoD dst 0 (P.columnData start) (P.parallelSectors * P.numLayers * P.batchSize))
    (hy : y < P.batchSize) (hi : i < P.parallelSectors) :
    P.replicaD columnDataD start (P.batchSize * P.parallelSectors * (P.numLayers - 1) +
      (y * P.parallelSectors + i)) = P.replica i (start + y) := by
  rw [replicaD]
  split_ifs with hcopy
  · have hlt : y * P.parallelSectors + i < P.parallelSectors * P.batchSize := by
      rw [Nat.mul_comm P.parallelSectors]
      exact Poseidon.mul_add_lt hy hi
    rw [htoD_add hlt, replicaData_eq start hy hi]
  · rw [Bool.not_eq_true, Bool.or_eq_false_iff] at hcopy
    obtain ⟨hcc, hRO⟩ := hcopy
    obtain ⟨dst, rfl⟩ := hcolumns hRO
    have hnone : P.dataFiles i = none := by
      have hall := List.any_eq_false.mp hcc i (List.mem_range.mpr hi)
      rwa [Bool.not_eq_true, Option.isSome_eq_false_iff, Option.isNone_iff_eq_none] at hall
    have hpos : P.batchSize * P.parallelSectors * (P.numLayers - 1) + (y * P.parallelSectors + i) =
        ((P.numLayers - 1) * P.batchSize + y) * P.parallelSectors + i := by ring
    rw [hpos, columns_input hRO (Nat.sub_lt P.numLayers_pos Nat.one_pos) hy hi, replica, hnone]

/-! ### Hashes of pieces -/

/-- The columns of a batch are a piece of row zero. -/
lemma columns_holds (h : P.Shape k m) (hRO : P.treeROnly = false) (dst out : ℕ → α)
    (hi : i < P.parallelSectors) (hy : y < P.batchSize) :
    hashBatch P.columnBatch P.numLayers P.colHash
        (fun _ => htoD dst 0 (P.columnData (P.startNode partition id v))
          (P.parallelSectors * P.numLayers * P.batchSize)) out (i * P.batchSize + y) =
      P.leaves .c partition i ((id * treeRCArity ^ m + v) * P.batchSize + y) := by
  rw [hashBatch_columns hi hy, treeBuilder_columns, startNode_eq h]
  refine congrArg P.colHash (List.map_congr_left fun l hl => ?_)
  rw [columns_input hRO (List.mem_range.mp hl) hy hi, Nat.add_assoc]

/-- Row one, in either memory layout. -/
lemma holds_one {leaves : ℕ → ℕ → α} {content : ℕ → α}
    (hcontent : ∀ i < P.parallelSectors, ∀ x < P.groupSize, content (i * P.groupSize + x) =
      P.hash (group treeRCArity (leaves i)
        ((id * treeRCArity ^ m + v) * P.batchSize + treeRCArity * x))) :
    P.Holds leaves m id (1, v) content := by
  intro i hi x hx
  rw [hcontent i hi x hx, row, pieceCount, Nat.max_self, Nat.add_sub_cancel]
  refine congrArg P.hash (group_congr fun a _ => ?_)
  rw [row, P.batchSize_eq]
  congr 1
  ring

lemma group_of_eq {f g : ℕ → α} {n size start : ℕ} (hfg : ∀ y < size, f y = g (start + y))
    (hn : n + treeRCArity ≤ size) : group treeRCArity f n = group treeRCArity g (start + n) := by
  refine group_congr fun a ha => ?_
  rw [hfg _ (by omega), Nat.add_assoc]

lemma mul_add_arity_le (hx : x < P.groupSize) : treeRCArity * x + treeRCArity ≤ P.batchSize := by
  rw [P.batchSize_eq, ← Nat.mul_succ]
  exact Nat.mul_le_mul_left _ hx

lemma treeC_holds {leaves : ℕ → ℕ → α} {input out : ℕ → α}
    (hinput : ∀ i < P.parallelSectors, ∀ y < P.batchSize, input (i * P.batchSize + y) =
      leaves i ((id * treeRCArity ^ m + v) * P.batchSize + y)) :
    P.Holds leaves m id (1, v)
      (hashBatch P.treeCBatch treeRCArity P.hash (fun _ => input) out) := by
  refine holds_one fun i hi x hx => ?_
  rw [hashBatch_treeC hi hx]
  refine congrArg P.hash (group_congr fun a ha => ?_)
  have hlt : treeRCArity * x + a < P.batchSize :=
    (Nat.add_lt_add_left ha _).trans_le (mul_add_arity_le hx)
  rw [Nat.add_assoc, hinput i hi _ hlt, Nat.add_assoc]

lemma treeR_holds {leaves : ℕ → ℕ → α} {input out : ℕ → α}
    (hinput : ∀ i < P.parallelSectors, ∀ y < P.batchSize, input (y * P.parallelSectors + i) =
      leaves i ((id * treeRCArity ^ m + v) * P.batchSize + y)) :
    P.Holds leaves m id (1, v)
      (hashBatch P.treeRBatch treeRCArity P.hash (fun _ => input) out) := by
  refine holds_one fun i hi x hx => ?_
  rw [hashBatch_treeR hi hx]
  exact congrArg P.hash (group_of_eq (hinput i hi) (mul_add_arity_le hx))

/-- A piece from the pieces of the children. -/
lemma leaf_holds {leaves : ℕ → ℕ → α} {idx : ℕ × ℕ} {inPtrs : ℕ → ℕ → α} {out : ℕ → α}
    (hidx : 1 < idx.1) (hle : idx.1 ≤ m + 1)
    (hinput : ∀ a < treeRCArity, P.Holds leaves m id (child treeRCArity idx a) (inPtrs a)) :
    P.Holds leaves m id idx (hashBatch P.leafBatch treeRCArity P.hash inPtrs out) := by
  obtain ⟨l, v⟩ := idx
  obtain ⟨l, rfl⟩ : ∃ l', l = l' + 1 := ⟨l - 1, by omega⟩
  have hl : 1 ≤ l := Nat.lt_succ_iff.mp hidx
  have hcount : pieceCount m l = treeRCArity * pieceCount m (l + 1) := by
    rw [pieceCount, pieceCount, Nat.max_eq_left hl, Nat.max_eq_left (Nat.le_add_left 1 l), ← pow_succ']
    congr 1
    have hle : l + 1 ≤ m + 1 := hle
    omega
  intro i hi x hx
  have hf : ∀ a < treeRCArity, ∀ y < P.groupSize, inPtrs a (i * P.groupSize + y) =
      row P.hash treeRCArity (leaves i) l
        ((id * pieceCount m l + treeRCArity * v) * P.groupSize + (a * P.groupSize + y)) := by
    intro a ha y hy
    rw [hinput a ha i hi y hy]
    congr 1
    show (id * pieceCount m l + (treeRCArity * v + a)) * P.groupSize + y = _
    ring
  rw [hashBatch_leaf (f := fun y => row P.hash treeRCArity (leaves i) l
    ((id * pieceCount m l + treeRCArity * v) * P.groupSize + y)) hi hx hf, row]
  refine congrArg P.hash (group_congr fun a _ => ?_)
  rw [hcount]
  congr 1
  ring

/-! ### Writes of an item -/

variable (P) in
/-- The row of a tree that is first in the file. -/
def firstRow : Tree → ℕ
  | .c => 0
  | .r => P.discardRows + 1

variable (P) in
def address (tree : Tree) : TreeAddress :=
  .new (P.numNodes / P.numTreeRCFiles) nodeSize (P.firstRow tree)

variable (P) in
def offsets (tree : Tree) : List ℕ :=
  layerOffsets ((· / treeRCArity)^[P.firstRow tree] P.nodesPerStream)

variable (P) in
/-- Tree-c is not built when only tree-r is. -/
def Active (tree : Tree) : Prop := tree = .c → P.treeROnly = false

lemma active_r : P.Active .r := by
  intro h
  cases h

variable (P) in
/-- The rows that the item of a node in layer `layer` writes. -/
def itemRows (tree : Tree) (layer : ℕ) : List ℕ :=
  match tree with
  | .c => if P.treeROnly then [] else if layer = 1 then [0, 1] else [layer]
  | .r => if P.discardRows < layer then [layer] else []

variable (P) in
/-- The nodes that an item writes. -/
def itemKeys (tree : Tree) (m id : ℕ) (idx : ℕ × ℕ) : List (ℕ × ℕ) :=
  (P.itemRows tree idx.1).flatMap fun q => P.piece m q id idx.2

variable (P) in
/-- Nodes of a tree where its file has them. -/
def treeNodes (tree : Tree) (k partition sector : ℕ) (keys : List (ℕ × ℕ)) : List (ℕ × α) :=
  keys.map (place P.hash treeRCArity (P.leaves tree partition sector) (P.firstRow tree) k)

variable (P) in
/-- What the buffer of an item is to hold. -/
def Ok (partition m id : ℕ) (e : Tree × WorkItem) (content : ℕ → α) : Prop :=
  P.Active e.1 → P.Holds (P.leaves e.1 partition) m id e.2.idx content

/-- A write of a piece of a row that is in the file. -/
lemma exists_write (tree : Tree) (h : P.Shape k m) {q per : ℕ} (hfirst : P.firstRow tree ≤ q)
    (hq : q ≤ m + 1) (hper : per = if q = 0 then 1 else treeRCArity) {data : ℕ → α}
    (hdata : ∀ i < P.parallelSectors, ∀ x < P.pieceSize q, data (i * P.pieceSize q + x) =
      row P.hash treeRCArity (P.leaves tree partition i) q
        ((id * pieceCount m q + v) * P.pieceSize q + x)) :
    ∃ w, P.treeWrite (P.address tree) (P.offsets tree) id (q - P.firstRow tree) v per data = some w ∧
      ∀ i < P.parallelSectors, w.nodes i = P.treeNodes tree k partition i (P.piece m q id v) :=
  ⟨_, treeWrite_eq h hfirst hq hper data, fun i hi => nodes_piece rfl (hdata i hi)⟩

/-- The write of the output of an item. -/
lemma Holds.exists_write (h : P.Shape k m) {tree : Tree} {q : ℕ} (hpos : 1 ≤ q)
    (hfirst : P.firstRow tree ≤ q) (hq : q ≤ m + 1) {data : ℕ → α}
    (hdata : P.Holds (P.leaves tree partition) m id (q, v) data) :
    ∃ w, P.treeWrite (P.address tree) (P.offsets tree) id (q - P.firstRow tree) v treeRCArity data =
        some w ∧
      ∀ i < P.parallelSectors, w.nodes i = P.treeNodes tree k partition i (P.piece m q id v) := by
  have hne : q ≠ 0 := Nat.one_le_iff_ne_zero.mp hpos
  refine GpuTrees.exists_write tree h hfirst hq (if_neg hne).symm ?_
  rw [pieceSize, if_neg hne]
  exact hdata

lemma treeNodes_append (tree : Tree) (k partition i : ℕ) (keys keys' : List (ℕ × ℕ)) :
    P.treeNodes tree k partition i (keys ++ keys') =
      P.treeNodes tree k partition i keys ++ P.treeNodes tree k partition i keys' :=
  List.map_append

lemma itemRows_c_of_lt {l : ℕ} (hl : 1 < l) :
    P.itemRows .c l = if (!P.treeROnly) = true then [l] else [] := by
  cases hRO : P.treeROnly <;> simp [itemRows, hRO, hl.ne']

lemma itemRows_r {l : ℕ} :
    P.itemRows .r l = if decide (P.discardRows < l) = true then [l] else [] := by
  simp [itemRows]

/-- The write of the output of an item, when there is one. -/
lemma exists_writeWhen (tree : Tree) (write : Bool) (h : P.Shape k m) {idx : ℕ × ℕ}
    (hrows : P.itemRows tree idx.1 = if write = true then [idx.1] else []) (hpos : 1 ≤ idx.1)
    (hle : idx.1 ≤ m + 1) {data : ℕ → α} (hdata : write = true → P.firstRow tree ≤ idx.1 ∧
      P.Holds (P.leaves tree partition) m id idx data) :
    ∃ ws, writeWhen write (P.treeWrite (P.address tree) (P.offsets tree) id
        (idx.1 - P.firstRow tree) idx.2 treeRCArity data) = some ws ∧
      ∀ i < P.parallelSectors, (ws.flatMap fun w => w.nodes i) =
        P.treeNodes tree k partition i (P.itemKeys tree m id idx) := by
  rw [itemKeys, hrows]
  cases write with
  | false => exact ⟨[], rfl, fun i _ => rfl⟩
  | true =>
    obtain ⟨hfirst, hholds⟩ := hdata rfl
    obtain ⟨w, hw, hnodes⟩ := hholds.exists_write h hpos hfirst hle
    refine ⟨[w], congrArg (Option.map ([·])) hw, fun i hi => ?_⟩
    rw [List.flatMap_singleton, hnodes i hi, if_pos rfl, List.flatMap_singleton]

/-! ### A visit -/

variable (P) in
/-- The effect of a visit. `mem` has the buffers between the hash of tree-c and that of tree-r. -/
structure Visited (k m partition id : ℕ) (c r : WorkItem) (last : Bool) (s s' : GpuStream α)
    (mem : ℕ → ℕ → α) : Prop where
  frameC : ∀ b, b ≠ c.buf → mem b = s.buffers b
  frameR : ∀ b, b ≠ r.buf → s'.buffers b = mem b
  okC : P.Ok partition m id (.c, c) (mem c.buf)
  okR : P.Ok partition m id (.r, r) (s'.buffers r.buf)
  writes : ∀ tree, ∀ i < P.parallelSectors, s'.nodes tree i =
    s.nodes tree i ++ P.treeNodes tree k partition i (P.itemKeys tree m id c.idx)
  results : last = true → 1 < c.idx.1 → ∀ tree, P.Active tree →
    P.Holds (P.leaves tree partition) m id c.idx (s'.results tree)

variable (P) in
/-- The buffers after the item of tree-c got its output, if there is a tree-c. -/
def withC (c : WorkItem) (out : ℕ → α) (mem : ℕ → ℕ → α) : ℕ → ℕ → α :=
  if P.treeROnly then mem else Function.update mem c.buf out

lemma withC_of_ne {out : ℕ → α} {mem : ℕ → ℕ → α} (b : ℕ) (hb : b ≠ c.buf) :
    P.withC c out mem b = mem b := by
  rw [withC]
  split_ifs
  · rfl
  · exact Function.update_of_ne hb ..

lemma withC_self {out : ℕ → α} {mem : ℕ → ℕ → α} (hRO : P.treeROnly = false) :
    P.withC c out mem c.buf = out := by
  rw [withC, hRO, if_neg Bool.false_ne_true, Function.update_self]

variable (P) in
/-- The buffers after the hash of tree-c in `HASH_LEAF`. -/
def afterC (c : WorkItem) (mem : ℕ → ℕ → α) : ℕ → ℕ → α :=
  if P.treeROnly then mem
  else Function.update mem c.buf
    (hashBatch P.leafBatch treeRCArity P.hash (fun a => mem (c.inputs a)) (mem c.buf))

lemma afterC_of_ne {mem : ℕ → ℕ → α} (b : ℕ) (hb : b ≠ c.buf) : P.afterC c mem b = mem b :=
  withC_of_ne b hb

lemma afterC_ok {mem : ℕ → ℕ → α} (hlayer : 1 < c.idx.1) (hle : c.idx.1 ≤ m + 1)
    (hC : P.treeROnly = false → ∀ a < treeRCArity, P.Holds (P.leaves .c partition) m id
      (child treeRCArity c.idx a) (mem (c.inputs a))) (hRO : P.treeROnly = false) :
    P.Holds (P.leaves .c partition) m id c.idx (P.afterC c mem c.buf) := by
  have hself : P.afterC c mem c.buf = _ := withC_self hRO
  rw [hself]
  exact leaf_holds hlayer hle (hC hRO)

/-- `HASH_LEAF`, when the inputs of both items are right. -/
lemma hashLeaf_spec (h : P.Shape k m) (hidx : c.idx = r.idx) (hlayer : 1 < c.idx.1)
    (hle : c.idx.1 ≤ m + 1) (hne : c.buf ≠ r.buf)
    (hC : P.treeROnly = false → ∀ a < treeRCArity, P.Holds (P.leaves .c partition) m id
      (child treeRCArity c.idx a) (s.buffers (c.inputs a)))
    (hR : ∀ a < treeRCArity, P.Holds (P.leaves .r partition) m id (child treeRCArity r.idx a)
      (P.afterC c s.buffers (r.inputs a))) :
    ∃ s', P.hashLeaf id c r last s = some s' ∧
      P.Visited k m partition id c r last s s' (P.afterC c s.buffers) := by
  have hafter := afterC_ok hlayer hle hC
  obtain ⟨bufs, hbufs⟩ : ∃ bufs, bufs = Function.update (P.afterC c s.buffers) r.buf
      (hashBatch P.leafBatch treeRCArity P.hash (fun a => P.afterC c s.buffers (r.inputs a))
        (P.afterC c s.buffers r.buf)) := ⟨_, rfl⟩
  have hokC : P.treeROnly = false → P.Holds (P.leaves .c partition) m id c.idx (bufs c.buf) := by
    intro hRO
    rw [hbufs, Function.update_of_ne hne]
    exact hafter hRO
  have hokR : P.Holds (P.leaves .r partition) m id r.idx (bufs r.buf) := by
    rw [hbufs, Function.update_self]
    exact leaf_holds (hidx ▸ hlayer) (hidx ▸ hle) hR
  obtain ⟨wsC, hwsC, hnodesC⟩ := exists_writeWhen .c (!P.treeROnly) h
    (itemRows_c_of_lt hlayer) hlayer.le hle fun hwrite => ⟨Nat.zero_le _, hokC (by
      rwa [Bool.not_eq_true'] at hwrite)⟩
  obtain ⟨wsR, hwsR, hnodesR⟩ := exists_writeWhen .r (P.discardRows < r.idx.1) h itemRows_r
    (hidx ▸ hlayer.le) (hidx ▸ hle) fun hwrite => ⟨of_decide_eq_true hwrite, hokR⟩
  rw [← hidx] at hnodesR
  refine ⟨{ s with
    buffers := bufs
    resultsC := if last && !P.treeROnly then bufs c.buf else s.resultsC
    resultsR := if last then bufs r.buf else s.resultsR
    writesC := s.writesC ++ wsC
    writesR := s.writesR ++ wsR }, ?_, afterC_of_ne, ?_, ?_, ?_, ?_, ?_⟩
  · rw [hbufs] at hwsC hwsR ⊢
    exact Option.bind_eq_some_iff.mpr ⟨wsC, hwsC, Option.bind_eq_some_iff.mpr ⟨wsR, hwsR, rfl⟩⟩
  · intro b hb
    show bufs b = _
    rw [hbufs, Function.update_of_ne hb]
  · exact fun hactive => hafter (hactive rfl)
  · exact fun _ => hokR
  · intro tree i hi
    cases tree with
    | c => exact (List.flatMap_append ..).trans (congrArg _ (hnodesC i hi))
    | r => exact (List.flatMap_append ..).trans (congrArg _ (hnodesR i hi))
  · intro hlast _ tree hactive
    cases tree with
    | c =>
      have hRO := hactive rfl
      show P.Holds _ m id c.idx (if last && !P.treeROnly then bufs c.buf else s.resultsC)
      rw [hlast, hRO, Bool.not_false, Bool.and_self, if_pos rfl]
      exact hokC hRO
    | r =>
      show P.Holds _ m id c.idx (if last then bufs r.buf else s.resultsR)
      rw [hlast, if_pos rfl, hidx]
      exact hokR

variable (P) in
/-- When tree-c is built, the labels of a batch are on the device and its columns in the buffer of the
item. -/
structure Columns (m partition id : ℕ) (c : WorkItem) (s : GpuStream α) : Prop where
  device : P.treeROnly = false → ∃ dst, s.columnDataD = htoD dst 0
    (P.columnData (P.startNode partition id c.idx.2)) (P.parallelSectors * P.numLayers * P.batchSize)
  buffer : P.treeROnly = false → ∀ i < P.parallelSectors, ∀ y < P.batchSize,
    s.buffers c.buf (i * P.batchSize + y) =
      P.leaves .c partition i ((id * treeRCArity ^ m + c.idx.2) * P.batchSize + y)

/-- `HASH_COLUMN`, or nothing without tree-c. -/
lemma hashColumn_spec (partition id : ℕ) (h : P.Shape k m) (hlayer : c.idx.1 = 1) (s : GpuStream α) :
    ∃ s' ws, (if P.treeROnly then some s
        else P.hashColumn id (P.columnData (P.startNode partition id c.idx.2)) c s) = some s' ∧
      P.Columns m partition id c s' ∧ (∀ b, b ≠ c.buf → s'.buffers b = s.buffers b) ∧
      s'.writesR = s.writesR ∧ s'.writesC = s.writesC ++ ws ∧
      ∀ i < P.parallelSectors, (ws.flatMap fun w => w.nodes i) = if P.treeROnly then []
        else P.treeNodes .c k partition i (P.piece m 0 id c.idx.2) := by
  rcases Bool.eq_false_or_eq_true P.treeROnly with hRO | hRO
  · have hnot : P.treeROnly ≠ false := by
      rw [hRO]
      exact Bool.noConfusion
    refine ⟨s, [], if_pos hRO, ⟨fun hfalse => absurd hfalse hnot, fun hfalse => absurd hfalse hnot⟩,
      fun _ _ => rfl, rfl, (List.append_nil _).symm, fun i _ => ?_⟩
    rw [if_pos hRO, List.flatMap_nil]
  · have hnot : ¬P.treeROnly = true := by
      rw [hRO]
      exact Bool.false_ne_true
    obtain ⟨col, hcol⟩ : ∃ col, col = hashBatch P.columnBatch P.numLayers P.colHash
        (fun _ => htoD s.columnDataD 0 (P.columnData (P.startNode partition id c.idx.2))
          (P.parallelSectors * P.numLayers * P.batchSize)) (s.buffers c.buf) := ⟨_, rfl⟩
    have hdata : ∀ i < P.parallelSectors, ∀ y < P.batchSize, col (i * P.batchSize + y) =
        P.leaves .c partition i ((id * treeRCArity ^ m + c.idx.2) * P.batchSize + y) := by
      intro i hi y hy
      rw [hcol]
      exact columns_holds h hRO _ _ hi hy
    obtain ⟨w, hw, hnodes⟩ := exists_write .c h (Nat.le_refl 0) (Nat.zero_le _) rfl hdata
    refine ⟨{ s with
      columnDataD := htoD s.columnDataD 0 (P.columnData (P.startNode partition id c.idx.2))
        (P.parallelSectors * P.numLayers * P.batchSize)
      buffers := Function.update s.buffers c.buf col
      writesC := s.writesC ++ [w] }, [w], ?_, ⟨fun _ => ⟨_, rfl⟩, fun _ i hi y hy => ?_⟩, ?_, rfl, rfl,
      fun i hi => ?_⟩
    · rw [if_neg hnot]
      refine Option.bind_eq_some_iff.mpr ⟨w, ?_, ?_⟩
      · rw [hlayer, Function.update_self, ← hcol]
        exact hw
      · rw [hcol]
    · exact (congrFun (Function.update_self ..) _).trans (hdata i hi y hy)
    · exact fun b hb => Function.update_of_ne hb ..
    · rw [if_neg hnot, List.flatMap_singleton, hnodes i hi]

/-- `HASH_COLUMN_LEAVES`, with the columns in the buffer when tree-c is built. -/
lemma hashColumnLeaves_spec (partition id : ℕ) (s : GpuStream α) (h : P.Shape k m)
    (hidx : c.idx = r.idx) (hlayer : c.idx.1 = 1) (hne : c.buf ≠ r.buf)
    (hcolumns : P.Columns m partition id c s) :
    ∃ s', ∃ mem : ℕ → ℕ → α, P.hashColumnLeaves id (P.replicaData (P.startNode partition id c.idx.2)) c r s = some s' ∧
      (∀ b, b ≠ c.buf → mem b = s.buffers b) ∧ (∀ b, b ≠ r.buf → s'.buffers b = mem b) ∧
      P.Ok partition m id (.c, c) (mem c.buf) ∧ P.Ok partition m id (.r, r) (s'.buffers r.buf) ∧
      s'.writesR = s.writesR ∧
      ∃ ws, s'.writesC = s.writesC ++ ws ∧ ∀ i < P.parallelSectors,
        (ws.flatMap fun w => w.nodes i) = if P.treeROnly then []
          else P.treeNodes .c k partition i (P.piece m 1 id c.idx.2) := by
  have hpair : c.idx = (1, c.idx.2) := Prod.ext hlayer rfl
  obtain ⟨mem, hmem⟩ : ∃ mem, mem = P.withC c
      (hashBatch P.treeCBatch treeRCArity P.hash (fun _ => s.buffers c.buf) (s.buffers c.buf))
      s.buffers := ⟨_, rfl⟩
  obtain ⟨bufs, hbufs⟩ : ∃ bufs, bufs = Function.update mem r.buf
      (hashBatch P.treeRBatch treeRCArity P.hash (fun _ n =>
        P.replicaD s.columnDataD (P.startNode partition id c.idx.2)
          (P.batchSize * P.parallelSectors * (P.numLayers - 1) + n)) (mem r.buf)) := ⟨_, rfl⟩
  have hframeC : ∀ b, b ≠ c.buf → mem b = s.buffers b := by
    intro b hb
    rw [hmem, withC_of_ne b hb]
  have hframeR : ∀ b, b ≠ r.buf → bufs b = mem b := by
    intro b hb
    rw [hbufs, Function.update_of_ne hb]
  have hokC : P.treeROnly = false → P.Holds (P.leaves .c partition) m id (1, c.idx.2) (mem c.buf) := by
    intro hRO
    rw [hmem, withC_self hRO]
    exact treeC_holds (hcolumns.buffer hRO)
  have hokR : P.Holds (P.leaves .r partition) m id (1, c.idx.2) (bufs r.buf) := by
    rw [hbufs, Function.update_self]
    refine treeR_holds fun i hi y hy => ?_
    rw [treeR_input hcolumns.device hy hi, startNode_eq h, Nat.add_assoc]
    rfl
  have hOkR : P.Ok partition m id (.r, r) (bufs r.buf) := by
    intro _
    rw [← hidx, hpair]
    exact hokR
  cases hRO : P.treeROnly with
  | true =>
    refine ⟨{ s with
        columnDataD := P.replicaD s.columnDataD (P.startNode partition id c.idx.2)
        buffers := bufs }, mem, ?_, hframeC, hframeR, fun hactive => ?_, hOkR, rfl, [], ?_,
      fun _ _ => rfl⟩
    · rw [hbufs, hmem]
      exact if_pos hRO
    · exact absurd (hRO.symm.trans (hactive rfl)) Bool.noConfusion
    · exact (List.append_nil _).symm
  | false =>
    obtain ⟨w, hw, hnodes⟩ := (hokC hRO).exists_write h le_rfl (Nat.zero_le _) (Nat.le_add_left 1 m)
    refine ⟨{ s with
        columnDataD := P.replicaD s.columnDataD (P.startNode partition id c.idx.2)
        buffers := bufs
        writesC := s.writesC ++ [w] }, mem, ?_, hframeC, hframeR, fun _ => ?_, hOkR, rfl, [w], rfl, ?_⟩
    · rw [← hlayer, ← hframeR _ hne, hbufs, hmem] at hw
      rw [hbufs, hmem]
      refine (if_neg (by rw [hRO]; exact Bool.false_ne_true)).trans ?_
      exact Option.bind_eq_some_iff.mpr ⟨w, hw, rfl⟩
    · rw [hpair]
      exact hokC hRO
    · intro i hi
      rw [List.flatMap_singleton, hnodes i hi]
      rfl

lemma itemKeys_c_one (m id v : ℕ) : P.itemKeys .c m id (1, v) =
    if P.treeROnly then [] else P.piece m 0 id v ++ P.piece m 1 id v := by
  rw [itemKeys, itemRows, if_pos rfl]
  split_ifs
  · rfl
  · rw [List.flatMap_cons, List.flatMap_singleton]

/-- The first row over the leaves is not in the file of tree-r. -/
lemma itemKeys_r_one (m id v : ℕ) : P.itemKeys .r m id (1, v) = [] := by
  rw [itemKeys, itemRows, if_neg P.discardRows_pos.not_gt]
  rfl

/-- The item of a leaf. -/
lemma hashItem_leaf (h : P.Shape k m) (hidx : c.idx = r.idx) (hleaf : c.isLeaf = true)
    (hlayer : c.idx.1 = 1) (hne : c.buf ≠ r.buf) (s : GpuStream α) :
    ∃ s' mem, P.hashItem partition id c r last s = some s' ∧
      P.Visited k m partition id c r last s s' mem := by
  have hpair : c.idx = (1, c.idx.2) := Prod.ext hlayer rfl
  obtain ⟨s₁, ws₁, hs₁, hcolumns, hframe, hwritesR₁, hwritesC₁, hnodes₁⟩ :=
    hashColumn_spec partition id h hlayer s
  obtain ⟨s', mem, hs', hframeC, hframeR, hokC, hokR, hwritesR, ws, hwritesC, hnodes⟩ :=
    hashColumnLeaves_spec partition id s₁ h hidx hlayer hne hcolumns
  refine ⟨s', mem, ?_, ?_, hframeR, hokC, hokR, ?_, fun _ hlt => absurd hlayer hlt.ne'⟩
  · rw [hashItem, if_pos hleaf]
    exact Option.bind_eq_some_iff.mpr ⟨s₁, hs₁, hs'⟩
  · intro b hb
    rw [hframeC b hb, hframe b hb]
  · intro tree i hi
    rw [hpair]
    cases tree with
    | c =>
      show s'.writesC.flatMap _ = _
      rw [hwritesC, hwritesC₁, List.flatMap_append, List.flatMap_append, hnodes₁ i hi, hnodes i hi,
        itemKeys_c_one, List.append_assoc]
      split_ifs
      · rfl
      · rw [← treeNodes_append]
        rfl
    | r =>
      show s'.writesR.flatMap _ = _
      rw [hwritesR, hwritesR₁, itemKeys_r_one]
      exact (List.append_nil _).symm

/-! ### A run -/

variable {items pre rest : List (WorkItem × WorkItem)}

/-- Every result is read once, and no buffer with a result to be read is taken. -/
lemma safe_hashes (h : Partition treeRCArity m items) :
    Safe (Reads treeRCArity) (fun e => e.2.buf) (hashes items) := by
  refine ⟨fun before x after hsplit e he => h.hashes_fresh hsplit he, ?_⟩
  rintro before x after hsplit e ⟨htree, hidx⟩ y hy ⟨htree', hidx'⟩
  obtain ⟨pre, c, r, post, hitems, hcase⟩ := hashes_split hsplit
  have hsame : y.1 = x.1 ∧ y.2.idx = x.2.idx := ⟨htree'.trans htree.symm, hidx'.trans hidx.symm⟩
  rcases hcase with ⟨rfl, rfl⟩ | ⟨rfl, rfl⟩
  · obtain ⟨y, w⟩ := y
    obtain ⟨rfl, hw⟩ := hsame
    obtain ⟨u, hu⟩ := (mem_hashes_c w).mp hy
    have hnodup := h.c.nodup
    rw [hitems, List.map_append, List.map_append, List.nodup_append] at hnodup
    refine hnodup.2.2 _ ?_ _ (List.mem_cons_self ..) hw
    exact List.mem_map_of_mem (List.mem_map_of_mem (f := Prod.fst) hu)
  · obtain ⟨y, w⟩ := y
    obtain ⟨rfl, hw⟩ := hsame
    have hy : (Tree.r, w) ∈ hashes pre := by
      refine (List.mem_append.mp hy).resolve_right fun hsingle => ?_
      cases List.mem_singleton.mp hsingle
    obtain ⟨u, hu⟩ := (mem_hashes_r w).mp hy
    have hnodup := h.r.nodup
    rw [hitems, List.map_append, List.map_append, List.nodup_append] at hnodup
    refine hnodup.2.2 _ ?_ _ (List.mem_cons_self ..) hw
    exact List.mem_map_of_mem (List.mem_map_of_mem (f := Prod.snd) hu)

/-- The inputs of an item are outputs that it reads. -/
lemma TraversalOf.input {ws done after : List WorkItem} {w : WorkItem} {a : ℕ}
    (h : TraversalOf treeRCArity m ws) (hws : ws = done ++ w :: after) (hlayer : 1 < w.idx.1)
    (ha : a < treeRCArity) : ∃ e ∈ done, e.idx = child treeRCArity w.idx a ∧ w.inputs a = e.buf ∧
      w.idx = parent treeRCArity e.idx := by
  obtain ⟨e, he, hidx, hinput⟩ := h.children done w after hws hlayer a ha
  refine ⟨e, he, hidx, hinput, ?_⟩
  rw [hidx, parent_child ha hlayer.le]

/-- A visit in a run. -/
lemma hashItem_spec (h : P.Shape k m) (hpart : Partition treeRCArity m items)
    (hitems : items = pre ++ (c, r) :: rest)
    (hlive : Live (Reads treeRCArity) (fun e : Tree × WorkItem => e.2.buf) (P.Ok partition m id)
      (hashes pre) s.buffers) (last : Bool) :
    ∃ s' mem, P.hashItem partition id c r last s = some s' ∧
      P.Visited k m partition id c r last s s' mem := by
  have hvisit := hpart.visits pre c r rest hitems
  have hC : items.map Prod.fst = pre.map Prod.fst ++ c :: rest.map Prod.fst := by
    rw [hitems, List.map_append, List.map_cons]
  have hR : items.map Prod.snd = pre.map Prod.snd ++ r :: rest.map Prod.snd := by
    rw [hitems, List.map_append, List.map_cons]
  have hmem : c ∈ items.map Prod.fst := by
    rw [hC]
    exact List.mem_append_right _ (List.mem_cons_self ..)
  obtain ⟨hpos, hle, -⟩ := (hpart.c.mem c.idx).mp (List.mem_map_of_mem hmem)
  by_cases hleaf : c.isLeaf = true
  · exact hashItem_leaf h hvisit.idx hleaf ((hpart.c.isLeaf c hmem).mp hleaf) hvisit.outC_outR s
  · have hlayer : 1 < c.idx.1 := by
      refine lt_of_le_of_ne hpos fun heq => hleaf ((hpart.c.isLeaf c hmem).mpr heq.symm)
    have hsafe := safe_hashes hpart
    have hjobs : hashes items = hashes pre ++ (.c, c) :: (.r, r) :: hashes rest := by
      rw [hitems, hashes, List.flatMap_append]
      rfl
    have hjobs' : hashes items = (hashes pre ++ [(.c, c)]) ++ (.r, r) :: hashes rest := by
      rw [hjobs, List.append_assoc, List.singleton_append]
    have hinC : P.treeROnly = false → ∀ a < treeRCArity, P.Holds (P.leaves .c partition) m id
        (child treeRCArity c.idx a) (s.buffers (c.inputs a)) := by
      intro hRO a ha
      obtain ⟨e, he, hidx, hinput, hparent⟩ := TraversalOf.input hpart.c hC hlayer ha
      obtain ⟨⟨w, u⟩, hwu, rfl⟩ := List.mem_map.mp he
      rw [hinput, ← hidx]
      exact hlive.input (e := (.c, w)) hsafe hjobs ((mem_hashes_c w).mpr ⟨u, hwu⟩) ⟨rfl, hparent⟩
        fun _ => hRO
    have hlive' : Live (Reads treeRCArity) (fun e : Tree × WorkItem => e.2.buf)
        (P.Ok partition m id) (hashes pre ++ [(.c, c)]) (P.afterC c s.buffers) := by
      refine hlive.step hsafe hjobs ?_ afterC_of_ne
      exact fun hactive => afterC_ok hlayer hle hinC (hactive rfl)
    have hinR : ∀ a < treeRCArity, P.Holds (P.leaves .r partition) m id
        (child treeRCArity r.idx a) (P.afterC c s.buffers (r.inputs a)) := by
      intro a ha
      obtain ⟨e, he, hidx, hinput, hparent⟩ := TraversalOf.input hpart.r hR (hvisit.idx ▸ hlayer) ha
      obtain ⟨⟨u, w⟩, huw, rfl⟩ := List.mem_map.mp he
      rw [hinput, ← hidx]
      have hmem : (Tree.r, w) ∈ hashes pre ++ [(.c, c)] :=
        List.mem_append_left _ ((mem_hashes_r w).mpr ⟨u, huw⟩)
      exact hlive'.input (e := (.r, w)) hsafe hjobs' hmem ⟨rfl, hparent⟩ active_r
    obtain ⟨s', hs', hvisited⟩ := hashLeaf_spec h hvisit.idx hlayer hle hvisit.outC_outR hinC hinR
    exact ⟨s', _, (if_neg hleaf).trans hs', hvisited⟩

lemma hashes_append (pre rest : List (WorkItem × WorkItem)) :
    hashes (pre ++ rest) = hashes pre ++ hashes rest :=
  List.flatMap_append

/-- A visit keeps the results that are to be read. -/
lemma Visited.live {mem : ℕ → ℕ → α} (h : P.Visited k m partition id c r last s s' mem)
    (hpart : Partition treeRCArity m items) (hitems : items = pre ++ (c, r) :: rest)
    (hlive : Live (Reads treeRCArity) (fun e : Tree × WorkItem => e.2.buf) (P.Ok partition m id)
      (hashes pre) s.buffers) :
    Live (Reads treeRCArity) (fun e : Tree × WorkItem => e.2.buf) (P.Ok partition m id)
      (hashes (pre ++ [(c, r)])) s'.buffers := by
  have hsafe := safe_hashes hpart
  have hjobs : hashes items = hashes pre ++ (.c, c) :: (.r, r) :: hashes rest := by
    rw [hitems, hashes_append]
    rfl
  have hjobs' : hashes items = (hashes pre ++ [(.c, c)]) ++ (.r, r) :: hashes rest := by
    rw [hjobs, List.append_assoc, List.singleton_append]
  have h' := (hlive.step hsafe hjobs h.okC h.frameC).step hsafe hjobs' h.okR h.frameR
  rw [List.append_assoc] at h'
  rw [hashes_append]
  exact h'

/-- The root comes last. -/
lemma TraversalOf.last_idx {ws done : List WorkItem} {w : WorkItem} (h : TraversalOf treeRCArity m ws)
    (hws : ws = done ++ [w]) : w.idx = (m + 1, 0) := by
  by_contra hne
  have hmem : w ∈ ws := by
    rw [hws]
    exact List.mem_append_right _ (List.mem_singleton_self w)
  have hin := (h.mem w.idx).mp (List.mem_map_of_mem hmem)
  -- the item of the parent would have to come after the last item
  have hparent : InTree treeRCArity m (parent treeRCArity w.idx) := by
    refine hin.parent.resolve_left fun htop => hne ?_
    obtain ⟨h1, -⟩ := Prod.mk.inj htop
    have hlayer : w.idx.1 = m + 1 := Nat.succ.inj h1
    have hnode := hin.2.2
    rw [hlayer, Nat.sub_self, pow_zero, Nat.lt_one_iff] at hnode
    exact Prod.ext hlayer hnode
  obtain ⟨u, hu, huidx⟩ := List.mem_map.mp ((h.mem _).mpr hparent)
  obtain ⟨before, after, hsplit⟩ := List.append_of_mem hu
  have hlayer : 1 < u.idx.1 := by
    rw [huidx]
    exact Nat.lt_succ_of_le hin.1
  obtain ⟨e, he, heidx, -⟩ := h.children before u after hsplit hlayer (w.idx.2 % treeRCArity)
    (Nat.mod_lt _ arity_pos)
  rw [huidx, child_parent] at heidx
  have hnodup := h.nodup
  rw [hws, List.map_append, List.nodup_append] at hnodup
  refine hnodup.2.2 e.idx ?_ w.idx (List.mem_singleton_self _) heidx
  -- `e` is not the last item, since `u` comes after it
  have hdone : e ∈ done := by
    rcases List.eq_nil_or_concat after with rfl | ⟨after', z, rfl⟩
    · rw [hws] at hsplit
      obtain ⟨rfl, -⟩ := List.append_inj' hsplit rfl
      exact he
    · rw [hws, List.concat_eq_append, ← List.cons_append, ← List.append_assoc] at hsplit
      obtain ⟨rfl, -⟩ := List.append_inj' hsplit rfl
      exact List.mem_append_left _ he
  exact List.mem_map_of_mem hdone

/-- The rest of a run: the nodes of all items are written, and the last results are the piece of the
root. -/
theorem hashItems_spec (partition id : ℕ) (h : P.Shape k m) (hpart : Partition treeRCArity m items)
    (hitems : items = pre ++ rest)
    (hlive : Live (Reads treeRCArity) (fun e : Tree × WorkItem => e.2.buf) (P.Ok partition m id)
      (hashes pre) s.buffers) :
    ∃ s', P.hashItems partition id rest s = some s' ∧
      (∀ tree, ∀ i < P.parallelSectors, s'.nodes tree i = s.nodes tree i ++
        P.treeNodes tree k partition i (rest.flatMap fun e => P.itemKeys tree m id e.1.idx)) ∧
      (rest ≠ [] → ∀ tree, P.Active tree →
        P.Holds (P.leaves tree partition) m id (m + 1, 0) (s'.results tree)) := by
  induction rest generalizing pre s with
  | nil => exact ⟨s, rfl, fun _ _ _ => (List.append_nil _).symm, fun hne => absurd rfl hne⟩
  | cons e rest ih =>
    obtain ⟨c, r⟩ := e
    obtain ⟨s₁, mem, hs₁, hvisited⟩ := hashItem_spec h hpart hitems hlive rest.isEmpty
    have hitems' : items = (pre ++ [(c, r)]) ++ rest := by
      rw [hitems, List.append_assoc, List.singleton_append]
    obtain ⟨s', hs', hnodes, hresults⟩ := ih hitems' (hvisited.live hpart hitems hlive)
    refine ⟨s', ?_, ?_, ?_⟩
    · exact Option.bind_eq_some_iff.mpr ⟨s₁, hs₁, hs'⟩
    · intro tree i hi
      rw [hnodes tree i hi, hvisited.writes tree i hi, List.append_assoc, ← treeNodes_append,
        List.flatMap_cons]
    · intro _ tree hactive
      rcases List.eq_nil_or_concat rest with rfl | ⟨rest', e, rfl⟩
      · have hidx : c.idx = (m + 1, 0) := by
          have hlast : items.map Prod.fst = pre.map Prod.fst ++ [c] := by
            rw [hitems, List.map_append]
            rfl
          exact TraversalOf.last_idx hpart.c hlast
        have hlayer : 1 < c.idx.1 := by
          rw [hidx]
          exact Nat.succ_lt_succ h.pos
        cases hs'
        rw [← hidx]
        exact hvisited.results rfl hlayer tree hactive
      · exact hresults (by simp) tree hactive

variable (P) in
/-- A stream after a partition. -/
def Done (k m partition id : ℕ) (items : List (WorkItem × WorkItem)) (s : GpuStream α) : Prop :=
  (∀ tree, ∀ i < P.parallelSectors, s.nodes tree i =
    P.treeNodes tree k partition i (items.flatMap fun e => P.itemKeys tree m id e.1.idx)) ∧
  ∀ tree, P.Active tree → P.Holds (P.leaves tree partition) m id (m + 1, 0) (s.results tree)

/-- All streams, whatever they have in memory when the partition starts. -/
theorem hashStreams_spec (partition : ℕ) (h : P.Shape k m) (hpart : Partition treeRCArity m items) {ids : List ℕ}
    (hids : ids.Nodup) (streams : ℕ → GpuStream α) :
    ∃ streams', P.hashStreams partition items ids streams = some streams' ∧
      (∀ id ∈ ids, P.Done k m partition id items (streams' id)) ∧
      ∀ id, id ∉ ids → streams' id = streams id := by
  have hne : items ≠ [] := by
    rintro rfl
    exact List.not_mem_nil ((hpart.c.mem _).mpr (Traversal.root_inTree treeRCArity m))
  induction ids generalizing streams with
  | nil => exact ⟨streams, rfl, fun _ hid => absurd hid List.not_mem_nil, fun _ _ => rfl⟩
  | cons id ids ih =>
    rw [List.nodup_cons] at hids
    obtain ⟨s, hs, hnodes, hresults⟩ := hashItems_spec partition id
      (s := { streams id with writesC := [], writesR := [] }) h hpart (List.nil_append items).symm
      (live_nil _)
    obtain ⟨streams', hrun, hdone, hother⟩ := ih hids.2 (Function.update streams id s)
    refine ⟨streams', Option.bind_eq_some_iff.mpr ⟨s, hs, hrun⟩, ?_, ?_⟩
    · intro id' hid'
      rcases List.mem_cons.mp hid' with rfl | hid'
      · rw [hother id' hids.1, Function.update_self]
        refine ⟨fun tree i hi => ?_, hresults hne⟩
        rw [hnodes tree i hi]
        cases tree <;> rfl
      · exact hdone id' hid'
    · intro id' hid'
      rw [List.mem_cons, not_or] at hid'
      rw [hother id' hid'.2, Function.update_of_ne hid'.1]

end GpuTrees

end SupraSeal
