import SupraSeal.Pc1.TreeSpec
import SupraSeal.Pc2.GpuTreeCpu
import SupraSeal.Pc2.HandOff

/-!
# The tree files

The nodes that the streams and the CPU write in a partition are the nodes of the rows in the file,
each once. A tree file is the one that `BuildTree` leaves.
-/

namespace SupraSeal

open MerkleTree LiveBuffers TreeScheduler TreeResource

namespace GpuTrees

variable {α : Type} {P : GpuTrees α} {k m i q j partition fuel : ℕ} {tree : Tree}
  {items : List (WorkItem × WorkItem)} {cpuItems : List WorkItem}

/-! ### The nodes of a partition -/

variable (P) in
/-- The nodes that the streams write. -/
def gpuKeys (tree : Tree) (m : ℕ) (idxs : List (ℕ × ℕ)) : List (ℕ × ℕ) :=
  (List.range P.streamCount).flatMap fun id => idxs.flatMap (P.itemKeys tree m id)

lemma mem_itemRows {l : ℕ} (hactive : P.Active tree) (hl : 1 ≤ l) :
    q ∈ P.itemRows tree l ↔ P.firstRow tree ≤ q ∧ l = max q 1 := by
  cases tree with
  | c =>
    have hRO := hactive rfl
    rw [itemRows, hRO, if_neg Bool.false_ne_true, firstRow]
    split_ifs with h1
    · simp only [List.mem_cons, List.not_mem_nil, or_false]
      omega
    · rw [List.mem_singleton]
      omega
  | r =>
    rw [itemRows, firstRow]
    split_ifs with hd
    · rw [List.mem_singleton]
      omega
    · simp only [List.not_mem_nil, false_iff]
      omega

lemma nodup_itemRows (tree : Tree) (l : ℕ) : (P.itemRows tree l).Nodup := by
  cases tree with
  | c =>
    rw [itemRows]
    split_ifs <;> simp
  | r =>
    rw [itemRows]
    split_ifs <;> simp

/-- A node tells its piece, and a piece its stream and its item. -/
lemma mem_piece {id v l x : ℕ} (h : (l, x) ∈ P.piece m q id v) :
    l = q ∧ x / P.pieceSize q = id * pieceCount m q + v := by
  obtain ⟨y, hy, heq⟩ := List.mem_map.mp h
  obtain ⟨rfl, rfl⟩ := Prod.mk.inj heq
  exact ⟨rfl, Poseidon.mul_add_div' _ (List.mem_range.mp hy)⟩

lemma mem_itemKeys {id l x : ℕ} {idx : ℕ × ℕ} : (l, x) ∈ P.itemKeys tree m id idx ↔
    l ∈ P.itemRows tree idx.1 ∧ ∃ y < P.pieceSize l,
      x = (id * pieceCount m l + idx.2) * P.pieceSize l + y := by
  rw [itemKeys, List.mem_flatMap]
  constructor
  · rintro ⟨q, hq, hx⟩
    obtain ⟨y, hy, heq⟩ := List.mem_map.mp hx
    obtain ⟨rfl, rfl⟩ := Prod.mk.inj heq
    exact ⟨hq, y, List.mem_range.mp hy, rfl⟩
  · rintro ⟨hl, y, hy, rfl⟩
    exact ⟨l, hl, List.mem_map.mpr ⟨y, List.mem_range.mpr hy, rfl⟩⟩

lemma nodup_itemKeys (tree : Tree) (m id : ℕ) (idx : ℕ × ℕ) : (P.itemKeys tree m id idx).Nodup := by
  refine nodup_flatMap_of_owner Prod.fst (nodup_itemRows tree idx.1) ?_ ?_
  · intro q _
    refine List.nodup_range.map fun x y hxy => ?_
    exact Nat.add_left_cancel (Prod.mk.inj hxy).2
  · rintro q _ ⟨l, x⟩ hx
    exact (mem_piece hx).1

variable {idxs : List (ℕ × ℕ)}

/-- The piece of a node below the CPU. -/
lemma piece_of_mem_itemKeys {id l x : ℕ} {idx : ℕ × ℕ} (hactive : P.Active tree)
    (hidx : InTree treeRCArity m idx) (h : (l, x) ∈ P.itemKeys tree m id idx) :
    idx.1 = max l 1 ∧ idx.2 < pieceCount m l ∧ x / P.pieceSize l = id * pieceCount m l + idx.2 := by
  obtain ⟨hrow, y, hy, rfl⟩ := mem_itemKeys.mp h
  have hl := ((mem_itemRows hactive hidx.1).mp hrow).2
  have hlt := hidx.2.2
  rw [hl] at hlt
  exact ⟨hl, hlt, Poseidon.mul_add_div' _ hy⟩

lemma nodup_gpuKeys (hactive : P.Active tree) (hnodup : idxs.Nodup)
    (hin : ∀ idx ∈ idxs, InTree treeRCArity m idx) : (P.gpuKeys tree m idxs).Nodup := by
  refine nodup_flatMap_of_owner (fun p => p.2 / P.pieceSize p.1 / pieceCount m p.1)
    List.nodup_range ?_ ?_
  · intro id _
    refine nodup_flatMap_of_owner
      (fun p => (max p.1 1, p.2 / P.pieceSize p.1 % pieceCount m p.1)) hnodup
      (fun idx _ => nodup_itemKeys tree m id idx) ?_
    rintro idx hidx ⟨l, x⟩ hx
    obtain ⟨hl, hlt, hdiv⟩ := piece_of_mem_itemKeys hactive (hin idx hidx) hx
    refine Prod.ext hl.symm ?_
    show x / P.pieceSize l % pieceCount m l = idx.2
    rw [hdiv, Poseidon.mul_add_mod' _ hlt]
  · rintro id _ ⟨l, x⟩ hx
    obtain ⟨idx, hidx, hx⟩ := List.mem_flatMap.mp hx
    obtain ⟨-, hlt, hdiv⟩ := piece_of_mem_itemKeys hactive (hin idx hidx) hx
    show x / P.pieceSize l / pieceCount m l = id
    rw [hdiv, Poseidon.mul_add_div' _ hlt]

/-- The streams write all nodes of the kept rows below the CPU. -/
lemma mem_gpuKeys (h : P.Shape k m) (hactive : P.Active tree)
    (hin : ∀ idx, idx ∈ idxs ↔ InTree treeRCArity m idx) : (q, j) ∈ P.gpuKeys tree m idxs ↔
      P.firstRow tree ≤ q ∧ q ≤ m + 1 ∧ j < treeRCArity ^ (k - q) := by
  simp only [gpuKeys, List.mem_flatMap, List.mem_range]
  constructor
  · rintro ⟨id, hid, idx, hidx, hq⟩
    have hidx := (hin idx).mp hidx
    obtain ⟨hrow, y, hy, rfl⟩ := mem_itemKeys.mp hq
    obtain ⟨hfirst, hl⟩ := (mem_itemRows hactive hidx.1).mp hrow
    have hqm : q ≤ m + 1 := (le_max_left q 1).trans (hl ▸ hidx.2.1)
    refine ⟨hfirst, hqm, ?_⟩
    have hlt := (piece_of_mem_itemKeys hactive hidx hq).2.1
    rw [← h.streams_mul_pieces hqm, ← Nat.mul_assoc]
    exact Poseidon.mul_add_lt (Poseidon.mul_add_lt hid hlt) hy
  · rintro ⟨hfirst, hqm, hj⟩
    rw [← h.streams_mul_pieces hqm, ← Nat.mul_assoc] at hj
    obtain ⟨n, hn, y, hy, rfl⟩ := Poseidon.exists_mul_add hj
    obtain ⟨id, hid, v, hv, rfl⟩ := Poseidon.exists_mul_add hn
    have hidx : InTree treeRCArity m (max q 1, v) :=
      ⟨le_max_right q 1, max_le hqm (Nat.le_add_left 1 m), hv⟩
    refine ⟨id, hid, (max q 1, v), (hin _).mpr hidx, mem_itemKeys.mpr ⟨?_, y, hy, rfl⟩⟩
    exact (mem_itemRows hactive hidx.1).mpr ⟨hfirst, rfl⟩

/-- The CPU writes all nodes of the rows above. -/
lemma mem_cpuKeys (h : P.Shape k m) (htrav : TraversalOf treeRCArity (k - m - 2) cpuItems) :
    (q, j) ∈ cpuItems.map (cpuKey m) ↔ m + 1 < q ∧ q ≤ k ∧ j < treeRCArity ^ (k - q) := by
  have hk := h.lt_k
  have hmap : cpuItems.map (cpuKey m) =
      (cpuItems.map WorkItem.idx).map fun idx => (m + 1 + idx.1, idx.2) := by
    rw [List.map_map]
    rfl
  rw [hmap, List.mem_map]
  constructor
  · rintro ⟨⟨l, v⟩, hidx, heq⟩
    obtain ⟨hpos, hle, hlt⟩ := (htrav.mem (l, v)).mp hidx
    obtain ⟨rfl, rfl⟩ := Prod.mk.inj heq
    have hexp : k - m - 2 + 1 - l = k - (m + 1 + l) := by omega
    simp only at hpos hle hlt ⊢
    rw [hexp] at hlt
    exact ⟨by omega, by omega, hlt⟩
  · rintro ⟨hq, hqk, hj⟩
    have hexp : k - m - 2 + 1 - (q - (m + 1)) = k - q := by omega
    refine ⟨(q - (m + 1), j), (htrav.mem _).mpr ⟨by omega, by omega, ?_⟩, ?_⟩
    · rwa [hexp]
    · rw [Prod.mk.injEq]
      exact ⟨by omega, rfl⟩

/-- The nodes of a partition are those of the file. -/
lemma nodes_complete (h : P.Shape k m) (hactive : P.Active tree) (hnodup : idxs.Nodup)
    (hin : ∀ idx, idx ∈ idxs ↔ InTree treeRCArity m idx)
    (htrav : TraversalOf treeRCArity (k - m - 2) cpuItems) :
    (P.gpuKeys tree m idxs ++ cpuItems.map (cpuKey m)).Nodup ∧
      ∀ q j, (q, j) ∈ P.gpuKeys tree m idxs ++ cpuItems.map (cpuKey m) ↔
        P.firstRow tree ≤ q ∧ q ≤ k ∧ j < treeRCArity ^ (k - q) := by
  have hk := h.lt_k
  have hfirst := firstRow_le h tree
  constructor
  · refine List.nodup_append.mpr ⟨nodup_gpuKeys hactive hnodup fun idx hidx => (hin idx).mp hidx, ?_, ?_⟩
    · refine (List.nodup_map_iff_inj_on htrav.nodup.of_map).mpr ?_
      intro w hw u hu heq
      obtain ⟨h1, h2⟩ := Prod.mk.inj heq
      exact List.inj_on_of_nodup_map htrav.nodup hw hu (Prod.ext (Nat.add_left_cancel h1) h2)
    · rintro ⟨q, j⟩ hgpu ⟨q', j'⟩ hcpu heq
      obtain ⟨rfl, rfl⟩ := Prod.mk.inj heq
      exact absurd ((mem_gpuKeys h hactive hin).mp hgpu).2.1 ((mem_cpuKeys h htrav).mp hcpu).1.not_ge
  · intro q j
    rw [List.mem_append, mem_gpuKeys h hactive hin, mem_cpuKeys h htrav]
    constructor
    · rintro (⟨hq, hqm, hj⟩ | ⟨hq, hqk, hj⟩)
      · exact ⟨hq, by omega, hj⟩
      · exact ⟨by omega, hqk, hj⟩
    · rintro ⟨hq, hqk, hj⟩
      by_cases hqm : q ≤ m + 1
      · exact .inl ⟨hq, hqm, hj⟩
      · exact .inr ⟨Nat.lt_of_not_le hqm, hqk, hj⟩

/-! ### The files of the builder -/

variable (P) in
/-- What `BuildTree` leaves for a tree. -/
def treeFile (tree : Tree) (mem : TreeMem α) (partition sector : ℕ) : α × (ℕ → α) :=
  match tree with
  | .c => P.treeCFile mem partition sector
  | .r => P.treeRFile mem partition sector

variable (P) in
/-- Nodes of a file. -/
def treeSize : Tree → ℕ
  | .c => P.treeCSize
  | .r => P.treeRSize

lemma discardRows_lt (h : P.Shape k m) : P.discardRows < k :=
  (Nat.lt_of_lt_of_le (Nat.lt_succ_of_le P.discardRows_le) (Nat.succ_le_succ (Nat.succ_le_succ h.pos))).trans_le
    h.lt_k

lemma array_zero (mem : TreeMem α) (buf : TreeBuffer) : mem.array ⟨buf, 0⟩ = mem buf := by
  funext j
  rw [TreeMem.array, Nat.zero_add]

/-- The builder stores the rows from the first one in the file on. -/
lemma treeFile_spec (h : P.Shape k m) (tree : Tree) (mem : TreeMem α) (partition i : ℕ) :
    Stores P.hash treeRCArity (P.treeFile tree mem partition i).2
        (row P.hash treeRCArity (P.leaves tree partition i) (P.firstRow tree)) (k - P.firstRow tree) ∧
      (P.treeFile tree mem partition i).1 =
        row P.hash treeRCArity (P.leaves tree partition i) k 0 ∧
      P.treeSize tree =
        rowStart treeRCArity (k - P.firstRow tree) (k - P.firstRow tree + 1) := by
  have hd := discardRows_lt h
  have hpos : 0 < k := Nat.zero_lt_of_lt hd
  cases tree with
  | c =>
    have hkept : P.treeBuilder.firstKept true false ≤ k := Nat.zero_le k
    have hsize := TreeBuilder.size_eq hkept hpos
    obtain ⟨hstores, hroot, -⟩ := P.treeBuilder.buildTree_spec P.discardRows_le hd true false
      (Function.update mem .input (P.treeCInput partition i)) 0 0
    simp only [array_zero, Function.update_self] at hstores hroot
    rw [treeFile, treeCFile, treeSize, treeCSize, h.nodes]
    exact ⟨hstores, hroot, hsize⟩
  | r =>
    have hkept : P.treeBuilder.firstKept false false ≤ k := hd
    have hsize := TreeBuilder.size_eq hkept hpos
    obtain ⟨hstores, hroot, -⟩ := P.treeBuilder.buildTree_spec P.discardRows_le hd false false
      (Function.update mem .input (P.treeRInput partition i)) 0 0
    simp only [array_zero, Function.update_self] at hstores hroot
    rw [treeFile, treeRFile, treeSize, treeRSize, h.nodes]
    exact ⟨hstores, hroot, hsize⟩

/-! ### A partition -/

variable (P) in
/-- The writes of a partition, in whatever order, fill the files of each sector, and the roots are
those of the builder. Without tree-c nothing is written to its files. -/
structure AsBuilt (mem : TreeMem α) (partition : ℕ) (w : PartitionWrites α) : Prop where
  treeC : P.treeROnly = false → ∀ i < P.parallelSectors, ∀ writes,
    writes.Perm (w.writesC.flatMap fun w => w.nodes i) →
      Fills (P.treeCFile mem partition i).2 P.treeCSize writes
  noTreeC : P.treeROnly = true → ∀ i < P.parallelSectors,
    (w.writesC.flatMap fun w => w.nodes i) = []
  treeR : ∀ i < P.parallelSectors, ∀ writes,
    writes.Perm (w.writesR.flatMap fun w => w.nodes i) →
      Fills (P.treeRFile mem partition i).2 P.treeRSize writes
  rootsC : P.treeROnly = false → ∀ i < P.parallelSectors,
    w.rootsC i = (P.treeCFile mem partition i).1
  rootsR : ∀ i < P.parallelSectors, w.rootsR i = (P.treeRFile mem partition i).1

/-- All results of the streams are the input of the CPU. -/
lemma cpuInput (h : P.Shape k m) (hactive : P.Active tree) {streams : ℕ → GpuStream α}
    (hdone : ∀ id ∈ List.range P.streamCount, P.Done k m partition id items (streams id)) :
    P.CpuInput tree k m partition
      fun n => (streams (n / P.resultStride)).results tree (n % P.resultStride) := by
  intro i hi j hj
  have hcount : pieceCount m (m + 1) = 1 := by
    rw [pieceCount, Nat.max_eq_left (Nat.le_add_left 1 m), Nat.sub_self, pow_zero]
  have hrow := h.streams_mul_pieces (Nat.le_refl (m + 1))
  rw [hcount, pieceSize, if_neg (Nat.succ_ne_zero m), Nat.one_mul] at hrow
  have hid : j / P.groupSize < P.streamCount := by
    refine (Nat.div_lt_iff_lt_mul h.groupSize_pos).mpr ?_
    rwa [hrow]
  have hmod : j % P.groupSize < P.groupSize := Nat.mod_lt _ h.groupSize_pos
  have hlt : i * P.groupSize + j % P.groupSize < P.resultStride := by
    rw [resultStride, leaves_eq, Nat.mul_comm _ P.parallelSectors]
    exact Poseidon.mul_add_lt hi hmod
  have hpos : j / P.groupSize * P.groupSize * P.parallelSectors + i * P.groupSize + j % P.groupSize =
      j / P.groupSize * P.resultStride + (i * P.groupSize + j % P.groupSize) := by
    rw [resultStride, leaves_eq, Nat.mul_assoc, Nat.add_assoc]
    rfl
  simp only [hpos, Poseidon.mul_add_div' _ hlt, Poseidon.mul_add_mod' _ hlt]
  rw [(hdone _ (List.mem_range.mpr hid)).2 tree hactive i hi _ hmod, hcount, Nat.mul_one]
  exact congrArg _ (Nat.div_add_mod' j P.groupSize)

/-- The nodes that are written for a tree fill its file. -/
lemma fills_tree (h : P.Shape k m) (hactive : P.Active tree) (hpart : Partition treeRCArity m items)
    {streams : ℕ → GpuStream α}
    (hdone : ∀ id ∈ List.range P.streamCount, P.Done k m partition id items (streams id))
    (htrav : TraversalOf treeRCArity (k - m - 2) cpuItems) {cpuWrites : List (TreeWrite α)}
    (hcpu : (cpuWrites.flatMap fun w => w.nodes i) =
      P.treeNodes tree k partition i (cpuItems.map (cpuKey m)))
    (hi : i < P.parallelSectors) (mem : TreeMem α) :
    Fills (P.treeFile tree mem partition i).2 (P.treeSize tree)
      ((((List.range P.streamCount).flatMap fun id => (streams id).writes tree) ++ cpuWrites).flatMap
        fun w => w.nodes i) := by
  obtain ⟨hstores, -, hsize⟩ := treeFile_spec h tree mem partition i
  have hfirst : P.firstRow tree ≤ k := (firstRow_le h tree).trans h.lt_k
  have hmap : items.map (·.1.idx) = (items.map Prod.fst).map WorkItem.idx := (List.map_map ..).symm
  have hidxs : (items.map (·.1.idx)).Nodup := by
    rw [hmap]
    exact hpart.c.nodup
  have hin : ∀ idx, idx ∈ items.map (·.1.idx) ↔ InTree treeRCArity m idx := by
    intro idx
    rw [hmap]
    exact hpart.c.mem idx
  obtain ⟨hnodup, hmem⟩ := nodes_complete h hactive hidxs hin htrav
  have hgpu : (((List.range P.streamCount).flatMap fun id => (streams id).writes tree).flatMap
      fun w => w.nodes i) = P.treeNodes tree k partition i (P.gpuKeys tree m (items.map (·.1.idx))) := by
    rw [List.flatMap_assoc, treeNodes, gpuKeys, List.map_flatMap]
    refine List.flatMap_congr fun id hid => ?_
    have hnodes := (hdone id hid).1 tree i hi
    rw [List.flatMap_map]
    exact hnodes
  rw [List.flatMap_append, hgpu, hcpu, ← treeNodes_append, hsize]
  exact fills_of_nodes hfirst hnodup hmem hstores

/-- The writes of the streams and of the CPU for a tree. -/
lemma hashTree_spec (h : P.Shape k m) (hactive : P.Active tree) (hpart : Partition treeRCArity m items)
    (hfuel : (k + 1) * treeRCArity ^ k ≤ fuel) {streams : ℕ → GpuStream α}
    (hdone : ∀ id ∈ List.range P.streamCount, P.Done k m partition id items (streams id))
    (bufs : ℕ → ℕ → α) (mem : TreeMem α) :
    ∃ writes roots, P.hashCpu fuel
        (fun n => (streams (n / P.resultStride)).results tree (n % P.resultStride))
        (P.finalGpuOffset tree) bufs = some (writes, roots) ∧
      (∀ i < P.parallelSectors, Fills (P.treeFile tree mem partition i).2 (P.treeSize tree)
        ((((List.range P.streamCount).flatMap fun id => (streams id).writes tree) ++ writes).flatMap
          fun w => w.nodes i)) ∧
      ∀ i < P.parallelSectors, roots i = (P.treeFile tree mem partition i).1 := by
  have hcpuFuel : (k - m - 2 + 1) * treeRCArity ^ (k - m - 2) ≤ fuel := by
    refine le_trans (Nat.mul_le_mul ?_ (Nat.pow_le_pow_right arity_pos ?_)) hfuel <;> omega
  obtain ⟨cpuItems, writes, roots, hcpu, htrav, hnodes, hroots⟩ :=
    hashCpu_spec h (cpuInput h hactive hdone) hcpuFuel bufs
  refine ⟨writes, roots, hcpu, ?_, ?_⟩
  · intro i hi
    exact fills_tree h hactive hpart hdone htrav (hnodes i hi) hi mem
  · intro i hi
    rw [hroots i hi]
    exact (treeFile_spec h tree mem partition i).2.1.symm

/-- Without tree-c the streams write nothing to its files. -/
lemma writesC_nil (hRO : P.treeROnly = true) {streams : ℕ → GpuStream α}
    (hdone : ∀ id ∈ List.range P.streamCount, P.Done k m partition id items (streams id))
    (hi : i < P.parallelSectors) :
    (((List.range P.streamCount).flatMap fun id => (streams id).writesC).flatMap fun w => w.nodes i) =
      [] := by
  rw [List.flatMap_assoc, List.flatMap_eq_nil_iff]
  intro id hid
  have hkeys : (items.flatMap fun e => P.itemKeys .c m id e.1.idx) = [] := by
    refine List.flatMap_eq_nil_iff.mpr fun e _ => ?_
    rw [itemKeys, itemRows, if_pos hRO, List.flatMap_nil]
  have hnodes := (hdone id hid).1 .c i hi
  rw [hkeys] at hnodes
  exact hnodes

/-- The writes of a partition, whatever the streams have in memory when it starts. -/
theorem hashPartition_spec (h : P.Shape k m) (hfuel : (k + 1) * treeRCArity ^ k ≤ fuel)
    (hpart : Partition treeRCArity m items) (bufs : Tree → ℕ → ℕ → α) (partition : ℕ)
    (streams : ℕ → GpuStream α) (mem : TreeMem α) :
    ∃ w streams', P.hashPartition fuel bufs partition items streams = some (w, streams') ∧
      P.AsBuilt mem partition w := by
  obtain ⟨streams', hstreams, hdone, -⟩ := hashStreams_spec partition h hpart List.nodup_range streams
  obtain ⟨writesR, rootsR, hcpuR, hfillsR, hrootsR⟩ :=
    hashTree_spec h active_r hpart hfuel hdone (bufs .r) mem
  rcases Bool.eq_false_or_eq_true P.treeROnly with hRO | hRO
  · have hnot : P.treeROnly ≠ false := by
      rw [hRO]
      exact Bool.noConfusion
    refine ⟨{
      writesC := ((List.range P.streamCount).flatMap fun id => (streams' id).writesC) ++ []
      writesR := ((List.range P.streamCount).flatMap fun id => (streams' id).writesR) ++ writesR
      rootsC := bufs .c 0
      rootsR }, streams', ?_, ?_⟩
    · refine Option.bind_eq_some_iff.mpr ⟨_, hstreams, Option.bind_eq_some_iff.mpr ⟨_, if_pos hRO, ?_⟩⟩
      exact Option.bind_eq_some_iff.mpr ⟨_, hcpuR, rfl⟩
    · refine ⟨fun hfalse => absurd hfalse hnot, fun _ i hi => ?_,
        fun i hi writes hperm => (hfillsR i hi).perm hperm, fun hfalse => absurd hfalse hnot, hrootsR⟩
      rw [List.append_nil, writesC_nil hRO hdone hi]
  · have hnot : ¬P.treeROnly = true := by
      rw [hRO]
      exact Bool.false_ne_true
    obtain ⟨writesC, rootsC, hcpuC, hfillsC, hrootsC⟩ :=
      hashTree_spec h (show P.Active .c from fun _ => hRO) hpart hfuel hdone (bufs .c) mem
    refine ⟨{
      writesC := ((List.range P.streamCount).flatMap fun id => (streams' id).writesC) ++ writesC
      writesR := ((List.range P.streamCount).flatMap fun id => (streams' id).writesR) ++ writesR
      rootsC
      rootsR }, streams', ?_, ?_⟩
    · refine Option.bind_eq_some_iff.mpr ⟨_, hstreams,
        Option.bind_eq_some_iff.mpr ⟨_, (if_neg hnot).trans hcpuC, ?_⟩⟩
      exact Option.bind_eq_some_iff.mpr ⟨_, hcpuR, rfl⟩
    · exact ⟨fun _ i hi writes hperm => (hfillsC i hi).perm hperm, fun htrue => absurd htrue hnot,
        fun i hi writes hperm => (hfillsR i hi).perm hperm, fun _ => hrootsC, hrootsR⟩

/-! ### All partitions -/

lemma hashPartitions_spec (h : P.Shape k m) (hfuel : (k + 1) * treeRCArity ^ k ≤ fuel)
    (bufs : ℕ → Tree → ℕ → ℕ → α) (mem : TreeMem α) (partitions : List ℕ) {resource : TreeResource}
    {held : Multiset ℕ} (howns : resource.buffers.Owns held) (streams : ℕ → GpuStream α) :
    ∃ ws, P.hashPartitions fuel bufs partitions resource streams = some ws ∧
      List.Forall₂ (P.AsBuilt mem) partitions ws := by
  have hgpuFuel : (m + 1) * treeRCArity ^ m ≤ fuel := by
    have hk := h.lt_k
    refine le_trans (Nat.mul_le_mul ?_ (Nat.pow_le_pow_right arity_pos ?_)) hfuel <;> omega
  induction partitions generalizing resource held streams with
  | nil => exact ⟨[], rfl, .nil⟩
  | cons partition partitions ih =>
    obtain ⟨items, resource', c, r, hgpu, hpart, howns'⟩ :=
      hashGpu_spec (show treeRCArity = 2 ^ 3 from rfl) one_lt_treeRCArity howns hgpuFuel
    obtain ⟨w, streams', hrun, hbuilt⟩ :=
      hashPartition_spec h hfuel hpart (bufs partition) partition streams mem
    obtain ⟨ws, hrest, hall⟩ := ih howns' streams'
    refine ⟨w :: ws, ?_, .cons hbuilt hall⟩
    rw [hashPartitions, h.initialNodes_eq]
    refine Option.bind_eq_some_iff.mpr ⟨_, hgpu, Option.bind_eq_some_iff.mpr ⟨_, hrun, ?_⟩⟩
    exact Option.bind_eq_some_iff.mpr ⟨_, hrest, rfl⟩

/-- A file is opened with the size of its nodes. -/
lemma dataSize_address (h : P.Shape k m) (tree : Tree) (mem : TreeMem α) :
    (P.address tree).dataSize = P.treeSize tree * nodeSize := by
  have hfirst : P.firstRow tree ≤ k := (firstRow_le h tree).trans h.lt_k
  rw [(treeFile_spec h tree mem 0 0).2.2, address, ← P.nodesToRead_eq, h.nodes,
    TreeAddress.dataSize_new _ hfirst]

lemma hashAll_spec (h : P.Shape k m) (hfuel : (k + 1) * treeRCArity ^ k ≤ fuel)
    (bufs : ℕ → Tree → ℕ → ℕ → α) (streams : ℕ → GpuStream α) (mem : TreeMem α) :
    (P.treeCAddress.dataSize = P.treeCSize * nodeSize ∧
      P.treeRAddress.dataSize = P.treeRSize * nodeSize) ∧
    ∃ partitions, P.hashAll fuel bufs streams = some partitions ∧
      List.Forall₂ (P.AsBuilt mem) (List.range P.numTreeRCFiles) partitions :=
  ⟨⟨dataSize_address h .c mem, dataSize_address h .r mem⟩,
    hashPartitions_spec h hfuel bufs mem _ Buffers.owns_init streams⟩

/-! ### The calls of `do_pc2` -/

lemma treeRDiscardRows_pos (size : SectorSize) : 1 ≤ size.treeRDiscardRows := by
  rw [SectorSize.treeRDiscardRows]
  split_ifs <;> decide

lemma treeRDiscardRows_le (size : SectorSize) : size.treeRDiscardRows ≤ 2 := by
  rw [SectorSize.treeRDiscardRows]
  split_ifs <;> decide

lemma arity_dvd_batchSizeOf (size : SectorSize) : treeRCArity ∣ HandOff.batchSizeOf size := by
  rw [HandOff.batchSizeOf]
  split_ifs <;> decide

/-- What `do_pc2` builds, with nothing in the sectors. -/
def doPc2 (size : SectorSize) {parallelSectors : ℕ} (hsectors : 0 < parallelSectors)
    (labels : ℕ → ℕ → ℕ → α) (dataFiles : ℕ → Option (ℕ → α)) (encode : α → α → α)
    (colHash hash : List α → α) : GpuTrees α where
  numNodes := size.numLeaves
  numTreeRCFiles := size.treeRCFiles
  numLayers := size.numLayers
  parallelSectors
  discardRows := size.treeRDiscardRows
  treeROnly := false
  nodesToRead := size.numLeaves / size.treeRCFiles
  batchSize := HandOff.batchSizeOf size
  streamCount := HandOff.streamCountOf size
  dataIsBigEndian := false
  labels
  dataFiles
  encode
  colHash
  hash
  numLayers_pos := size.numLayers_pos
  parallelSectors_pos := hsectors
  discardRows_pos := treeRDiscardRows_pos size
  discardRows_le := treeRDiscardRows_le size
  arity_dvd := arity_dvd_batchSizeOf size
  nodesToRead_eq := rfl

variable {size : SectorSize} {parallelSectors : ℕ} {hsectors : 0 < parallelSectors}
  {labels : ℕ → ℕ → ℕ → α} {dataFiles : ℕ → Option (ℕ → α)} {encode : α → α → α}
  {colHash hash : List α → α}

/-- The batches of a sector that is hashed on the GPUs fill its streams. -/
lemma exists_batches (hgpu : ¬size.lg ≤ 15) : ∃ k ≤ 9, ∃ m,
    size.numLeaves / size.treeRCFiles = treeRCArity ^ k ∧ 64 ∣ HandOff.batchSizeOf size ∧
      size.numLeaves / size.treeRCFiles =
        HandOff.streamCountOf size * HandOff.batchSizeOf size * treeRCArity ^ m ∧ 1 ≤ m := by
  cases size with
  | sector2KB | sector4KB | sector16KB | sector32KB => exact absurd (by decide) hgpu
  | sector8MB | sector16MB => exact ⟨6, by decide, 2, by decide⟩
  | sector512MB | sector1GB => exact ⟨8, by decide, 4, by decide⟩
  | sector32GB | sector64GB => exact ⟨9, le_rfl, 5, by decide⟩

/-- The tree files of the sectors that are hashed on the GPUs. -/
theorem doPc2_asBuilt (hgpu : ¬size.lg ≤ 15) {fuel : ℕ}
    (hfuel : 10 * (size.numLeaves / size.treeRCFiles) ≤ fuel) (bufs : ℕ → Tree → ℕ → ℕ → α)
    (streams : ℕ → GpuStream α) (mem : TreeMem α) :
    ∃ partitions, (doPc2 size hsectors labels dataFiles encode colHash hash).hashAll fuel bufs
        streams = some partitions ∧
      List.Forall₂ ((doPc2 size hsectors labels dataFiles encode colHash hash).AsBuilt mem)
        (List.range size.treeRCFiles) partitions := by
  obtain ⟨k, hk, m, hnodes, hbatch, hstreams, hm⟩ := exists_batches hgpu
  have h : (doPc2 size hsectors labels dataFiles encode colHash hash).Shape k m :=
    ⟨hnodes, hbatch, hstreams, hm⟩
  refine (hashAll_spec h ?_ bufs streams mem).2
  rw [hnodes] at hfuel
  exact (Nat.mul_le_mul_right _ (Nat.succ_le_succ hk)).trans hfuel

/-! ### The files -/

/-- The tree files that the GPUs and the CPU write are those of the builder: in every partition and
for every sector, every node of a file is written once, with the value that `BuildTree` has there.
A file is as large as its nodes. -/
theorem hashAll_asBuilt (P : GpuTrees α) (k m fuel : ℕ) (hnodes : P.nodesToRead = treeRCArity ^ k)
    (hbatch : 64 ∣ P.batchSize)
    (hstreams : P.nodesToRead = P.streamCount * P.batchSize * treeRCArity ^ m) (hm : 1 ≤ m)
    (hfuel : (k + 1) * treeRCArity ^ k ≤ fuel) (bufs : ℕ → Tree → ℕ → ℕ → α)
    (streams : ℕ → GpuStream α) (mem : TreeMem α) :
    (P.treeCAddress.dataSize = P.treeCSize * nodeSize ∧
      P.treeRAddress.dataSize = P.treeRSize * nodeSize) ∧
    ∃ partitions, P.hashAll fuel bufs streams = some partitions ∧
      List.Forall₂ (P.AsBuilt mem) (List.range P.numTreeRCFiles) partitions := by
  have h : P.Shape k m := ⟨hnodes, hbatch, hstreams, hm⟩
  exact hashAll_spec h hfuel bufs streams mem

/-- The trees of two sectors of 8MB, with sums for hashes. -/
theorem hashAll_asBuilt_eightMB :
    let P : GpuTrees ℕ := doPc2 .sector8MB Nat.two_pos (fun l n i => l + n + i) (fun _ => none) (· + ·)
      List.sum List.sum
    ∃ partitions, P.hashAll (7 * treeRCArity ^ 6) (fun _ _ _ _ => 0)
        (fun _ => ⟨fun _ => 0, fun _ _ => 0, fun _ => 0, fun _ => 0, [], []⟩) = some partitions ∧
      List.Forall₂ (P.AsBuilt fun _ _ => 0) (List.range P.numTreeRCFiles) partitions := by
  intro P
  exact (hashAll_asBuilt P 6 2 (7 * treeRCArity ^ 6) (by decide) (by decide) (by decide) (by decide)
    le_rfl (fun _ _ _ _ => 0) (fun _ => ⟨fun _ => 0, fun _ _ => 0, fun _ => 0, fun _ => 0, [], []⟩)
    fun _ _ => 0).2

end GpuTrees

end SupraSeal
