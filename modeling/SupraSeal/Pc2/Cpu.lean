import SupraSeal.C1.Challenge
import SupraSeal.Pc1.TreeRows

/-!
# PC2 on the CPU

`do_pc2_cpu` of `pc2/pc2.hpp`, which builds the trees of small sectors. It reads all layers at once
and sorts them by node for tree C; the last layer is the input of tree R. The labels are on disk as
PC1 computed them, with the bytes of each word in reverse order. `get_node`, which C1 uses, turns
them around, and this code takes them as they are.
-/

namespace SupraSeal

/-! ### Inputs of the trees -/

/-- `tree_c_input` and `tree_r_input` of one sector. -/
structure CpuInputs where
  treeC : ℕ → Node
  treeR : ℕ → Node

variable (C : Config)

/-- One iteration of the loops over layer `j` and node `k`. -/
def CpuInputs.put (data : ℕ → Node) (i : ℕ) (st : CpuInputs) (j k : ℕ) : CpuInputs :=
  let val := data (j * C.numNodes * C.parallelSectors + k * C.parallelSectors + i)
  { treeC := Function.update st.treeC (k * C.numLayers + j) val
    treeR := if j = C.numLayers - 1 then Function.update st.treeR k val else st.treeR }

/-- The inputs of the trees of sector `i`. -/
def cpuInputs (data : ℕ → Node) (i : ℕ) (st : CpuInputs) : CpuInputs :=
  (List.range C.numLayers).foldl
    (fun st j => (List.range C.numNodes).foldl (fun st k => st.put C data i j k) st) st

/-- The file of tree C with the columns from `f * fileColumns` on, as `BuildTreeC` builds it. -/
def treeCFile (b : TreeBuilder Node) (leaves : ℕ → Node) (numFiles f : ℕ) (mem : TreeMem Node) :
    ℕ → Node :=
  let curNodes := C.numNodes * C.numLayers
  let subTreeSize := curNodes / numFiles
  (b.buildTree subTreeSize ⟨.out, 0⟩ ⟨.input, f * subTreeSize⟩ true false
    (Function.update mem .input leaves)).2 .out

/-- Leaf `k` of tree C, in the file it belongs to. -/
def treeCLeaf (b : TreeBuilder Node) (leaves : ℕ → Node) (numFiles : ℕ) (mem : TreeMem Node)
    (k : ℕ) : Node :=
  let fileColumns := C.numNodes / numFiles
  treeCFile C b leaves numFiles (k / fileColumns) mem (k % fileColumns)

/-! ### What C1 opens -/

/-- The node in slot `q` of the nodes of a challenge: the challenge, a base parent or an expander
parent. -/
def slotNode (challenge : ℕ) (parents : ChallengeParents) (q : ℕ) : ℕ :=
  if q = 0 then challenge
  else if q < 1 + parentCountBase then parents.drgParents (q - 1)
  else parents.expParents (q - 1 - parentCountBase)

/-- The labels that the column proof of slot `q` writes. -/
def columnLabels (layers : ℕ) (nodes : List Node) (q : ℕ) : List Node :=
  (List.range layers).map fun l => nodes.getD (q + l * (parentCount + 1)) ⟨fun _ => 0⟩

variable {C}

lemma challengeNodes_getElem {layers challenge l q : ℕ} {parents : ChallengeParents} (hl : l < layers)
    (hq : q < parentCount + 1) :
    (challengeNodes layers challenge parents)[q + l * (parentCount + 1)]? =
      some (l, slotNode challenge parents q) := by
  rw [challengeNodes, Sections.getElem?_flatMap_range (n := parentCount + 1) ?_ hl hq]
  · rcases Nat.eq_zero_or_pos q with rfl | hpos
    · rfl
    rw [slotNode, if_neg hpos.ne']
    split_ifs with hbase
    · rw [List.getElem?_append_left (by simp; omega), List.getElem?_append_right (by simp; omega)]
      simp only [List.length_singleton, List.getElem?_map]
      rw [List.getElem?_range (by omega)]
      rfl
    · have hexp : q - (1 + parentCountBase) < parentCountExp := by
        have : parentCount = parentCountBase + parentCountExp := rfl
        omega
      rw [List.getElem?_append_right (by simp; omega)]
      simp only [List.length_append, List.length_singleton, List.length_map, List.length_range,
        List.getElem?_map]
      rw [List.getElem?_range hexp, Nat.sub_add_eq]
      rfl
  · intro l
    simp only [List.length_append, List.length_singleton, List.length_map, List.length_range]
    rfl

/-! ### The loops -/

section Updates

variable {α β γ : Type*} [DecidableEq β]

/-- The value at a place that assignments reach. -/
lemma foldl_update_eq {key : α → β} {value : α → γ} {x : α} {xs : List α} (hx : x ∈ xs)
    (hkey : ∀ y ∈ xs, key y = key x → value y = value x) (f : β → γ) :
    xs.foldl (fun f y => Function.update f (key y) (value y)) f (key x) = value x := by
  induction xs using List.reverseRecOn with
  | nil => exact absurd hx List.not_mem_nil
  | append_singleton xs y ih =>
    rw [List.foldl_append, List.foldl_cons, List.foldl_nil]
    by_cases hy : key x = key y
    · rw [hy, Function.update_self]
      exact hkey y (by simp) hy.symm
    · rw [Function.update_of_ne hy]
      refine ih ?_ fun z hz => hkey z (List.mem_append_left _ hz)
      rcases List.mem_append.mp hx with hx | hx
      · exact hx
      · exact absurd (congrArg key (List.mem_singleton.mp hx)) hy

end Updates

/-- The iterations of the loops, in order. -/
def Config.layerNodes (C : Config) : List (ℕ × ℕ) :=
  (List.range C.numLayers).flatMap fun j => (List.range C.numNodes).map fun k => (j, k)

lemma Config.mem_layerNodes {j k : ℕ} : (j, k) ∈ C.layerNodes ↔ j < C.numLayers ∧ k < C.numNodes := by
  simp [layerNodes]

lemma cpuInputs_eq (data : ℕ → Node) (i : ℕ) (st : CpuInputs) :
    cpuInputs C data i st = C.layerNodes.foldl (fun st p => st.put C data i p.1 p.2) st := by
  rw [cpuInputs, Config.layerNodes, List.foldl_flatMap]
  simp only [List.foldl_map]

/-- The columns of tree C, node by node. -/
lemma cpuInputs_treeC (data : ℕ → Node) (i : ℕ) (st : CpuInputs) {j k : ℕ} (hj : j < C.numLayers)
    (hk : k < C.numNodes) : (cpuInputs C data i st).treeC (k * C.numLayers + j) =
      data (j * C.numNodes * C.parallelSectors + k * C.parallelSectors + i) := by
  have hproj : (cpuInputs C data i st).treeC = C.layerNodes.foldl (fun f p =>
      Function.update f (p.2 * C.numLayers + p.1)
        (data (p.1 * C.numNodes * C.parallelSectors + p.2 * C.parallelSectors + i))) st.treeC := by
    rw [cpuInputs_eq]
    exact (List.foldl_hom CpuInputs.treeC fun _ _ => rfl).symm
  rw [hproj]
  refine foldl_update_eq (x := (j, k)) (Config.mem_layerNodes.mpr ⟨hj, hk⟩) ?_ st.treeC
  rintro ⟨j', k'⟩ hmem heq
  obtain ⟨hj', -⟩ := Config.mem_layerNodes.mp hmem
  -- the layer is the remainder and the node the quotient
  dsimp only at heq
  have hmod := congrArg (· % C.numLayers) heq
  have hdiv := congrArg (· / C.numLayers) heq
  simp only [Nat.mul_comm _ C.numLayers, Nat.mul_add_mod, Nat.mod_eq_of_lt hj, Nat.mod_eq_of_lt hj',
    Nat.mul_add_div (Nat.zero_lt_of_lt hj), Nat.div_eq_of_lt hj, Nat.div_eq_of_lt hj',
    Nat.add_zero] at hmod hdiv
  rw [hmod, hdiv]

/-- The last layer. -/
lemma cpuInputs_treeR (data : ℕ → Node) (i : ℕ) (st : CpuInputs) (hlayers : 0 < C.numLayers) {k : ℕ}
    (hk : k < C.numNodes) : (cpuInputs C data i st).treeR k =
      data ((C.numLayers - 1) * C.numNodes * C.parallelSectors + k * C.parallelSectors + i) := by
  have hproj : (cpuInputs C data i st).treeR =
      (C.layerNodes.filter (·.1 = C.numLayers - 1)).foldl (fun f p => Function.update f p.2
        (data (p.1 * C.numNodes * C.parallelSectors + p.2 * C.parallelSectors + i))) st.treeR := by
    rw [cpuInputs_eq, List.foldl_filter]
    refine (List.foldl_hom CpuInputs.treeR fun st p => ?_).symm
    simp only [CpuInputs.put, decide_eq_true_eq]
  rw [hproj]
  refine foldl_update_eq (x := (C.numLayers - 1, k)) ?_ ?_ st.treeR
  · rw [List.mem_filter]
    exact ⟨Config.mem_layerNodes.mpr ⟨by omega, hk⟩, by simp⟩
  · rintro ⟨j', k'⟩ hmem heq
    obtain ⟨-, hj'⟩ := List.mem_filter.mp hmem
    dsimp only at heq
    rw [heq, of_decide_eq_true hj']

/-! ### Leaves of tree C -/

/-- Small sectors have 64 nodes for each file. -/
lemma SectorSize.numLeaves_small {s : SectorSize} (hs : s.lg ≤ 15) :
    s.numLeaves = 64 * s.treeRCFiles := by
  cases s with
  | sector2KB | sector4KB | sector16KB | sector32KB => decide
  | sector8MB | sector16MB | sector512MB | sector1GB | sector32GB | sector64GB =>
    exact absurd hs (by decide)

/-- The leaves of tree C are the hashes of the columns of the input. -/
lemma treeCLeaf_eq {s : SectorSize} (hs : s.lg ≤ 15) {lg : ℕ} (h1 : 1 ≤ lg) (h7 : lg ≤ 7)
    (b : TreeBuilder Node) (harity : b.arity = 8) (hcol : b.colArity = s.numLayers)
    (leaves : ℕ → Node) (mem : TreeMem Node) (k : ℕ) :
    treeCLeaf (s.config h1 h7) b leaves s.treeRCFiles mem k =
      b.colHash ((List.range s.numLayers).map fun j => leaves (k * s.numLayers + j)) := by
  have hpos := s.treeRCFiles_pos
  have hnodes : (s.config h1 h7).numNodes = 64 * s.treeRCFiles := by
    rw [s.config_numNodes, SectorSize.numLeaves_small hs]
  have hfile : (s.config h1 h7).numNodes / s.treeRCFiles = 64 := by
    rw [hnodes, Nat.mul_div_cancel _ hpos]
  have hsub : (s.config h1 h7).numNodes * (s.config h1 h7).numLayers / s.treeRCFiles =
      b.colArity * b.arity ^ 2 := by
    rw [hnodes, Nat.mul_right_comm, Nat.mul_div_cancel _ hpos, hcol, harity, Nat.mul_comm]
    rfl
  rw [treeCLeaf, hfile]
  simp only [treeCFile, hsub]
  obtain ⟨hstores, -⟩ := b.buildTree_cols (Function.update mem .input leaves)
    (k / 64 * (b.colArity * b.arity ^ 2)) 2 false
  have hrow := hstores 0 (Nat.zero_le 2) (k % 64)
    (by rw [harity]; exact Nat.mod_lt k (by decide))
  rw [MerkleTree.rowStart_zero, Nat.zero_add] at hrow
  rw [hrow, MerkleTree.row]
  have harray : TreeMem.array (Function.update mem .input leaves)
      ⟨.input, k / 64 * (b.colArity * b.arity ^ 2)⟩ =
      fun j => leaves (k / 64 * (b.colArity * b.arity ^ 2) + j) := by
    funext j
    simp only [TreeMem.array, Function.update_self]
  rw [harray, b.columns_shift, harity]
  have hk : k / 64 * 8 ^ 2 + k % 64 = k := by
    have := Nat.div_add_mod k 64
    omega
  simp only [hk, TreeBuilder.columns, MerkleTree.row, MerkleTree.group, hcol, Nat.mul_comm k]

/-! ### Agreement with C1 -/

/-- The columns and the last layer that C1 opens for sector `i` are those that the CPU hashed: for
every challenge, the labels of each column proof are the column of its node in the input of tree C,
they hash to the leaf of tree C, and the last one is the leaf of tree R. -/
def OpensCpuTrees (C : Config) (numControllers blockOffset : ℕ) (disk : Disk) (pages : ℕ → Page)
    (b : TreeBuilder Node) (numFiles : ℕ) (mem : TreeMem Node) (st : CpuInputs) (i : ℕ) : Prop :=
  let data := loadLayers C numControllers blockOffset disk pages 0 0 C.numNodes C.numLayers
  let inputs := cpuInputs C data i st
  ∀ challenge parents, challenge < C.numNodes → (∀ k, parents.drgParents k < C.numNodes) →
    (∀ k, parents.expParents k < C.numNodes) → ∀ q < parentCount + 1,
      let nodes := challengeNodes C.numLayers challenge parents
      let column := columnLabels C.numLayers
        (getNodes C nodes i (loadNodes C numControllers blockOffset disk pages nodes)) q
      let node := slotNode challenge parents q
      column = (List.range C.numLayers).map (fun j => inputs.treeC (node * C.numLayers + j)) ∧
        column.getLast? = some (inputs.treeR node) ∧
        b.colHash column = treeCLeaf C b inputs.treeC numFiles mem node

/-- The labels of a column proof, when PC1 has written all pages. -/
lemma columnLabels_pc1Write {numControllers blockOffset : ℕ} {labels : ℕ → ℕ → ℕ → Node}
    {written : List ℕ} {disk : Disk} {pages : ℕ → Page}
    (hw : ∀ m < C.numLayers * (C.numNodes / C.nodesPerPage), m ∈ written) {challenge : ℕ}
    {parents : ChallengeParents} (hc : challenge < C.numNodes)
    (hdrg : ∀ k, parents.drgParents k < C.numNodes) (hexp : ∀ k, parents.expParents k < C.numNodes)
    {i q : ℕ} (hi : i < C.parallelSectors) (hq : q < parentCount + 1) :
    columnLabels C.numLayers (getNodes C (challengeNodes C.numLayers challenge parents) i
      (loadNodes C numControllers blockOffset
        (pc1Write C numControllers blockOffset labels written disk) pages
        (challengeNodes C.numLayers challenge parents))) q =
      (List.range C.numLayers).map fun l => (labels l (slotNode challenge parents q) i).reverseL := by
  have hvalid : ∀ p ∈ challengeNodes C.numLayers challenge parents,
      p.1 < C.numLayers ∧ p.2 < C.numNodes := by
    intro p hp
    obtain ⟨l, hl, hp⟩ := List.mem_flatMap.mp hp
    have hl := List.mem_range.mp hl
    rcases List.mem_append.mp hp with hp | hp
    · rcases List.mem_append.mp hp with hp | hp
      · rw [List.mem_singleton.mp hp]
        exact ⟨hl, hc⟩
      · obtain ⟨k, -, rfl⟩ := List.mem_map.mp hp
        exact ⟨hl, hdrg k⟩
    · obtain ⟨k, -, rfl⟩ := List.mem_map.mp hp
      exact ⟨hl, hexp k⟩
  rw [getNodes_pc1Write hw hvalid hi, columnLabels]
  refine List.map_congr_left fun l hl => ?_
  rw [List.getD_eq_getElem?_getD, List.getElem?_map,
    challengeNodes_getElem (List.mem_range.mp hl) hq]
  rfl

lemma slotNode_lt {n challenge : ℕ} {parents : ChallengeParents} (hc : challenge < n)
    (hdrg : ∀ k, parents.drgParents k < n) (hexp : ∀ k, parents.expParents k < n) (q : ℕ) :
    slotNode challenge parents q < n := by
  rw [slotNode]
  split_ifs
  · exact hc
  · exact hdrg _
  · exact hexp _

/-- The values that the CPU takes from disk, when PC1 has written all pages. -/
lemma loadLayers_all {numControllers blockOffset : ℕ} {labels : ℕ → ℕ → ℕ → Node}
    {written : List ℕ} {disk : Disk} {pages : ℕ → Page}
    (hw : ∀ m < C.numLayers * (C.numNodes / C.nodesPerPage), m ∈ written) {layer node i : ℕ}
    (hl : layer < C.numLayers) (hn : node < C.numNodes) (hi : i < C.parallelSectors) :
    loadLayers C numControllers blockOffset
      (pc1Write C numControllers blockOffset labels written disk) pages 0 0 C.numNodes C.numLayers
      (layer * C.numNodes * C.parallelSectors + node * C.parallelSectors + i) =
    labels layer node i := by
  have h : loadLayers C numControllers blockOffset
      (pc1Write C numControllers blockOffset labels written disk) pages 0 0 C.numNodes C.numLayers
      ((layer * C.numNodes + node) * C.parallelSectors + i) = labels (0 + layer) (0 + node) i :=
    loadLayers_pc1Write hw (Nat.zero_add C.numLayers).le (dvd_zero _) C.nodesPerPage_dvd_numNodes
      (Nat.zero_add C.numNodes).le hl hn hi
  rwa [Nat.zero_add, Nat.zero_add, Nat.add_mul] at h

/-- The column of a node as C1 opens it and as the CPU hashes it: they differ by the order of the
bytes of each word. -/
lemma reverseL_of_opensCpuTrees {numControllers blockOffset : ℕ} {labels : ℕ → ℕ → ℕ → Node}
    {written : List ℕ} {disk : Disk} {pages : ℕ → Page} {b : TreeBuilder Node} {numFiles i : ℕ}
    {mem : TreeMem Node} {st : CpuInputs}
    (hw : ∀ m < C.numLayers * (C.numNodes / C.nodesPerPage), m ∈ written)
    (hi : i < C.parallelSectors)
    (h : OpensCpuTrees C numControllers blockOffset
      (pc1Write C numControllers blockOffset labels written disk) pages b numFiles mem st i)
    {layer node : ℕ} (hl : layer < C.numLayers) (hn : node < C.numNodes) :
    (labels layer node i).reverseL = labels layer node i := by
  obtain ⟨hcolumn, -⟩ := h node ⟨fun _ => 0, fun _ => 0⟩ hn (fun _ => C.numNodes_pos)
    (fun _ => C.numNodes_pos) 0 (Nat.succ_pos _)
  rw [columnLabels_pc1Write hw hn (fun _ => C.numNodes_pos) (fun _ => C.numNodes_pos) hi
    (Nat.succ_pos _)] at hcolumn
  have hlayer := List.map_inj_left.mp hcolumn layer (List.mem_range.mpr hl)
  have hslot : slotNode node ⟨fun _ => 0, fun _ => 0⟩ 0 = node := rfl
  rw [hslot, cpuInputs_treeC _ _ _ hl hn, loadLayers_all hw hl hn hi] at hlayer
  exact hlayer

/-- C1 opens the trees that the CPU built exactly when no label changes as its words are turned
around. -/
theorem opensCpuTrees_iff {s : SectorSize} (hs : s.lg ≤ 15) {lg : ℕ} (h1 : 1 ≤ lg) (h7 : lg ≤ 7)
    (numControllers blockOffset : ℕ) (labels : ℕ → ℕ → ℕ → Node) (written : List ℕ)
    (disk : Disk) (pages : ℕ → Page)
    (hw : ∀ m < s.numLayers * (s.numLeaves / (s.config h1 h7).nodesPerPage), m ∈ written)
    (b : TreeBuilder Node) (harity : b.arity = 8) (hcol : b.colArity = s.numLayers)
    (mem : TreeMem Node) (st : CpuInputs) :
    (∀ i < 2 ^ lg, OpensCpuTrees (s.config h1 h7) numControllers blockOffset
      (pc1Write (s.config h1 h7) numControllers blockOffset labels written disk) pages b
      s.treeRCFiles mem st i) ↔
    ∀ layer < s.numLayers, ∀ node < s.numLeaves, ∀ i < 2 ^ lg,
      (labels layer node i).reverseL = labels layer node i := by
  set C := s.config h1 h7
  have hnodes : C.numNodes = s.numLeaves := s.config_numNodes h1 h7
  have hlayers : C.numLayers = s.numLayers := rfl
  have hpos : 0 < C.numLayers := s.numLayers_pos
  rw [← hnodes, ← hlayers] at hw
  rw [← hnodes, ← hlayers]
  constructor
  · intro h layer hl node hn i hi
    exact reverseL_of_opensCpuTrees hw hi (h i hi) hl hn
  · intro h i hi
    unfold OpensCpuTrees
    intro data inputs challenge parents hc hdrg hexp q hq nodes column node
    have hn : node < C.numNodes := slotNode_lt hc hdrg hexp q
    have hcolumn : column = (List.range C.numLayers).map fun l => (labels l node i).reverseL :=
      columnLabels_pc1Write hw hc hdrg hexp hi hq
    have hinputs : (List.range C.numLayers).map (fun j => inputs.treeC (node * C.numLayers + j)) =
        column := by
      rw [hcolumn]
      refine List.map_congr_left fun j hj => ?_
      have hj := List.mem_range.mp hj
      rw [h j hj node hn i hi]
      exact (cpuInputs_treeC data i st hj hn).trans (loadLayers_all hw hj hn hi)
    refine ⟨hinputs.symm, ?_, ?_⟩
    · obtain ⟨n, hsucc⟩ : ∃ n, C.numLayers = n + 1 := ⟨C.numLayers - 1, by omega⟩
      have hlast : inputs.treeR node = labels n node i := by
        have hn' : C.numLayers - 1 = n := by omega
        have htreeR := cpuInputs_treeR data i st hpos hn
        rw [hn'] at htreeR
        exact htreeR.trans (loadLayers_all hw (by omega) hn hi)
      rw [hcolumn, hsucc, List.range_succ, List.map_append, List.map_singleton,
        List.getLast?_concat, hlast, h n (by omega) node hn i hi]
    · rw [← hinputs]
      exact (treeCLeaf_eq hs h1 h7 b harity hcol inputs.treeC mem node).symm

/-- Two sectors of 2KiB whose labels are zero: the trees can be opened. -/
theorem opensCpuTrees_iff_zero :
    let C := SectorSize.sector2KB.config (le_refl 1) (by decide)
    let zero : Node := ⟨fun _ => 0⟩
    let b : TreeBuilder Node := ⟨2, 8, 1, fun ns => ns.headD zero, fun ns => ns.headD zero,
      by decide, by decide⟩
    ∀ i < 2, OpensCpuTrees C 1 0 (pc1Write C 1 0 (fun _ _ _ => zero) [0, 1] fun _ _ _ => zero)
      (fun _ _ => zero) b SectorSize.sector2KB.treeRCFiles (fun _ _ => zero)
      ⟨fun _ => zero, fun _ => zero⟩ i := by
  intro C zero b
  refine (opensCpuTrees_iff (by decide) (le_refl 1) (by decide) 1 0 (fun _ _ _ => zero) [0, 1] _ _
    (by decide) b rfl rfl _ _).mpr ?_
  intro layer _ node _ i _
  exact congrArg Node.mk (funext fun _ => (by decide : htonl 0 = 0))

/-- Two sectors of 2KiB whose labels are all `1`, a word that is another one in reverse order. -/
theorem not_opensCpuTrees_one :
    let C := SectorSize.sector2KB.config (le_refl 1) (by decide)
    let one : Node := ⟨fun _ => 1⟩
    let b : TreeBuilder Node := ⟨2, 8, 1, fun ns => ns.headD one, fun ns => ns.headD one, by decide,
      by decide⟩
    ¬∀ i < 2, OpensCpuTrees C 1 0 (pc1Write C 1 0 (fun _ _ _ => one) [0, 1] fun _ _ _ => one)
      (fun _ _ => one) b SectorSize.sector2KB.treeRCFiles (fun _ _ => one)
      ⟨fun _ => one, fun _ => one⟩ i := by
  intro C one b h
  have hw : ∀ m < C.numLayers * (C.numNodes / C.nodesPerPage), m ∈ [0, 1] := by decide
  have hrev : one.reverseL = one := reverseL_of_opensCpuTrees hw (by decide) (h 0 (by decide))
    (show 0 < C.numLayers by decide) (show 0 < C.numNodes by decide)
  have hlimb : htonl 1 = 1 := congrFun (congrArg Node.limbs hrev) ⟨0, by decide⟩
  exact absurd hlimb (by decide)

end SupraSeal
