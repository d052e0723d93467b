import SupraSeal.Sealing.SectorParameters
import Mathlib.Data.Nat.ModEq
import Mathlib.Tactic.Ring

/-!
# Nodes on disk

Where PC1 stores the nodes and where PC2 and C1 read them. A page holds `NODES_PER_PAGE` nodes of
all sectors sealed in parallel, and the pages are striped over the controllers
(`nvme_node_indexes` of `pc1/node_rw_t.hpp`). `get_slot_size` of `sealing/supra_seal.cpp` tells how
many blocks of each controller a run needs. The readers are those of
`nvme/streaming_node_reader_nvme.cpp`; the requests of one call are listed in the order in which
they are made, each reading a whole page.
-/

namespace SupraSeal

/-! ### Nodes and pages -/

def nodeWords : ℕ := nodeSize / 4

/-- `htonl` on a little endian machine. -/
def htonl (w : BitVec 32) : BitVec 32 :=
  w.extractLsb' 0 8 ++ w.extractLsb' 8 8 ++ w.extractLsb' 16 8 ++ w.extractLsb' 24 8

/-- `node_t`. -/
structure Node where
  limbs : Fin nodeWords → BitVec 32

/-- `node_t::reverse_l`. -/
def Node.reverseL (n : Node) : Node := ⟨fun i => htonl (n.limbs i)⟩

/-- `page_t`, by the byte position of a node. -/
abbrev Page : Type := ℕ → Node

/-- The pages of all controllers, by block. -/
abbrev Disk : Type := ℕ → ℕ → Page

/-- Byte position of `parallel_nodes[i].sectors[x]` in a page. -/
def Config.nodePos (C : Config) (i x : ℕ) : ℕ := (i * C.parallelSectors + x) * nodeSize

/-! ### Striping -/

/-- `nvme_node_indexes`: the controller and the block on it. -/
def nvmeNodeIndexes (C : Config) (numControllers node : ℕ) : ℕ × ℕ :=
  let block := node / C.nodesPerPage
  let blockOnController := block / numControllers
  (block - blockOnController * numControllers, blockOnController)

variable (C : Config) (numControllers blockOffset : ℕ)

/-- A read that `node_rw_t::process` issues. -/
def nodeRead (disk : Disk) (node : ℕ) : Page :=
  let (ctrlId, stridedBlock) := nvmeNodeIndexes C numControllers node
  disk ctrlId (stridedBlock + blockOffset)

/-- A write that `node_rw_t::process` issues. -/
def nodeWrite (disk : Disk) (node : ℕ) (page : Page) : Disk :=
  let (ctrlId, stridedBlock) := nvmeNodeIndexes C numControllers node
  Function.update disk ctrlId (Function.update (disk ctrlId) (stridedBlock + blockOffset) page)

/-! ### What PC1 writes -/

/-- Place of a node on disk. -/
structure Place where
  controller : ℕ
  block : ℕ
  byte : ℕ

/-- Where PC1 writes a node of a sector: `write_nodes` writes the page of the node under the id of
the first node of the page, and the hashers have put the node at `node() % NODES_PER_PAGE`. -/
def pc1Place (layer node sector : ℕ) : Place :=
  let first := C.nodeId layer node / C.nodesPerPage * C.nodesPerPage
  let (ctrlId, stridedBlock) := nvmeNodeIndexes C numControllers first
  ⟨ctrlId, stridedBlock + blockOffset, C.nodePos (node % C.nodesPerPage) sector⟩

/-- Page `m` when all its nodes are hashed. -/
def hashedPage (labels : ℕ → ℕ → ℕ → Node) (m : ℕ) : Page := fun pos =>
  let id := m * C.nodesPerPage + pos / nodeSize / C.parallelSectors
  labels (C.layer id) (C.node id) (pos / nodeSize % C.parallelSectors)

/-- The disks after PC1 has written the pages in the given order. -/
def pc1Write (labels : ℕ → ℕ → ℕ → Node) (pages : List ℕ) (disk : Disk) : Disk :=
  pages.foldl (fun disk m => nodeWrite C numControllers blockOffset disk (m * C.nodesPerPage)
    (hashedPage C labels m)) disk

/-- `get_slot_size`, with the number of controllers of the context. -/
def getSlotSize (s : SectorSize) (numSectors : ℕ) : Option ℕ :=
  let nodesPerPage := pageSize / (numSectors * nodeSize)
  let pagesPerLayer := s.sectorSize / nodeSize / nodesPerPage
  if ¬(numSectors &&& (numSectors - 1) = 0 ∧ 0 < numSectors ∧ numSectors ≤ 128) then none
  else
    let pagesPerLayerPerController := (pagesPerLayer + numControllers - 1) / numControllers
    some (pagesPerLayerPerController * s.numLayers)

/-! ### What PC2 and C1 read -/

/-- Locals of `load_layers`, with the node ids of the requests made so far. -/
structure LoadLayers where
  nodeToRead : ℕ
  curLayer : ℕ
  ios : List ℕ

/-- One request of `load_layers`. -/
def LoadLayers.request (st : LoadLayers) : LoadLayers :=
  { st with nodeToRead := st.nodeToRead + C.nodesPerPage, ios := st.ios ++ [st.nodeToRead] }

/-- One layer of `load_layers`. -/
def LoadLayers.loadLayer (node nodeCount : ℕ) (st : LoadLayers) : LoadLayers :=
  let st := (LoadLayers.request C)^[(nodeCount + C.nodesPerPage - 1) / C.nodesPerPage] st
  { st with curLayer := st.curLayer + 1, nodeToRead := C.nodeId (st.curLayer + 1) node }

/-- The requests of `load_layers`. -/
def loadLayersIos (layer node nodeCount numLayers : ℕ) : List ℕ :=
  ((LoadLayers.loadLayer C node nodeCount)^[numLayers] ⟨C.nodeId layer node, layer, []⟩).ios

/-- The pages of a slot when the requests `ios` have completed. -/
def loadPages (disk : Disk) (ios : List ℕ) (pages : ℕ → Page) : ℕ → Page := fun i =>
  match ios[i]? with
  | some node => nodeRead C numControllers blockOffset disk node
  | none => pages i

/-- The pages of a slot as an array of nodes, which is how PC2 uses them. -/
def nodeArray (pages : ℕ → Page) (i : ℕ) : Node :=
  pages (i / (C.nodesPerPage * C.parallelSectors))
    (i % (C.nodesPerPage * C.parallelSectors) * nodeSize)

/-- `load_layers`. -/
def loadLayers (disk : Disk) (pages : ℕ → Page) (layer node nodeCount numLayers : ℕ) : ℕ → Node :=
  nodeArray C (loadPages C numControllers blockOffset disk
    (loadLayersIos C layer node nodeCount numLayers) pages)

/-- `load_nodes`. The queue of the reader has room for more requests than C1 ever makes, so that
none is dropped. -/
def loadNodes (disk : Disk) (pages : ℕ → Page) (nodes : List (ℕ × ℕ)) : ℕ → Page :=
  loadPages C numControllers blockOffset disk (nodes.map fun p => C.nodeId p.1 p.2) pages

/-- `get_node`: the node is reversed in place. -/
def getNode (nodes : List (ℕ × ℕ)) (pages : ℕ → Page) (idx sectorSlot : ℕ) : Node × (ℕ → Page) :=
  let node := (nodes.getD idx (0, 0)).2
  let pos := C.nodePos (node % C.nodesPerPage) sectorSlot
  let n := (pages idx pos).reverseL
  (n, Function.update pages idx (Function.update (pages idx) pos n))

/-- The loop of `C1Challenge::GetNodes` over the loaded nodes. -/
def getNodes (nodes : List (ℕ × ℕ)) (sectorSlot : ℕ) (pages : ℕ → Page) : List Node :=
  ((List.range nodes.length).foldl (fun (st : List Node × (ℕ → Page)) i =>
    let (n, pages) := getNode C nodes st.2 i sectorSlot
    (st.1 ++ [n], pages)) ([], pages)).1

/-! ### Pages -/

variable {C numControllers blockOffset}

lemma Config.parallelSectors_pos (C : Config) : 0 < C.parallelSectors := Nat.two_pow_pos _

lemma Config.layer_nodeId {layer node : ℕ} (h : node < C.numNodes) :
    C.layer (C.nodeId layer node) = layer := by
  rw [C.nodeId_eq _ h, C.layer_eq_div, Nat.add_comm, Nat.add_mul_div_right _ _ C.numNodes_pos,
    Nat.div_eq_of_lt h, Nat.zero_add]

lemma Config.node_nodeId {layer node : ℕ} (h : node < C.numNodes) :
    C.node (C.nodeId layer node) = node := by
  rw [C.nodeId_eq _ h, C.node_eq_mod, Nat.mul_comm, Nat.mul_add_mod, Nat.mod_eq_of_lt h]

/-- A node lies in its page as it lies in the page of its layer. -/
lemma Config.nodeId_mod {layer node : ℕ} (h : node < C.numNodes) :
    C.nodeId layer node % C.nodesPerPage = node % C.nodesPerPage := by
  rw [← C.node_mod_nodesPerPage, C.node_nodeId h]

/-- The node `k` places after the first of a page. -/
lemma Config.nodeId_div_add {layer node k : ℕ} (h : node + k < C.numNodes)
    (hdvd : C.nodesPerPage ∣ node) :
    C.nodeId layer (node + k) / C.nodesPerPage =
      (C.nodeId layer node + k / C.nodesPerPage * C.nodesPerPage) / C.nodesPerPage := by
  have hdvd' : C.nodesPerPage ∣ C.nodeId layer node := by
    rw [C.nodeId_eq _ (by omega)]
    exact Nat.dvd_add (C.nodesPerPage_dvd_numNodes.mul_left _) hdvd
  have hadd : C.nodeId layer (node + k) = C.nodeId layer node + k := by
    rw [C.nodeId_eq _ h, C.nodeId_eq _ (by omega), Nat.add_assoc]
  rw [hadd, Nat.add_div_of_dvd_right hdvd', Nat.add_mul_div_right _ _ C.nodesPerPage_pos]

/-- The stripe of a page: its number modulo and divided by the number of controllers. -/
lemma nvmeNodeIndexes_eq (node : ℕ) : nvmeNodeIndexes C numControllers node =
    (node / C.nodesPerPage % numControllers, node / C.nodesPerPage / numControllers) := by
  rw [nvmeNodeIndexes, Nat.mod_eq_sub_div_mul]

/-- Different pages have different places. -/
lemma nvmeNodeIndexes_inj {node node' : ℕ}
    (h : nvmeNodeIndexes C numControllers node = nvmeNodeIndexes C numControllers node') :
    node / C.nodesPerPage = node' / C.nodesPerPage := by
  rw [nvmeNodeIndexes_eq, nvmeNodeIndexes_eq, Prod.mk.injEq] at h
  rw [← Nat.div_add_mod (node / C.nodesPerPage) numControllers, h.1, h.2, Nat.div_add_mod]

lemma nodeRead_nodeWrite (disk : Disk) (node node' : ℕ) (page : Page) :
    nodeRead C numControllers blockOffset
      (nodeWrite C numControllers blockOffset disk node' page) node =
      if node / C.nodesPerPage = node' / C.nodesPerPage then page
      else nodeRead C numControllers blockOffset disk node := by
  simp only [nodeRead, nodeWrite]
  by_cases hpage : node / C.nodesPerPage = node' / C.nodesPerPage
  · have hsame : nvmeNodeIndexes C numControllers node = nvmeNodeIndexes C numControllers node' := by
      rw [nvmeNodeIndexes_eq, nvmeNodeIndexes_eq, hpage]
    rw [if_pos hpage, hsame, Function.update_self, Function.update_self]
  · rw [if_neg hpage]
    have hne : nvmeNodeIndexes C numControllers node ≠ nvmeNodeIndexes C numControllers node' :=
      mt nvmeNodeIndexes_inj hpage
    by_cases hctrl : (nvmeNodeIndexes C numControllers node).1 =
        (nvmeNodeIndexes C numControllers node').1
    · rw [hctrl, Function.update_self, Function.update_of_ne]
      intro hblock
      exact hne (Prod.ext hctrl (Nat.add_right_cancel hblock))
    · rw [Function.update_of_ne hctrl]

/-- A page that PC1 has written is found again, whatever was written before and after. -/
lemma nodeRead_pc1Write {labels : ℕ → ℕ → ℕ → Node} {pages : List ℕ} {disk : Disk} {node : ℕ}
    (h : node / C.nodesPerPage ∈ pages ∨ nodeRead C numControllers blockOffset disk node =
      hashedPage C labels (node / C.nodesPerPage)) :
    nodeRead C numControllers blockOffset
      (pc1Write C numControllers blockOffset labels pages disk) node =
        hashedPage C labels (node / C.nodesPerPage) := by
  induction pages generalizing disk with
  | nil => exact h.resolve_left (List.not_mem_nil)
  | cons m pages ih =>
    show nodeRead _ _ _ (pc1Write C numControllers blockOffset labels pages (nodeWrite C
      numControllers blockOffset disk (m * C.nodesPerPage) (hashedPage C labels m))) node = _
    refine ih ?_
    rw [nodeRead_nodeWrite, Nat.mul_div_cancel _ C.nodesPerPage_pos]
    rcases h with h | h
    · rcases List.mem_cons.mp h with heq | hmem
      · right
        rw [if_pos heq, heq]
      · exact .inl hmem
    · right
      split_ifs with heq
      · rw [heq]
      · exact h

/-- A node in the page it was hashed into. -/
lemma hashedPage_nodePos (labels : ℕ → ℕ → ℕ → Node) (m : ℕ) {i x : ℕ}
    (hx : x < C.parallelSectors) : hashedPage C labels m (C.nodePos i x) =
      labels (C.layer (m * C.nodesPerPage + i)) (C.node (m * C.nodesPerPage + i)) x := by
  have hpos := C.parallelSectors_pos
  rw [hashedPage, Config.nodePos, Nat.mul_div_cancel _ (by decide), Nat.mul_comm i,
    Nat.mul_add_div hpos, Nat.div_eq_of_lt hx, Nat.add_zero, Nat.mul_add_mod, Nat.mod_eq_of_lt hx]

/-- A node of a layer, read from the page that PC1 wrote it with. -/
lemma read_node {labels : ℕ → ℕ → ℕ → Node} {layer node x : ℕ} (hn : node < C.numNodes)
    (hx : x < C.parallelSectors) :
    hashedPage C labels (C.nodeId layer node / C.nodesPerPage)
      (C.nodePos (node % C.nodesPerPage) x) = labels layer node x := by
  have hid : C.nodeId layer node / C.nodesPerPage * C.nodesPerPage + node % C.nodesPerPage =
      C.nodeId layer node := by
    rw [← C.nodeId_mod hn, Nat.mul_comm]
    exact Nat.div_add_mod _ _
  rw [hashedPage_nodePos _ _ hx, hid, C.layer_nodeId hn, C.node_nodeId hn]

/-! ### Requests of the readers -/

lemma request_iterate (k : ℕ) (st : LoadLayers) : (LoadLayers.request C)^[k] st =
    { st with
      nodeToRead := st.nodeToRead + k * C.nodesPerPage
      ios := st.ios ++ (List.range k).map fun j => st.nodeToRead + j * C.nodesPerPage } := by
  induction k with
  | zero => simp
  | succ k ih =>
    rw [Function.iterate_succ_apply', ih, LoadLayers.request]
    simp only [List.range_succ, List.map_append, List.append_assoc, List.map_cons, List.map_nil,
      Nat.succ_mul, Nat.add_assoc]

/-- Requests of `load_layers`: every layer makes one for each page. -/
lemma loadLayer_iterate (layer node q : ℕ) (num : ℕ) :
    (LoadLayers.loadLayer C node (q * C.nodesPerPage))^[num] ⟨C.nodeId layer node, layer, []⟩ =
      ⟨C.nodeId (layer + num) node, layer + num, (List.range num).flatMap fun i =>
        (List.range q).map fun j => C.nodeId (layer + i) node + j * C.nodesPerPage⟩ := by
  have hpos := C.nodesPerPage_pos
  have hq : (q * C.nodesPerPage + C.nodesPerPage - 1) / C.nodesPerPage = q := by
    rw [Nat.add_sub_assoc hpos, Nat.mul_comm, Nat.mul_add_div hpos, Nat.div_eq_of_lt (by omega),
      Nat.add_zero]
  induction num with
  | zero => rfl
  | succ num ih =>
    rw [Function.iterate_succ_apply', ih, LoadLayers.loadLayer, hq, request_iterate]
    simp only [List.range_succ, List.flatMap_append, List.flatMap_cons, List.flatMap_nil,
      List.append_nil, Nat.add_assoc]

lemma loadLayersIos_getElem {layer node q num i j : ℕ} (hi : i < num) (hj : j < q) :
    (loadLayersIos C layer node (q * C.nodesPerPage) num)[i * q + j]? =
      some (C.nodeId (layer + i) node + j * C.nodesPerPage) := by
  rw [loadLayersIos, loadLayer_iterate]
  dsimp only
  induction num with
  | zero => omega
  | succ num ih =>
    have hlen : ∀ k, ((List.range k).flatMap fun i =>
        (List.range q).map fun j => C.nodeId (layer + i) node + j * C.nodesPerPage).length =
          k * q := by
      intro k
      induction k with
      | zero => simp
      | succ k ih =>
        rw [List.range_succ, List.flatMap_append, List.length_append, ih, List.flatMap_singleton,
          List.length_map, List.length_range, Nat.succ_mul]
    rw [List.range_succ, List.flatMap_append, List.flatMap_singleton]
    rcases Nat.lt_succ_iff_lt_or_eq.mp hi with hi | rfl
    · have hle : (i + 1) * q ≤ num * q := Nat.mul_le_mul_right _ hi
      rw [Nat.succ_mul] at hle
      rw [List.getElem?_append_left (by rw [hlen]; omega)]
      exact ih hi
    · rw [List.getElem?_append_right (by rw [hlen]; omega), hlen, Nat.add_sub_cancel_left,
        List.getElem?_map, List.getElem?_range hj]
      rfl

/-! ### Round trips -/

/-- A request for a node on a written page loads that page. -/
lemma loadPages_pc1Write {labels : ℕ → ℕ → ℕ → Node} {written : List ℕ} {disk : Disk}
    {ios : List ℕ} {pages : ℕ → Page} {i node : ℕ} (hi : ios[i]? = some node)
    (hmem : node / C.nodesPerPage ∈ written) :
    loadPages C numControllers blockOffset
      (pc1Write C numControllers blockOffset labels written disk) ios pages i =
        hashedPage C labels (node / C.nodesPerPage) := by
  rw [loadPages, hi]
  exact nodeRead_pc1Write (.inl hmem)

/-- Pages of a run. -/
lemma page_lt {layer node : ℕ} (hl : layer < C.numLayers) (hn : node < C.numNodes) :
    C.nodeId layer node / C.nodesPerPage < C.numLayers * (C.numNodes / C.nodesPerPage) := by
  rw [C.nodeId_eq _ hn, ← Nat.mul_div_assoc _ C.nodesPerPage_dvd_numNodes]
  refine Nat.div_lt_div_of_lt_of_dvd (C.nodesPerPage_dvd_numNodes.mul_left _) ?_
  have := Nat.mul_le_mul_right C.numNodes (Nat.succ_le_of_lt hl)
  rw [Nat.succ_mul] at this
  omega

/-- `load_layers` puts node `node + k` of layer `layer + i` where PC2 looks for it. -/
lemma loadLayers_pc1Write {labels : ℕ → ℕ → ℕ → Node} {written : List ℕ} {disk : Disk}
    {pages : ℕ → Page}
    (hw : ∀ m < C.numLayers * (C.numNodes / C.nodesPerPage), m ∈ written)
    {layer node count num i k x : ℕ} (hl : layer + num ≤ C.numLayers)
    (hdvd : C.nodesPerPage ∣ node) (hcount : C.nodesPerPage ∣ count)
    (hn : node + count ≤ C.numNodes) (hi : i < num) (hk : k < count)
    (hx : x < C.parallelSectors) :
    loadLayers C numControllers blockOffset
      (pc1Write C numControllers blockOffset labels written disk) pages layer node count num
        ((i * count + k) * C.parallelSectors + x) = labels (layer + i) (node + k) x := by
  have hpos := C.nodesPerPage_pos
  have hS := C.parallelSectors_pos
  obtain ⟨q, rfl⟩ := hcount
  rw [Nat.mul_comm C.nodesPerPage q] at *
  have hkq : k / C.nodesPerPage < q := Nat.div_lt_of_lt_mul (by rwa [Nat.mul_comm])
  -- the page and the place in it
  have hsplit : (i * (q * C.nodesPerPage) + k) * C.parallelSectors + x =
      C.nodesPerPage * C.parallelSectors * (i * q + k / C.nodesPerPage) +
        (k % C.nodesPerPage * C.parallelSectors + x) := by
    conv_lhs => rw [← Nat.div_add_mod k C.nodesPerPage]
    ring
  have hin : k % C.nodesPerPage * C.parallelSectors + x < C.nodesPerPage * C.parallelSectors := by
    have := Nat.mul_le_mul_right C.parallelSectors (Nat.succ_le_of_lt (Nat.mod_lt k hpos))
    rw [Nat.succ_mul] at this
    omega
  have hpage : C.nodeId (layer + i) (node + k) / C.nodesPerPage =
      (C.nodeId (layer + i) node + k / C.nodesPerPage * C.nodesPerPage) / C.nodesPerPage :=
    C.nodeId_div_add (by omega) hdvd
  have hmem := hw _ (page_lt (show layer + i < C.numLayers by omega)
    (show node + k < C.numNodes by omega))
  rw [hpage] at hmem
  rw [loadLayers, nodeArray, hsplit, Nat.mul_add_div (Nat.mul_pos hpos hS), Nat.div_eq_of_lt hin,
    Nat.add_zero, Nat.mul_add_mod, Nat.mod_eq_of_lt hin,
    loadPages_pc1Write (loadLayersIos_getElem hi hkq) hmem, ← hpage]
  have hmod : (node + k) % C.nodesPerPage = k % C.nodesPerPage := by
    rw [Nat.add_mod, Nat.mod_eq_zero_of_dvd hdvd, Nat.zero_add, Nat.mod_mod]
  have hread : hashedPage C labels (C.nodeId (layer + i) (node + k) / C.nodesPerPage)
      (C.nodePos ((node + k) % C.nodesPerPage) x) = labels (layer + i) (node + k) x :=
    read_node (by omega) hx
  rw [hmod] at hread
  exact hread

/-- The loop over the loaded nodes takes each from its own page. -/
lemma getNodes_eq (nodes : List (ℕ × ℕ)) (sectorSlot : ℕ) (pages : ℕ → Page) :
    getNodes C nodes sectorSlot pages = (List.range nodes.length).map fun i =>
      (pages i (C.nodePos ((nodes.getD i (0, 0)).2 % C.nodesPerPage) sectorSlot)).reverseL := by
  have hloop : ∀ k, ∃ pages', (List.range k).foldl
      (fun (st : List Node × (ℕ → Page)) i => ((st.1 ++ [(getNode C nodes st.2 i sectorSlot).1],
        (getNode C nodes st.2 i sectorSlot).2))) ([], pages) =
      ((List.range k).map fun i =>
        (pages i (C.nodePos ((nodes.getD i (0, 0)).2 % C.nodesPerPage) sectorSlot)).reverseL,
        pages') ∧ ∀ i, k ≤ i → pages' i = pages i := by
    intro k
    induction k with
    | zero => exact ⟨pages, rfl, fun _ _ => rfl⟩
    | succ k ih =>
      obtain ⟨pages', hfold, hrest⟩ := ih
      refine ⟨(getNode C nodes pages' k sectorSlot).2, ?_, fun i hi => ?_⟩
      · rw [List.range_succ, List.foldl_append, hfold, List.map_append]
        simp only [List.foldl_cons, List.foldl_nil, List.map_cons, List.map_nil, getNode,
          hrest k le_rfl]
      · have hne : i ≠ k := by omega
        simp only [getNode, Function.update_of_ne hne]
        exact hrest i (by omega)
  obtain ⟨pages', hfold, -⟩ := hloop nodes.length
  exact congrArg Prod.fst hfold

/-- `load_nodes` followed by `get_node` for each node gives the nodes, with their bytes in the
order that C1 wants. -/
lemma getNodes_pc1Write {labels : ℕ → ℕ → ℕ → Node} {written : List ℕ} {disk : Disk}
    {pages : ℕ → Page}
    (hw : ∀ m < C.numLayers * (C.numNodes / C.nodesPerPage), m ∈ written)
    {nodes : List (ℕ × ℕ)} (hnodes : ∀ p ∈ nodes, p.1 < C.numLayers ∧ p.2 < C.numNodes) {x : ℕ}
    (hx : x < C.parallelSectors) :
    getNodes C nodes x (loadNodes C numControllers blockOffset
      (pc1Write C numControllers blockOffset labels written disk) pages nodes) =
        nodes.map fun p => (labels p.1 p.2 x).reverseL := by
  rw [getNodes_eq]
  refine List.ext_getElem (by simp) fun i hi hi' => ?_
  have hlen : i < nodes.length := by simpa using hi
  have hmem := hnodes _ (List.getElem_mem hlen)
  have hio : (nodes.map fun p => C.nodeId p.1 p.2)[i]? =
      some (C.nodeId nodes[i].1 nodes[i].2) := by
    rw [List.getElem?_map, List.getElem?_eq_getElem hlen]
    rfl
  rw [List.getElem_map, List.getElem_range, List.getElem_map, List.getD_eq_getElem _ _ hlen,
    loadNodes, loadPages_pc1Write hio (hw _ (page_lt hmem.1 hmem.2)), read_node hmem.2 hx]

/-! ### Slots -/

lemma SectorSize.config_numNodes (s : SectorSize) {lg : ℕ} (h1 : 1 ≤ lg) (h7 : lg ≤ 7) :
    (s.config h1 h7).numNodes = s.numLeaves := s.numLeaves_eq.symm

/-- The slot of a run: the pages of a layer, spread over the controllers, for each layer. -/
lemma getSlotSize_config (s : SectorSize) {lg : ℕ} (h1 : 1 ≤ lg) (h7 : lg ≤ 7)
    (numControllers : ℕ) :
    getSlotSize numControllers s (s.config h1 h7).parallelSectors =
      some (((s.config h1 h7).numNodes / (s.config h1 h7).nodesPerPage + numControllers - 1) /
        numControllers * (s.config h1 h7).numLayers) := by
  have hpow : 2 ^ lg &&& (2 ^ lg - 1) = 0 := by
    rw [Nat.and_two_pow_sub_one_eq_mod, Nat.mod_self]
  have hle : 2 ^ lg ≤ 128 := Nat.pow_le_pow_right (n := 2) (by decide) h7
  have hS : (s.config h1 h7).parallelSectors = 2 ^ lg := rfl
  rw [getSlotSize, hS, if_neg (not_not.mpr ⟨hpow, Nat.two_pow_pos _, hle⟩), s.config_numNodes]
  rfl

/-- The blocks of a run fit in its slot. -/
lemma block_lt {m layers pages : ℕ} (hD : 0 < numControllers) (hm : m < layers * pages) :
    m / numControllers < (pages + numControllers - 1) / numControllers * layers := by
  refine Nat.div_lt_of_lt_mul (hm.trans_le ?_)
  have hceil : pages ≤ numControllers * ((pages + numControllers - 1) / numControllers) := by
    have hmod := Nat.mod_lt (pages + numControllers - 1) hD
    have hdiv := Nat.div_add_mod (pages + numControllers - 1) numControllers
    omega
  calc layers * pages
      ≤ layers * (numControllers * ((pages + numControllers - 1) / numControllers)) :=
        Nat.mul_le_mul_left _ hceil
    _ = numControllers * ((pages + numControllers - 1) / numControllers * layers) := by ring

/-- The place of a node, in terms of its page. -/
lemma pc1Place_eq {layer node sector : ℕ} : pc1Place C numControllers blockOffset layer node sector =
    ⟨C.nodeId layer node / C.nodesPerPage % numControllers,
      C.nodeId layer node / C.nodesPerPage / numControllers + blockOffset,
      C.nodePos (node % C.nodesPerPage) sector⟩ := by
  simp only [pc1Place, nvmeNodeIndexes_eq, Nat.mul_div_cancel _ C.nodesPerPage_pos]

/-- No two nodes of a run share a place. -/
lemma pc1Place_inj {layer node sector layer' node' sector' : ℕ}
    (hn : node < C.numNodes) (hn' : node' < C.numNodes) (hx : sector < C.parallelSectors)
    (hx' : sector' < C.parallelSectors)
    (h : pc1Place C numControllers blockOffset layer node sector =
      pc1Place C numControllers blockOffset layer' node' sector') :
    layer = layer' ∧ node = node' ∧ sector = sector' := by
  rw [pc1Place_eq, pc1Place_eq, Place.mk.injEq] at h
  obtain ⟨hctrl, hblock, hbyte⟩ := h
  have hpage : C.nodeId layer node / C.nodesPerPage = C.nodeId layer' node' / C.nodesPerPage := by
    rw [← Nat.div_add_mod (C.nodeId layer node / C.nodesPerPage) numControllers, hctrl,
      Nat.add_right_cancel hblock, Nat.div_add_mod]
  -- the position in the page gives the node in the page and the sector
  have hpos := Nat.eq_of_mul_eq_mul_right (by decide : 0 < nodeSize) hbyte
  have hin : node % C.nodesPerPage = node' % C.nodesPerPage := by
    have := congrArg (· / C.parallelSectors) hpos
    simpa only [Nat.mul_comm _ C.parallelSectors, Nat.mul_add_div C.parallelSectors_pos,
      Nat.div_eq_of_lt hx, Nat.div_eq_of_lt hx', Nat.add_zero] using this
  have hid : C.nodeId layer node = C.nodeId layer' node' := by
    rw [← Nat.div_add_mod (C.nodeId layer node) C.nodesPerPage, hpage, C.nodeId_mod hn, hin,
      ← C.nodeId_mod hn', Nat.div_add_mod]
  refine ⟨?_, ?_, ?_⟩
  · have hlayer := congrArg C.layer hid
    rwa [C.layer_nodeId hn, C.layer_nodeId hn'] at hlayer
  · have hnode := congrArg C.node hid
    rwa [C.node_nodeId hn, C.node_nodeId hn'] at hnode
  · rw [hin] at hpos
    exact Nat.add_left_cancel hpos

/-- The blocks of a run lie in the slot at its offset. -/
lemma pc1Place_block {layer node sector : ℕ} (hD : 0 < numControllers) (hl : layer < C.numLayers)
    (hn : node < C.numNodes) :
    blockOffset ≤ (pc1Place C numControllers blockOffset layer node sector).block ∧
      (pc1Place C numControllers blockOffset layer node sector).block < blockOffset +
        (C.numNodes / C.nodesPerPage + numControllers - 1) / numControllers * C.numLayers := by
  rw [pc1Place_eq]
  have := block_lt hD (page_lt hl hn)
  exact ⟨Nat.le_add_left _ _, by dsimp only; omega⟩

/-- The storage layout, for every sector size, every number of sectors from 2 to 128, every number of
controllers and every offset. No two nodes of a run share a place, and all its blocks lie in the
slot at its offset. After PC1 has written all pages, in any order, both readers find every node
where their callers look for it. Two runs whose slots do not overlap share no block. -/
theorem storage_layout (s : SectorSize) {lg : ℕ} (h1 : 1 ≤ lg) (h7 : lg ≤ 7)
    {numControllers : ℕ} (hD : 0 < numControllers) (blockOffset : ℕ) :
    ∃ slotSize, getSlotSize numControllers s (s.config h1 h7).parallelSectors = some slotSize ∧
      (∀ layer node x layer' node' x', layer < s.numLayers → layer' < s.numLayers →
        node < s.numLeaves → node' < s.numLeaves → x < 2 ^ lg → x' < 2 ^ lg →
        pc1Place (s.config h1 h7) numControllers blockOffset layer node x =
          pc1Place (s.config h1 h7) numControllers blockOffset layer' node' x' →
        layer = layer' ∧ node = node' ∧ x = x') ∧
      (∀ layer node x, layer < s.numLayers → node < s.numLeaves → x < 2 ^ lg →
        blockOffset ≤ (pc1Place (s.config h1 h7) numControllers blockOffset layer node x).block ∧
        (pc1Place (s.config h1 h7) numControllers blockOffset layer node x).block <
          blockOffset + slotSize) ∧
      (∀ labels disk written (pages : ℕ → Page),
        (∀ m < s.numLayers * (s.numLeaves / (s.config h1 h7).nodesPerPage), m ∈ written) →
        (∀ layer node count num i k x, layer + num ≤ s.numLayers →
          (s.config h1 h7).nodesPerPage ∣ node → (s.config h1 h7).nodesPerPage ∣ count →
          node + count ≤ s.numLeaves → i < num → k < count → x < 2 ^ lg →
          loadLayers (s.config h1 h7) numControllers blockOffset
            (pc1Write (s.config h1 h7) numControllers blockOffset labels written disk) pages
            layer node count num ((i * count + k) * 2 ^ lg + x) = labels (layer + i) (node + k) x) ∧
        (∀ nodes x, (∀ p ∈ nodes, p.1 < s.numLayers ∧ p.2 < s.numLeaves) → x < 2 ^ lg →
          getNodes (s.config h1 h7) nodes x (loadNodes (s.config h1 h7) numControllers blockOffset
            (pc1Write (s.config h1 h7) numControllers blockOffset labels written disk) pages nodes) =
            nodes.map fun p => (labels p.1 p.2 x).reverseL)) ∧
      (∀ (s' : SectorSize) (lg' : ℕ) (h1' : 1 ≤ lg') (h7' : lg' ≤ 7) (blockOffset' : ℕ),
        blockOffset + slotSize ≤ blockOffset' →
        ∀ layer node x layer' node' x', layer < s.numLayers → node < s.numLeaves →
          layer' < s'.numLayers → node' < s'.numLeaves → x < 2 ^ lg → x' < 2 ^ lg' →
          (pc1Place (s.config h1 h7) numControllers blockOffset layer node x).block ≠
            (pc1Place (s'.config h1' h7') numControllers blockOffset' layer' node' x').block) := by
  have hnodes := s.config_numNodes h1 h7
  refine ⟨_, getSlotSize_config s h1 h7 numControllers, ?_, ?_, ?_, ?_⟩
  · intro layer node x layer' node' x' _ _ hn hn' hx hx' h
    exact pc1Place_inj (C := s.config h1 h7) (hnodes ▸ hn) (hnodes ▸ hn') hx hx' h
  · intro layer node x hl hn _
    exact pc1Place_block (C := s.config h1 h7) hD hl (hnodes ▸ hn)
  · intro labels disk written pages hw
    rw [← hnodes] at hw
    refine ⟨?_, ?_⟩
    · intro layer node count num i k x hl hdvd hcount hn hi hk hx
      exact loadLayers_pc1Write (C := s.config h1 h7) hw hl hdvd hcount (hnodes ▸ hn) hi hk hx
    · intro nodes x hmem hx
      exact getNodes_pc1Write (C := s.config h1 h7) hw (fun p hp => hnodes ▸ hmem p hp) hx
  · intro s' lg' h1' h7' blockOffset' hoff layer node x layer' node' x' hl hn hl' hn' _ _
    refine ne_of_lt (lt_of_lt_of_le ?_ (hoff.trans ?_))
    · exact (pc1Place_block (C := s.config h1 h7) hD hl (hnodes ▸ hn)).2
    · exact (pc1Place_block (C := s'.config h1' h7') hD hl'
        (s'.config_numNodes h1' h7' ▸ hn')).1

/-- Two 2KiB sectors on three controllers: two pages on disk, and a slot of two blocks. -/
theorem storage_layout_two_sectors :
    getSlotSize 3 .sector2KB 2 = some 2 ∧ ∀ layer node x, layer < 2 → node < 64 → x < 2 →
      5 ≤ (pc1Place (SectorSize.sector2KB.config (le_refl 1) (by decide)) 3 5 layer node x).block ∧
      (pc1Place (SectorSize.sector2KB.config (le_refl 1) (by decide)) 3 5 layer node x).block < 7 := by
  obtain ⟨slotSize, hslot, -, hblock, -, -⟩ :=
    storage_layout .sector2KB (le_refl 1) (by decide) (show 0 < 3 by decide) 5
  have htwo : getSlotSize 3 .sector2KB 2 = some 2 := by decide
  obtain rfl : slotSize = 2 := by
    have hslot : getSlotSize 3 .sector2KB 2 = some slotSize := hslot
    rw [htwo, Option.some.injEq] at hslot
    exact hslot.symm
  exact ⟨htwo, fun layer node x hl hn hx => hblock layer node x hl hn hx⟩

end SupraSeal
