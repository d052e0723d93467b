import SupraSeal.Poseidon.Pipeline
import Mathlib.Data.Set.Function

/-!
# Inputs of the batches

Where the inputs of a hash are in memory: a batch has `num_hashes / stride` nodes of each of `stride`
sectors. Node `node` of a tree hashes the nodes `arity * node + k` below it, and node `node` of the
first level of tree C the labels of that node in all layers.
-/

namespace SupraSeal.Poseidon

variable {R : Type*} {P : Poseidon R} {batch : Batch}

namespace Batch

/-- The nodes that a batch has of each sector. -/
def nodes (batch : Batch) : ℕ := batch.numHashes / batch.stride

/-- Where node `child` of the level below is. -/
def childCell (batch : Batch) (arity sector child : ℕ) : ℕ × ℕ :=
  if batch.multiInPtr then (child / batch.nodes, sector * batch.nodes + child % batch.nodes)
  else if batch.firstTreeR then (0, child * batch.stride + sector)
  else (0, sector * (arity * batch.nodes) + child)

/-- Where the label of a node in a layer is. -/
def columnCell (batch : Batch) (sector layer node : ℕ) : ℕ × ℕ :=
  (0, (layer * batch.nodes + node) * batch.stride + sector)

/-- Where input `k` of a node of a sector is. -/
def inputCell (batch : Batch) (arity sector node k : ℕ) : ℕ × ℕ :=
  if batch.multiInPtr = false ∧ batch.firstTreeC then batch.columnCell sector k node
  else batch.childCell arity sector (arity * node + k)

/-- The input: one array, or `arity` of them. -/
def inputCells (batch : Batch) (arity : ℕ) : Set (ℕ × ℕ) :=
  if batch.multiInPtr then {cell | cell.1 < arity ∧ cell.2 < batch.numHashes}
  else {cell | cell.1 = 0 ∧ cell.2 < arity * batch.numHashes}

lemma stride_mul_nodes (batch : Batch) : batch.stride * batch.nodes = batch.numHashes :=
  Nat.mul_div_cancel' batch.dvd

lemma numBatches (batch : Batch) :
    (batch.numHashes + batch.stride - 1) / batch.stride = batch.nodes := by
  rw [← batch.stride_mul_nodes]
  have hpos := batch.stride_pos
  have hlt : batch.stride - 1 < batch.stride := Nat.sub_lt hpos one_pos
  rw [Nat.add_sub_assoc hpos, Nat.mul_add_div hpos, Nat.div_eq_of_lt hlt, Nat.add_zero]

end Batch

/-- The threads of kernel 1 that read an input. -/
def readers (P : Poseidon R) (batch : Batch) : Set ℕ :=
  {tid | tid < P.threadCount13 batch ∧ tid % P.t ≠ 0}

lemma t_sub_one (P : Poseidon R) : P.t - 1 = P.arity := Nat.add_sub_cancel ..

/-- A thread takes the input of its node and sector. -/
lemma inputIndex_eq {sector node k : ℕ} (hnode : node < batch.nodes) (hk : k < P.arity) :
    P.inputIndex batch ((sector * batch.nodes + node) * P.t + (k + 1)) =
      batch.inputCell P.arity sector node k := by
  have hk' : k + 1 < P.t := Nat.succ_lt_succ hk
  have hchild : node * P.arity + k < batch.nodes * P.arity := mul_add_lt hnode hk
  have hdiv : batch.numHashes / batch.stride = batch.nodes := rfl
  simp only [inputIndex, mul_add_div' _ hk', mul_add_mod' _ hk', batch.numBatches,
    mul_add_div' _ hnode, mul_add_mod' _ hnode, t_sub_one, Nat.add_sub_cancel, hdiv,
    Batch.inputCell, Batch.childCell, Batch.columnCell]
  have hchild' : (sector * batch.nodes + node) * P.arity + k =
      sector * (P.arity * batch.nodes) + (P.arity * node + k) := by ring
  cases hmulti : batch.multiInPtr
  · cases hc : batch.firstTreeC
    · cases hr : batch.firstTreeR
      · simp [hchild']
      · simp only [Bool.or_false, Bool.false_eq_true, if_true, if_false, and_false, Prod.mk.injEq,
          true_and]
        ring
    · simp only [Bool.or_true, Bool.false_eq_true, if_true, if_false, and_self, Prod.mk.injEq,
        true_and]
      ring
  · have hlt : P.arity * node + k < P.arity * batch.nodes := by
      rwa [Nat.mul_comm, Nat.mul_comm P.arity]
    have hnodes : 0 < batch.nodes := Nat.zero_lt_of_lt hnode
    -- the elements of a sector are `arity` runs of `nodes`, one in each array
    have helem : sector * (P.arity * batch.nodes) + (P.arity * node + k) =
        (P.arity * node + k) + sector * P.arity * batch.nodes := by ring
    have hrun : (P.arity * node + k) / batch.nodes < P.arity :=
      (Nat.div_lt_iff_lt_mul hnodes).mpr hlt
    simp only [if_true, Bool.true_eq_false, false_and, if_false, Prod.mk.injEq, hchild',
      mul_add_div' _ hlt]
    rw [helem, Nat.add_mul_div_right _ _ hnodes, Nat.add_mul_mod_self_right, Nat.mod_eq_of_lt hrun,
      Nat.add_mul_mod_self_right]
    exact ⟨rfl, rfl⟩

/-! ### Every input once -/

lemma mul_add_inj {n a b a' b' : ℕ} (hb : b < n) (hb' : b' < n) (h : a * n + b = a' * n + b') :
    a = a' ∧ b = b' := by
  have hdiv := congrArg (· / n) h
  have hmod := congrArg (· % n) h
  simp only [mul_add_div' _ hb, mul_add_div' _ hb', mul_add_mod' _ hb, mul_add_mod' _ hb'] at hdiv hmod
  exact ⟨hdiv, hmod⟩

/-- A thread reads the input of one node of one sector. -/
lemma mem_readers_iff {tid : ℕ} : tid ∈ P.readers batch ↔
    ∃ sector < batch.stride, ∃ node < batch.nodes, ∃ k < P.arity,
      tid = (sector * batch.nodes + node) * P.t + (k + 1) := by
  constructor
  · rintro ⟨hlt, hne⟩
    obtain ⟨h, hh, i, hi, rfl⟩ := exists_mul_add hlt
    rw [mul_add_mod' _ hi] at hne
    rw [← batch.stride_mul_nodes] at hh
    obtain ⟨sector, hsector, node, hnode, rfl⟩ := exists_mul_add hh
    obtain ⟨k, rfl⟩ := Nat.exists_eq_succ_of_ne_zero hne
    exact ⟨sector, hsector, node, hnode, k, Nat.lt_of_succ_lt_succ hi, rfl⟩
  · rintro ⟨sector, hsector, node, hnode, k, hk, rfl⟩
    have hi : k + 1 < P.t := Nat.succ_lt_succ hk
    have hh := mul_add_lt hsector hnode
    rw [batch.stride_mul_nodes] at hh
    refine ⟨mul_add_lt hh hi, ?_⟩
    rw [mul_add_mod' _ hi]
    exact Nat.succ_ne_zero k

namespace Batch

variable {arity : ℕ}

lemma length_eq (batch : Batch) (arity : ℕ) :
    arity * batch.nodes * batch.stride = arity * batch.numHashes := by
  rw [Nat.mul_assoc, Nat.mul_comm batch.nodes, batch.stride_mul_nodes]

lemma childCell_mem {sector child : ℕ} (hsector : sector < batch.stride)
    (hchild : child < arity * batch.nodes) :
    batch.childCell arity sector child ∈ batch.inputCells arity := by
  have hnodes : 0 < batch.nodes := Nat.pos_of_ne_zero fun h => by simp [h] at hchild
  rw [childCell, inputCells]
  split_ifs
  · refine ⟨(Nat.div_lt_iff_lt_mul hnodes).mpr hchild, ?_⟩
    rw [← batch.stride_mul_nodes]
    exact mul_add_lt hsector (Nat.mod_lt _ hnodes)
  · refine ⟨rfl, ?_⟩
    rw [← length_eq]
    exact mul_add_lt hchild hsector
  · refine ⟨rfl, ?_⟩
    rw [← length_eq, Nat.mul_comm (arity * batch.nodes)]
    exact mul_add_lt hsector hchild

lemma childCell_inj {sector child sector' child' : ℕ} (hsector : sector < batch.stride)
    (hsector' : sector' < batch.stride) (hchild : child < arity * batch.nodes)
    (hchild' : child' < arity * batch.nodes)
    (h : batch.childCell arity sector child = batch.childCell arity sector' child') :
    sector = sector' ∧ child = child' := by
  have hnodes : 0 < batch.nodes := Nat.pos_of_ne_zero fun h => by simp [h] at hchild
  rw [childCell, childCell] at h
  split_ifs at h <;> obtain ⟨hptr, hidx⟩ := Prod.mk.inj h
  · obtain ⟨hsec, hmod⟩ := mul_add_inj (Nat.mod_lt child hnodes) (Nat.mod_lt child' hnodes) hidx
    refine ⟨hsec, ?_⟩
    rw [← Nat.div_add_mod child batch.nodes, hptr, hmod, Nat.div_add_mod]
  · exact (mul_add_inj hsector hsector' hidx).symm
  · exact mul_add_inj hchild hchild' hidx

lemma exists_childCell {cell : ℕ × ℕ} (h : cell ∈ batch.inputCells arity) :
    ∃ sector < batch.stride, ∃ child < arity * batch.nodes,
      batch.childCell arity sector child = cell := by
  obtain ⟨ptr, idx⟩ := cell
  rw [inputCells] at h
  simp only [childCell]
  split_ifs at h ⊢
  · obtain ⟨hptr, hidx⟩ := h
    rw [← batch.stride_mul_nodes] at hidx
    obtain ⟨sector, hsector, off, hoff, hidx⟩ := exists_mul_add hidx
    refine ⟨sector, hsector, ptr * batch.nodes + off, mul_add_lt hptr hoff, ?_⟩
    rw [mul_add_div' _ hoff, mul_add_mod' _ hoff]
    exact Prod.ext rfl hidx.symm
  · obtain ⟨hptr, hidx⟩ := h
    rw [← length_eq] at hidx
    obtain ⟨child, hchild, sector, hsector, hidx⟩ := exists_mul_add hidx
    exact ⟨sector, hsector, child, hchild, Prod.ext hptr.symm hidx.symm⟩
  · obtain ⟨hptr, hidx⟩ := h
    rw [← length_eq, Nat.mul_comm (arity * batch.nodes)] at hidx
    obtain ⟨sector, hsector, child, hchild, hidx⟩ := exists_mul_add hidx
    exact ⟨sector, hsector, child, hchild, Prod.ext hptr.symm hidx.symm⟩

lemma columnCell_inj {sector layer node sector' layer' node' : ℕ} (hsector : sector < batch.stride)
    (hsector' : sector' < batch.stride) (hnode : node < batch.nodes) (hnode' : node' < batch.nodes)
    (h : batch.columnCell sector layer node = batch.columnCell sector' layer' node') :
    sector = sector' ∧ layer = layer' ∧ node = node' := by
  have hcell := congrArg Prod.snd h
  obtain ⟨hcolumn, hsec⟩ := mul_add_inj hsector hsector' hcell
  obtain ⟨hlayer, hnod⟩ := mul_add_inj hnode hnode' hcolumn
  exact ⟨hsec, hlayer, hnod⟩

/-- The inputs of all nodes of all sectors. -/
lemma inputCell_mem {sector node k : ℕ} (hsector : sector < batch.stride)
    (hnode : node < batch.nodes) (hk : k < arity) :
    batch.inputCell arity sector node k ∈ batch.inputCells arity := by
  rw [inputCell]
  split_ifs with hmode
  · rw [inputCells, if_neg (by simp [hmode.1])]
    refine ⟨rfl, ?_⟩
    rw [← length_eq]
    exact mul_add_lt (mul_add_lt hk hnode) hsector
  · refine childCell_mem hsector ?_
    rw [Nat.mul_comm, Nat.mul_comm arity]
    exact mul_add_lt hnode hk

lemma inputCell_inj {sector node k sector' node' k' : ℕ} (hsector : sector < batch.stride)
    (hsector' : sector' < batch.stride) (hnode : node < batch.nodes) (hnode' : node' < batch.nodes)
    (hk : k < arity) (hk' : k' < arity)
    (h : batch.inputCell arity sector node k = batch.inputCell arity sector' node' k') :
    sector = sector' ∧ node = node' ∧ k = k' := by
  rw [inputCell, inputCell] at h
  split_ifs at h
  · obtain ⟨hsec, hlayer, hnod⟩ := columnCell_inj hsector hsector' hnode hnode' h
    exact ⟨hsec, hnod, hlayer⟩
  · have hlt : ∀ {n j}, n < batch.nodes → j < arity → arity * n + j < arity * batch.nodes := by
      intro n j hn hj
      rw [Nat.mul_comm, Nat.mul_comm arity]
      exact mul_add_lt hn hj
    obtain ⟨hsec, hchild⟩ := childCell_inj hsector hsector' (hlt hnode hk) (hlt hnode' hk') h
    rw [Nat.mul_comm, Nat.mul_comm arity] at hchild
    exact ⟨hsec, mul_add_inj hk hk' hchild⟩

lemma exists_inputCell {cell : ℕ × ℕ} (h : cell ∈ batch.inputCells arity) :
    ∃ sector < batch.stride, ∃ node < batch.nodes, ∃ k < arity,
      batch.inputCell arity sector node k = cell := by
  simp only [inputCell]
  split_ifs with hmode
  · rw [inputCells, if_neg (by simp [hmode.1]), ← length_eq] at h
    obtain ⟨hptr, hidx⟩ := h
    obtain ⟨column, hcolumn, sector, hsector, hidx⟩ := exists_mul_add hidx
    obtain ⟨layer, hlayer, node, hnode, rfl⟩ := exists_mul_add hcolumn
    exact ⟨sector, hsector, node, hnode, layer, hlayer, Prod.ext hptr.symm hidx.symm⟩
  · obtain ⟨sector, hsector, child, hchild, hcell⟩ := exists_childCell h
    rw [Nat.mul_comm] at hchild
    obtain ⟨node, hnode, k, hk, rfl⟩ := exists_mul_add hchild
    refine ⟨sector, hsector, node, hnode, k, hk, ?_⟩
    rw [Nat.mul_comm arity, hcell]

end Batch

/-- The threads of kernel 1 read every input once. -/
lemma inputIndex_bijOn (P : Poseidon R) (batch : Batch) :
    Set.BijOn (P.inputIndex batch) (P.readers batch) (batch.inputCells P.arity) := by
  refine ⟨fun tid htid => ?_, fun tid htid tid' htid' h => ?_, fun cell hcell => ?_⟩
  · obtain ⟨sector, hsector, node, hnode, k, hk, rfl⟩ := mem_readers_iff.mp htid
    rw [inputIndex_eq hnode hk]
    exact Batch.inputCell_mem hsector hnode hk
  · obtain ⟨sector, hsector, node, hnode, k, hk, rfl⟩ := mem_readers_iff.mp htid
    obtain ⟨sector', hsector', node', hnode', k', hk', rfl⟩ := mem_readers_iff.mp htid'
    rw [inputIndex_eq hnode hk, inputIndex_eq hnode' hk'] at h
    obtain ⟨rfl, rfl, rfl⟩ := Batch.inputCell_inj hsector hsector' hnode hnode' hk hk' h
    rfl
  · obtain ⟨sector, hsector, node, hnode, k, hk, hindex⟩ := Batch.exists_inputCell hcell
    exact ⟨_, mem_readers_iff.mpr ⟨sector, hsector, node, hnode, k, hk, rfl⟩,
      (inputIndex_eq hnode hk).trans hindex⟩

/-! ### The tree on the GPU -/

/-- The field element that the CPU hashes for an input. -/
def Batch.treeInput (batch : Batch) (conv : FrConversion R) (element : R) : R :=
  let element :=
    if batch.multiInPtr = false ∧ (batch.firstTreeR ∨ batch.firstTreeC) ∧ batch.doBswap then
      conv.bswap element
    else element
  -- without the conversion the input is in Montgomery form already
  if batch.toMont then element else conv.fromMont element

lemma Batch.convertInput_eq (batch : Batch) (conv : FrConversion R) (element : R) :
    batch.convertInput conv element = conv.toMont (batch.treeInput conv element) := by
  have hmode : (!batch.multiInPtr && (batch.firstTreeR || batch.firstTreeC) && batch.doBswap) = true ↔
      batch.multiInPtr = false ∧ (batch.firstTreeR ∨ batch.firstTreeC) ∧ batch.doBswap := by
    simp [and_assoc]
  simp only [convertInput, treeInput, hmode]
  cases batch.toMont
  · exact (conv.toMont_fromMont _).symm
  · rfl

variable [CommRing R]

/-- The GPU hashes, for every node of every sector, what the CPU hashes, and takes every input
once. -/
theorem hashBatchPtrs_eq_hash (P : Poseidon R) (batch : Batch) (conv : FrConversion R)
    (sched : Schedule P batch) (inPtrs : ℕ → ℕ → R) (aux out : ℕ → R) :
    (∀ sector < batch.stride, ∀ node < batch.nodes,
      let result := P.hashBatchPtrs batch conv sched inPtrs aux out (sector * batch.nodes + node)
      (if batch.fromMont then result else conv.fromMont result) = P.hash conv fun k =>
        let cell := batch.inputCell P.arity sector node k
        batch.treeInput conv (inPtrs cell.1 cell.2)) ∧
    Set.BijOn (P.inputIndex batch) (P.readers batch) (batch.inputCells P.arity) := by
  refine ⟨fun sector hsector node hnode => ?_, inputIndex_bijOn P batch⟩
  have hh : sector * batch.nodes + node < batch.numHashes := by
    rw [← batch.stride_mul_nodes]
    exact mul_add_lt hsector hnode
  have hpermute : P.permute (P.hashInput batch conv inPtrs (sector * batch.nodes + node)) =
      P.permute fun k => conv.toMont (batch.treeInput conv
        (inPtrs (batch.inputCell P.arity sector node k).1
          (batch.inputCell P.arity sector node k).2)) := by
    refine permute_congr fun k hk => ?_
    simp only [hashInput]
    rw [inputIndex_eq hnode hk, Batch.convertInput_eq]
  simp only
  rw [hashBatchPtrs_apply sched inPtrs aux out hh, hash, hpermute]
  split_ifs <;> rfl

/-- Node 1 of sector 1 of tree R, with two nodes of two sectors, is the hash of elements 5 and 7. -/
theorem hashBatchPtrs_treeR :
    let P : Poseidon ℤ := ⟨2, 55, by decide, fun i => i⟩
    let batch : Batch := ⟨4, 2, by decide, by decide, false, true, false, true, true, false⟩
    let conv : FrConversion ℤ := ⟨id, id, id, fun _ => rfl, fun _ => rfl⟩
    let sched : Schedule P batch := ⟨.inOrder _, .inOrder _, .inOrder _, .inOrder _, 0, 0⟩
    P.hashBatchPtrs batch conv sched (fun _ i => i) 0 0 3 = P.permute fun k => 5 + k * 2 := by
  intro P batch conv sched
  have hnode := (hashBatchPtrs_eq_hash P batch conv sched (fun _ i => i) 0 0).1 1 (by decide) 1
    (by decide)
  have hnodes : batch.nodes = 2 := by decide
  have hmont : batch.fromMont = true := rfl
  simp only [hnodes, hmont, if_true] at hnode
  refine hnode.trans ?_
  show P.permute _ = _
  refine permute_congr fun k _ => ?_
  show ((((2 * 1 + k) * 2 + 1 : ℕ) : ℤ)) = 5 + k * 2
  push_cast
  ring

end SupraSeal.Poseidon
