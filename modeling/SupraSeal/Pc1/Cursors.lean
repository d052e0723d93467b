import SupraSeal.Pc1.ReadBatch

/-!
# The cursors of the orchestrator

The orchestrator advances six cursors through the nodes: the tails of the two ring buffers, the
written tail, the write head, the node whose parents are read next and the reserved head. The
invariant orders them and ties them to the ring buffers, whose indices are the cursors modulo the
ring sizes. The progress `cn k` that coordinator `k` reports enters only through bounds: it grows,
and it never exceeds the nodes whose parents were read.
-/

namespace SupraSeal

/-- The loop that reads the progress of the coordinators has passed coordinator `k`. -/
def OrchPc.loaded (k : ℕ) : OrchPc → Prop
  | .load i => k < i
  | _ => True

/-- Nodes whose buffer entries are reserved but not filled yet. -/
def OrchPc.pending : OrchPc → ℕ
  | .readNodes rb i => rb.maxBatch - i
  | _ => 0

lemma OrchPc.pending_eq_zero {pc : OrchPc} (h : ∀ rb i, pc ≠ .readNodes rb i) :
    pc.pending = 0 := by
  cases pc with
  | readNodes rb i => exact absurd rfl (h rb i)
  | _ => rfl

namespace Orchestrator

/-- Nodes for which buffer entries are reserved. -/
def reserved (o : Orchestrator) : ℕ := o.parentIter.node + o.pc.pending

/-- The locals of `read_batch` in terms of the cursors. -/
structure ReadInv (P : Setup) (o : Orchestrator) (rb : ReadBatch) (i : ℕ) : Prop where
  lt : i < rb.maxBatch
  slot : rb.parentBufferId = o.parentIter.node % parentBufferBatches
  le : i ≤ o.parentIter.node
  dvd : P.C.nodesPerPage ∣ o.parentIter.node - i
  page : rb.nodeBufferId = (o.parentIter.node - i) / P.C.nodesPerPage % nodeBufferBatches
  cacheMin : rb.cacheMinNode = o.tailNode / P.C.nodesPerPage * P.C.nodesPerPage
  cacheable : rb.cacheMinCacheableNode =
    min (rb.cacheMinNode + parentBufferBatches) o.tailNodeWrite.abs

/-- The invariant of the cursors. -/
structure CursorInv (P : Setup) (cn : ℕ → ℕ) (o : Orchestrator) : Prop where
  iter : o.parentIter = ParentIter.atParent P.C o.parentIter.node 0
  cn_le : ∀ k < P.numCoordinators, cn k ≤ o.parentIter.node
  parentRing : o.sys.parentBuffer.Spans o.tailNodeParents o.reserved
  nodeRing : o.sys.nodeBuffer.Spans (o.tailNode / P.C.nodesPerPage)
    (o.reserved / P.C.nodesPerPage)
  reserved_dvd : P.C.nodesPerPage ∣ o.reserved
  batch : ∀ rb i, o.pc = .readNodes rb i → o.ReadInv P rb i
  tail_le : o.tailNode ≤ o.tailNodeWrite.abs
  write_le : o.tailNodeWrite.abs ≤ o.headNodeWrite.abs
  tail_dvd : P.C.nodesPerPage ∣ o.tailNodeWrite.abs
  head_dvd : P.C.nodesPerPage ∣ o.headNodeWrite.abs
  tail_idx : o.tailNodeWrite.rawIdx =
    o.tailNodeWrite.abs % (nodeBufferBatches * P.C.nodesPerPage)
  head_idx : o.headNodeWrite.rawIdx =
    o.headNodeWrite.abs % (nodeBufferBatches * P.C.nodesPerPage)
  head_le : ∀ k < P.numCoordinators, o.headNodeWrite.abs ≤ cn k
  parents_le : ∀ k < P.numCoordinators, o.tailNodeParents ≤ cn k
  loaded : ∀ k < P.numCoordinators, o.pc.loaded k → o.minNodeHash ≤ cn k
  prev : 0 < o.parentIter.node → o.prevHashedNode =
    .nodeBuffer ((o.parentIter.node - 1) / P.C.nodesPerPage % nodeBufferBatches)
      ((o.parentIter.node - 1) % P.C.nodesPerPage)

variable {P : Setup} {cn cn' : ℕ → ℕ} {o o' : Orchestrator}

lemma numCoordinators_pos (P : Setup) : 0 < P.numCoordinators := by
  refine Nat.pos_of_ne_zero fun h => ?_
  have hnil : P.hashers = [] := List.length_eq_zero_iff.mp h
  have hsum := P.sectors_eq
  rw [hnil, List.sum_nil, Nat.mul_zero, Config.parallelSectors] at hsum
  exact absurd hsum (Nat.two_pow_pos _).ne

lemma reserved_eq (hpc : ∀ rb i, o.pc ≠ .readNodes rb i) : o.reserved = o.parentIter.node := by
  rw [reserved, OrchPc.pending_eq_zero hpc, Nat.add_zero]

lemma node_le_reserved (o : Orchestrator) : o.parentIter.node ≤ o.reserved :=
  Nat.le_add_right _ _

namespace CursorInv

/-- Nodes written, or about to be, have their parents read. -/
lemma head_le_node (hc : CursorInv P cn o) : o.headNodeWrite.abs ≤ o.parentIter.node :=
  (hc.head_le 0 (numCoordinators_pos P)).trans (hc.cn_le 0 (numCoordinators_pos P))

lemma parents_le_node (hc : CursorInv P cn o) : o.tailNodeParents ≤ o.parentIter.node :=
  (hc.parents_le 0 (numCoordinators_pos P)).trans (hc.cn_le 0 (numCoordinators_pos P))

/-- Progress of the coordinators keeps the invariant. -/
lemma mono (hc : CursorInv P cn o) (hle : ∀ k < P.numCoordinators, cn k ≤ cn' k)
    (hnode : ∀ k < P.numCoordinators, cn' k ≤ o.parentIter.node) : CursorInv P cn' o :=
  { hc with
    cn_le := hnode
    head_le := fun k hk => (hc.head_le k hk).trans (hle k hk)
    parents_le := fun k hk => (hc.parents_le k hk).trans (hle k hk)
    loaded := fun k hk hl => (hc.loaded k hk hl).trans (hle k hk) }

/-- Moving on to another phase, with new values for what no other thread depends on. -/
lemma setPc (hc : CursorInv P cn o) (hpc : ∀ rb i, o.pc ≠ .readNodes rb i)
    {pc : OrchPc} (hpc' : ∀ rb i, pc ≠ .readNodes rb i) {hash minNode node next free : ℕ}
    (hl : ∀ k < P.numCoordinators, pc.loaded k → hash ≤ cn k) :
    CursorInv P cn { o with
      minNodeHash := hash, minNode := minNode, node := node, nextNode := next, freeCount := free,
      pc := pc } := by
  have hr := reserved_eq hpc
  have hr' : ({ o with
      minNodeHash := hash, minNode := minNode, node := node, nextNode := next, freeCount := free,
      pc := pc } : Orchestrator).reserved = o.parentIter.node := reserved_eq hpc'
  exact { hc with
    parentRing := by rw [hr', ← hr]; exact hc.parentRing
    nodeRing := by rw [hr', ← hr]; exact hc.nodeRing
    reserved_dvd := by rw [hr', ← hr]; exact hc.reserved_dvd
    batch := fun rb i h => absurd h (hpc' rb i)
    loaded := hl }

end CursorInv

/-- The batch size is a number of whole pages and there is room for it. -/
lemma maxBatch_spec (P : Setup) (o : Orchestrator) :
    P.C.nodesPerPage ∣ o.maxBatch P ∧ o.maxBatch P ≤ o.sys.parentBuffer.freeCount ∧
      o.maxBatch P / P.C.nodesPerPage ≤ o.sys.nodeBuffer.freeCount ∧
      o.maxBatch P ≤ P.diskFifoDepth - o.sys.parentReadFifo.length ∧
      o.maxBatch P ≤ P.nodeStop - o.parentIter.node ∧
      o.maxBatch P ≤ P.C.nodesPerPage * 2 := by
  have hpos := P.C.nodesPerPage_pos
  rw [maxBatch]
  set m := min (min (min (min (P.diskFifoDepth - o.sys.parentReadFifo.length)
    (o.sys.nodeBuffer.freeCount * P.C.nodesPerPage)) o.sys.parentBuffer.freeCount)
      (P.nodeStop - o.parentIter.node)) (P.C.nodesPerPage * 2) with hm
  have hle : m / P.C.nodesPerPage * P.C.nodesPerPage ≤ m := Nat.div_mul_le_self _ _
  refine ⟨Nat.dvd_mul_left _ _, by omega, ?_, by omega, by omega, by omega⟩
  rw [Nat.mul_div_cancel _ hpos]
  exact Nat.div_le_of_le_mul (by rw [Nat.mul_comm]; omega)

namespace CursorInv

/-- Reservation of the entries of a batch. The node buffer holds the pages from the tail page to
the reserved head, so the oldest cached node is the first node of the tail page. -/
lemma reserveBatch (hc : CursorInv P cn o) (hpc : o.pc = .read) (hne : o.maxBatch P ≠ 0) :
    CursorInv P cn { (Orchestrator.reserveBatch P (o.maxBatch P) o).2 with
      pc := .readNodes (Orchestrator.reserveBatch P (o.maxBatch P) o).1 0 } := by
  obtain ⟨hdvd, hparent, hnode, -, -, -⟩ := maxBatch_spec P o
  generalize hm : o.maxBatch P = m at *
  have hr : o.reserved = o.parentIter.node := reserved_eq (by simp [hpc])
  have hpr := hc.parentRing
  have hnr := hc.nodeRing
  have hrd := hc.reserved_dvd
  rw [hr] at hpr hnr hrd
  rw [hpr.freeCount_eq] at hparent
  rw [hnr.freeCount_eq] at hnode
  have hpage : (o.parentIter.node + m) / P.C.nodesPerPage =
      o.parentIter.node / P.C.nodesPerPage + m / P.C.nodesPerPage :=
    Nat.add_div_of_dvd_left hdvd
  have hnr' := hnr.reserveBatchNocheck (c := m / P.C.nodesPerPage)
    (by have := hnr.lt; have := hnr.le; omega)
  have hpr' := hpr.reserveBatchNocheck (c := m)
    (by have := hpr.lt; have := hpr.le; omega)
  exact { hc with
    parentRing := hpr'
    nodeRing := by
      show RingBuffer.Spans _ _ ((o.parentIter.node + m) / P.C.nodesPerPage)
      rw [hpage]
      exact hnr'
    reserved_dvd := Nat.dvd_add hrd hdvd
    batch := by
      rintro rb i ⟨⟩
      refine ⟨Nat.pos_of_ne_zero hne, hpr.head, Nat.zero_le _, hrd, hnr.head, ?_, rfl⟩
      show o.parentIter.node - ((o.sys.nodeBuffer.curSize + m / P.C.nodesPerPage) *
        P.C.nodesPerPage - m) = o.tailNode / P.C.nodesPerPage * P.C.nodesPerPage
      rw [hnr.curSize, Nat.add_mul, Nat.div_mul_cancel hdvd, Nat.add_sub_cancel, Nat.sub_mul,
        Nat.div_mul_cancel hrd]
      have hle := Nat.mul_le_mul_right P.C.nodesPerPage hnr.le
      rw [Nat.div_mul_cancel hrd] at hle
      exact Nat.sub_sub_self hle
    loaded := fun k hk _ => hc.loaded k hk (by rw [hpc]; trivial) }

lemma pending_nextPc {rb : ReadBatch} {i : ℕ} (hlt : i < rb.maxBatch) :
    (nextReadPc rb i).pending + 1 = rb.maxBatch - i := by
  rw [nextReadPc]
  split_ifs <;> simp only [OrchPc.pending] <;> omega

lemma reserved_readNode (hc : CursorInv P cn o) {rb : ReadBatch} {i : ℕ}
    (hpc : o.pc = .readNodes rb i) :
    ({ Orchestrator.readNode P rb i o with pc := nextReadPc rb i } : Orchestrator).reserved =
      o.reserved := by
  have hnext := pending_nextPc (hc.batch rb i hpc).lt
  rw [readNode_eq hc.iter]
  show o.parentIter.node + 1 + (nextReadPc rb i).pending = _
  rw [reserved, hpc, OrchPc.pending]
  omega

/-- The entry that is filled is that of no other node. -/
lemma slot_ne (hc : CursorInv P cn o) {rb : ReadBatch} {i m : ℕ} (hpc : o.pc = .readNodes rb i)
    (hm : o.tailNodeParents ≤ m) (hmr : m ≤ o.reserved) (hne : m ≠ o.parentIter.node) :
    m % parentBufferBatches ≠ rb.parentBufferId := by
  rw [(hc.batch rb i hpc).slot]
  intro heq
  exact hne (hc.parentRing.slot_inj hm hmr hc.parents_le_node (node_le_reserved o) heq)

/-- One node of the batch. -/
lemma readNode (hc : CursorInv P cn o) {rb : ReadBatch} {i : ℕ} (hpc : o.pc = .readNodes rb i) :
    CursorInv P cn { Orchestrator.readNode P rb i o with pc := nextReadPc rb i } := by
  obtain ⟨hlt, hslot, hle, hdvd, hpage, hmin, hcache⟩ := hc.batch rb i hpc
  have hr' := pending_nextPc hlt
  rw [readNode_eq hc.iter, afterNode]
  generalize hq : nextReadPc rb i = q at hr'
  have hr' : o.parentIter.node + 1 + q.pending = o.reserved := by
    rw [reserved, hpc, OrchPc.pending]
    omega
  refine { hc with
    iter := rfl
    cn_le := fun k hk => (hc.cn_le k hk).trans (Nat.le_succ _)
    parentRing := ?_
    nodeRing := ?_
    reserved_dvd := ?_
    batch := ?_
    loaded := fun k hk _ => hc.loaded k hk (by rw [hpc]; trivial)
    prev := fun _ => ?_ }
  · show RingBuffer.Spans _ _ (o.parentIter.node + 1 + q.pending)
    rw [hr']
    exact hc.parentRing.incrValid _ _
  · show RingBuffer.Spans _ _ ((o.parentIter.node + 1 + q.pending) / P.C.nodesPerPage)
    rw [hr']
    exact hc.nodeRing
  · show P.C.nodesPerPage ∣ o.parentIter.node + 1 + q.pending
    rw [hr']
    exact hc.reserved_dvd
  · rintro rb' i' h
    have h : q = .readNodes rb' i' := h
    rw [← hq, nextReadPc] at h
    split_ifs at h with hmore
    cases h
    have hsub : o.parentIter.node + 1 - (i + 1) = o.parentIter.node - i := by omega
    refine ⟨hmore, ?_, Nat.succ_le_succ hle, ?_, ?_, hmin, hcache⟩
    · show RingBuffer.incr parentBufferBatches rb.parentBufferId = (o.parentIter.node + 1) % _
      rw [hslot, RingBuffer.incr_mod (by decide)]
    · show _ ∣ o.parentIter.node + 1 - (i + 1)
      rw [hsub]
      exact hdvd
    · show rb.nodeBufferId = (o.parentIter.node + 1 - (i + 1)) / _ % _
      rw [hsub]
      exact hpage
  · -- the page of the node is `i / NODES_PER_PAGE` pages after the first reserved one
    show NodePtr.nodeBuffer _ _ = .nodeBuffer ((o.parentIter.node + 1 - 1) / _ % _) _
    have hdiv : (o.parentIter.node - i) / P.C.nodesPerPage + i / P.C.nodesPerPage =
        o.parentIter.node / P.C.nodesPerPage := by
      rw [← Nat.add_div_of_dvd_right hdvd, Nat.sub_add_cancel hle]
    rw [hpage, RingBuffer.incr_iterate_mod (by decide), hdiv, P.C.node_mod_nodesPerPage]
    rfl

/-- A write is issued for the page after the written ones, if it is hashed. -/
lemma writeNodes (hc : CursorInv P cn o) {r : ℕ} (hpc : o.pc = .writeNodes r) {r' : ℕ} :
    CursorInv P cn { o with
      sys := (Orchestrator.writeNodes P o).2
      headNodeWrite := o.headNodeWrite.addAssign (nodeBufferBatches * P.C.nodesPerPage)
        (Orchestrator.writeNodes P o).1
      outstandingWrites := o.outstandingWrites +
        (Orchestrator.writeNodes P o).1 / P.C.nodesPerPage
      pc := .writeNodes r' } := by
  have hpos := P.C.nodesPerPage_pos
  have hr : o.reserved = o.parentIter.node := reserved_eq (by simp [hpc])
  have hpr := hc.parentRing
  have hnr := hc.nodeRing
  have hrd := hc.reserved_dvd
  rw [hr] at hpr hnr hrd
  have hsize : 0 < nodeBufferBatches * P.C.nodesPerPage := Nat.mul_pos (by decide) hpos
  -- nothing is issued, or one page that all coordinators have passed
  have hw : (Orchestrator.writeNodes P o).1 = 0 ∨
      (Orchestrator.writeNodes P o).1 = P.C.nodesPerPage ∧
        o.headNodeWrite.abs + P.C.nodesPerPage ≤ o.minNodeHash := by
    rw [Orchestrator.writeNodes]
    split_ifs with hlt
    · exact .inl rfl
    · refine .inr ⟨rfl, ?_⟩
      have h1 := Nat.mul_le_mul_right P.C.nodesPerPage hlt
      rw [Nat.succ_mul, Nat.div_mul_cancel hc.head_dvd] at h1
      exact h1.trans (Nat.div_mul_le_self _ _)
    · exact .inl rfl
  have hsys : (Orchestrator.writeNodes P o).2.parentBuffer = o.sys.parentBuffer ∧
      (Orchestrator.writeNodes P o).2.nodeBuffer = o.sys.nodeBuffer := by
    rw [Orchestrator.writeNodes]
    split_ifs <;> exact ⟨rfl, rfl⟩
  generalize (Orchestrator.writeNodes P o).1 = issued at hw
  have hle : issued ≤ P.C.nodesPerPage := by omega
  exact { hc with
    parentRing := by
      show RingBuffer.Spans (Orchestrator.writeNodes P o).2.parentBuffer _ o.parentIter.node
      rw [hsys.1]
      exact hpr
    nodeRing := by
      show RingBuffer.Spans (Orchestrator.writeNodes P o).2.nodeBuffer _
        (o.parentIter.node / P.C.nodesPerPage)
      rw [hsys.2]
      exact hnr
    reserved_dvd := hrd
    batch := by simp
    write_le := hc.write_le.trans (Nat.le_add_right _ _)
    head_dvd := by
      refine Nat.dvd_add hc.head_dvd ?_
      rcases hw with rfl | ⟨rfl, -⟩
      · exact dvd_zero _
      · exact dvd_rfl
    head_idx := RingCounter.addAssign_rawIdx hsize hc.head_idx
      (hle.trans (Nat.le_mul_of_pos_left _ (by decide)))
    head_le := by
      intro k hk
      have hmin := hc.loaded k hk (by rw [hpc]; trivial)
      rcases hw with rfl | ⟨rfl, hhash⟩
      · exact hc.head_le k hk
      · exact hhash.trans hmin
    loaded := fun k hk _ => hc.loaded k hk (by rw [hpc]; trivial) }

lemma releaseParent (hc : CursorInv P cn o) {r : ℕ} (hpc : o.pc = .releaseParents r)
    (hlt : o.tailNodeParents < o.minNodeHash) {r' : ℕ} :
    CursorInv P cn { Orchestrator.releaseParent o with pc := .releaseParents r' } := by
  have hr : o.reserved = o.parentIter.node := reserved_eq (by simp [hpc])
  have hpr := hc.parentRing
  have hnr := hc.nodeRing
  have hrd := hc.reserved_dvd
  rw [hr] at hpr hnr hrd
  have hle : ∀ k < P.numCoordinators, o.tailNodeParents + 1 ≤ cn k := fun k hk =>
    hlt.trans_le (hc.loaded k hk (by rw [hpc]; trivial))
  have hnode := (hle 0 (numCoordinators_pos P)).trans (hc.cn_le 0 (numCoordinators_pos P))
  exact { hc with
    parentRing := hpr.release hnode
    nodeRing := hnr
    reserved_dvd := hrd
    batch := by simp
    parents_le := hle
    loaded := fun k hk _ => hc.loaded k hk (by rw [hpc]; trivial) }

/-- The slots of the written tail and of the write head agree only when the cursors do. -/
lemma idx_eq_iff (hc : CursorInv P cn o) :
    o.tailNodeWrite.idx P.C.nodesPerPage = o.headNodeWrite.idx P.C.nodesPerPage ↔
      o.tailNodeWrite.abs = o.headNodeWrite.abs := by
  have hpos := P.C.nodesPerPage_pos
  rw [RingCounter.idx_eq hc.tail_idx, RingCounter.idx_eq hc.head_idx]
  constructor
  · intro h
    have h1 : o.tailNode / P.C.nodesPerPage ≤ o.tailNodeWrite.abs / P.C.nodesPerPage :=
      Nat.div_le_div_right hc.tail_le
    have h2 : o.headNodeWrite.abs / P.C.nodesPerPage ≤ o.reserved / P.C.nodesPerPage :=
      Nat.div_le_div_right (hc.head_le_node.trans (node_le_reserved o))
    have h3 : o.tailNodeWrite.abs / P.C.nodesPerPage ≤ o.headNodeWrite.abs / P.C.nodesPerPage :=
      Nat.div_le_div_right hc.write_le
    have := hc.nodeRing.slot_inj h1 (h3.trans h2) (h1.trans h3) h2 h
    rw [← Nat.div_mul_cancel hc.tail_dvd, this, Nat.div_mul_cancel hc.head_dvd]
  · intro h
    rw [h]

lemma advanceWritten (hc : CursorInv P cn o) {r : ℕ} (hpc : o.pc = .advanceWritten r)
    (hne : o.tailNodeWrite.idx P.C.nodesPerPage ≠ o.headNodeWrite.idx P.C.nodesPerPage)
    {r' writes : ℕ} :
    CursorInv P cn { o with
      outstandingWrites := writes
      tailNodeWrite := o.tailNodeWrite.addAssign (nodeBufferBatches * P.C.nodesPerPage)
        P.C.nodesPerPage
      pc := .advanceWritten r' } := by
  have hpos := P.C.nodesPerPage_pos
  have hr : o.reserved = o.parentIter.node := reserved_eq (by simp [hpc])
  have hpr := hc.parentRing
  have hnr := hc.nodeRing
  have hrd := hc.reserved_dvd
  rw [hr] at hpr hnr hrd
  have hsize : 0 < nodeBufferBatches * P.C.nodesPerPage := Nat.mul_pos (by decide) hpos
  have hlt : o.tailNodeWrite.abs < o.headNodeWrite.abs :=
    lt_of_le_of_ne hc.write_le (mt hc.idx_eq_iff.mpr hne)
  exact { hc with
    parentRing := hpr
    nodeRing := hnr
    reserved_dvd := hrd
    batch := by simp
    tail_le := hc.tail_le.trans (Nat.le_add_right _ _)
    write_le := by
      show o.tailNodeWrite.abs + P.C.nodesPerPage ≤ o.headNodeWrite.abs
      obtain ⟨a, ha⟩ := hc.tail_dvd
      obtain ⟨b, hb⟩ := hc.head_dvd
      rw [ha, hb, ← Nat.mul_succ]
      exact Nat.mul_le_mul_left _ (Nat.lt_of_mul_lt_mul_left (ha ▸ hb ▸ hlt))
    tail_dvd := Nat.dvd_add hc.tail_dvd dvd_rfl
    tail_idx := RingCounter.addAssign_rawIdx hsize hc.tail_idx
      (Nat.le_mul_of_pos_left _ (by decide))
    loaded := fun k hk _ => hc.loaded k hk (by rw [hpc]; trivial) }

/-- The tail moves past its page with the last node of it. -/
lemma tail_succ_div (C : Config) (x : ℕ) :
    (x + 1) / C.nodesPerPage = if C.node x % C.nodesPerPage = C.nodesPerPage - 1
      then x / C.nodesPerPage + 1 else x / C.nodesPerPage := by
  have hpos := C.nodesPerPage_pos
  rw [C.node_mod_nodesPerPage, Nat.succ_div]
  have hmod : C.nodesPerPage ∣ x + 1 ↔ x % C.nodesPerPage = C.nodesPerPage - 1 := by
    have hlt := Nat.mod_lt x hpos
    rw [Nat.dvd_iff_mod_eq_zero, ← Nat.mod_add_mod]
    constructor
    · intro h
      by_contra hne
      rw [Nat.mod_eq_of_lt (by omega)] at h
      omega
    · intro h
      rw [h, Nat.sub_add_cancel hpos, Nat.mod_self]
  simp only [hmod]
  split_ifs <;> rfl

lemma advanceTail (hc : CursorInv P cn o) {r : ℕ} (hpc : o.pc = .release r)
    (hlt : o.tailNode < o.tailNodeWrite.abs) {r' : ℕ} :
    CursorInv P cn { Orchestrator.advanceTail P o with pc := .release r' } := by
  have hpos := P.C.nodesPerPage_pos
  have hr : o.reserved = o.parentIter.node := reserved_eq (by simp [hpc])
  have hpr := hc.parentRing
  have hnr := hc.nodeRing
  have hrd := hc.reserved_dvd
  rw [hr] at hpr hnr hrd
  have hpage : o.tailNode / P.C.nodesPerPage < o.parentIter.node / P.C.nodesPerPage :=
    Nat.div_lt_div_of_lt_of_dvd hrd (hlt.trans_le (hc.write_le.trans hc.head_le_node))
  exact { hc with
    parentRing := hpr
    nodeRing := by
      show RingBuffer.Spans (if _ then _ else _) ((o.tailNode + 1) / P.C.nodesPerPage)
        (o.parentIter.node / P.C.nodesPerPage)
      rw [tail_succ_div]
      split_ifs
      · exact hnr.release hpage
      · exact hnr
    reserved_dvd := hrd
    batch := by simp
    tail_le := hlt
    loaded := fun k hk _ => hc.loaded k hk (by rw [hpc]; trivial) }

/-- Every step of the orchestrator keeps the cursors in order. -/
theorem step (hc : CursorInv P cn o) (h : o.step P cn = some o') : CursorInv P cn o' := by
  cases hpc : o.pc <;> simp only [Orchestrator.step, hpc] at h
  case top =>
    have hl : ∀ k < P.numCoordinators, o.minNodeHash ≤ cn k := fun k hk =>
      hc.loaded k hk (by rw [hpc]; trivial)
    split_ifs at h <;> cases h
    · exact hc.setPc (by simp [hpc]) (by simp) fun k _ hk => absurd hk (Nat.not_lt_zero k)
    · exact hc.setPc (by simp [hpc]) (by simp) fun k hk _ => hl k hk
  case load i =>
    have hmin : ∀ k < P.numCoordinators, k < i + 1 →
        (if i = 0 then cn 0 else min o.minNodeHash (cn i)) ≤ cn k := by
      intro k hk hki
      have hold := hc.loaded k hk
      rw [hpc] at hold
      rcases Nat.lt_succ_iff_lt_or_eq.mp hki with hlt | rfl
      · rw [if_neg (by omega)]
        exact (min_le_left _ _).trans (hold hlt)
      · split_ifs with h0
        · rw [h0]
        · exact min_le_right _ _
    generalize (if i = 0 then cn 0 else min o.minNodeHash (cn i)) = hash at h hmin
    split_ifs at h with hmore <;> cases h
    · exact hc.setPc (by simp [hpc]) (by simp) fun k hk hki => hmin k hk hki
    · exact hc.setPc (by simp [hpc]) (by simp) fun k hk _ => hmin k hk (by omega)
  case read =>
    split_ifs at h with hread <;> cases h
    · exact hc.reserveBatch hpc hread.2
    · exact hc.setPc (by simp [hpc]) (by simp) fun k hk _ =>
        hc.loaded k hk (by rw [hpc]; trivial)
  case readNodes rb i =>
    cases h
    exact hc.readNode hpc
  case writeNodes r =>
    split_ifs at h with hw <;> cases h
    · exact hc.writeNodes hpc
    · exact hc.setPc (by simp [hpc]) (by simp) fun k hk _ =>
        hc.loaded k hk (by rw [hpc]; trivial)
  case releaseParents r =>
    split_ifs at h with hw <;> cases h
    · exact hc.releaseParent hpc hw.2
    · exact hc.setPc (by simp [hpc]) (by simp) fun k hk _ =>
        hc.loaded k hk (by rw [hpc]; trivial)
  case advanceWritten r =>
    split_ifs at h with hw <;> cases h
    · exact hc.advanceWritten hpc hw.2.1
    · exact hc.setPc (by simp [hpc]) (by simp) fun k hk _ =>
        hc.loaded k hk (by rw [hpc]; trivial)
  case release r =>
    split_ifs at h with hw hs <;> cases h
    · exact hc.setPc (by simp [hpc]) (by simp) fun k hk _ =>
        hc.loaded k hk (by rw [hpc]; trivial)
    · exact hc.advanceTail hpc hw.2.2.1
    · exact hc.setPc (by simp [hpc]) (by simp) fun k hk _ =>
        hc.loaded k hk (by rw [hpc]; trivial)
  case finish =>
    split_ifs at h <;> cases h <;>
      exact hc.setPc (by simp [hpc]) (by simp) fun k hk _ =>
        hc.loaded k hk (by rw [hpc]; trivial)
  case finished => simp at h
  case exited => simp at h

end CursorInv

end Orchestrator

end SupraSeal
