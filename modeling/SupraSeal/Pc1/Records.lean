import SupraSeal.Pc1.Writes

/-!
# Entries of the parent buffer

What the entries of the parent buffer hold between the time `read_batch` fills them and the time
they are released. An entry that is reserved but not filled, and the entry at the head, is not
valid, so that nobody looks at it.
-/

namespace SupraSeal

open Orchestrator

variable {P : Setup} {cn : ℕ → ℕ} {o o' : Orchestrator}

/-- The node behind parent pointer `j` of node `n`: pointer 0 is for the node before. -/
def Setup.parentOf (P : Setup) (n j : ℕ) : ℕ := if j = 0 then n - 1 else P.G.parentNode n j

/-- What `read_batch` may record for parent `j` of node `n`: nothing, a page to be read from disk,
or the place of the parent in the node buffer. A parent in the node buffer is less than the size of
the buffer behind, and it is local or its page is recorded for the reference counts. -/
inductive Recorded (P : Setup) (n j : ℕ) : NodePtr → ParentPtrSync → Prop
  | null : Recorded P n j .null .notNodeBuffer
  | disk (slot page nodeInPage : ℕ) :
      Recorded P n j (.parentBuffer slot page nodeInPage) .notNodeBuffer
  | cached {s : ParentPtrSync} (hlt : P.parentOf n j < n)
      (hwindow : n < P.parentOf n j + nodeBufferBatches * P.C.nodesPerPage)
      (hs : s = if n - P.parentOf n j < coordBatchNodeCount then .localNode
        else .nodeBufferIdx (P.parentOf n j / P.C.nodesPerPage % nodeBufferBatches)) :
      Recorded P n j
        (.nodeBuffer (P.parentOf n j / P.C.nodesPerPage % nodeBufferBatches)
          (P.parentOf n j % P.C.nodesPerPage)) s

/-- What is recorded for a parent that is in the node buffer and not local. -/
lemma Recorded.nodeBufferIdx {n j : ℕ} {src : NodePtr} {s : ParentPtrSync} (h : Recorded P n j src s)
    (hs : s ≠ .notNodeBuffer) (hfar : ¬n - P.parentOf n j < coordBatchNodeCount) :
    s = .nodeBufferIdx (P.parentOf n j / P.C.nodesPerPage % nodeBufferBatches) := by
  cases h with
  | null => exact absurd rfl hs
  | disk => exact absurd rfl hs
  | cached hlt hwindow heq => rwa [if_neg hfar] at heq

/-- The invariant of the parent buffer. -/
structure ParentInv (P : Setup) (o : Orchestrator) : Prop where
  unfilled : ∀ m, o.parentIter.node ≤ m → m ≤ o.reserved →
    o.sys.parentBuffer.valid (m % parentBufferBatches) < pageBatchSize
  recorded : ∀ n, o.tailNodeParents ≤ n → n < o.parentIter.node → ∀ j < parentCount,
    Recorded P n j (o.sys.parentPtrs (n % parentBufferBatches) j)
      (o.sys.parentPtrSyncs (n % parentBufferBatches) j)

namespace ParentInv

lemma frame (hp : ParentInv P o) (hiter : o'.parentIter = o.parentIter)
    (hr : o'.reserved = o.reserved) (htail : o.tailNodeParents ≤ o'.tailNodeParents)
    (hvalid : o'.sys.parentBuffer.valid = o.sys.parentBuffer.valid)
    (hptrs : o'.sys.parentPtrs = o.sys.parentPtrs)
    (hsyncs : o'.sys.parentPtrSyncs = o.sys.parentPtrSyncs) : ParentInv P o' := by
  refine ⟨?_, fun n hn => ?_⟩
  · rw [hiter, hr, hvalid]
    exact hp.unfilled
  · rw [hiter, hptrs, hsyncs]
    exact hp.recorded n (htail.trans hn)

lemma reserveBatch (hc : CursorInv P cn o) (hp : ParentInv P o) (hpc : o.pc = .read) :
    ParentInv P { (Orchestrator.reserveBatch P (o.maxBatch P) o).2 with
      pc := .readNodes (Orchestrator.reserveBatch P (o.maxBatch P) o).1 0 } := by
  obtain ⟨-, hfree, -, -, -, -⟩ := maxBatch_spec P o
  generalize o.maxBatch P = m at *
  have hr : o.reserved = o.parentIter.node := reserved_eq (by simp [hpc])
  have hpr := hc.parentRing
  have hunf := hp.unfilled
  rw [hr] at hpr hunf
  rw [hpr.freeCount_eq] at hfree
  have hcap : o.parentIter.node + m < o.tailNodeParents + parentBufferBatches := by
    have := hpr.lt
    have := hpr.le
    omega
  refine ⟨fun x hx hxr => ?_, hp.recorded⟩
  have hxr : x ≤ o.parentIter.node + m := hxr
  have hx : o.parentIter.node ≤ x := hx
  show (o.sys.parentBuffer.reserveBatchNocheck m).2.valid _ < _
  rcases Nat.eq_or_lt_of_le hx with rfl | hlt
  · rw [hpr.reserveBatchNocheck_valid_old hcap hpr.le le_rfl]
    exact hunf _ le_rfl le_rfl
  · rw [hpr.reserveBatchNocheck_valid_new hlt hxr]
    decide

/-- The slot that `read_batch` computes relative to the tail is the slot of the parent's page. -/
lemma entry_eq (hc : CursorInv P cn o) {rb : ReadBatch} {i : ℕ} (hb : o.ReadInv P rb i) {p : ℕ}
    (hp : rb.cacheMinCacheableNode ≤ p) (hlt : p < o.parentIter.node) :
    RingBuffer.add nodeBufferBatches o.sys.nodeBuffer.tail
      ((p - rb.cacheMinNode) / P.C.nodesPerPage) = p / P.C.nodesPerPage % nodeBufferBatches ∧
    o.tailNode / P.C.nodesPerPage ≤ p / P.C.nodesPerPage := by
  have hpos := P.C.nodesPerPage_pos
  have hmin : o.tailNode / P.C.nodesPerPage * P.C.nodesPerPage ≤ p := by
    rw [hb.cacheable, hb.cacheMin] at hp
    have h1 : o.tailNode / P.C.nodesPerPage * P.C.nodesPerPage ≤ o.tailNodeWrite.abs :=
      (Nat.div_mul_le_self _ _).trans hc.tail_le
    omega
  have hpage : o.tailNode / P.C.nodesPerPage ≤ p / P.C.nodesPerPage :=
    (Nat.le_div_iff_mul_le hpos).mpr hmin
  have hle : p / P.C.nodesPerPage ≤ o.reserved / P.C.nodesPerPage :=
    Nat.div_le_div_right (hlt.le.trans (node_le_reserved o))
  have hsub : (p - o.tailNode / P.C.nodesPerPage * P.C.nodesPerPage) / P.C.nodesPerPage =
      p / P.C.nodesPerPage - o.tailNode / P.C.nodesPerPage := by
    rw [Nat.mul_comm]
    exact Nat.sub_mul_div _ _ _
  refine ⟨?_, hpage⟩
  have hspan := hc.nodeRing.lt
  rw [hb.cacheMin, hsub, hc.nodeRing.tail, RingBuffer.add_mod (by decide) _ (by omega),
    Nat.add_sub_cancel' hpage]

/-- A node that is read lies less than the size of the node buffer after every cached parent. -/
lemma lt_window (hc : CursorInv P cn o) {rb : ReadBatch} {i : ℕ} (hpc : o.pc = .readNodes rb i)
    {p : ℕ} (hp : o.tailNode / P.C.nodesPerPage ≤ p / P.C.nodesPerPage) :
    o.parentIter.node < p + nodeBufferBatches * P.C.nodesPerPage := by
  have hpos := P.C.nodesPerPage_pos
  have hb := hc.batch rb i hpc
  have hspan := hc.nodeRing.lt
  have hlt : o.parentIter.node < o.reserved := by
    rw [reserved, hpc, OrchPc.pending]
    have := hb.lt
    omega
  have hdiv : o.reserved = o.reserved / P.C.nodesPerPage * P.C.nodesPerPage :=
    (Nat.div_mul_cancel hc.reserved_dvd).symm
  have hle : o.reserved / P.C.nodesPerPage ≤ p / P.C.nodesPerPage + nodeBufferBatches := by omega
  have hmul := Nat.mul_le_mul_right P.C.nodesPerPage hle
  have hpmul := Nat.div_mul_le_self p P.C.nodesPerPage
  rw [Nat.add_mul] at hmul
  omega

/-- What one node of `read_batch` records. -/
lemma recordedPtr_recorded (hc : CursorInv P cn o) {rb : ReadBatch} {i : ℕ}
    (hpc : o.pc = .readNodes rb i) {j : ℕ} (hj : j < parentCount) :
    Recorded P o.parentIter.node j
      (rb.recordedPtr P o.sys.nodeBuffer.tail o.parentIter.node o.prevHashedNode j)
      (rb.recordedSync P o.sys.nodeBuffer.tail o.parentIter.node j) := by
  have hb := hc.batch rb i hpc
  have hpos := P.C.nodesPerPage_pos
  rw [ReadBatch.recordedPtr, ReadBatch.recordedSync]
  split_ifs with hfirst hv
  · exact .null
  · -- pointer 0 of an ordinary node
    have hn : o.parentIter.node ≠ 0 := by
      intro h0
      rw [h0, node_zero] at hv
      exact hv rfl
    have hj0 : j = 0 := by
      rw [ReadBatch.firstParent, if_neg hn, if_neg hv] at hfirst
      omega
    subst hj0
    have hparent : P.parentOf o.parentIter.node 0 = o.parentIter.node - 1 := if_pos rfl
    have hbig : 1 < nodeBufferBatches * P.C.nodesPerPage :=
      Nat.lt_of_lt_of_le (by decide : 1 < nodeBufferBatches) (Nat.le_mul_of_pos_right _ hpos)
    have hone : o.parentIter.node - (o.parentIter.node - 1) < coordBatchNodeCount := by
      have : 1 < coordBatchNodeCount := by decide
      omega
    rw [hc.prev (Nat.pos_of_ne_zero hn), ← hparent]
    refine .cached (by omega) (by omega) ?_
    rw [hparent, if_pos hone]
  · -- a parent that is looked up
    have hj0 : j ≠ 0 := by omega
    have hn : o.parentIter.node ≠ 0 := by
      intro h0
      rw [h0] at hfirst
      exact hfirst (Nat.le_of_lt_succ hj)
    have hparent : P.parentOf o.parentIter.node j = P.G.parentNode o.parentIter.node j := if_neg hj0
    have hbase : P.C.node o.parentIter.node = 0 → parentCountBase ≤ j := by
      intro hv
      rw [ReadBatch.firstParent, if_neg hn, if_pos hv] at hfirst
      omega
    have hlt := P.G.parentNode_lt hj hn hbase
    rw [ReadBatch.ptr, ReadBatch.sync]
    by_cases hcache : rb.cached P o.parentIter.node j = true
    · have hle : rb.cacheMinCacheableNode ≤ P.G.parentNode o.parentIter.node j :=
        of_decide_eq_true hcache
      obtain ⟨hentry, hpage⟩ := entry_eq hc hb hle hlt
      simp only [hcache, if_true, ReadBatch.entry, hentry, P.C.node_mod_nodesPerPage]
      rw [← hparent]
      exact .cached (hparent ▸ hlt) (hparent ▸ lt_window hc hpc hpage) rfl
    · simp only [hcache, Bool.false_eq_true, if_false]
      exact .disk _ _ _

/-- Filling one entry records its parents and leaves all other entries alone. -/
lemma readNode (hc : CursorInv P cn o) (hp : ParentInv P o) {rb : ReadBatch} {i : ℕ}
    (hpc : o.pc = .readNodes rb i) :
    ParentInv P { Orchestrator.readNode P rb i o with pc := nextReadPc rb i } := by
  have hb := hc.batch rb i hpc
  have hr' := hc.reserved_readNode hpc
  refine ⟨fun m hm hmr => ?_, fun n hn hnr j hj => ?_⟩
  · rw [hr'] at hmr
    rw [readNode_eq hc.iter] at hm ⊢
    have hm : o.parentIter.node + 1 ≤ m := hm
    show (o.sys.parentBuffer.incrValid rb.parentBufferId _).valid _ < _
    rw [RingBuffer.incrValid_valid, Function.update_of_ne (hc.slot_ne hpc
      (hc.parents_le_node.trans (by omega)) hmr (by omega))]
    exact hp.unfilled m (by omega) hmr
  · rw [readNode_eq hc.iter] at hn hnr ⊢
    have hn : o.tailNodeParents ≤ n := hn
    have hnr : n < o.parentIter.node + 1 := hnr
    show Recorded P n j (fillEntries _ _ _ _ _ _ _) (fillEntries _ _ _ _ _ _ _)
    rcases Nat.lt_succ_iff_lt_or_eq.mp hnr with hnr | rfl
    · have hslot := hc.slot_ne hpc hn (hnr.le.trans (node_le_reserved o)) hnr.ne
      rw [fillEntries_of_ne hslot, fillEntries_of_ne hslot]
      exact hp.recorded n hn hnr j hj
    · rw [← hb.slot, fillEntries_apply (Nat.zero_le _) hj, fillEntries_apply (Nat.zero_le _) hj]
      exact recordedPtr_recorded hc hpc hj

lemma step (hc : CursorInv P cn o) (hp : ParentInv P o) (h : o.step P cn = some o') :
    ParentInv P o' := by
  cases hpc : o.pc <;> simp only [Orchestrator.step, hpc] at h
  case read =>
    split_ifs at h with hread <;> cases h
    · exact hp.reserveBatch hc hpc
    · exact hp.frame rfl (by simp [reserved, hpc, OrchPc.pending]) le_rfl rfl rfl rfl
  case readNodes rb i =>
    cases h
    exact hp.readNode hc hpc
  case writeNodes r =>
    split_ifs at h with hlt <;> cases h
    · refine hp.frame rfl (by simp [reserved, hpc, OrchPc.pending]) le_rfl ?_ ?_ ?_ <;>
        simp only [Orchestrator.writeNodes] <;> split_ifs <;> rfl
    · exact hp.frame rfl (by simp [reserved, hpc, OrchPc.pending]) le_rfl rfl rfl rfl
  case releaseParents r =>
    split_ifs at h <;> cases h
    · exact hp.frame rfl (by simp [reserved, hpc, OrchPc.pending, releaseParent])
        (Nat.le_succ _) rfl rfl rfl
    · exact hp.frame rfl (by simp [reserved, hpc, OrchPc.pending]) le_rfl rfl rfl rfl
  case finished => simp at h
  case exited => simp at h
  all_goals
    split_ifs at h <;> cases h <;>
      exact hp.frame rfl (by simp [reserved, hpc, OrchPc.pending, advanceTail]) le_rfl rfl rfl rfl

end ParentInv

end SupraSeal
