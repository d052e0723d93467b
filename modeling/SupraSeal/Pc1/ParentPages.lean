import SupraSeal.Pc1.ReadAccounting

/-!
# Where the parents of a node are

What the pointers of an entry that is held say about its requests: a pointer into the parent buffer
leads to the page of the entry that a `READ` of the same parent fills, and that page is on disk. A
node that does not start a layer has no empty pointer.
-/

namespace SupraSeal

open Orchestrator

/-- The invariant of the pointers and the requests of the entries that are held. -/
structure PageInv (P : Setup) (o : Orchestrator) (written : ℕ → Bool) : Prop where
  ptr : ∀ n, o.tailNodeParents ≤ n → n < o.parentIter.node → P.C.node n ≠ 0 → ∀ j < parentCount,
    o.sys.parentPtrs (n % parentBufferBatches) j ≠ .null
  place : ∀ n, o.tailNodeParents ≤ n → n < o.parentIter.node → ∀ j < parentCount, ∀ slot page i,
    o.sys.parentPtrs (n % parentBufferBatches) j = .parentBuffer slot page i →
      n ≠ 0 ∧ slot = n % parentBufferBatches ∧ j = page + 1 ∧
        i = P.G.parentNode n j % P.C.nodesPerPage ∧
        (o.sys.parentBufferIo slot page).type = .read
  request : ∀ n, o.tailNodeParents ≤ n → n < o.parentIter.node → n ≠ 0 → ∀ j < pageBatchSize,
    (o.sys.parentBufferIo (n % parentBufferBatches) j).type = .read →
      (o.sys.parentBufferIo (n % parentBufferBatches) j).node = P.G.parentNode n (j + 1) ∧
        written (P.G.parentNode n (j + 1) / P.C.nodesPerPage) = true

namespace PageInv

variable {P : Setup} {cn : ℕ → ℕ} {o o' : Orchestrator} {written written' : ℕ → Bool}

lemma init : PageInv P Orchestrator.init written := by
  constructor
  all_goals
    intro n _ hn
    exact absurd hn (Nat.not_lt_zero n)

/-- What is not read here may change. -/
lemma frame (hp : PageInv P o written) (hptrs : o'.sys.parentPtrs = o.sys.parentPtrs)
    (hio : o'.sys.parentBufferIo = o.sys.parentBufferIo)
    (htail : o.tailNodeParents ≤ o'.tailNodeParents) (hiter : o'.parentIter = o.parentIter)
    (hwritten : ∀ m, written m = true → written' m = true) : PageInv P o' written' := by
  obtain ⟨hptr, hplace, hrequest⟩ := hp
  constructor
  · intro n hn hn'
    rw [hptrs]
    exact hptr n (htail.trans hn) (hiter ▸ hn')
  · intro n hn hn'
    rw [hptrs, hio]
    exact hplace n (htail.trans hn) (hiter ▸ hn')
  · intro n hn hn' h0 j hj
    rw [hio]
    intro hread
    obtain ⟨hnode, hw⟩ := hrequest n (htail.trans hn) (hiter ▸ hn') h0 j hj hread
    exact ⟨hnode, hwritten _ hw⟩

section

variable {rb : ReadBatch} {i j : ℕ}

/-- Pointer 0 of an ordinary node is into the node buffer. -/
lemma prevHashedNode_eq (hc : CursorInv P cn o) (hn : P.C.node o.parentIter.node ≠ 0) :
    ∃ entry q, o.prevHashedNode = .nodeBuffer entry q := by
  refine ⟨_, _, hc.prev (Nat.pos_of_ne_zero ?_)⟩
  intro h0
  rw [h0] at hn
  exact hn (node_zero P.C)

lemma recordedPtr_ne_null (hc : CursorInv P cn o) (hn : P.C.node o.parentIter.node ≠ 0) :
    rb.recordedPtr P o.sys.nodeBuffer.tail o.parentIter.node o.prevHashedNode j ≠ .null := by
  obtain ⟨entry, q, hprev⟩ := prevHashedNode_eq hc hn
  rw [ReadBatch.recordedPtr, if_neg hn, hprev, ReadBatch.ptr]
  split_ifs <;> simp

/-- A pointer into the parent buffer is recorded for a parent that is looked up and not cached. -/
lemma recordedPtr_parentBuffer (hc : CursorInv P cn o) {slot page q : ℕ}
    (h : rb.recordedPtr P o.sys.nodeBuffer.tail o.parentIter.node o.prevHashedNode j =
      .parentBuffer slot page q) :
    ReadBatch.firstParent P o.parentIter.node < j ∧ slot = rb.parentBufferId ∧ page = j - 1 ∧
      q = P.G.parentNode o.parentIter.node j % P.C.nodesPerPage ∧
      rb.cached P o.parentIter.node j = false := by
  rw [ReadBatch.recordedPtr] at h
  split_ifs at h with hfirst hnode
  · obtain ⟨entry, q', hprev⟩ := prevHashedNode_eq hc hnode
    rw [hprev] at h
    cases h
  · rw [ReadBatch.ptr, P.C.node_mod_nodesPerPage] at h
    cases hcached : rb.cached P o.parentIter.node j with
    | true =>
      rw [hcached] at h
      cases h
    | false =>
      rw [hcached] at h
      cases h
      exact ⟨not_le.mp hfirst, rfl, rfl, rfl, rfl⟩

/-- The requests of the node at hand, when it inherits no `READ`. -/
lemma parentBufferIo_afterNode_read (hclean : LayerStartClean P o rb)
    (hn : o.parentIter.node ≠ 0) (hj : j < pageBatchSize)
    (hread : ((afterNode P rb i o).sys.parentBufferIo rb.parentBufferId j).type = .read) :
    ((afterNode P rb i o).sys.parentBufferIo rb.parentBufferId j).node =
        P.G.parentNode o.parentIter.node (j + 1) ∧
      rb.cached P o.parentIter.node (j + 1) ≠ true := by
  rw [parentBufferIo_afterNode] at hread ⊢
  by_cases hfirst : ReadBatch.firstParent P o.parentIter.node ≤ j
  · rw [fillEntries_apply hfirst hj, ReadBatch.io] at hread ⊢
    split_ifs at hread ⊢ with hcached
    exact ⟨rfl, hcached⟩
  · -- the requests before are those that the slot had
    rw [fillEntries_of_lt (not_le.mp hfirst)] at hread
    rw [ReadBatch.firstParent, if_neg hn] at hfirst
    split_ifs at hfirst with hnode
    · exact absurd hread (hclean hnode j (not_le.mp hfirst))
    · exact absurd (Nat.zero_le j) hfirst

end

/-- The node at hand joins those that are held. -/
lemma readNode (hc : CursorInv P cn o) (hp : PageInv P o written) {rb : ReadBatch} {i : ℕ}
    (hpc : o.pc = .readNodes rb i) (hclean : o.parentIter.node ≠ 0 → LayerStartClean P o rb)
    (hwritten : ∀ j, rb.cached P o.parentIter.node j ≠ true →
      written (P.G.parentNode o.parentIter.node j / P.C.nodesPerPage) = true) :
    PageInv P { Orchestrator.readNode P rb i o with pc := nextReadPc rb i } written := by
  have hb := hc.batch rb i hpc
  rw [readNode_eq hc.iter]
  have hptrs : (afterNode P rb i o).sys.parentPtrs = fillEntries o.sys.parentPtrs
      rb.parentBufferId 0 parentCount (rb.recordedPtr P o.sys.nodeBuffer.tail o.parentIter.node
        o.prevHashedNode) := rfl
  have hold : ∀ n, o.tailNodeParents ≤ n → n < o.parentIter.node →
      n % parentBufferBatches ≠ rb.parentBufferId := fun n hn hlt =>
    hc.slot_ne hpc hn (hlt.le.trans (node_le_reserved o)) hlt.ne
  have hptrs_old : ∀ n, o.tailNodeParents ≤ n → n < o.parentIter.node →
      (afterNode P rb i o).sys.parentPtrs (n % parentBufferBatches) =
        o.sys.parentPtrs (n % parentBufferBatches) := by
    intro n hn hlt
    rw [hptrs, fillEntries_of_ne (hold n hn hlt)]
  have hio_old : ∀ n, o.tailNodeParents ≤ n → n < o.parentIter.node →
      (afterNode P rb i o).sys.parentBufferIo (n % parentBufferBatches) =
        o.sys.parentBufferIo (n % parentBufferBatches) := by
    intro n hn hlt
    rw [parentBufferIo_afterNode, fillEntries_of_ne (hold n hn hlt)]
  have hptrs_new : ∀ j < parentCount, (afterNode P rb i o).sys.parentPtrs
      (o.parentIter.node % parentBufferBatches) j =
        rb.recordedPtr P o.sys.nodeBuffer.tail o.parentIter.node o.prevHashedNode j := by
    intro j hj
    rw [hptrs, ← hb.slot, fillEntries_apply (Nat.zero_le j) hj]
  constructor
  · intro n hn hlt hnode j hj
    have hlt : n < o.parentIter.node + 1 := hlt
    show (afterNode P rb i o).sys.parentPtrs _ j ≠ _
    rcases Nat.lt_succ_iff_lt_or_eq.mp hlt with hlt | rfl
    · rw [hptrs_old n hn hlt]
      exact hp.ptr n hn hlt hnode j hj
    · rw [hptrs_new j hj]
      exact recordedPtr_ne_null hc hnode
  · intro n hn hlt j hj slot page q h
    have hlt : n < o.parentIter.node + 1 := hlt
    have h : (afterNode P rb i o).sys.parentPtrs _ j = _ := h
    show _ ∧ _ ∧ _ ∧ _ ∧ ((afterNode P rb i o).sys.parentBufferIo slot page).type = _
    rcases Nat.lt_succ_iff_lt_or_eq.mp hlt with hlt | rfl
    · rw [hptrs_old n hn hlt] at h
      obtain ⟨h0, rfl, hpage, hq, hread⟩ := hp.place n hn hlt j hj slot page q h
      rw [hio_old n hn hlt]
      exact ⟨h0, rfl, hpage, hq, hread⟩
    · rw [hptrs_new j hj] at h
      obtain ⟨hfirst, rfl, rfl, hq, hcached⟩ := recordedPtr_parentBuffer hc h
      have h0 : o.parentIter.node ≠ 0 := by
        intro h0
        rw [h0, ReadBatch.firstParent, if_pos rfl] at hfirst
        exact absurd hj (not_lt.mpr hfirst)
      have hsucc : j - 1 + 1 = j := Nat.sub_add_cancel (Nat.zero_lt_of_lt hfirst)
      refine ⟨h0, hb.slot, hsucc.symm, hq, ?_⟩
      have hle : ReadBatch.firstParent P o.parentIter.node ≤ j - 1 := Nat.le_sub_one_of_lt hfirst
      have hlt : j - 1 < pageBatchSize := Nat.lt_of_succ_lt_succ (hsucc.symm ▸ hj)
      rw [parentBufferIo_afterNode, fillEntries_apply hle hlt, ReadBatch.io, hsucc, hcached]
      rfl
  · intro n hn hlt h0 j hj hread
    have hlt : n < o.parentIter.node + 1 := hlt
    have hread : ((afterNode P rb i o).sys.parentBufferIo _ j).type = _ := hread
    show ((afterNode P rb i o).sys.parentBufferIo _ j).node = _ ∧ _
    rcases Nat.lt_succ_iff_lt_or_eq.mp hlt with hlt | rfl
    · rw [hio_old n hn hlt] at hread ⊢
      exact hp.request n hn hlt h0 j hj hread
    · rw [← hb.slot] at hread ⊢
      obtain ⟨hnode, hcached⟩ := parentBufferIo_afterNode_read (hclean h0) h0 hj hread
      exact ⟨hnode, hwritten _ hcached⟩

/-- Every step of the orchestrator keeps the invariant. -/
theorem step (hc : CursorInv P cn o) (hp : PageInv P o written)
    (hclean : ∀ rb i, o.pc = .readNodes rb i → o.parentIter.node ≠ 0 → LayerStartClean P o rb)
    (hwritten : ∀ rb i j, o.pc = .readNodes rb i → rb.cached P o.parentIter.node j ≠ true →
      written (P.G.parentNode o.parentIter.node j / P.C.nodesPerPage) = true)
    (h : o.step P cn = some o') : PageInv P o' written := by
  cases hpc : o.pc <;> simp only [Orchestrator.step, hpc] at h
  case read =>
    split_ifs at h <;> cases h <;> exact hp.frame rfl rfl le_rfl rfl fun _ => id
  case readNodes rb i =>
    cases h
    exact hp.readNode hc hpc (hclean rb i hpc) fun j => hwritten rb i j hpc
  case writeNodes r =>
    split_ifs at h <;> cases h
    · refine hp.frame ?_ ?_ le_rfl rfl fun _ => id
      all_goals
        simp only [Orchestrator.writeNodes]
        split_ifs <;> rfl
    · exact hp.frame rfl rfl le_rfl rfl fun _ => id
  case releaseParents r =>
    split_ifs at h <;> cases h
    · exact hp.frame rfl rfl (Nat.le_succ _) rfl fun _ => id
    · exact hp.frame rfl rfl le_rfl rfl fun _ => id
  case finished => simp at h
  case exited => simp at h
  all_goals
    split_ifs at h <;> cases h <;> exact hp.frame rfl rfl le_rfl rfl fun _ => id

end PageInv

end SupraSeal
