import SupraSeal.Pc1.Safety
import Mathlib.Algebra.BigOperators.Intervals

/-!
# Reference counts of the node buffer

`read_batch` counts a reference for each parent it takes from the node buffer and that is not
local; the reference is consumed when the parent buffer entry is released. The counters are kept
for `NODE_BUFFER_SYNC_BATCH_SIZE` pages together and are compared when the tail of the node buffer
enters such a sync batch. The pages after the first of a sync batch are released without another
look at the counters, so a reference to one of them that is recorded in the meantime is missed.

`RefInv` is the invariant of the runs in which this does not happen and in which the 16 bit
counters do not wrap around.
-/

namespace SupraSeal

open Orchestrator

/-- The value is a reference to a page of sync batch `si`. -/
def ParentPtrSync.refersTo (si : ℕ) : ParentPtrSync → Bool
  | .nodeBufferIdx idx => nodeIdxToSyncIdx idx == si
  | _ => false

/-- References of one parent buffer entry to sync batch `si`. -/
def entryRefs (syncs : ℕ → ParentPtrSync) (si : ℕ) : ℕ :=
  (List.range parentPtrBatchSize).countP fun j => (syncs j).refersTo si

namespace Orchestrator

variable {P : Setup} {cn : ℕ → ℕ} {o o' : Orchestrator}

/-- References to sync batch `si` in the parent buffer entries that are not released. -/
def outstanding (o : Orchestrator) (si : ℕ) : ℕ :=
  ∑ n ∈ Finset.Ico o.tailNodeParents o.parentIter.node,
    entryRefs (o.sys.parentPtrSyncs (n % parentBufferBatches)) si

/-- Some parent buffer entry that is not released refers to page `e` of the node buffer. -/
def Referenced (o : Orchestrator) (e : ℕ) : Prop :=
  ∃ n j, o.tailNodeParents ≤ n ∧ n < o.parentIter.node ∧ j < parentPtrBatchSize ∧
    o.sys.parentPtrSyncs (n % parentBufferBatches) j = .nodeBufferIdx e

/-- The release loop goes on with the node at the tail. -/
def releases (o : Orchestrator) : Prop :=
  ∃ r, o.pc = .release r ∧ (0 < r ∧ o.tailNode < o.minNode ∧ o.tailNode < o.tailNodeWrite.abs ∧
    o.freeCount < queueSize * 512) ∧ ¬(o.entersSyncBatch = true ∧ ¬o.syncBatchConsumed = true)

/-- What a release must respect: a page that is released has no reference left, and counters that
are reset count no reference that is not consumed. -/
structure ReleaseSafe (P : Setup) (o : Orchestrator) : Prop where
  page : o.releases →
    P.C.node o.tailNode % P.C.nodesPerPage = P.C.nodesPerPage - 1 →
    ¬o.Referenced o.sys.nodeBuffer.tail
  reset : o.releases → o.entersSyncBatch = true →
    o.outstanding (nodeIdxToSyncIdx o.sys.nodeBuffer.tail) = 0

/-! ### Counting -/

lemma addReferenceOf_apply (x : ParentPtrSync) (sync : ℕ → NodeSync) (si : ℕ) :
    addReferenceOf x sync si = if x.refersTo si then (sync si).addReference else sync si := by
  cases x with
  | nodeBufferIdx idx =>
    simp only [addReferenceOf, ParentPtrSync.refersTo, beq_iff_eq, Function.update_apply]
    by_cases h : si = nodeIdxToSyncIdx idx
    · simp [h]
    · simp [h, Ne.symm h]
  | notNodeBuffer => rfl
  | localNode => rfl

lemma consumeEntry_apply (syncs : ℕ → ParentPtrSync) (sync : ℕ → NodeSync) (j si : ℕ) :
    consumeEntry syncs sync j si =
      if (syncs j).refersTo si then (sync si).addConsumed else sync si := by
  rw [consumeEntry]
  cases h : syncs j with
  | nodeBufferIdx idx =>
    simp only [ParentPtrSync.refersTo, beq_iff_eq, Function.update_apply]
    by_cases h : si = nodeIdxToSyncIdx idx
    · simp [h]
    · simp [h, Ne.symm h]
  | notNodeBuffer => rfl
  | localNode => rfl

/-- Folding an update that applies `f` at `si` for the marked positions applies it as often as
there are marks. -/
lemma foldl_count {α : Type*} {f : α → α} {step : (ℕ → α) → ℕ → ℕ → α} {mark : ℕ → Bool} {si : ℕ}
    (hstep : ∀ s j, step s j si = if mark j then f (s si) else s si) (l : List ℕ) (s : ℕ → α) :
    l.foldl step s si = f^[l.countP mark] (s si) := by
  induction l generalizing s with
  | nil => rfl
  | cons j l ih =>
    rw [List.foldl_cons, ih, hstep, List.countP_cons]
    by_cases hm : mark j = true
    · simp only [hm, if_true, Function.iterate_succ_apply]
    · simp only [hm, Bool.false_eq_true, if_false, Nat.add_zero]

lemma addReference_iterate (k : ℕ) (s : NodeSync) (hs : s.referenceCount < 2 ^ 16) :
    NodeSync.addReference^[k] s = { s with referenceCount := (s.referenceCount + k) % 2 ^ 16 } := by
  induction k with
  | zero => rw [Function.iterate_zero_apply, Nat.add_zero, Nat.mod_eq_of_lt hs]
  | succ k ih =>
    rw [Function.iterate_succ_apply', ih, NodeSync.addReference]
    simp only [Nat.mod_add_mod, Nat.add_assoc]

lemma addConsumed_iterate (k : ℕ) (s : NodeSync) (hs : s.consumedCount < 2 ^ 16) :
    NodeSync.addConsumed^[k] s = { s with consumedCount := (s.consumedCount + k) % 2 ^ 16 } := by
  induction k with
  | zero => rw [Function.iterate_zero_apply, Nat.add_zero, Nat.mod_eq_of_lt hs]
  | succ k ih =>
    rw [Function.iterate_succ_apply', ih, NodeSync.addConsumed]
    simp only [Nat.mod_add_mod, Nat.add_assoc]

/-- No reference to a sync batch is left when their number is 0. -/
lemma outstanding_eq_zero_iff {si : ℕ} : o.outstanding si = 0 ↔
    ∀ e, nodeIdxToSyncIdx e = si → ¬o.Referenced e := by
  rw [outstanding, Finset.sum_eq_zero_iff]
  constructor
  · rintro h e he ⟨n, j, hn, hn', hj, hs⟩
    have h0 := h n (Finset.mem_Ico.mpr ⟨hn, hn'⟩)
    rw [entryRefs, List.countP_eq_zero] at h0
    refine h0 j (List.mem_range.mpr hj) ?_
    rw [hs]
    simpa [ParentPtrSync.refersTo] using he
  · intro h n hn
    rw [entryRefs, List.countP_eq_zero]
    intro j hj href
    cases hs : o.sys.parentPtrSyncs (n % parentBufferBatches) j with
    | nodeBufferIdx e =>
      rw [hs, ParentPtrSync.refersTo, beq_iff_eq] at href
      exact h e href ⟨n, j, (Finset.mem_Ico.mp hn).1, (Finset.mem_Ico.mp hn).2,
        List.mem_range.mp hj, hs⟩
    | notNodeBuffer => rw [hs] at href; cases href
    | localNode => rw [hs] at href; cases href

/-! ### The invariant -/

/-- The invariant of the reference counts. -/
structure RefInv (o : Orchestrator) : Prop where
  lt : ∀ si, (o.sys.nodeBufferSync si).referenceCount < 2 ^ 16 ∧
    (o.sys.nodeBufferSync si).consumedCount < 2 ^ 16
  count : ∀ si, (o.sys.nodeBufferSync si).referenceCount =
    ((o.sys.nodeBufferSync si).consumedCount + o.outstanding si) % 2 ^ 16
  small : ∀ si, o.outstanding si < 2 ^ 16
  clear : o.entersSyncBatch = false → ∀ e, o.sys.nodeBuffer.tail ≤ e →
    nodeIdxToSyncIdx e = nodeIdxToSyncIdx o.sys.nodeBuffer.tail → ¬o.Referenced e

/-- The part of the invariant that holds in every run: the counters of a sync batch differ by its
references that are not consumed, up to wraparound. -/
structure CountInv (o : Orchestrator) : Prop where
  lt : ∀ si, (o.sys.nodeBufferSync si).referenceCount < 2 ^ 16 ∧
    (o.sys.nodeBufferSync si).consumedCount < 2 ^ 16
  count : ∀ si, (o.sys.nodeBufferSync si).referenceCount =
    ((o.sys.nodeBufferSync si).consumedCount + o.outstanding si) % 2 ^ 16

lemma RefInv.countInv (hr : RefInv o) : CountInv o := ⟨hr.lt, hr.count⟩

/-- The condition on the node that is read next: no cached parent that is not local lies on a page
left in the sync batch that the tail has entered, and the unconsumed references of every sync
batch stay below the range of the counters. -/
structure ReadOk (P : Setup) (o : Orchestrator) (rb : ReadBatch) : Prop where
  late : o.entersSyncBatch = false → ∀ j, ReadBatch.firstParent P o.parentIter.node < j →
    j < parentCount → rb.cached P o.parentIter.node j = true →
    coordBatchNodeCount ≤ o.parentIter.node - P.G.parentNode o.parentIter.node j →
    P.G.parentNode o.parentIter.node j / P.C.nodesPerPage / nodeBufferSyncBatchSize ≠
      o.tailNode / P.C.nodesPerPage / nodeBufferSyncBatchSize
  small : ∀ si, o.outstanding si +
    entryRefs (rb.recordedSync P o.sys.nodeBuffer.tail o.parentIter.node) si < 2 ^ 16

/-- Equal counters mean that the outstanding references are a multiple of the range of the
counters. -/
lemma CountInv.consumed (hr : CountInv o) (h : o.syncBatchConsumed = true) :
    o.outstanding (nodeIdxToSyncIdx o.sys.nodeBuffer.tail) % 2 ^ 16 = 0 := by
  have hcount := hr.count (nodeIdxToSyncIdx o.sys.nodeBuffer.tail)
  have hlt := hr.lt (nodeIdxToSyncIdx o.sys.nodeBuffer.tail)
  simp only [syncBatchConsumed, beq_iff_eq] at h
  rw [h] at hcount
  omega

/-- Counters that differ mean that something is outstanding. -/
lemma CountInv.outstanding_ne_zero (hr : CountInv o) (h : ¬o.syncBatchConsumed = true) :
    o.outstanding (nodeIdxToSyncIdx o.sys.nodeBuffer.tail) ≠ 0 := by
  intro hzero
  have hcount := hr.count (nodeIdxToSyncIdx o.sys.nodeBuffer.tail)
  have hlt := hr.lt (nodeIdxToSyncIdx o.sys.nodeBuffer.tail)
  rw [hzero, Nat.add_zero, Nat.mod_eq_of_lt hlt.2] at hcount
  exact h (beq_iff_eq.mpr hcount)

lemma RefInv.consumed (hr : RefInv o) (h : o.syncBatchConsumed = true) :
    o.outstanding (nodeIdxToSyncIdx o.sys.nodeBuffer.tail) = 0 := by
  have hmod := hr.countInv.consumed h
  rwa [Nat.mod_eq_of_lt (hr.small _)] at hmod

/-- The counters, the entries and the tail are all that the invariant reads. -/
lemma RefInv.frame (hr : RefInv o) (hsync : o'.sys.nodeBufferSync = o.sys.nodeBufferSync)
    (hptr : o'.sys.parentPtrSyncs = o.sys.parentPtrSyncs)
    (htail : o'.sys.nodeBuffer.tail = o.sys.nodeBuffer.tail)
    (hparents : o'.tailNodeParents = o.tailNodeParents)
    (hiter : o'.parentIter = o.parentIter) : RefInv o' := by
  obtain ⟨h1, h2, h3, h4⟩ := hr
  constructor <;>
    simp only [outstanding, Referenced, entersSyncBatch, hsync, hptr, htail, hparents, hiter] at * <;>
    assumption

lemma CountInv.frame (hr : CountInv o) (hsync : o'.sys.nodeBufferSync = o.sys.nodeBufferSync)
    (hptr : o'.sys.parentPtrSyncs = o.sys.parentPtrSyncs)
    (hparents : o'.tailNodeParents = o.tailNodeParents)
    (hiter : o'.parentIter = o.parentIter) : CountInv o' := by
  obtain ⟨h1, h2⟩ := hr
  constructor <;> simp only [outstanding, hsync, hptr, hparents, hiter] at * <;> assumption

/-! ### Steps of the orchestrator -/

lemma entersSyncBatch_iff (o : Orchestrator) :
    o.entersSyncBatch = true ↔ o.sys.nodeBuffer.tail % nodeBufferSyncBatchSize = 0 := by
  rw [entersSyncBatch, beq_iff_eq, nodeBufferSyncBatchMask, nodeBufferSyncBatchSize,
    Nat.and_two_pow_sub_one_eq_mod]

lemma nodeIdxToSyncIdx_eq (e : ℕ) : nodeIdxToSyncIdx e = e / nodeBufferSyncBatchSize := by
  rw [nodeIdxToSyncIdx, Nat.shiftRight_eq_div_pow, nodeBufferSyncBatchSize]

/-- A page of the window whose slot lies at or after the tail in its sync batch belongs to the
sync batch of the tail page. -/
lemma page_div_eq {t m : ℕ} (h1 : t ≤ m) (h2 : m < t + nodeBufferBatches)
    (h3 : t % nodeBufferBatches ≤ m % nodeBufferBatches)
    (h4 : nodeIdxToSyncIdx (m % nodeBufferBatches) = nodeIdxToSyncIdx (t % nodeBufferBatches)) :
    m / nodeBufferSyncBatchSize = t / nodeBufferSyncBatchSize := by
  rw [nodeIdxToSyncIdx_eq, nodeIdxToSyncIdx_eq] at h4
  simp only [nodeBufferSyncBatchSize, nodeBufferSyncLgBatchSize, nodeBufferBatches,
    parentBufferBatches] at *
  omega

/-- References recorded for the node that is read. -/
lemma outstanding_readNode (hc : CursorInv P cn o) {rb : ReadBatch} {i : ℕ}
    (hpc : o.pc = .readNodes rb i) (si : ℕ) :
    (afterNode P rb i o).outstanding si = o.outstanding si +
      entryRefs (rb.recordedSync P o.sys.nodeBuffer.tail o.parentIter.node) si := by
  have hb := hc.batch rb i hpc
  show ∑ n ∈ Finset.Ico o.tailNodeParents (o.parentIter.node + 1), _ = _
  rw [Finset.sum_Ico_succ_top hc.parents_le_node]
  congr 1
  · refine Finset.sum_congr rfl fun n hn => ?_
    obtain ⟨hn, hn'⟩ := Finset.mem_Ico.mp hn
    have hne := hc.slot_ne hpc hn (hn'.le.trans (node_le_reserved o)) hn'.ne
    simp only [afterNode, fillEntries_of_ne hne]
  · rw [entryRefs, entryRefs]
    refine List.countP_congr fun j hj => ?_
    have hj : j < parentCount := List.mem_range.mp hj
    simp only [afterNode]
    rw [← hb.slot, fillEntries_apply (Nat.zero_le _) hj]

/-- A reference that is recorded is for a cached parent that is not local. -/
lemma recordedSync_nodeBufferIdx {rb : ReadBatch} {tail n j e : ℕ}
    (h : rb.recordedSync P tail n j = .nodeBufferIdx e) :
    ReadBatch.firstParent P n < j ∧ rb.cached P n j = true ∧
      coordBatchNodeCount ≤ n - P.G.parentNode n j ∧ e = rb.entry P tail n j := by
  rw [ReadBatch.recordedSync] at h
  split_ifs at h with h1 h2
  rw [ReadBatch.sync] at h
  split_ifs at h with h3 h4
  exact ⟨not_le.mp h1, h3, not_lt.mp h4, (ParentPtrSync.nodeBufferIdx.inj h).symm⟩

lemma CountInv.readNode (hc : CursorInv P cn o) (hr : CountInv o) {rb : ReadBatch} {i : ℕ}
    (hpc : o.pc = .readNodes rb i) : CountInv (afterNode P rb i o) := by
  have hsync : ∀ si, (afterNode P rb i o).sys.nodeBufferSync si =
      { o.sys.nodeBufferSync si with
        referenceCount := ((o.sys.nodeBufferSync si).referenceCount +
          entryRefs (rb.recordedSync P o.sys.nodeBuffer.tail o.parentIter.node) si) % 2 ^ 16 } := by
    intro si
    rw [← addReference_iterate _ _ (hr.lt si).1]
    show (List.range parentPtrBatchSize).foldl (fun s j =>
      addReferenceOf (rb.recordedSync P o.sys.nodeBuffer.tail o.parentIter.node j) s) _ si = _
    rw [foldl_count fun s j => addReferenceOf_apply
      (rb.recordedSync P o.sys.nodeBuffer.tail o.parentIter.node j) s si]
    rfl
  refine ⟨fun si => ?_, fun si => ?_⟩
  · rw [hsync]
    exact ⟨Nat.mod_lt _ (by decide), (hr.lt si).2⟩
  · rw [hsync, outstanding_readNode hc hpc, hr.count si, Nat.mod_add_mod, Nat.add_assoc]

lemma RefInv.readNode (hc : CursorInv P cn o) (hr : RefInv o) {rb : ReadBatch} {i : ℕ}
    (hpc : o.pc = .readNodes rb i) (hok : ReadOk P o rb) : RefInv (afterNode P rb i o) := by
  have hb := hc.batch rb i hpc
  have hcount := hr.countInv.readNode hc hpc
  refine ⟨hcount.lt, hcount.count, fun si => ?_, fun henter e he hsi => ?_⟩
  · rw [outstanding_readNode hc hpc]
    exact hok.small si
  · have henter : o.entersSyncBatch = false := henter
    have he : o.sys.nodeBuffer.tail ≤ e := he
    have hsi : nodeIdxToSyncIdx e = nodeIdxToSyncIdx o.sys.nodeBuffer.tail := hsi
    rintro ⟨n, j, hn, hn', hj, hs⟩
    have hn : o.tailNodeParents ≤ n := hn
    have hn' : n < o.parentIter.node + 1 := hn'
    have hs : fillEntries o.sys.parentPtrSyncs rb.parentBufferId 0 parentCount
      (rb.recordedSync P o.sys.nodeBuffer.tail o.parentIter.node) (n % parentBufferBatches) j =
        .nodeBufferIdx e := hs
    rcases Nat.lt_succ_iff_lt_or_eq.mp hn' with hlt | rfl
    · have hne := hc.slot_ne hpc hn (hlt.le.trans (node_le_reserved o)) hlt.ne
      rw [fillEntries_of_ne hne] at hs
      exact hr.clear henter e he hsi ⟨n, j, hn, hlt, hj, hs⟩
    · -- the new reference would be to a page that is left in the sync batch of the tail
      have hj : j < parentCount := hj
      rw [← hb.slot, fillEntries_apply (Nat.zero_le _) hj] at hs
      obtain ⟨hfirst, hcache, hfar, rfl⟩ := recordedSync_nodeBufferIdx hs
      refine hok.late henter j hfirst hj hcache hfar ?_
      have hn0 : o.parentIter.node ≠ 0 := by
        intro h0
        rw [h0] at hfirst
        exact absurd hj (not_lt.mpr hfirst)
      have hbase : P.C.node o.parentIter.node = 0 → parentCountBase ≤ j := by
        intro hv
        rw [ReadBatch.firstParent, if_neg hn0, if_pos hv] at hfirst
        exact hfirst.le
      have hplt := P.G.parentNode_lt hj hn0 hbase
      obtain ⟨hentry, hpage⟩ := ParentInv.entry_eq hc hb (of_decide_eq_true hcache) hplt
      rw [ReadBatch.entry, hentry, hc.nodeRing.tail] at he hsi
      refine page_div_eq hpage ?_ he hsi
      have hle : P.G.parentNode o.parentIter.node j / P.C.nodesPerPage ≤
          o.reserved / P.C.nodesPerPage :=
        Nat.div_le_div_right (hplt.le.trans (node_le_reserved o))
      exact hle.trans_lt hc.nodeRing.lt

lemma outstanding_releaseParent (hc : CursorInv P cn o)
    (hlt : o.tailNodeParents < o.parentIter.node) (si : ℕ) :
    o.outstanding si = entryRefs (o.sys.parentPtrSyncs o.sys.parentBuffer.tail) si +
      (Orchestrator.releaseParent o).outstanding si := by
  rw [hc.parentRing.tail]
  exact Finset.sum_eq_sum_Ico_succ_bot hlt _

lemma CountInv.releaseParent (hc : CursorInv P cn o) (hr : CountInv o)
    (hlt : o.tailNodeParents < o.parentIter.node) : CountInv (Orchestrator.releaseParent o) := by
  have hsync : ∀ si, (Orchestrator.releaseParent o).sys.nodeBufferSync si =
      { o.sys.nodeBufferSync si with
        consumedCount := ((o.sys.nodeBufferSync si).consumedCount +
          entryRefs (o.sys.parentPtrSyncs o.sys.parentBuffer.tail) si) % 2 ^ 16 } := by
    intro si
    rw [← addConsumed_iterate _ _ (hr.lt si).2]
    show (List.range parentPtrBatchSize).foldl
      (consumeEntry (o.sys.parentPtrSyncs o.sys.parentBuffer.tail)) _ si = _
    rw [foldl_count fun s j => consumeEntry_apply
      (o.sys.parentPtrSyncs o.sys.parentBuffer.tail) s j si]
    rfl
  refine ⟨fun si => ?_, fun si => ?_⟩
  · rw [hsync]
    exact ⟨(hr.lt si).1, Nat.mod_lt _ (by decide)⟩
  · rw [hsync, Nat.mod_add_mod, Nat.add_assoc, ← outstanding_releaseParent hc hlt]
    exact hr.count si

lemma RefInv.releaseParent (hc : CursorInv P cn o) (hr : RefInv o)
    (hlt : o.tailNodeParents < o.parentIter.node) : RefInv (Orchestrator.releaseParent o) := by
  have hcount := hr.countInv.releaseParent hc hlt
  refine ⟨hcount.lt, hcount.count, fun si => ?_, fun henter e he hsi => ?_⟩
  · have := hr.small si
    rw [outstanding_releaseParent hc hlt] at this
    exact (Nat.le_add_left _ _).trans_lt this
  · rintro ⟨n, j, hn, hn', hj, hs⟩
    exact hr.clear henter e he hsi ⟨n, j, (Nat.le_succ _).trans hn, hn', hj, hs⟩

/-- Unless the tail enters a new sync batch, it stays in its own. -/
lemma tail_advanceTail (h : (Orchestrator.advanceTail P o).entersSyncBatch = false) :
    o.sys.nodeBuffer.tail ≤ (Orchestrator.advanceTail P o).sys.nodeBuffer.tail ∧
      nodeIdxToSyncIdx (Orchestrator.advanceTail P o).sys.nodeBuffer.tail =
        nodeIdxToSyncIdx o.sys.nodeBuffer.tail := by
  have hne : (Orchestrator.advanceTail P o).sys.nodeBuffer.tail % nodeBufferSyncBatchSize ≠ 0 :=
    fun h0 => by rw [(entersSyncBatch_iff _).mpr h0] at h; cases h
  have htail : (Orchestrator.advanceTail P o).sys.nodeBuffer.tail = o.sys.nodeBuffer.tail ∨
      (Orchestrator.advanceTail P o).sys.nodeBuffer.tail =
        RingBuffer.incr nodeBufferBatches o.sys.nodeBuffer.tail := by
    simp only [Orchestrator.advanceTail]
    split_ifs
    · exact .inr rfl
    · exact .inl rfl
  rw [nodeIdxToSyncIdx_eq, nodeIdxToSyncIdx_eq]
  rcases htail with heq | heq
  · rw [heq]
    exact ⟨le_rfl, rfl⟩
  · rw [heq] at hne ⊢
    rw [RingBuffer.incr] at hne ⊢
    split_ifs at hne ⊢ with hlast
    · exact absurd (Nat.zero_mod _) hne
    · simp only [nodeBufferSyncBatchSize, nodeBufferSyncLgBatchSize] at hne ⊢
      omega

/-- Counters are reset only when they agree. -/
lemma CountInv.advanceTail (hr : CountInv o)
    (hchk : ¬(o.entersSyncBatch = true ∧ ¬o.syncBatchConsumed = true)) :
    CountInv (Orchestrator.advanceTail P o) := by
  have hsync : ∀ si, (Orchestrator.advanceTail P o).sys.nodeBufferSync si =
      if o.entersSyncBatch = true ∧ si = nodeIdxToSyncIdx o.sys.nodeBuffer.tail then ⟨0, 0⟩
      else o.sys.nodeBufferSync si := by
    intro si
    simp only [Orchestrator.advanceTail]
    cases henter : o.entersSyncBatch with
    | true => simp [Function.update_apply]
    | false => simp
  refine ⟨fun si => ?_, fun si => ?_⟩
  · rw [hsync]
    split_ifs
    · exact ⟨by decide, by decide⟩
    · exact hr.lt si
  · show _ = (_ + o.outstanding si) % _
    rw [hsync]
    split_ifs with h
    · have hmod := hr.consumed (by_contra fun hne => hchk ⟨h.1, hne⟩)
      rw [h.2, Nat.zero_add, hmod]
    · exact hr.count si

/-- The tail moves on: into the rest of a sync batch only after the counters agreed. -/
lemma RefInv.advanceTail (hr : RefInv o)
    (hchk : ¬(o.entersSyncBatch = true ∧ ¬o.syncBatchConsumed = true)) :
    RefInv (Orchestrator.advanceTail P o) := by
  have hcount := hr.countInv.advanceTail (P := P) hchk
  have hzero : o.entersSyncBatch = true →
      o.outstanding (nodeIdxToSyncIdx o.sys.nodeBuffer.tail) = 0 := fun henter =>
    hr.consumed (by_contra fun hne => hchk ⟨henter, hne⟩)
  refine ⟨hcount.lt, hcount.count, hr.small, fun henter' e he hsi => ?_⟩
  · rintro ⟨n, j, hn, hn', hj, hs⟩
    have href : o.Referenced e := ⟨n, j, hn, hn', hj, hs⟩
    obtain ⟨hle, hsame⟩ := tail_advanceTail henter'
    cases henter : o.entersSyncBatch with
    | true => exact outstanding_eq_zero_iff.mp (hzero henter) e (hsi.trans hsame) href
    | false => exact hr.clear henter e (hle.trans he) (hsi.trans hsame) href

/-- A parent buffer entry that is released belongs to a node that was read. -/
lemma tailNodeParents_lt (hc : CursorInv P cn o) {r : ℕ} (hpc : o.pc = .releaseParents r)
    (hlt : o.tailNodeParents < o.minNodeHash) : o.tailNodeParents < o.parentIter.node :=
  (hlt.trans_le (hc.loaded 0 (numCoordinators_pos P) (by rw [hpc]; trivial))).trans_le
    (hc.cn_le 0 (numCoordinators_pos P))

/-- Every step of the orchestrator keeps the counts right, up to wraparound. -/
lemma CountInv.step (hc : CursorInv P cn o) (hr : CountInv o) (h : o.step P cn = some o') :
    CountInv o' := by
  cases hpc : o.pc <;> simp only [Orchestrator.step, hpc] at h
  case readNodes rb i =>
    cases h
    rw [readNode_eq hc.iter]
    exact (hr.readNode hc hpc).frame rfl rfl rfl rfl
  case writeNodes r =>
    split_ifs at h <;> cases h
    · refine hr.frame ?_ ?_ rfl rfl <;> simp only [writeNodes] <;> split_ifs <;> rfl
    · exact hr.frame rfl rfl rfl rfl
  case releaseParents r =>
    split_ifs at h with hlt <;> cases h
    · exact (hr.releaseParent hc (tailNodeParents_lt hc hpc hlt.2)).frame rfl rfl rfl rfl
    · exact hr.frame rfl rfl rfl rfl
  case release r =>
    split_ifs at h with hrel hchk <;> cases h
    · exact hr.frame rfl rfl rfl rfl
    · exact (hr.advanceTail hchk).frame rfl rfl rfl rfl
    · exact hr.frame rfl rfl rfl rfl
  case finished => simp at h
  case exited => simp at h
  all_goals
    split_ifs at h <;> cases h <;> exact hr.frame rfl rfl rfl rfl

/-- Every step of the orchestrator that reads no late reference keeps the counts right. -/
theorem RefInv.step (hc : CursorInv P cn o) (hr : RefInv o)
    (hok : ∀ rb i, o.pc = .readNodes rb i → ReadOk P o rb) (h : o.step P cn = some o') :
    RefInv o' := by
  cases hpc : o.pc <;> simp only [Orchestrator.step, hpc] at h
  case readNodes rb i =>
    cases h
    rw [readNode_eq hc.iter]
    exact (hr.readNode hc hpc (hok rb i hpc)).frame rfl rfl rfl rfl rfl
  case read =>
    split_ifs at h <;> cases h
    · exact hr.frame rfl rfl (RingBuffer.advanceHead_iterate_tail _ _) rfl rfl
    · exact hr.frame rfl rfl rfl rfl rfl
  case writeNodes r =>
    split_ifs at h <;> cases h
    · refine hr.frame ?_ ?_ ?_ rfl rfl <;> simp only [writeNodes] <;> split_ifs <;> rfl
    · exact hr.frame rfl rfl rfl rfl rfl
  case releaseParents r =>
    split_ifs at h with hlt <;> cases h
    · exact (hr.releaseParent hc (tailNodeParents_lt hc hpc hlt.2)).frame rfl rfl rfl rfl rfl
    · exact hr.frame rfl rfl rfl rfl rfl
  case release r =>
    split_ifs at h with hrel hchk <;> cases h
    · exact hr.frame rfl rfl rfl rfl rfl
    · exact (hr.advanceTail hchk).frame rfl rfl rfl rfl rfl
    · exact hr.frame rfl rfl rfl rfl rfl
  case finished => simp at h
  case exited => simp at h
  all_goals
    split_ifs at h <;> cases h <;> exact hr.frame rfl rfl rfl rfl rfl

end Orchestrator

namespace Pc1

variable {P : Setup} {s s' : Pc1}

lemma refInv_init : RefInv Pc1.init.orch := by
  have hzero : ∀ si, Pc1.init.orch.outstanding si = 0 := fun _ => rfl
  have hlt : 0 < 2 ^ 16 := by decide
  refine ⟨fun _ => ⟨hlt, hlt⟩, fun si => ?_, fun si => ?_, ?_⟩
  · rw [hzero]
    rfl
  · rw [hzero]
    decide
  · rintro - e - - ⟨n, j, -, hn, -⟩
    exact absurd hn (Nat.not_lt_zero n)

lemma countInv_step (hs : Inv P s) (hr : CountInv s.orch) {a : Action}
    (h : s.step P a = some s') : CountInv s'.orch := by
  rcases step_orch P h with ⟨o, -, ho, rfl⟩ | ⟨-, pv, nv, rf, wf, heq⟩
  · exact hr.step hs.cursor ho
  · rw [heq]
    exact hr.frame rfl rfl rfl rfl

end Pc1

end SupraSeal
