import SupraSeal.Pc1.Orchestrator
import Mathlib.Data.List.Basic

/-!
# What `read_batch` records

The loop of `read_batch` over the parents of a node in closed form: which pointer, which
synchronization value and which I/O request each parent gets, and the state after one node.
-/

namespace SupraSeal

open Orchestrator

namespace ReadBatch

variable (P : Setup) (rb : ReadBatch) (tail n : ℕ)

/-- Parent `j` of node `n` is taken from the node buffer. -/
def cached (j : ℕ) : Bool := rb.cacheMinCacheableNode ≤ P.G.parentNode n j

/-- Page of the node buffer, relative to its tail, that is used for parent `j`. -/
def entry (j : ℕ) : ℕ :=
  RingBuffer.add nodeBufferBatches tail
    ((P.G.parentNode n j - rb.cacheMinNode) / P.C.nodesPerPage)

/-- Pointer recorded for parent `j`. -/
def ptr (j : ℕ) : NodePtr :=
  let nodeInPage := P.C.node (P.G.parentNode n j) % P.C.nodesPerPage
  if rb.cached P n j then .nodeBuffer (rb.entry P tail n j) nodeInPage
  else .parentBuffer rb.parentBufferId (j - 1) nodeInPage

/-- Synchronization value recorded for parent `j`. -/
def sync (j : ℕ) : ParentPtrSync :=
  if rb.cached P n j then
    if n - P.G.parentNode n j < coordBatchNodeCount then .localNode
    else .nodeBufferIdx (rb.entry P tail n j)
  else .notNodeBuffer

/-- I/O request left at position `j` of the batch, for parent `j + 1`. -/
def io (old : NodeIo) (j : ℕ) : NodeIo :=
  if rb.cached P n (j + 1) then { old with type := .nop } else ⟨P.G.parentNode n (j + 1), .read⟩

end ReadBatch

/-- Count the reference of a recorded synchronization value. -/
def addReferenceOf (s : ParentPtrSync) (sync : ℕ → NodeSync) : ℕ → NodeSync :=
  match s with
  | .nodeBufferIdx idx =>
    Function.update sync (nodeIdxToSyncIdx idx) (sync (nodeIdxToSyncIdx idx)).addReference
  | _ => sync

namespace Orchestrator

variable {P : Setup} {rb : ReadBatch} {n : ℕ} {o : Orchestrator}

/-- The iterator at parent `j` of node `n`, where the end of one node is the start of the next. -/
def iterPos (C : Config) (n j : ℕ) : ParentIter :=
  if j = parentCount then ParentIter.atParent C (n + 1) 0 else ParentIter.atParent C n j

lemma iterPos_of_lt {C : Config} {j : ℕ} (hj : j < parentCount) :
    iterPos C n j = ParentIter.atParent C n j := if_neg hj.ne

lemma next_iterPos {C : Config} {j : ℕ} (hj : j < parentCount) :
    (iterPos C n j).next C = iterPos C n (j + 1) := by
  rw [iterPos_of_lt hj]
  by_cases hlast : j + 1 = parentCount
  · obtain rfl : j = parentCount - 1 := by omega
    rw [ParentIter.next_atParent_last, iterPos, if_pos hlast]
  · rw [ParentIter.next_atParent n (by omega), iterPos_of_lt (by omega)]

lemma iterPos_node {C : Config} {j : ℕ} (hj : j < parentCount) : (iterPos C n j).node = n := by
  rw [iterPos_of_lt hj]
  rfl

/-- `f` with the batch of `slot` replaced at the positions in `[a, b)`. -/
def fillEntries {α : Type*} (f : ℕ → ℕ → α) (slot a b : ℕ) (g : ℕ → α) : ℕ → ℕ → α :=
  Function.update f slot fun j => if a ≤ j ∧ j < b then g j else f slot j

variable {α : Type*} {f : ℕ → ℕ → α} {g : ℕ → α} {slot a b : ℕ}

lemma fillEntries_self (f : ℕ → ℕ → α) (slot a : ℕ) (g : ℕ → α) :
    fillEntries f slot a a g = f := by
  have hempty : (fun j => if a ≤ j ∧ j < a then g j else f slot j) = f slot := by
    funext j
    rw [if_neg (by omega)]
  rw [fillEntries, hempty, Function.update_eq_self]

lemma fillEntries_apply {j : ℕ} (ha : a ≤ j) (hb : j < b) : fillEntries f slot a b g slot j = g j := by
  rw [fillEntries, Function.update_self, if_pos ⟨ha, hb⟩]

lemma fillEntries_of_lt {j : ℕ} (ha : j < a) : fillEntries f slot a b g slot j = f slot j := by
  rw [fillEntries, Function.update_self, if_neg (by omega)]

lemma fillEntries_of_ne {slot' : ℕ} (h : slot' ≠ slot) :
    fillEntries f slot a b g slot' = f slot' := by
  rw [fillEntries, Function.update_of_ne h]

/-- Filling from the front: the first position, then the others. -/
lemma fillEntries_setEntry (hab : a < b) :
    fillEntries (setEntry f slot a (g a)) slot (a + 1) b g = fillEntries f slot a b g := by
  funext s j
  by_cases hs : s = slot
  · subst hs
    simp only [fillEntries, setEntry, Function.update_self, Function.update_apply]
    split_ifs <;> first | rfl | omega | (subst_vars; rfl)
  · simp only [fillEntries, setEntry, Function.update_of_ne hs]

lemma fillEntries_one (f : ℕ → ℕ → α) (slot a : ℕ) (g : ℕ → α) :
    fillEntries f slot a (a + 1) g = setEntry f slot a (g a) := by
  rw [← fillEntries_setEntry (Nat.lt_succ_self a), fillEntries_self]

lemma fillEntries_fillEntries (hab : a < b) :
    fillEntries (fillEntries f slot a (a + 1) g) slot (a + 1) b g = fillEntries f slot a b g := by
  rw [fillEntries_one, fillEntries_setEntry hab]

/-- The state after the parents at the positions in `[start, start + k)` were processed. -/
def afterParents (P : Setup) (rb : ReadBatch) (n start k : ℕ) (o : Orchestrator) : Orchestrator :=
  let tail := o.sys.nodeBuffer.tail
  let slot := rb.parentBufferId
  { o with
    parentIter := iterPos P.C n (start + k + 1)
    sys := { o.sys with
      parentBufferIo := fillEntries o.sys.parentBufferIo slot start (start + k) fun j =>
        rb.io P n (o.sys.parentBufferIo slot j) j
      parentPtrs := fillEntries o.sys.parentPtrs slot (start + 1) (start + k + 1)
        (rb.ptr P tail n)
      parentPtrSyncs := fillEntries o.sys.parentPtrSyncs slot (start + 1) (start + k + 1)
        (rb.sync P tail n)
      nodeBufferSync := (List.range' (start + 1) k).foldl
        (fun s j => addReferenceOf (rb.sync P tail n j) s) o.sys.nodeBufferSync } }

lemma afterParents_zero {start : ℕ} (hit : o.parentIter = iterPos P.C n (start + 1)) :
    afterParents P rb n start 0 o = o := by
  simp only [afterParents, Nat.add_zero, fillEntries_self, List.range'_zero, List.foldl_nil, ← hit]

/-- One round of the loop is the closed form for one parent. -/
lemma readParent_eq {start r : ℕ} (hj : start + 1 < parentCount)
    (hit : o.parentIter = iterPos P.C n (start + 1)) :
    readParent P rb n (o, r) start =
      (afterParents P rb n start 1 o, r + if rb.cached P n (start + 1) then 0 else 1) := by
  have hnext := next_iterPos (n := n) (C := P.C) hj
  rw [← hit] at hnext
  have hparent : (if P.C.layer n = 0 ∧ o.parentIter.isPrevLayer = true then n - 1
      else o.parentIter.deref P.C P.G) = P.G.parentNode n (start + 1) := by
    rw [hit, iterPos_of_lt hj]
    rfl
  simp only [readParent, hparent, afterParents, fillEntries_one, List.range'_one, List.foldl_cons,
    List.foldl_nil, hnext]
  by_cases hc : rb.cached P n (start + 1) = true
  · have hle : rb.cacheMinCacheableNode ≤ P.G.parentNode n (start + 1) := of_decide_eq_true hc
    simp only [hle, if_true, ReadBatch.io, ReadBatch.ptr, ReadBatch.sync, hc, ReadBatch.entry]
    split_ifs <;> rfl
  · have hle : ¬rb.cacheMinCacheableNode ≤ P.G.parentNode n (start + 1) := fun h =>
      hc (decide_eq_true h)
    simp only [hle, if_false, ReadBatch.io, ReadBatch.ptr, ReadBatch.sync, hc, Bool.false_eq_true]
    rfl

/-- The closed form composes: the first parent, then the others. -/
lemma afterParents_succ (P : Setup) (rb : ReadBatch) (n start k : ℕ) (o : Orchestrator) :
    afterParents P rb n (start + 1) k (afterParents P rb n start 1 o) =
      afterParents P rb n start (k + 1) o := by
  have hio : (fun j => rb.io P n (fillEntries o.sys.parentBufferIo rb.parentBufferId start
      (start + 1) (fun j => rb.io P n (o.sys.parentBufferIo rb.parentBufferId j) j)
        rb.parentBufferId j) j) = fun j => rb.io P n (o.sys.parentBufferIo rb.parentBufferId j) j := by
    -- the requests already made are not made again, and making one twice changes nothing
    funext j
    by_cases hj : start ≤ j ∧ j < start + 1
    · rw [fillEntries_apply hj.1 hj.2]
      simp only [ReadBatch.io]
      split_ifs <;> rfl
    · rw [fillEntries, Function.update_self, if_neg hj]
  simp only [afterParents, hio, List.foldl_cons, List.range'_succ]
  rw [show start + 1 + k = start + (k + 1) by omega, fillEntries_fillEntries (by omega),
    fillEntries_fillEntries (by omega), fillEntries_fillEntries (by omega)]
  rfl

/-- The loop over the parents in closed form, with the number of reads issued. -/
lemma foldl_readParent (k : ℕ) : ∀ {start r : ℕ} {o : Orchestrator},
    start + k < parentCount → o.parentIter = iterPos P.C n (start + 1) →
    (List.range' start k).foldl (readParent P rb n) (o, r) =
      (afterParents P rb n start k o,
        r + (List.range' (start + 1) k).countP fun j => !rb.cached P n j) := by
  induction k with
  | zero =>
    intro start r o _ hit
    rw [afterParents_zero hit]
    rfl
  | succ k ih =>
    intro start r o hk hit
    rw [List.range'_succ, List.foldl_cons, readParent_eq (by omega) hit,
      ih (by omega) (by simp [afterParents]), afterParents_succ]
    simp only [List.range'_succ, List.countP_cons, Prod.mk.injEq, true_and]
    cases rb.cached P n (start + 1)
    · simp
      omega
    · simp

/-! ### One node -/

lemma fillEntries_succ (f : ℕ → ℕ → α) (slot k : ℕ) (g : ℕ → α) :
    setEntry (fillEntries f slot 0 k g) slot k (g k) = fillEntries f slot 0 (k + 1) g := by
  funext s j
  by_cases hs : s = slot
  · subst hs
    simp only [fillEntries, setEntry, Function.update_self, Function.update_apply]
    split_ifs <;> first | rfl | omega | (subst_vars; rfl)
  · simp only [fillEntries, setEntry, Function.update_of_ne hs]

/-- The state after the first `k` parent pointers of node `n` were cleared. -/
def afterClear (P : Setup) (slot n k : ℕ) (o : Orchestrator) : Orchestrator :=
  { o with
    parentIter := iterPos P.C n k
    sys := { o.sys with
      parentPtrs := fillEntries o.sys.parentPtrs slot 0 k fun _ => .null
      parentPtrSyncs := fillEntries o.sys.parentPtrSyncs slot 0 k fun _ => .notNodeBuffer } }

lemma foldl_clearParent {slot k : ℕ} (hk : k ≤ parentCount)
    (hit : o.parentIter = ParentIter.atParent P.C n 0) :
    (List.range k).foldl (clearParent P slot) o = afterClear P slot n k o := by
  induction k with
  | zero =>
    rw [afterClear, iterPos_of_lt (by decide), ← hit]
    simp only [fillEntries_self]
    rfl
  | succ k ih =>
    rw [List.range_succ, List.foldl_append, ih (by omega)]
    simp only [List.foldl_cons, List.foldl_nil, clearParent, afterClear,
      next_iterPos (show k < parentCount by omega)]
    rw [← fillEntries_succ o.sys.parentPtrs, ← fillEntries_succ o.sys.parentPtrSyncs]

end Orchestrator

namespace ReadBatch

variable (P : Setup) (rb : ReadBatch) (tail n : ℕ)

/-- Position in the batch of the first parent that `read_batch` looks up: the first node has
none, the first node of a later layer has no base parents. -/
def firstParent : ℕ :=
  if n = 0 then pageBatchSize else if P.C.node n = 0 then parentCountBase else 0

/-- Parent pointer `j` of node `n` after `read_batch`. -/
def recordedPtr (prev : NodePtr) (j : ℕ) : NodePtr :=
  if j ≤ firstParent P n then if P.C.node n = 0 then .null else prev else rb.ptr P tail n j

/-- Synchronization value `j` of node `n` after `read_batch`. -/
def recordedSync (j : ℕ) : ParentPtrSync :=
  if j ≤ firstParent P n then if P.C.node n = 0 then .notNodeBuffer else .localNode
  else rb.sync P tail n j

/-- Number of reads issued for node `n`. -/
def readsIssued : ℕ :=
  (List.range' (firstParent P n + 1) (pageBatchSize - firstParent P n)).countP
    fun j => !rb.cached P n j

end ReadBatch

namespace Orchestrator

variable {P : Setup} {rb : ReadBatch} {n : ℕ} {o : Orchestrator}

lemma node_zero (C : Config) : C.node 0 = 0 := by
  rw [C.node_eq_mod, Nat.zero_mod]

/-- The state after `read_batch` has processed one node, in closed form. -/
def afterNode (P : Setup) (rb : ReadBatch) (i : ℕ) (o : Orchestrator) : Orchestrator :=
  let n := o.parentIter.node
  let tail := o.sys.nodeBuffer.tail
  let slot := rb.parentBufferId
  { o with
    parentIter := ParentIter.atParent P.C (n + 1) 0
    prevHashedNode :=
      .nodeBuffer ((RingBuffer.incr nodeBufferBatches)^[i / P.C.nodesPerPage] rb.nodeBufferId)
        (P.C.node n % P.C.nodesPerPage)
    sys := { o.sys with
      parentBufferIo := fillEntries o.sys.parentBufferIo slot (ReadBatch.firstParent P n)
        pageBatchSize fun j => rb.io P n (o.sys.parentBufferIo slot j) j
      parentPtrs := fillEntries o.sys.parentPtrs slot 0 parentCount
        (rb.recordedPtr P tail n o.prevHashedNode)
      parentPtrSyncs := fillEntries o.sys.parentPtrSyncs slot 0 parentCount
        (rb.recordedSync P tail n)
      nodeBufferSync := (List.range parentPtrBatchSize).foldl
        (fun s j => addReferenceOf (rb.recordedSync P tail n j) s) o.sys.nodeBufferSync
      parentBuffer := o.sys.parentBuffer.incrValid slot (pageBatchSize - rb.readsIssued P n)
      parentReadFifo := o.sys.parentReadFifo ++ if n = 0 then [] else [slot] } }

/-- Values without a reference leave the counters alone. -/
lemma foldl_addReferenceOf_of_forall {s : ℕ → ParentPtrSync} {l : List ℕ} {sync : ℕ → NodeSync}
    (h : ∀ j ∈ l, ∀ idx, s j ≠ .nodeBufferIdx idx) :
    l.foldl (fun sync j => addReferenceOf (s j) sync) sync = sync := by
  induction l generalizing sync with
  | nil => rfl
  | cons j l ih =>
    have hj : addReferenceOf (s j) sync = sync := by
      cases hs : s j with
      | nodeBufferIdx idx => exact absurd hs (h j (List.mem_cons_self ..) idx)
      | notNodeBuffer => rfl
      | localNode => rfl
    rw [List.foldl_cons, hj]
    exact ih fun j' hj' => h j' (List.mem_cons_of_mem _ hj')

variable {α : Type*} {f : ℕ → ℕ → α} {g g' : ℕ → α} {slot a b : ℕ}

/-- Filling the first `a` positions and then the others. -/
lemma fillEntries_append {h : ℕ → α} (hab : a ≤ b) (hg : ∀ j < a, g j = h j)
    (hg' : ∀ j, a ≤ j → j < b → g' j = h j) :
    fillEntries (fillEntries f slot 0 a g) slot a b g' = fillEntries f slot 0 b h := by
  funext s j
  by_cases hs : s = slot
  · subst hs
    simp only [fillEntries, Function.update_self]
    split_ifs with h1 h2 h3 h4
    · exact hg' j h1.1 h1.2
    · omega
    · exact hg j h3.2
    · omega
    · omega
    · rfl
  · simp only [fillEntries, Function.update_of_ne hs]

lemma foldl_addReferenceOf_range {s : ℕ → ParentPtrSync} {sync : ℕ → NodeSync} {k : ℕ}
    (hk : k ≤ parentPtrBatchSize) (h : ∀ j < k, ∀ idx, s j ≠ .nodeBufferIdx idx) :
    (List.range parentPtrBatchSize).foldl (fun sync j => addReferenceOf (s j) sync) sync =
      (List.range' k (parentPtrBatchSize - k)).foldl
        (fun sync j => addReferenceOf (s j) sync) sync := by
  have hsplit : List.range parentPtrBatchSize =
      List.range k ++ List.range' k (parentPtrBatchSize - k) := by
    have := List.range'_append_1 (s := 0) (m := k) (n := parentPtrBatchSize - k)
    rw [Nat.zero_add, Nat.add_sub_cancel' hk] at this
    rw [List.range_eq_range', List.range_eq_range', this]
  rw [hsplit, List.foldl_append]
  congr 1
  exact foldl_addReferenceOf_of_forall fun j hj => h j (List.mem_range.mp hj)

/-- Processing the looked up parents after the first `k` pointers were written some other way. -/
lemma afterParents_eq {start : ℕ} {prev : NodePtr} {o' : Orchestrator}
    (hstart : start = ReadBatch.firstParent P n) (hlt : start < parentCountBase + 1)
    (ho : o' = { o with
      parentIter := iterPos P.C n (start + 1)
      sys := { o.sys with
        parentPtrs := fillEntries o.sys.parentPtrs rb.parentBufferId 0 (start + 1)
          (rb.recordedPtr P o.sys.nodeBuffer.tail n prev)
        parentPtrSyncs := fillEntries o.sys.parentPtrSyncs rb.parentBufferId 0 (start + 1)
          (rb.recordedSync P o.sys.nodeBuffer.tail n) } }) :
    afterParents P rb n start (pageBatchSize - start) o' = { o with
      parentIter := ParentIter.atParent P.C (n + 1) 0
      sys := { o.sys with
        parentBufferIo := fillEntries o.sys.parentBufferIo rb.parentBufferId start pageBatchSize
          fun j => rb.io P n (o.sys.parentBufferIo rb.parentBufferId j) j
        parentPtrs := fillEntries o.sys.parentPtrs rb.parentBufferId 0 parentCount
          (rb.recordedPtr P o.sys.nodeBuffer.tail n prev)
        parentPtrSyncs := fillEntries o.sys.parentPtrSyncs rb.parentBufferId 0 parentCount
          (rb.recordedSync P o.sys.nodeBuffer.tail n)
        nodeBufferSync := (List.range parentPtrBatchSize).foldl
          (fun s j => addReferenceOf (rb.recordedSync P o.sys.nodeBuffer.tail n j) s)
          o.sys.nodeBufferSync } } := by
  subst ho
  have hle : start + 1 ≤ pageBatchSize := Nat.le_trans hlt (by decide)
  have hend : start + (pageBatchSize - start) = pageBatchSize := by omega
  have hrec : ∀ j, start + 1 ≤ j → ¬j ≤ ReadBatch.firstParent P n := fun j hj => by omega
  have hsync : ∀ j < start + 1, ∀ idx,
      rb.recordedSync P o.sys.nodeBuffer.tail n j ≠ .nodeBufferIdx idx := by
    intro j hj idx
    rw [ReadBatch.recordedSync, if_pos (by omega)]
    split_ifs <;> simp
  have hpos : iterPos P.C n (pageBatchSize + 1) = ParentIter.atParent P.C (n + 1) 0 := if_pos rfl
  simp only [afterParents, hend, hpos]
  rw [fillEntries_append (Nat.le_succ_of_le hle) (fun _ _ => rfl) fun j hj _ => by
      rw [ReadBatch.recordedPtr, if_neg (hrec j hj)],
    fillEntries_append (Nat.le_succ_of_le hle) (fun _ _ => rfl) fun j hj _ => by
      rw [ReadBatch.recordedSync, if_neg (hrec j hj)],
    foldl_addReferenceOf_range (Nat.le_succ_of_le hle) hsync]
  have hfold : ∀ sync : ℕ → NodeSync, (List.range' (start + 1) (pageBatchSize - start)).foldl
        (fun s j => addReferenceOf (rb.sync P o.sys.nodeBuffer.tail n j) s) sync =
      (List.range' (start + 1) (parentPtrBatchSize - (start + 1))).foldl
        (fun s j => addReferenceOf (rb.recordedSync P o.sys.nodeBuffer.tail n j) s) sync := by
    intro sync
    rw [show parentPtrBatchSize - (start + 1) = pageBatchSize - start from
      Nat.add_sub_add_right pageBatchSize 1 start]
    refine List.foldl_ext _ _ _ fun s j hj => ?_
    rw [ReadBatch.recordedSync, if_neg (hrec j (List.mem_range'_1.mp hj).1)]
  rw [hfold]
  rfl

lemma fillEntries_congr (h : ∀ j, a ≤ j → j < b → g j = g' j) :
    fillEntries f slot a b g = fillEntries f slot a b g' := by
  rw [fillEntries, fillEntries]
  congr 1
  funext j
  split_ifs with hj
  · exact h j hj.1 hj.2
  · rfl

/-- The pointers that `startParents` writes are the recorded ones. -/
lemma startParents_eq (h0 : n ≠ 0) (hit : o.parentIter = ParentIter.atParent P.C n 0) :
    startParents P rb.parentBufferId o = ({ o with
      parentIter := iterPos P.C n (ReadBatch.firstParent P n + 1)
      sys := { o.sys with
        parentPtrs := fillEntries o.sys.parentPtrs rb.parentBufferId 0
          (ReadBatch.firstParent P n + 1)
          (rb.recordedPtr P o.sys.nodeBuffer.tail n o.prevHashedNode)
        parentPtrSyncs := fillEntries o.sys.parentPtrSyncs rb.parentBufferId 0
          (ReadBatch.firstParent P n + 1) (rb.recordedSync P o.sys.nodeBuffer.tail n) } },
      ReadBatch.firstParent P n) := by
  have hn : o.parentIter.node = n := by rw [hit]; rfl
  have hrec : ∀ j < ReadBatch.firstParent P n + 1,
      rb.recordedPtr P o.sys.nodeBuffer.tail n o.prevHashedNode j =
        (if P.C.node n = 0 then .null else o.prevHashedNode) ∧
      rb.recordedSync P o.sys.nodeBuffer.tail n j =
        if P.C.node n = 0 then .notNodeBuffer else .localNode := by
    intro j hj
    have hle := Nat.le_of_lt_succ hj
    rw [ReadBatch.recordedPtr, ReadBatch.recordedSync]
    exact ⟨if_pos hle, if_pos hle⟩
  rw [fillEntries_congr fun j _ hj => (hrec j hj).1, fillEntries_congr fun j _ hj => (hrec j hj).2]
  rw [startParents, hn]
  by_cases hv : P.C.node n = 0
  · have hfirst : ReadBatch.firstParent P n = parentCountBase := by
      rw [ReadBatch.firstParent, if_neg h0, if_pos hv]
    simp only [hv, if_true, hfirst]
    rw [foldl_clearParent (by decide) hit]
    rfl
  · have hfirst : ReadBatch.firstParent P n = 0 := by
      rw [ReadBatch.firstParent, if_neg h0, if_neg hv]
    simp only [hv, if_false, hfirst, Nat.zero_add, linkPrevHashed]
    rw [fillEntries_one o.sys.parentPtrs, fillEntries_one o.sys.parentPtrSyncs, hit,
      ParentIter.next_atParent n (by decide)]
    rfl

/-- One node of `read_batch` in closed form. -/
theorem readNode_eq {i : ℕ} (hit : o.parentIter = ParentIter.atParent P.C n 0) :
    readNode P rb i o = afterNode P rb i o := by
  have hn : o.parentIter.node = n := by rw [hit]; rfl
  simp only [readNode, afterNode, hn]
  by_cases h0 : n = 0
  · subst h0
    have hle : ∀ j < parentCount, j ≤ ReadBatch.firstParent P 0 := fun j hj =>
      Nat.le_of_lt_succ hj
    have hnull : ∀ j, 0 ≤ j → j < parentCount →
        NodePtr.null = rb.recordedPtr P o.sys.nodeBuffer.tail 0 o.prevHashedNode j := by
      intro j _ hj
      rw [ReadBatch.recordedPtr, if_pos (hle j hj), if_pos (node_zero _)]
    have hsync : ∀ j < parentCount,
        ParentPtrSync.notNodeBuffer = rb.recordedSync P o.sys.nodeBuffer.tail 0 j := by
      intro j hj
      rw [ReadBatch.recordedSync, if_pos (hle j hj), if_pos (node_zero _)]
    have hfold : (List.range parentPtrBatchSize).foldl (fun s j =>
        addReferenceOf (rb.recordedSync P o.sys.nodeBuffer.tail 0 j) s) o.sys.nodeBufferSync =
        o.sys.nodeBufferSync := by
      refine foldl_addReferenceOf_of_forall fun j hj idx => ?_
      rw [← hsync j (List.mem_range.mp hj)]
      simp
    simp only [if_true, hfold]
    rw [foldl_clearParent (by decide) hit, ← fillEntries_congr hnull,
      ← fillEntries_congr fun j _ hj => hsync j hj]
    simp only [afterClear, ReadBatch.firstParent, if_true, fillEntries_self, List.append_nil]
    rfl
  · have hlt : ReadBatch.firstParent P n < parentCountBase + 1 := by
      rw [ReadBatch.firstParent, if_neg h0]
      split_ifs <;> decide
    rw [if_neg h0, if_neg h0, startParents_eq h0 hit]
    simp only
    have hle : ReadBatch.firstParent P n ≤ pageBatchSize := by
      have : parentCountBase + 1 ≤ pageBatchSize := by decide
      omega
    rw [foldl_readParent _ (by rw [Nat.add_sub_cancel' hle]; decide) rfl,
      afterParents_eq rfl hlt rfl, Nat.zero_add]
    rfl

end Orchestrator

end SupraSeal
