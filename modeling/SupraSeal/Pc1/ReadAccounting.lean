import SupraSeal.Pc1.Progress

/-!
# Counting the reads of an entry

`read_batch` raises the counter of a parent buffer entry for the parents it finds in the node
buffer, and every read that completes raises it by one. The entry is complete when the counter
reaches `VALID_THRESHOLD`. This counts right as long as the batch sent to the reader has one `READ`
for each missing parent.

The I/O requests of an entry are recycled with its slot. For the first node of a later layer
`read_batch` leaves the requests of the base parents as the slot had them before, so the batch may
have more reads than that. `AccInv` is the invariant of the runs in which this does not happen.
-/

namespace SupraSeal

open Orchestrator

/-- Reads in the batch of entry `slot`. -/
def SystemBuffers.readCount (sys : SystemBuffers) (slot : ℕ) : ℕ :=
  (List.range pageBatchSize).countP fun j => (sys.parentBufferIo slot j).type = .read

/-- Reads of entry `slot` that are queued or submitted. -/
def pendingReads (o : Orchestrator) (inFlight : List (ℕ × ℕ)) (slot : ℕ) : ℕ :=
  o.sys.parentReadFifo.count slot * o.sys.readCount slot +
    inFlight.countP fun r => r.1 = slot

namespace Orchestrator

variable {P : Setup} {cn : ℕ → ℕ} {o o' : Orchestrator} {inFlight : List (ℕ × ℕ)}

/-- Entry `slot` belongs to a node that was read and is not released. -/
def Held (o : Orchestrator) (slot : ℕ) : Prop :=
  ∃ n, o.tailNodeParents ≤ n ∧ n < o.parentIter.node ∧ slot = n % parentBufferBatches

/-! ### One node -/

/-- No request that the first node of a later layer inherits from its slot is a `READ`. -/
def LayerStartClean (P : Setup) (o : Orchestrator) (rb : ReadBatch) : Prop :=
  P.C.node o.parentIter.node = 0 →
    ∀ j < parentCountBase, (o.sys.parentBufferIo rb.parentBufferId j).type ≠ .read

lemma firstParent_le (P : Setup) (n : ℕ) : ReadBatch.firstParent P n ≤ pageBatchSize := by
  rw [ReadBatch.firstParent]
  split_ifs <;> decide

lemma readsIssued_le (P : Setup) (rb : ReadBatch) (n : ℕ) :
    rb.readsIssued P n ≤ pageBatchSize := by
  refine List.countP_le_length.trans ?_
  rw [List.length_range']
  exact Nat.sub_le _ _

lemma parentBufferIo_afterNode (P : Setup) (rb : ReadBatch) (i : ℕ) (o : Orchestrator) :
    (afterNode P rb i o).sys.parentBufferIo = fillEntries o.sys.parentBufferIo rb.parentBufferId
      (ReadBatch.firstParent P o.parentIter.node) pageBatchSize fun j =>
        rb.io P o.parentIter.node (o.sys.parentBufferIo rb.parentBufferId j) j := rfl

/-- The batch holds the reads issued and those it inherits. -/
lemma readCount_afterNode (P : Setup) (rb : ReadBatch) (i : ℕ) (o : Orchestrator) :
    (afterNode P rb i o).sys.readCount rb.parentBufferId =
      (List.range (ReadBatch.firstParent P o.parentIter.node)).countP
        (fun j => (o.sys.parentBufferIo rb.parentBufferId j).type = .read) +
      rb.readsIssued P o.parentIter.node := by
  set n := o.parentIter.node with hn
  set k := ReadBatch.firstParent P n with hk
  have hle : k ≤ pageBatchSize := firstParent_le P n
  have hsplit : List.range pageBatchSize = List.range k ++ List.range' k (pageBatchSize - k) := by
    have := List.range'_append_1 (s := 0) (m := k) (n := pageBatchSize - k)
    rw [Nat.zero_add, Nat.add_sub_cancel' hle] at this
    rw [List.range_eq_range', List.range_eq_range', this]
  rw [SystemBuffers.readCount, hsplit, List.countP_append]
  congr 1
  · refine List.countP_congr fun j hj => ?_
    have hj : j < k := List.mem_range.mp hj
    rw [parentBufferIo_afterNode, fillEntries_of_lt hj]
  · have hshift : List.range' (k + 1) (pageBatchSize - k) =
        (List.range' k (pageBatchSize - k)).map (1 + ·) := by
      rw [List.map_add_range', Nat.add_comm]
    rw [ReadBatch.readsIssued, ← hk, hshift, List.countP_map]
    refine List.countP_congr fun j hj => ?_
    obtain ⟨hj, hj'⟩ := List.mem_range'_1.mp hj
    rw [parentBufferIo_afterNode, fillEntries_apply hj (by omega), ReadBatch.io, Function.comp_apply, Nat.add_comm 1 j, ← hn]
    by_cases hc : rb.cached P n (j + 1) = true
    · simp [hc]
    · simp [hc]

/-- What `read_batch` adds to the counter of the entry. -/
lemma valid_afterNode (P : Setup) (rb : ReadBatch) (i : ℕ) (o : Orchestrator) :
    (afterNode P rb i o).sys.parentBuffer.valid rb.parentBufferId =
      o.sys.parentBuffer.valid rb.parentBufferId +
        (pageBatchSize - rb.readsIssued P o.parentIter.node) :=
  Function.update_self ..

/-- The batch of a node has as many reads as the counter lacks exactly when it inherits none. -/
lemma readCount_eq_iff (P : Setup) (rb : ReadBatch) (i : ℕ) {o : Orchestrator}
    (hn : o.parentIter.node ≠ 0) :
    (afterNode P rb i o).sys.readCount rb.parentBufferId =
      pageBatchSize - ((afterNode P rb i o).sys.parentBuffer.valid rb.parentBufferId -
        o.sys.parentBuffer.valid rb.parentBufferId) ↔ LayerStartClean P o rb := by
  have hle := readsIssued_le P rb o.parentIter.node
  rw [valid_afterNode, Nat.add_sub_cancel_left, Nat.sub_sub_self hle, readCount_afterNode,
    Nat.add_eq_right, List.countP_eq_zero, ReadBatch.firstParent, if_neg hn, LayerStartClean]
  by_cases hv : P.C.node o.parentIter.node = 0
  · simp [hv]
  · simp [hv]

/-- Filling an entry makes no write of it. -/
lemma noWrite_afterNode {rb : ReadBatch} {i : ℕ}
    (hold : ∀ slot j, (o.sys.parentBufferIo slot j).type ≠ .write) (slot j : ℕ) :
    ((afterNode P rb i o).sys.parentBufferIo slot j).type ≠ .write := by
  show NodeIo.type (fillEntries _ _ _ _ _ slot j) ≠ _
  by_cases hslot : slot = rb.parentBufferId
  · subst hslot
    rw [fillEntries, Function.update_self]
    split_ifs
    · rw [ReadBatch.io]
      split_ifs <;> simp
    · exact hold _ j
  · rw [fillEntries_of_ne hslot]
    exact hold slot j

/-- Another entry keeps its pending reads. -/
lemma pendingReads_afterNode_of_ne {rb : ReadBatch} {i slot : ℕ} (hslot : slot ≠ rb.parentBufferId) :
    pendingReads (afterNode P rb i o) inFlight slot = pendingReads o inFlight slot := by
  have hfifo : (afterNode P rb i o).sys.parentReadFifo =
      o.sys.parentReadFifo ++ if o.parentIter.node = 0 then [] else [rb.parentBufferId] := rfl
  have hcount : ((afterNode P rb i o).sys.parentReadFifo).count slot =
      o.sys.parentReadFifo.count slot := by
    rw [hfifo, List.count_append]
    by_cases hn : o.parentIter.node = 0
    · rw [if_pos hn, List.count_nil, Nat.add_zero]
    · rw [if_neg hn, List.count_singleton, if_neg (by simpa using Ne.symm hslot), Nat.add_zero]
  have hread : (afterNode P rb i o).sys.readCount slot = o.sys.readCount slot := by
    rw [SystemBuffers.readCount, SystemBuffers.readCount]
    rw [parentBufferIo_afterNode, fillEntries_of_ne hslot]
  rw [pendingReads, pendingReads, hcount, hread]

/-! ### The invariant -/

/-- The invariant of the reads. -/
structure AccInv (o : Orchestrator) (inFlight : List (ℕ × ℕ)) : Prop where
  noWrite : ∀ slot j, (o.sys.parentBufferIo slot j).type ≠ .write
  exact : ∀ n, o.tailNodeParents ≤ n → n < o.parentIter.node →
    o.sys.parentBuffer.valid (n % parentBufferBatches) +
      pendingReads o inFlight (n % parentBufferBatches) = pageBatchSize
  held : ∀ slot, pendingReads o inFlight slot ≠ 0 → o.Held slot
  unfilled : ∀ m, o.parentIter.node ≤ m → m ≤ o.reserved →
    o.sys.parentBuffer.valid (m % parentBufferBatches) = 0

/-- The node that is read next inherits no read, and its slot is not still queued from its last
use. -/
structure ReadFresh (P : Setup) (o : Orchestrator) (rb : ReadBatch) : Prop where
  layerStart : o.parentIter.node ≠ 0 → LayerStartClean P o rb
  dequeued : o.parentIter.node ≠ 0 → rb.parentBufferId ∉ o.sys.parentReadFifo

namespace AccInv

lemma frame (ha : AccInv o inFlight) (hio : o'.sys.parentBufferIo = o.sys.parentBufferIo)
    (hfifo : o'.sys.parentReadFifo = o.sys.parentReadFifo)
    (hvalid : o'.sys.parentBuffer.valid = o.sys.parentBuffer.valid)
    (htail : o'.tailNodeParents = o.tailNodeParents) (hiter : o'.parentIter = o.parentIter)
    (hr : o'.reserved = o.reserved) : AccInv o' inFlight := by
  obtain ⟨h1, h2, h3, h4⟩ := ha
  constructor <;>
    simp only [pendingReads, SystemBuffers.readCount, Held, hio, hfifo, hvalid, htail, hiter,
      hr] at * <;> assumption

/-- An entry that is not filled is not held, so no read of it is pending. -/
lemma not_held (hc : CursorInv P cn o) {m : ℕ} (hm : o.parentIter.node ≤ m)
    (hmr : m ≤ o.reserved) : ¬o.Held (m % parentBufferBatches) := by
  rintro ⟨n, hn, hn', heq⟩
  have := hc.parentRing.slot_inj (hc.parents_le_node.trans hm) hmr hn
    (hn'.le.trans (node_le_reserved o)) heq
  omega

lemma pendingReads_unfilled (hc : CursorInv P cn o) (ha : AccInv o inFlight) {m : ℕ}
    (hm : o.parentIter.node ≤ m) (hmr : m ≤ o.reserved) :
    pendingReads o inFlight (m % parentBufferBatches) = 0 := by
  by_contra hne
  exact not_held hc hm hmr (ha.held _ hne)

/-- Reserving entries clears the counters of slots that are not held. -/
lemma reserveBatch (hc : CursorInv P cn o) (ha : AccInv o inFlight) (hpc : o.pc = .read) :
    AccInv { (Orchestrator.reserveBatch P (o.maxBatch P) o).2 with
      pc := .readNodes (Orchestrator.reserveBatch P (o.maxBatch P) o).1 0 } inFlight := by
  obtain ⟨-, hfree, -, -, -, -⟩ := maxBatch_spec P o
  generalize o.maxBatch P = c at *
  have hr : o.reserved = o.parentIter.node := reserved_eq (by simp [hpc])
  have hpr := hc.parentRing
  have hunf := ha.unfilled
  rw [hr] at hpr hunf
  rw [hpr.freeCount_eq] at hfree
  have hcap : o.parentIter.node + c < o.tailNodeParents + parentBufferBatches := by
    have := hpr.lt
    have := hpr.le
    omega
  refine ⟨ha.noWrite, fun n hn hn' => ?_, ha.held, fun m hm hmr => ?_⟩
  · have hn : o.tailNodeParents ≤ n := hn
    have hn' : n < o.parentIter.node := hn'
    show (o.sys.parentBuffer.reserveBatchNocheck c).2.valid _ + _ = _
    rw [hpr.reserveBatchNocheck_valid_old hcap hn hn'.le]
    exact ha.exact n hn hn'
  · have hm : o.parentIter.node ≤ m := hm
    have hmr : m ≤ o.parentIter.node + c := hmr
    show (o.sys.parentBuffer.reserveBatchNocheck c).2.valid _ = 0
    rcases Nat.eq_or_lt_of_le hm with rfl | hlt
    · rw [hpr.reserveBatchNocheck_valid_old hcap hpr.le le_rfl]
      exact hunf _ le_rfl le_rfl
    · exact hpr.reserveBatchNocheck_valid_new hlt hmr

/-- The pending reads after one node: those of its own entry are the reads issued. -/
lemma pendingReads_afterNode (hc : CursorInv P cn o) (ha : AccInv o inFlight) {rb : ReadBatch}
    {i : ℕ} (hpc : o.pc = .readNodes rb i) (hok : ReadFresh P o rb) (slot : ℕ) :
    pendingReads (afterNode P rb i o) inFlight slot =
      if slot = rb.parentBufferId then rb.readsIssued P o.parentIter.node
      else pendingReads o inFlight slot := by
  have hb := hc.batch rb i hpc
  have hzero := pendingReads_unfilled hc ha le_rfl (node_le_reserved o)
  rw [← hb.slot] at hzero
  obtain ⟨hq, hf⟩ := Nat.add_eq_zero_iff.mp hzero
  have hfifo : (afterNode P rb i o).sys.parentReadFifo =
      o.sys.parentReadFifo ++ if o.parentIter.node = 0 then [] else [rb.parentBufferId] := rfl
  split_ifs with hslot
  · subst hslot
    rw [pendingReads, hfifo, hf, Nat.add_zero]
    by_cases hn : o.parentIter.node = 0
    · -- the first node of all is not sent to the reader
      have hissued : rb.readsIssued P o.parentIter.node = 0 := by
        rw [hn]
        rfl
      have hsame : (afterNode P rb i o).sys.readCount rb.parentBufferId =
          o.sys.readCount rb.parentBufferId := by
        rw [readCount_afterNode, hissued, hn]
        rfl
      rw [if_pos hn, List.append_nil, hsame, hq, hissued]
    · have hread := (readCount_eq_iff P rb i hn).mpr (hok.layerStart hn)
      rw [valid_afterNode, Nat.add_sub_cancel_left,
        Nat.sub_sub_self (readsIssued_le P rb _)] at hread
      rw [if_neg hn, List.count_append, List.count_eq_zero_of_not_mem (hok.dequeued hn),
        List.count_singleton_self, Nat.zero_add, Nat.one_mul, hread]
  · exact pendingReads_afterNode_of_ne hslot

lemma readNode (hc : CursorInv P cn o) (ha : AccInv o inFlight) {rb : ReadBatch} {i : ℕ}
    (hpc : o.pc = .readNodes rb i) (hok : ReadFresh P o rb) :
    AccInv { Orchestrator.readNode P rb i o with pc := nextReadPc rb i } inFlight := by
  have hb := hc.batch rb i hpc
  have hr' := hc.reserved_readNode hpc
  rw [readNode_eq hc.iter] at hr' ⊢
  have hpend := pendingReads_afterNode hc ha hpc hok
  have hvalid : ∀ slot, slot ≠ rb.parentBufferId →
      (afterNode P rb i o).sys.parentBuffer.valid slot = o.sys.parentBuffer.valid slot :=
    fun slot hslot => Function.update_of_ne hslot ..
  refine ⟨fun slot j => ?_, fun n hn hn' => ?_, fun slot hslot => ?_, fun m hm hmr => ?_⟩
  · exact noWrite_afterNode (i := i) ha.noWrite slot j
  · have hn : o.tailNodeParents ≤ n := hn
    have hn' : n < o.parentIter.node + 1 := hn'
    show (afterNode P rb i o).sys.parentBuffer.valid _ +
      pendingReads (afterNode P rb i o) inFlight _ = _
    rw [hpend]
    rcases Nat.lt_succ_iff_lt_or_eq.mp hn' with hn' | rfl
    · have hslot := hc.slot_ne hpc hn (hn'.le.trans (node_le_reserved o)) hn'.ne
      rw [if_neg hslot, hvalid _ hslot]
      exact ha.exact n hn hn'
    · have hzero := ha.unfilled _ le_rfl (node_le_reserved o)
      rw [← hb.slot] at hzero ⊢
      rw [if_pos rfl, valid_afterNode, hzero, Nat.zero_add]
      exact Nat.sub_add_cancel (readsIssued_le P rb _)
  · have hslot : pendingReads (afterNode P rb i o) inFlight slot ≠ 0 := hslot
    rw [hpend] at hslot
    split_ifs at hslot with heq
    · exact ⟨o.parentIter.node, hc.parents_le_node, Nat.lt_succ_self _, heq.trans hb.slot⟩
    · obtain ⟨n, hn, hn', rfl⟩ := ha.held slot hslot
      exact ⟨n, hn, hn'.trans (Nat.lt_succ_self _), rfl⟩
  · rw [hr'] at hmr
    have hm : o.parentIter.node + 1 ≤ m := hm
    show (afterNode P rb i o).sys.parentBuffer.valid _ = 0
    rw [hvalid _ (hc.slot_ne hpc (hc.parents_le_node.trans (by omega)) hmr (by omega))]
    exact ha.unfilled m (by omega) hmr

/-- An entry is released only when no read of it is pending. -/
lemma releaseParent (ha : AccInv o inFlight)
    (hzero : pendingReads o inFlight (o.tailNodeParents % parentBufferBatches) = 0)
    (hr : (Orchestrator.releaseParent o).reserved = o.reserved) :
    AccInv (Orchestrator.releaseParent o) inFlight := by
  refine ⟨ha.noWrite, fun n hn hn' => ha.exact n ((Nat.le_succ _).trans hn) hn',
    fun slot hslot => ?_, fun m hm hmr => ha.unfilled m hm (hr ▸ hmr)⟩
  have hslot : pendingReads o inFlight slot ≠ 0 := hslot
  obtain ⟨n, hn, hn', rfl⟩ := ha.held slot hslot
  refine ⟨n, Nat.succ_le_of_lt (lt_of_le_of_ne hn ?_), hn', rfl⟩
  rintro rfl
  exact hslot hzero

/-- Every step of the orchestrator keeps the account. -/
theorem step (hc : CursorInv P cn o) (ha : AccInv o inFlight)
    (hok : ∀ rb i, o.pc = .readNodes rb i → ReadFresh P o rb)
    (hpass : ∀ n, o.tailNodeParents ≤ n → n < cn 0 →
      pageBatchSize ≤ o.sys.parentBuffer.valid (n % parentBufferBatches))
    (h : o.step P cn = some o') : AccInv o' inFlight := by
  cases hpc : o.pc <;> simp only [Orchestrator.step, hpc] at h
  case read =>
    split_ifs at h with hread <;> cases h
    · exact ha.reserveBatch hc hpc
    · exact ha.frame rfl rfl rfl rfl rfl (by simp [reserved, hpc, OrchPc.pending])
  case readNodes rb i =>
    cases h
    exact ha.readNode hc hpc (hok rb i hpc)
  case writeNodes r =>
    split_ifs at h with hlt <;> cases h
    · refine ha.frame ?_ ?_ ?_ rfl rfl (by simp [reserved, hpc, OrchPc.pending]) <;>
        simp only [Orchestrator.writeNodes] <;> split_ifs <;> rfl
    · exact ha.frame rfl rfl rfl rfl rfl (by simp [reserved, hpc, OrchPc.pending])
  case releaseParents r =>
    split_ifs at h with hlt <;> cases h
    · have hcn : o.tailNodeParents < cn 0 :=
        hlt.2.trans_le (hc.loaded 0 (numCoordinators_pos P) (by rw [hpc]; trivial))
      have hvalid := hpass _ le_rfl hcn
      have hexact := ha.exact _ le_rfl (hcn.trans_le (hc.cn_le 0 (numCoordinators_pos P)))
      have hr : (Orchestrator.releaseParent o).reserved = o.reserved := rfl
      exact (ha.releaseParent (by omega) hr).frame rfl rfl rfl rfl rfl
        (by simp [reserved, hpc, OrchPc.pending, Orchestrator.releaseParent])
    · exact ha.frame rfl rfl rfl rfl rfl (by simp [reserved, hpc, OrchPc.pending])
  case finished => simp at h
  case exited => simp at h
  all_goals
    split_ifs at h <;> cases h <;>
      exact ha.frame rfl rfl rfl rfl rfl (by simp [reserved, hpc, OrchPc.pending, advanceTail])

end AccInv

/-- The counter of an entry that is held never sinks while it is held. -/
lemma valid_le_of_step (hc : CursorInv P cn o) (h : o.step P cn = some o') {n : ℕ}
    (hn : o.tailNodeParents ≤ n) (hn' : n < o.parentIter.node) :
    o.sys.parentBuffer.valid (n % parentBufferBatches) ≤
      o'.sys.parentBuffer.valid (n % parentBufferBatches) := by
  cases hpc : o.pc <;> simp only [Orchestrator.step, hpc] at h
  case read =>
    split_ifs at h with hread <;> cases h
    · obtain ⟨-, hfree, -, -, -, -⟩ := maxBatch_spec P o
      have hpr := hc.parentRing
      rw [reserved_eq (by simp [hpc])] at hpr
      rw [hpr.freeCount_eq] at hfree
      have hlt := hpr.lt
      have hle := hpr.le
      exact (hpr.reserveBatchNocheck_valid_old (by omega) hn hn'.le).ge
    · exact le_rfl
  case readNodes rb i =>
    cases h
    rw [readNode_eq hc.iter]
    show _ ≤ Function.update o.sys.parentBuffer.valid rb.parentBufferId _ _
    rw [Function.update_apply]
    split_ifs with heq
    · rw [heq]
      exact Nat.le_add_right _ _
    · exact le_rfl
  case writeNodes r =>
    split_ifs at h with hlt <;> cases h
    · refine le_of_eq ?_
      simp only [Orchestrator.writeNodes]
      split_ifs <;> rfl
    · exact le_rfl
  case finished => simp at h
  case exited => simp at h
  all_goals
    split_ifs at h <;> cases h <;> exact le_rfl

lemma tailNodeParents_le_of_step (hc : CursorInv P cn o) (h : o.step P cn = some o') :
    o.tailNodeParents ≤ o'.tailNodeParents := by
  cases hpc : o.pc <;> simp only [Orchestrator.step, hpc] at h
  case readNodes rb i =>
    cases h
    rw [readNode_eq hc.iter]
    exact le_rfl
  case releaseParents r =>
    split_ifs at h <;> cases h
    · exact Nat.le_succ _
    · exact le_rfl
  case finished => simp at h
  case exited => simp at h
  all_goals
    split_ifs at h <;> cases h <;> exact le_rfl

/-! ### The queue of the reader -/

/-- The queue holds the entries of the nodes from `d` on, which fit into it. -/
structure FifoInv (P : Setup) (o : Orchestrator) (d : ℕ) : Prop where
  le : d ≤ o.parentIter.node
  pos : o.parentIter.node ≠ 0 → d ≠ 0
  fifo : o.sys.parentReadFifo =
    (List.range' d (o.parentIter.node - d)).map fun n => n % parentBufferBatches
  fits : o.reserved ≤ d + P.diskFifoDepth

namespace FifoInv

variable {d : ℕ}

lemma frame (hf : FifoInv P o d) (hfifo : o'.sys.parentReadFifo = o.sys.parentReadFifo)
    (hiter : o'.parentIter = o.parentIter) (hr : o'.reserved = o.reserved) : FifoInv P o' d :=
  ⟨hiter ▸ hf.le, hiter ▸ hf.pos, by rw [hfifo, hiter]; exact hf.fifo, hr ▸ hf.fits⟩

lemma reserveBatch (hf : FifoInv P o d) (hpc : o.pc = .read) :
    FifoInv P { (Orchestrator.reserveBatch P (o.maxBatch P) o).2 with
      pc := .readNodes (Orchestrator.reserveBatch P (o.maxBatch P) o).1 0 } d := by
  obtain ⟨-, -, -, hroom, -, -⟩ := maxBatch_spec P o
  have hfits := hf.fits
  have hle := hf.le
  rw [reserved_eq (by simp [hpc])] at hfits
  rw [hf.fifo, List.length_map, List.length_range'] at hroom
  refine ⟨hf.le, hf.pos, hf.fifo, ?_⟩
  show o.parentIter.node + (o.maxBatch P - 0) ≤ _
  omega

/-- The entry of the node joins the queue, except for the first node of all. -/
lemma readNode (hc : CursorInv P cn o) (hf : FifoInv P o d) {rb : ReadBatch} {i : ℕ}
    (hpc : o.pc = .readNodes rb i) :
    ∃ d', FifoInv P { Orchestrator.readNode P rb i o with pc := nextReadPc rb i } d' := by
  have hb := hc.batch rb i hpc
  have hr := hc.reserved_readNode hpc
  have hle := hf.le
  rw [readNode_eq hc.iter] at hr ⊢
  have hfifo : (afterNode P rb i o).sys.parentReadFifo =
      o.sys.parentReadFifo ++ if o.parentIter.node = 0 then [] else [rb.parentBufferId] := rfl
  have hnode : (afterNode P rb i o).parentIter.node = o.parentIter.node + 1 := rfl
  by_cases hn : o.parentIter.node = 0
  · obtain rfl : d = 0 := by omega
    refine ⟨1, ?_, fun _ => Nat.one_ne_zero, ?_, hr ▸ hf.fits.trans (by omega)⟩
    · show 1 ≤ o.parentIter.node + 1
      omega
    · show (afterNode P rb i o).sys.parentReadFifo =
        (List.range' 1 (o.parentIter.node + 1 - 1)).map _
      rw [hfifo, if_pos hn, hf.fifo, hn]
      rfl
  · refine ⟨d, ?_, fun _ => hf.pos hn, ?_, hr ▸ hf.fits⟩
    · show d ≤ o.parentIter.node + 1
      omega
    · show (afterNode P rb i o).sys.parentReadFifo =
        (List.range' d (o.parentIter.node + 1 - d)).map _
      rw [hfifo, if_neg hn, hf.fifo, hb.slot, Nat.sub_add_comm hle, List.range'_1_concat,
        List.map_append, Nat.add_sub_cancel' hle]
      rfl

lemma step (hc : CursorInv P cn o) (hf : FifoInv P o d) (h : o.step P cn = some o') :
    ∃ d', FifoInv P o' d' := by
  cases hpc : o.pc <;> simp only [Orchestrator.step, hpc] at h
  case read =>
    split_ifs at h with hread <;> cases h
    · exact ⟨d, hf.reserveBatch hpc⟩
    · exact ⟨d, hf.frame rfl rfl (by simp [reserved, hpc, OrchPc.pending])⟩
  case readNodes rb i =>
    cases h
    exact hf.readNode hc hpc
  case writeNodes r =>
    split_ifs at h with hlt <;> cases h
    · refine ⟨d, hf.frame ?_ rfl (by simp [reserved, hpc, OrchPc.pending])⟩
      simp only [Orchestrator.writeNodes]
      split_ifs <;> rfl
    · exact ⟨d, hf.frame rfl rfl (by simp [reserved, hpc, OrchPc.pending])⟩
  case finished => simp at h
  case exited => simp at h
  all_goals
    split_ifs at h <;> cases h <;>
      exact ⟨d, hf.frame rfl rfl (by simp [reserved, hpc, OrchPc.pending, advanceTail,
        Orchestrator.releaseParent])⟩

lemma dequeue (hf : FifoInv P o d) {slot : ℕ} {fifo : List ℕ}
    (hfifo : o.sys.parentReadFifo = slot :: fifo) :
    FifoInv P { o with sys := { o.sys with parentReadFifo := fifo } } (d + 1) := by
  have hlist := hf.fifo
  rw [hfifo] at hlist
  have hlt : d < o.parentIter.node := by
    by_contra hge
    rw [Nat.sub_eq_zero_of_le (not_lt.mp hge)] at hlist
    cases hlist
  have hlen : o.parentIter.node - d = o.parentIter.node - (d + 1) + 1 := by omega
  rw [hlen, List.range'_succ, List.map_cons, List.cons.injEq] at hlist
  exact ⟨hlt, fun _ => Nat.succ_ne_zero _, hlist.2, hf.fits.trans (by omega)⟩

/-- A queue shorter than the parent buffer never holds the slot that is filled next. -/
lemma notMem (hc : CursorInv P cn o) (hf : FifoInv P o d) {rb : ReadBatch} {i : ℕ}
    (hpc : o.pc = .readNodes rb i) (hdepth : P.diskFifoDepth < parentBufferBatches) :
    rb.parentBufferId ∉ o.sys.parentReadFifo := by
  have hb := hc.batch rb i hpc
  have hfits := hf.fits
  rw [reserved, hpc, OrchPc.pending] at hfits
  have hlt := hb.lt
  rw [hf.fifo, hb.slot]
  intro hmem
  obtain ⟨n, hn, heq⟩ := List.mem_map.mp hmem
  obtain ⟨hd, hn⟩ := List.mem_range'_1.mp hn
  exact Wrap.mod_ne_of_lt (x := n) (y := o.parentIter.node) (by omega) (by omega) heq

end FifoInv

end Orchestrator

namespace Pc1

variable {P : Setup} {s s' : Pc1}

/-- Node `n` is released or its entry is complete. -/
def Complete (o : Orchestrator) (n : ℕ) : Prop :=
  o.tailNodeParents ≤ n → pageBatchSize ≤ o.sys.parentBuffer.valid (n % parentBufferBatches)

/-- The reads are accounted for and the coordinators only pass complete entries. -/
structure ReaderInv (P : Setup) (s : Pc1) : Prop where
  acc : AccInv s.orch s.readsInFlight
  fifo : ∃ d, FifoInv P s.orch d
  passed : ∀ k < P.numCoordinators, (s.coords k).PassedInv (Complete s.orch)

/-- The condition on the node that is read next. The first node of a later layer inherits no `READ`
from its slot; and if the queue of the reader can hold a whole round of the parent buffer, the slot
is not still queued from its last use. -/
structure ReadClean (P : Setup) (o : Orchestrator) (rb : ReadBatch) : Prop where
  layerStart : o.parentIter.node ≠ 0 → LayerStartClean P o rb
  dequeued : parentBufferBatches ≤ P.diskFifoDepth → rb.parentBufferId ∉ o.sys.parentReadFifo

/-- The steps that read a node under this condition. -/
def ReadsClean (P : Setup) (s : Pc1) : Action → Prop
  | .orchestrator => ∀ rb i, s.orch.pc = .readNodes rb i → ReadClean P s.orch rb
  | _ => True

lemma ReaderInv.init : ReaderInv P init where
  acc := by
    refine ⟨fun _ _ => by simp [Pc1.init, Orchestrator.init, SystemBuffers.init],
      fun n _ hn => absurd hn (Nat.not_lt_zero n), fun slot hslot => ?_, fun _ _ _ => rfl⟩
    exact absurd (Nat.zero_mul _) hslot
  fifo := ⟨0, le_rfl, fun h => absurd rfl h, rfl, Nat.zero_le _⟩
  passed k _ := by
    refine ⟨fun n hn => absurd hn (Nat.not_lt_zero n), ?_, ?_⟩ <;>
      simp [Pc1.init, Coordinator.init, CoordPc.holdsNode, CoordPc.sampled]

lemma ReaderInv.orchestrator (hs : Inv P s) (hr : ReaderInv P s)
    (hok : ReadsClean P s .orchestrator) {o : Orchestrator}
    (h : s.orch.step P (fun k => (s.coords k).coordinatorNode) = some o) :
    ReaderInv P { s with orch := o } := by
  obtain ⟨d, hfifo⟩ := hr.fifo
  have h0 := numCoordinators_pos P
  refine ⟨hr.acc.step hs.cursor (fun rb i hpc => ?_) (fun n hn hlt => ?_) h,
    hfifo.step hs.cursor h, fun k hk => (hr.passed k hk).mono (hs.behind k hk) fun n hn hc ht => ?_⟩
  · refine ⟨(hok rb i hpc).layerStart, fun _ => ?_⟩
    rcases Nat.lt_or_ge P.diskFifoDepth parentBufferBatches with hlt | hge
    · exact hfifo.notMem hs.cursor hpc hlt
    · exact (hok rb i hpc).dequeued hge
  · exact (hr.passed 0 h0).passed n (hlt.trans_le
      ((hs.coord 0 h0).done.reported_node (numHashers_pos P h0))) hn
  · have ht : s.orch.tailNodeParents ≤ n := (tailNodeParents_le_of_step hs.cursor h).trans ht
    exact (hc ht).trans (valid_le_of_step hs.cursor h ht hn)

lemma ReaderInv.setCoord (hr : ReaderInv P s) {k : ℕ} {c : Coordinator}
    {store : ℕ → ℕ → ℕ → Option ℕ} (hc : c.PassedInv (Complete s.orch)) :
    ReaderInv P { s with coords := Function.update s.coords k c, store := store } := by
  refine ⟨hr.acc, hr.fifo, fun k' hk' => ?_⟩
  show (Function.update s.coords k c k').PassedInv _
  by_cases heq : k' = k
  · subst heq
    rwa [Function.update_self]
  · rw [Function.update_of_ne heq]
    exact hr.passed k' hk'

lemma batchReads_length {sys : SystemBuffers} {slot : ℕ}
    (hw : ∀ j, (sys.parentBufferIo slot j).type ≠ .write) :
    (batchReads sys slot).length = sys.readCount slot := by
  rw [batchReads, List.length_map, ← List.countP_eq_length_filter]
  refine List.countP_congr fun j _ => ?_
  have := hw j
  cases h : (sys.parentBufferIo slot j).type <;> simp_all

/-- Taking a batch from the queue moves its reads into flight. -/
lemma pendingReads_dequeue {o : Orchestrator} {l : List (ℕ × ℕ)} {slot : ℕ}
    {fifo : List ℕ} (hw : ∀ j, (o.sys.parentBufferIo slot j).type ≠ .write)
    (hfifo : o.sys.parentReadFifo = slot :: fifo) (x : ℕ) :
    pendingReads { o with sys := { o.sys with parentReadFifo := fifo } }
      (l ++ batchReads o.sys slot) x = pendingReads o l x := by
  have hcount : ((batchReads o.sys slot).countP fun r => r.1 = x) =
      if slot = x then o.sys.readCount slot else 0 := by
    split_ifs with heq
    · rw [← batchReads_length hw, List.countP_eq_length]
      intro r hr
      obtain ⟨j, -, rfl⟩ := List.mem_map.mp hr
      exact decide_eq_true heq
    · rw [List.countP_eq_zero]
      intro r hr
      obtain ⟨j, -, rfl⟩ := List.mem_map.mp hr
      simpa using heq
  rw [pendingReads, pendingReads, List.countP_append, hcount, hfifo, List.count_cons]
  show fifo.count x * o.sys.readCount x + _ = _
  by_cases heq : slot = x
  · subst heq
    simp only [if_true, beq_self_eq_true, Nat.add_mul, Nat.one_mul]
    omega
  · simp only [heq, if_false, beq_iff_eq, Nat.add_zero]

lemma ReaderInv.readerDequeue (hr : ReaderInv P s) {slot : ℕ} {fifo : List ℕ}
    (hfifo : s.orch.sys.parentReadFifo = slot :: fifo) :
    ReaderInv P { s with
      orch := { s.orch with sys := { s.orch.sys with parentReadFifo := fifo } }
      readsInFlight := s.readsInFlight ++ batchReads s.orch.sys slot } := by
  have ha := hr.acc
  have hpend := fun x =>
    pendingReads_dequeue (o := s.orch) (l := s.readsInFlight) (ha.noWrite slot) hfifo x
  obtain ⟨d, hd⟩ := hr.fifo
  refine ⟨⟨ha.noWrite, fun n hn hn' => ?_, fun x hx => ?_, ha.unfilled⟩, ⟨d + 1, hd.dequeue hfifo⟩,
    hr.passed⟩
  · rw [hpend]
    exact ha.exact n hn hn'
  · rw [hpend] at hx
    exact ha.held x hx

/-- A completed read is no longer pending. -/
lemma pendingReads_complete {o : Orchestrator} {inFlight : List (ℕ × ℕ)} {slot j : ℕ}
    (hmem : (slot, j) ∈ inFlight) (x : ℕ) :
    pendingReads o inFlight x =
      pendingReads o (inFlight.erase (slot, j)) x + if x = slot then 1 else 0 := by
  rw [pendingReads, pendingReads, (List.perm_cons_erase hmem).countP_eq, List.countP_cons,
    Nat.add_assoc]
  simp only [decide_eq_true_eq, eq_comm (a := slot)]

/-- A read under way belongs to an entry that is held. -/
lemma held_of_mem {o : Orchestrator} {inFlight : List (ℕ × ℕ)} (ha : AccInv o inFlight)
    {slot j : ℕ} (hmem : (slot, j) ∈ inFlight) : o.Held slot := by
  refine ha.held slot ?_
  rw [pendingReads_complete hmem, if_pos rfl]
  omega

lemma ReaderInv.readComplete (hs : Inv P s) (hr : ReaderInv P s) {slot j : ℕ}
    (hmem : (slot, j) ∈ s.readsInFlight) :
    ReaderInv P { s with
      orch := { s.orch with
        sys := { s.orch.sys with parentBuffer := s.orch.sys.parentBuffer.incrValid slot 1 } }
      readsInFlight := s.readsInFlight.erase (slot, j) } := by
  have ha := hr.acc
  have hheld := held_of_mem ha hmem
  obtain ⟨d, hd⟩ := hr.fifo
  have hvalid : ∀ x, (s.orch.sys.parentBuffer.incrValid slot 1).valid x =
      s.orch.sys.parentBuffer.valid x + if x = slot then 1 else 0 := by
    intro x
    rw [RingBuffer.incrValid_valid, Function.update_apply]
    split_ifs with heq
    · rw [heq]
    · rfl
  have hpend := pendingReads_complete (o := s.orch) hmem
  refine ⟨⟨ha.noWrite, fun n hn hn' => ?_, fun x hx => ?_, fun m hm hmr => ?_⟩,
    ⟨d, hd.frame rfl rfl rfl⟩, fun k hk => ?_⟩
  · have hexact := ha.exact n hn hn'
    rw [hpend] at hexact
    show (s.orch.sys.parentBuffer.incrValid slot 1).valid _ +
      pendingReads s.orch (s.readsInFlight.erase (slot, j)) _ = _
    rw [hvalid]
    omega
  · refine ha.held x ?_
    have hx : pendingReads s.orch (s.readsInFlight.erase (slot, j)) x ≠ 0 := hx
    rw [hpend]
    omega
  · have hne : m % parentBufferBatches ≠ slot := by
      rintro rfl
      exact AccInv.not_held hs.cursor hm hmr hheld
    show (s.orch.sys.parentBuffer.incrValid slot 1).valid _ = 0
    rw [hvalid, if_neg hne]
    exact ha.unfilled m hm hmr
  · refine (hr.passed k hk).mono (hs.behind k hk) fun n _ hc ht => ?_
    show _ ≤ (s.orch.sys.parentBuffer.incrValid slot 1).valid _
    rw [hvalid]
    exact (hc ht).trans (Nat.le_add_right _ _)

/-- Every action keeps the account. -/
theorem ReaderInv.step (hs : Inv P s) (hr : ReaderInv P s) {a : Action} (hok : ReadsClean P s a)
    (h : s.step P a = some s') : ReaderInv P s' := by
  cases step_inv P h with
  | orchestrator ho => exact hr.orchestrator hs hok ho
  | @coordinator k c hk hc =>
    exact hr.setCoord ((hr.passed k hk).step (hs.coord k hk).run
      (fun n hn _ => of_decide_eq_true hn) hc)
  | @hasher k t c hk ht hc => exact hr.setCoord ((hr.passed k hk).hasherStep hc)
  | readerDequeue hfifo => exact hr.readerDequeue hfifo
  | readComplete hmem => exact hr.readComplete hs hmem
  | writerDequeue =>
    obtain ⟨d, hd⟩ := hr.fifo
    exact ⟨hr.acc.frame rfl rfl rfl rfl rfl rfl, ⟨d, hd.frame rfl rfl rfl⟩, hr.passed⟩
  | writeComplete =>
    obtain ⟨d, hd⟩ := hr.fifo
    exact ⟨hr.acc.frame rfl rfl rfl rfl rfl rfl, ⟨d, hd.frame rfl rfl rfl⟩, hr.passed⟩

/-- What the account promises in a state. For every entry that is held, the counter reaches
the threshold exactly when no read of it is pending, and it never exceeds the threshold. An entry is
released only without pending reads, and every read that is pending belongs to an entry that is
held, so that its completion is for the node it was issued for. -/
structure Accounted (P : Setup) (s : Pc1) : Prop where
  complete : ∀ n, s.orch.tailNodeParents ≤ n → n < s.orch.parentIter.node →
    (s.orch.sys.parentBuffer.valid (n % parentBufferBatches) = pageBatchSize ↔
      pendingReads s.orch s.readsInFlight (n % parentBufferBatches) = 0)
  le : ∀ n, s.orch.tailNodeParents ≤ n → n < s.orch.parentIter.node →
    s.orch.sys.parentBuffer.valid (n % parentBufferBatches) ≤ pageBatchSize
  released : ∀ r, s.orch.pc = .releaseParents r → s.orch.tailNodeParents < s.orch.minNodeHash →
    pendingReads s.orch s.readsInFlight (s.orch.tailNodeParents % parentBufferBatches) = 0
  held : ∀ slot, pendingReads s.orch s.readsInFlight slot ≠ 0 → s.orch.Held slot
  completes : ∀ r ∈ s.readsInFlight, (s.step P (.readComplete r.1 r.2)).isSome = true

lemma ReaderInv.accounted (hs : Inv P s) (hr : ReaderInv P s) : Accounted P s where
  complete n hn hn' := by
    have := hr.acc.exact n hn hn'
    omega
  le n hn hn' := by
    have := hr.acc.exact n hn hn'
    omega
  released r hpc hlt := by
    have h0 := numCoordinators_pos P
    have hcn : s.orch.tailNodeParents < (s.coords 0).coordinatorNode :=
      hlt.trans_le (hs.cursor.loaded 0 h0 (by rw [hpc]; trivial))
    have hpass := (hr.passed 0 h0).passed _ (hcn.trans_le
      ((hs.coord 0 h0).done.reported_node (numHashers_pos P h0))) le_rfl
    have := hr.acc.exact _ le_rfl (hcn.trans_le (hs.cursor.cn_le 0 h0))
    omega
  held := hr.acc.held
  completes := by
    rintro ⟨slot, j⟩ hmem
    have hun : ¬unfilled s.orch slot = true := by
      intro hun
      obtain ⟨m, hm, hmr, rfl⟩ := (unfilled_iff hs.cursor).mp hun
      exact AccInv.not_held hs.cursor hm hmr (held_of_mem hr.acc hmem)
    simp only [Pc1.step]
    rw [if_pos ⟨hmem, fun h => hun h.1⟩]
    rfl

/-- Up to the second layer, all nodes of 2KiB sectors are read under the condition. -/
lemma reachableVia_twoKiB {o : Orchestrator}
    (h : Runs Setup.twoKiB (fun _ => 0) Orchestrator.init o) (hle : o.parentIter.node ≤ 64) :
    Transition.ReachableVia (ReadsClean Setup.twoKiB) (Pc1.step Setup.twoKiB) init
      { init with orch := o } := by
  have hboth := Transition.Reachable.invariant (P := fun o =>
    CursorInv Setup.twoKiB (fun _ => 0) o ∧ (o.parentIter.node ≤ 64 →
      Transition.ReachableVia (ReadsClean Setup.twoKiB) (Pc1.step Setup.twoKiB) init
        { init with orch := o })) h ⟨(init_inv Setup.twoKiB).cursor, fun _ => .start⟩ ?_
  · exact hboth.2 hle
  · rintro o ⟨⟩ o' ⟨hc, ih⟩ hs
    have hmono := node_le_of_step hc hs
    refine ⟨hc.step hs, fun hle => (ih (hmono.trans hle)).next (a := .orchestrator) ?_ ?_⟩
    · intro rb i hpc
      have hpc : o.pc = .readNodes rb i := hpc
      refine ⟨fun hn hv => ?_, fun hdepth => absurd hdepth (by decide)⟩
      simp only [Orchestrator.step, hpc] at hs
      cases hs
      rw [readNode_eq hc.iter] at hle
      have hlt : o.parentIter.node < Setup.twoKiB.C.numNodes := hle
      have hv : Setup.twoKiB.C.node o.parentIter.node = 0 := hv
      rw [Config.node_eq_mod, Nat.mod_eq_of_lt hlt] at hv
      exact absurd hv hn
    · have hs : o.step Setup.twoKiB (fun k => (init.coords k).coordinatorNode) = some o' := hs
      simp only [Pc1.step, hs]

/-- The account of parent reads. In every reachable state the batch of the node that is read has as
many reads as `read_batch` leaves missing in the counter of its entry exactly when the node inherits
no read; and the account is right in every state of every run in which all nodes are read
so. -/
theorem read_accounting (P : Setup) :
    (∀ s s' rb i, Transition.Reachable (Pc1.step P) init s → s.orch.pc = .readNodes rb i →
      s.orch.parentIter.node ≠ 0 → s.step P .orchestrator = some s' →
      (s'.orch.sys.readCount rb.parentBufferId =
        pageBatchSize - (s'.orch.sys.parentBuffer.valid rb.parentBufferId -
          s.orch.sys.parentBuffer.valid rb.parentBufferId) ↔ LayerStartClean P s.orch rb)) ∧
    ∀ s, Transition.ReachableVia (ReadsClean P) (Pc1.step P) init s → Accounted P s := by
  refine ⟨fun s s' rb i h hpc hn hstep => ?_, fun s h => ?_⟩
  · have hs := reachable_inv h
    rw [step_readNodes hpc] at hstep
    cases hstep
    rw [readNode_eq hs.cursor.iter]
    exact readCount_eq_iff P rb i hn
  · have hinv : Inv P s ∧ ReaderInv P s :=
      h.invariant (P := fun s => Inv P s ∧ ReaderInv P s) ⟨init_inv P, .init⟩
        fun _ _ _ hs hok hstep => ⟨hs.1.step hstep, hs.2.step hs.1 hok hstep⟩
    exact hinv.2.accounted hinv.1

/-- The theorem at node 1 of 2KiB sectors. -/
theorem read_accounting_twoKiB :
    ∃ s s' rb i, s.orch.pc = .readNodes rb i ∧ s.orch.parentIter.node = 1 ∧
      s.step Setup.twoKiB .orchestrator = some s' ∧
      (s'.orch.sys.readCount rb.parentBufferId =
        pageBatchSize - (s'.orch.sys.parentBuffer.valid rb.parentBufferId -
          s.orch.sys.parentBuffer.valid rb.parentBufferId) ↔
          LayerStartClean Setup.twoKiB s.orch rb) ∧
      Accounted Setup.twoKiB s := by
  obtain ⟨o, rb, hrun, hpc, hnode, -⟩ := runs_twoKiB (i := 1) (by decide)
  have hstep := step_readNodes (P := Setup.twoKiB) (s := { init with orch := o }) hpc
  have hvia := reachableVia_twoKiB hrun (by omega)
  exact ⟨_, _, rb, 1, hpc, hnode, hstep,
    (read_accounting Setup.twoKiB).1 _ _ rb 1 hvia.reachable hpc
      (by show o.parentIter.node ≠ 0; omega) hstep,
    (read_accounting Setup.twoKiB).2 _ hvia⟩

/-- For the first node of the second layer of 2KiB sectors, whose slot was never used, the batch
has six reads more than the counter lacks. -/
theorem layer_start_inherits_reads :
    ∃ s s' rb i, Transition.Reachable (Pc1.step Setup.twoKiB) init s ∧
      s.orch.pc = .readNodes rb i ∧ s.orch.parentIter.node = 64 ∧
      s.step Setup.twoKiB .orchestrator = some s' ∧
      s'.orch.sys.readCount rb.parentBufferId =
        pageBatchSize - (s'.orch.sys.parentBuffer.valid rb.parentBufferId -
          s.orch.sys.parentBuffer.valid rb.parentBufferId) + 6 := by
  obtain ⟨o, rb, hrun, hpc, hnode, hio⟩ := runs_twoKiB (i := 64) (by decide)
  have hc := hrun.cursor (init_inv Setup.twoKiB).cursor
  have hslot : rb.parentBufferId = 64 := by
    rw [(hc.batch rb 64 hpc).slot, hnode]
    decide
  refine ⟨{ init with orch := o }, _, rb, 64, reachable_orchestrator .start hrun, hpc, hnode,
    step_readNodes hpc, ?_⟩
  show (Orchestrator.readNode _ _ _ o).sys.readCount _ = _ -
    ((Orchestrator.readNode _ _ _ o).sys.parentBuffer.valid _ - _) + 6
  rw [readNode_eq hc.iter, valid_afterNode, readCount_afterNode, Nat.add_sub_cancel_left,
    Nat.sub_sub_self (readsIssued_le _ _ _), hslot, hio 64 le_rfl, hnode, Nat.add_comm]
  rfl

end Pc1

end SupraSeal
