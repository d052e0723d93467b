import SupraSeal.Pc1.Handover
import SupraSeal.Pc1.Records
import Mathlib.Algebra.Order.BigOperators.Group.List

/-!
# Safety of PC1

The invariant of the composed system and the two properties of the data it gives: a parent that is
read from disk was written before, and a parent that is taken from the node buffer is still there.
-/

namespace SupraSeal

open Orchestrator

namespace Pc1

variable {P : Setup} {s s' : Pc1}

/-! ### Sectors -/

lemma startSector_succ (P : Setup) {k : ℕ} (hk : k < P.numCoordinators) :
    startSector P (k + 1) = startSector P k + nodesPerHasher * P.numHashers k := by
  have hk' : k < P.hashers.length := hk
  rw [startSector, startSector, Setup.numHashers, List.take_add_one, List.sum_append, Nat.mul_add,
    List.getElem?_eq_getElem hk', List.getD_eq_getElem _ _ hk']
  simp

lemma startSector_mono (P : Setup) {k k' : ℕ} (h : k ≤ k') :
    startSector P k ≤ startSector P k' :=
  Nat.mul_le_mul_left _ (List.monotone_sum_take _ h)

/-- The sectors of a hasher are among those of its coordinator. -/
lemma hasherSector_le (P : Setup) {k t : ℕ} (hk : k < P.numCoordinators)
    (ht : t < P.numHashers k) :
    startSector P k ≤ hasherSector P k t ∧
      hasherSector P k t + nodesPerHasher ≤ startSector P (k + 1) := by
  rw [startSector_succ P hk, hasherSector, Nat.add_assoc, ← Nat.mul_succ]
  exact ⟨Nat.le_add_right _ _, Nat.add_le_add_left (Nat.mul_le_mul_left _ ht) _⟩

/-- No sector belongs to two hashers. -/
lemma hasherSector_disjoint (P : Setup) {k t k' t' x : ℕ} (hk : k < P.numCoordinators)
    (ht : t < P.numHashers k) (hk' : k' < P.numCoordinators) (ht' : t' < P.numHashers k')
    (hx : hasherSector P k t ≤ x ∧ x < hasherSector P k t + nodesPerHasher)
    (hx' : hasherSector P k' t' ≤ x ∧ x < hasherSector P k' t' + nodesPerHasher) :
    k = k' ∧ t = t' := by
  have h := hasherSector_le P hk ht
  have h' := hasherSector_le P hk' ht'
  have hkk : k = k' := by
    rcases Nat.lt_trichotomy k k' with hlt | heq | hlt
    · have : startSector P (k + 1) ≤ startSector P k' := startSector_mono P hlt
      omega
    · exact heq
    · have : startSector P (k' + 1) ≤ startSector P k := startSector_mono P hlt
      omega
  subst hkk
  refine ⟨rfl, ?_⟩
  rw [hasherSector, nodesPerHasher] at hx hx'
  omega

/-! ### The invariant -/

/-- The store holds the latest labels of a hasher that has hashed the nodes below `thr`. -/
def StoreInv (P : Setup) (store : ℕ → ℕ → ℕ → Option ℕ) (sector thr : ℕ) : Prop :=
  ∀ n < thr, thr ≤ n + nodeBufferBatches * P.C.nodesPerPage →
    ∀ x, sector ≤ x → x < sector + nodesPerHasher →
      store (n / P.C.nodesPerPage % nodeBufferBatches) (n % P.C.nodesPerPage) x = some n

/-- A pointer that the coordinator hands on for parent `j` of node `m`. -/
def Handed (P : Setup) (m j : ℕ) (ptr : NodePtr) : Prop :=
  ∃ src sync, Recorded P m j src sync ∧ ptr = Coordinator.ringPtr src sync

structure Inv (P : Setup) (s : Pc1) : Prop where
  coord : ∀ k < P.numCoordinators, (s.coords k).Inv P.C (P.numHashers k) P.nodeStop
  behind : ∀ k < P.numCoordinators, (s.coords k).BehindInv s.orch.parentIter.node
  cursor : CursorInv P (fun k => (s.coords k).coordinatorNode) s.orch
  write : WriteInv P s.orch s.writesInFlight s.written
  parent : ParentInv P s.orch
  ptrs : ∀ k < P.numCoordinators, (s.coords k).PtrInv (Handed P)
  store : ∀ k < P.numCoordinators, ∀ t < P.numHashers k,
    StoreInv P s.store (hasherSector P k t) ((s.coords k).hashers t).thrNode

lemma numHashers_pos (P : Setup) {k : ℕ} (hk : k < P.numCoordinators) : 0 < P.numHashers k := by
  have hk' : k < P.hashers.length := hk
  rw [Setup.numHashers, List.getD_eq_getElem _ _ hk']
  exact P.hashers_pos _ (List.getElem_mem hk')

lemma init_inv (P : Setup) : Inv P init where
  coord _ _ := Coordinator.init_inv
  behind _ _ := ⟨le_rfl, by simp [init, Coordinator.init, CoordPc.holdsNode],
    by simp [init, Coordinator.init, CoordPc.sampled]⟩
  cursor := by
    have hpos := P.C.nodesPerPage_pos
    have hring : (RingBuffer.empty : RingBuffer nodeBufferBatches).Spans (0 / P.C.nodesPerPage)
        (0 / P.C.nodesPerPage) := by
      rw [Nat.zero_div]
      exact RingBuffer.empty_spans (by decide)
    refine ⟨?_, fun _ _ => le_rfl, RingBuffer.empty_spans (by decide), hring, dvd_zero _,
      by simp [init, Orchestrator.init], le_rfl, le_rfl, dvd_zero _, dvd_zero _, ?_, ?_,
      fun _ _ => le_rfl, fun _ _ => le_rfl, fun _ _ _ => le_rfl,
      fun h => absurd h (Nat.lt_irrefl 0)⟩
    · show (⟨0, 0, 0⟩ : ParentIter) = ⟨0, 0, P.C.node 0 * parentCount + 0⟩
      rw [node_zero, Nat.zero_mul]
    · show 0 = 0 % _
      rw [Nat.zero_mod]
    · show 0 = 0 % _
      rw [Nat.zero_mod]
  write := by
    refine ⟨fun m hm => ?_, fun m hm => ?_, fun _ _ _ => rfl, fun m hm => ?_, by
      simp [pendingWrites, init, Orchestrator.init, SystemBuffers.init], by simp [init], by
      simp [pendingWrites, init, Orchestrator.init, SystemBuffers.init]⟩
    · have hm : m < 0 / P.C.nodesPerPage := hm
      rw [Nat.zero_div] at hm
      omega
    · have hm : m < 0 / P.C.nodesPerPage := hm.2
      rw [Nat.zero_div] at hm
      omega
    · have hm : m < 0 / P.C.nodesPerPage := hm.2
      rw [Nat.zero_div] at hm
      omega
  parent := ⟨fun _ _ _ => (by decide : 0 < pageBatchSize), fun n _ hn => absurd hn (Nat.not_lt_zero n)⟩
  ptrs _ _ := by
    refine ⟨fun m _ hm => absurd hm (Nat.not_lt_zero m), ?_, ?_⟩ <;>
      simp [init, Coordinator.init]
  store _ _ _ _ n hn := absurd hn (Nat.not_lt_zero n)

lemma node_le_of_step {cn : ℕ → ℕ} {o o' : Orchestrator} (hc : CursorInv P cn o)
    (h : o.step P cn = some o') : o.parentIter.node ≤ o'.parentIter.node := by
  cases hpc : o.pc <;> simp only [Orchestrator.step, hpc] at h
  case readNodes rb i =>
    cases h
    rw [readNode_eq hc.iter]
    exact Nat.le_succ _
  case finished => simp at h
  case exited => simp at h
  all_goals
    split_ifs at h <;> cases h <;> exact le_rfl

lemma Inv.orchestrator (hs : Inv P s) {o : Orchestrator}
    (h : s.orch.step P (fun k => (s.coords k).coordinatorNode) = some o) :
    Inv P { s with orch := o } where
  coord := hs.coord
  behind k hk := (hs.behind k hk).mono (node_le_of_step hs.cursor h)
  cursor := hs.cursor.step h
  write := hs.write.step hs.cursor h
  parent := hs.parent.step hs.cursor h
  ptrs := hs.ptrs
  store := hs.store

/-- The node a coordinator holds has its parents recorded. -/
lemma recorded_of_holdsNode (hs : Inv P s) {k : ℕ} (hk : k < P.numCoordinators)
    (hpc : (s.coords k).pc.holdsNode = true) {j : ℕ} (hj : j < parentCount) :
    Recorded P (s.coords k).node j (s.orch.sys.parentPtrs (s.coords k).idx j)
      (s.orch.sys.parentPtrSyncs (s.coords k).idx j) := by
  have hc := hs.coord k hk
  rw [hc.run.idx]
  exact hs.parent.recorded _ ((hs.cursor.parents_le k hk).trans
    (hc.done.reported_node (numHashers_pos P hk))) ((hs.behind k hk).holds hpc) j hj

/-- A change of one coordinator. -/
lemma Inv.setCoord (hs : Inv P s) {k : ℕ} (hk : k < P.numCoordinators) {c : Coordinator}
    {store : ℕ → ℕ → ℕ → Option ℕ} (hcoord : c.Inv P.C (P.numHashers k) P.nodeStop)
    (hbehind : c.BehindInv s.orch.parentIter.node)
    (hle : (s.coords k).coordinatorNode ≤ c.coordinatorNode)
    (hptrs : c.PtrInv (Handed P))
    (hstore : ∀ k' < P.numCoordinators, ∀ t < P.numHashers k',
      StoreInv P store (hasherSector P k' t) ((Function.update s.coords k c k').hashers t).thrNode) :
    Inv P { s with coords := Function.update s.coords k c, store := store } := by
  have hcases {p : Coordinator → Prop} (hc : p c)
      (hall : ∀ k' < P.numCoordinators, p (s.coords k')) {k' : ℕ} (hk' : k' < P.numCoordinators) :
      p (Function.update s.coords k c k') := by
    by_cases heq : k' = k
    · subst heq
      rwa [Function.update_self]
    · rw [Function.update_of_ne heq]
      exact hall k' hk'
  refine ⟨fun k' hk' => ?_, fun k' hk' => hcases hbehind hs.behind hk', ?_, hs.write, hs.parent,
    fun k' hk' => hcases hptrs hs.ptrs hk', hstore⟩
  · by_cases heq : k' = k
    · subst heq
      show (Function.update s.coords k' c k').Inv _ _ _
      rwa [Function.update_self]
    · show (Function.update s.coords k c k').Inv _ _ _
      rw [Function.update_of_ne heq]
      exact hs.coord k' hk'
  · refine hs.cursor.mono (fun k' hk' => ?_) fun k' hk' => ?_
    · show _ ≤ (Function.update s.coords k c k').coordinatorNode
      by_cases heq : k' = k
      · subst heq
        rwa [Function.update_self]
      · rw [Function.update_of_ne heq]
    · exact hcases (p := fun c => c.coordinatorNode ≤ s.orch.parentIter.node)
        ((hcoord.done.reported_node (numHashers_pos P hk)).trans hbehind.le)
        (fun k' hk' => hs.cursor.cn_le k' hk') hk'

lemma Inv.coordinator (hs : Inv P s) {k : ℕ} (hk : k < P.numCoordinators) {c : Coordinator}
    (h : (s.coords k).step (P.numHashers k) P.nodeStop (view s.orch.sys) = some c) :
    Inv P { s with coords := Function.update s.coords k c } := by
  have hc := hs.coord k hk
  have hinv : (view s.orch.sys).isValid (s.orch.parentIter.node % parentBufferBatches) = false := by
    have := hs.parent.unfilled _ le_rfl (node_le_reserved s.orch)
    exact decide_eq_false (not_le.mpr this)
  refine hs.setCoord hk (Coordinator.Inv.next (a := .coordinator (view s.orch.sys)) hc h)
    ((hs.behind k hk).step hc.run hinv h)
    (Coordinator.coordinatorNode_le_of_step hc.done.reported h) ?_ fun k' hk' t ht => ?_
  · refine (hs.ptrs k hk).step hc.run
      (Coordinator.completedNode_le hc.run hc.hasher hc.done (numHashers_pos P hk)) ?_ h
    intro j hpc hj
    exact ⟨_, _, recorded_of_holdsNode hs hk (by rw [hpc]; rfl) hj, rfl⟩
  · by_cases heq : k' = k
    · subst heq
      rw [Function.update_self, Coordinator.step_hashers h]
      exact hs.store k' hk' t ht
    · rw [Function.update_of_ne heq]
      exact hs.store k' hk' t ht

/-- Hashing a node stores its label and overwrites none of the latest labels of any hasher. -/
lemma StoreInv.hashOut {store : ℕ → ℕ → ℕ → Option ℕ} {sector thr : ℕ}
    (hst : StoreInv P store sector thr) :
    StoreInv P (hashOut store (thr / P.C.nodesPerPage % nodeBufferBatches)
      (thr % P.C.nodesPerPage) sector thr) sector (thr + 1) := by
  intro n hn hw x hx hx'
  rw [Pc1.hashOut]
  rcases Nat.lt_succ_iff_lt_or_eq.mp hn with hn | rfl
  · rw [if_neg]
    · exact hst n hn (by omega) x hx hx'
    · rintro ⟨hpage, hin, -, -⟩
      -- two nodes of one place are a full node buffer apart
      have hmod : n % (P.C.nodesPerPage * nodeBufferBatches) =
          thr % (P.C.nodesPerPage * nodeBufferBatches) := by
        rw [Nat.mod_mul, Nat.mod_mul, hpage, hin]
      rw [Nat.mul_comm] at hw
      exact Wrap.mod_ne_of_lt hn (by omega) hmod
  · rw [if_pos ⟨rfl, rfl, hx, hx'⟩]

lemma StoreInv.hashOut_other {store : ℕ → ℕ → ℕ → Option ℕ} {sector thr : ℕ}
    (hst : StoreInv P store sector thr) {entry nodeInPage sector' n' : ℕ}
    (hdisj : ∀ x, sector ≤ x → x < sector + nodesPerHasher →
      ¬(sector' ≤ x ∧ x < sector' + nodesPerHasher)) :
    StoreInv P (Pc1.hashOut store entry nodeInPage sector' n') sector thr := by
  intro n hn hw x hx hx'
  rw [Pc1.hashOut, if_neg fun h => hdisj x hx hx' h.2.2]
  exact hst n hn hw x hx hx'

lemma Inv.hasher (hs : Inv P s) {k t : ℕ} (hk : k < P.numCoordinators) (ht : t < P.numHashers k)
    {c : Coordinator} (h : (s.coords k).hasherStep P.C P.nodeStop t = some c) :
    Inv P { s with
      coords := Function.update s.coords k c
      store :=
        match ((s.coords k).hashers t).pc with
        | .hash _ => hashOut s.store ((s.coords k).hashers t).nodeIdx
            (P.C.node ((s.coords k).hashers t).thrNode % P.C.nodesPerPage) (hasherSector P k t)
            ((s.coords k).hashers t).thrNode
        | _ => s.store } := by
  have hc := hs.coord k hk
  have hnext : c.Inv P.C (P.numHashers k) P.nodeStop := by
    refine Coordinator.Inv.next (a := .hasher t) hc ?_
    rw [Coordinator.next, if_pos ht]
    exact h
  refine hs.setCoord hk hnext ((hs.behind k hk).hasherStep h)
    (Coordinator.coordinatorNode_hasherStep h).ge ((hs.ptrs k hk).hasherStep h)
    fun k' hk' t' ht' => ?_
  have hthr := Coordinator.thrNode_hasherStep h
  by_cases hself : k' = k ∧ t' = t
  · obtain ⟨rfl, rfl⟩ := hself
    have hst := hs.store k' hk t' ht
    rw [Function.update_self, hthr]
    cases hpc : ((s.coords k').hashers t').pc with
    | hash i =>
      rw [(hc.hasher t' ht).nodeIdx, P.C.node_mod_nodesPerPage]
      exact hst.hashOut
    | _ => exact hst
  · have hsame : ((Function.update s.coords k c k').hashers t').thrNode =
        ((s.coords k').hashers t').thrNode := by
      by_cases heq : k' = k
      · subst heq
        rw [Function.update_self,
          Coordinator.hasherStep_hashers_of_ne h fun ht => hself ⟨rfl, ht⟩]
      · rw [Function.update_of_ne heq]
    rw [hsame]
    have hst := hs.store k' hk' t' ht'
    cases hpc : ((s.coords k).hashers t).pc with
    | hash i =>
      refine hst.hashOut_other fun x hx hx' hmine => hself ?_
      exact hasherSector_disjoint P hk' ht' hk ht ⟨hx, hx'⟩ hmine
    | _ => exact hst

/-- A change of the buffers that moves no cursor. -/
lemma CursorInv.setSys {cn : ℕ → ℕ} {o : Orchestrator} (hc : CursorInv P cn o) {sys : SystemBuffers}
    (hp : sys.parentBuffer.Spans o.tailNodeParents o.reserved)
    (hn : sys.nodeBuffer.Spans (o.tailNode / P.C.nodesPerPage) (o.reserved / P.C.nodesPerPage)) :
    CursorInv P cn { o with sys := sys } :=
  { hc with
    parentRing := hp
    nodeRing := hn
    batch := fun rb i h => by
      obtain ⟨h1, h2, h3, h4, h5, h6, h7⟩ := hc.batch rb i h
      exact ⟨h1, h2, h3, h4, h5, h6, h7⟩ }

lemma Inv.readerDequeue (hs : Inv P s) {fifo : List ℕ} {reads : List (ℕ × ℕ)} :
    Inv P { s with
      orch := { s.orch with sys := { s.orch.sys with parentReadFifo := fifo } }
      readsInFlight := reads } where
  coord := hs.coord
  behind := hs.behind
  cursor := CursorInv.setSys hs.cursor hs.cursor.parentRing hs.cursor.nodeRing
  write := hs.write.frame rfl rfl rfl rfl rfl rfl
  parent := hs.parent.frame rfl rfl le_rfl rfl rfl rfl
  ptrs := hs.ptrs
  store := hs.store

/-- The slots of the entries that are not filled. -/
lemma unfilled_iff {cn : ℕ → ℕ} {o : Orchestrator} (hc : CursorInv P cn o) {slot : ℕ} :
    unfilled o slot = true ↔
      ∃ m, o.parentIter.node ≤ m ∧ m ≤ o.reserved ∧ slot = m % parentBufferBatches := by
  by_cases hread : ∃ rb i, o.pc = .readNodes rb i
  · obtain ⟨rb, i, hpc⟩ := hread
    have hb := hc.batch rb i hpc
    simp only [unfilled, hpc, decide_eq_true_eq, hb.slot]
    have hr : o.reserved = o.parentIter.node + (rb.maxBatch - i) := by
      rw [reserved, hpc, OrchPc.pending]
    constructor
    · rintro ⟨m, hm, rfl⟩
      exact ⟨o.parentIter.node + m, by omega, by omega,
        RingBuffer.incr_iterate_mod (by decide) _ _⟩
    · rintro ⟨m, hm, hmr, rfl⟩
      refine ⟨m - o.parentIter.node, by omega, ?_⟩
      rw [RingBuffer.incr_iterate_mod (by decide), Nat.add_sub_cancel' hm]
  · have hpc : ∀ rb i, o.pc ≠ .readNodes rb i := fun rb i h => hread ⟨rb, i, h⟩
    have hr := reserved_eq hpc
    have hhead := hc.parentRing.head
    rw [hr] at hhead ⊢
    have hun : unfilled o slot = (slot == o.sys.parentBuffer.head) := by
      rw [unfilled]
      split
      · next heq => exact absurd heq (hpc _ _)
      · rfl
    rw [hun, beq_iff_eq, hhead]
    constructor
    · exact fun h => ⟨_, le_rfl, le_rfl, h⟩
    · rintro ⟨m, h1, h2, rfl⟩
      rw [Nat.le_antisymm h1 h2]

lemma Inv.readComplete (hs : Inv P s) {slot : ℕ} {reads : List (ℕ × ℕ)}
    (hguard : ¬(unfilled s.orch slot = true ∧
      (s.orch.sys.parentBuffer.incrValid slot 1).isValid pageBatchSize slot = true)) :
    Inv P { s with
      orch := { s.orch with
        sys := { s.orch.sys with parentBuffer := s.orch.sys.parentBuffer.incrValid slot 1 } }
      readsInFlight := reads } where
  coord := hs.coord
  behind := hs.behind
  cursor := CursorInv.setSys hs.cursor (hs.cursor.parentRing.incrValid _ _) hs.cursor.nodeRing
  write := hs.write.frame rfl rfl rfl rfl rfl rfl
  parent := by
    refine ⟨fun m hm hmr => ?_, hs.parent.recorded⟩
    show (s.orch.sys.parentBuffer.incrValid slot 1).valid _ < _
    by_cases heq : m % parentBufferBatches = slot
    · have hun := (unfilled_iff hs.cursor).mpr ⟨m, hm, hmr, heq.symm⟩
      have hval : ¬(s.orch.sys.parentBuffer.incrValid slot 1).isValid pageBatchSize slot = true :=
        fun h => hguard ⟨hun, h⟩
      rw [heq]
      exact not_le.mp fun h => hval (decide_eq_true h)
    · rw [RingBuffer.incrValid_valid, Function.update_of_ne heq]
      exact hs.parent.unfilled m hm hmr
  ptrs := hs.ptrs
  store := hs.store

lemma Inv.writerDequeue (hs : Inv P s) {slot : ℕ} {fifo : List ℕ}
    (hfifo : s.orch.sys.nodeWriteFifo = slot :: fifo) :
    Inv P { s with
      orch := { s.orch with sys := { s.orch.sys with nodeWriteFifo := fifo } }
      writesInFlight := s.writesInFlight ++ [(slot, s.orch.sys.nodeBufferIo slot)] } where
  coord := hs.coord
  behind := hs.behind
  cursor := CursorInv.setSys hs.cursor hs.cursor.parentRing hs.cursor.nodeRing
  write := hs.write.dequeue hfifo
  parent := hs.parent.frame rfl rfl le_rfl rfl rfl rfl
  ptrs := hs.ptrs
  store := hs.store

lemma Inv.writeComplete (hs : Inv P s) {slot node : ℕ}
    (hmem : (slot, node) ∈ s.writesInFlight) :
    Inv P { s with
      orch := { s.orch with
        sys := { s.orch.sys with nodeBuffer := s.orch.sys.nodeBuffer.incrValid slot 1 } }
      writesInFlight := s.writesInFlight.erase (slot, node)
      written := Function.update s.written (node / P.C.nodesPerPage) true } where
  coord := hs.coord
  behind := hs.behind
  cursor := CursorInv.setSys hs.cursor hs.cursor.parentRing (hs.cursor.nodeRing.incrValid _ _)
  write := hs.write.complete hs.cursor hmem
  parent := hs.parent.frame rfl rfl le_rfl rfl rfl rfl
  ptrs := hs.ptrs
  store := hs.store

/-- Every action keeps the invariant. -/
theorem Inv.step (hs : Inv P s) {a : Action} (h : s.step P a = some s') : Inv P s' := by
  cases step_inv P h with
  | orchestrator ho => exact hs.orchestrator ho
  | coordinator hk hc => exact hs.coordinator hk hc
  | hasher hk ht hc => exact hs.hasher hk ht hc
  | readerDequeue => exact hs.readerDequeue
  | readComplete _ hguard => exact hs.readComplete hguard
  | writerDequeue hfifo => exact hs.writerDequeue hfifo
  | writeComplete hmem => exact hs.writeComplete hmem

/-- The invariant holds in every reachable state. -/
theorem reachable_inv (h : Transition.Reachable (Pc1.step P) init s) : Inv P s :=
  h.invariant (init_inv P) fun _ _ _ hs hstep => hs.step hstep

/-! ### Parents from disk -/

/-- The step of `read_batch` for one node. -/
lemma step_readNodes {rb : ReadBatch} {i : ℕ} (hpc : s.orch.pc = .readNodes rb i) :
    s.step P .orchestrator = some { s with
      orch := { readNode P rb i s.orch with pc := nextReadPc rb i } } := by
  simp only [Pc1.step, Orchestrator.step, hpc]

/-- A parent that is not taken from the node buffer lies on a page that the written tail has
passed. -/
lemma written_of_not_cached (hs : Inv P s) {rb : ReadBatch} {i j : ℕ}
    (hpc : s.orch.pc = .readNodes rb i)
    (hc : rb.cached P s.orch.parentIter.node j ≠ true) :
    s.written (P.G.parentNode s.orch.parentIter.node j / P.C.nodesPerPage) = true := by
  have hb := hs.cursor.batch rb i hpc
  have hlt : P.G.parentNode s.orch.parentIter.node j < rb.cacheMinCacheableNode :=
    not_le.mp fun h => hc (decide_eq_true h)
  refine hs.write.done _ (Nat.div_lt_div_of_lt_of_dvd hs.cursor.tail_dvd (hlt.trans_le ?_))
  rw [hb.cacheable]
  exact min_le_right _ _

/-- A hasher has hashed no node that was not published. -/
lemma thrNode_le {C : Config} {c : Coordinator} {h : Hasher} (hc : c.HasherInv C h)
    (hnv : coordBatchSize ∣ c.coordNextValid) : h.thrNode ≤ c.coordNextValid := by
  have hmul : coordBatchSize * c.batches = c.coordNextValid := Nat.mul_div_cancel' hnv
  have hfin : coordBatchSize * h.finished ≤ c.coordNextValid :=
    hmul ▸ Nat.mul_le_mul_left _ hc.le
  rw [hc.thrNode]
  have hact : ∀ k ≤ coordBatchSize, h.finished < c.batches →
      coordBatchSize * h.finished + k ≤ c.coordNextValid := by
    intro k hk hlt
    have := Nat.mul_le_mul_left coordBatchSize (Nat.succ_le_of_lt hlt)
    rw [hmul, Nat.succ_eq_add_one, Nat.mul_add, Nat.mul_one] at this
    omega
  cases hpc : h.pc with
  | hash i => exact hact i (hc.hash_lt i hpc).le (hc.active (.inl ⟨i, hpc⟩))
  | batchDone => exact hact _ le_rfl (hc.active (.inr hpc))
  | _ => exact hfin

/-- The place of a parent in the node buffer holds its label for the sectors of a hasher that is
past the parent and less than the size of the node buffer ahead of it. -/
lemma store_of_recorded (hs : Inv P s) {k t : ℕ} (hk : k < P.numCoordinators)
    (ht : t < P.numHashers k) {p : ℕ} (hlt : p < ((s.coords k).hashers t).thrNode)
    (hle : ((s.coords k).hashers t).thrNode ≤ p + nodeBufferBatches * P.C.nodesPerPage) {x : ℕ}
    (hx : hasherSector P k t ≤ x) (hx' : x < hasherSector P k t + nodesPerHasher) :
    s.store (p / P.C.nodesPerPage % nodeBufferBatches) (p % P.C.nodesPerPage) x = some p :=
  hs.store k hk t ht p hlt hle x hx hx'

/-- When the coordinator copies a parent that is not local, all its hashers have stored it. -/
lemma copied_parent (hs : Inv P s) {k j e q : ℕ} (hk : k < P.numCoordinators)
    (hpc : (s.coords k).pc = .copy j)
    (hptr : s.orch.sys.parentPtrs (s.coords k).idx j = .nodeBuffer e q)
    (hsync : s.orch.sys.parentPtrSyncs (s.coords k).idx j ≠ .localNode) {t x : ℕ}
    (ht : t < P.numHashers k) (hx : hasherSector P k t ≤ x)
    (hx' : x < hasherSector P k t + nodesPerHasher) :
    s.store e q x = some (P.parentOf (s.coords k).node j) := by
  have hc := hs.coord k hk
  have hrec := recorded_of_holdsNode hs hk (by rw [hpc]; rfl) ((hs.ptrs k hk).copy_lt j hpc)
  generalize s.orch.sys.parentPtrs (s.coords k).idx j = ptr at hrec hptr
  generalize s.orch.sys.parentPtrSyncs (s.coords k).idx j = sync at hrec hsync
  cases hrec with
  | null => cases hptr
  | disk => cases hptr
  | cached hlt hwindow hs' =>
    cases hptr
    have hfar : P.parentOf (s.coords k).node j + coordBatchNodeCount ≤ (s.coords k).node := by
      by_contra hnear
      rw [if_pos (by omega)] at hs'
      exact hsync hs'
    have hpos := hc.run.pos
    simp only [Coordinator.NodePos, hpc] at hpos
    have hthr := thrNode_le (hc.hasher t ht) hc.run.nextValid
    exact store_of_recorded hs hk ht (Coordinator.lt_thrNode_of_copy hc ht hpc hfar) (by omega)
      hx hx'

/-- When a hasher follows a pointer it was handed, it has stored the parent itself. -/
lemma local_parent (hs : Inv P s) {k t i j e q : ℕ} (hk : k < P.numCoordinators)
    (ht : t < P.numHashers k) (hpc : ((s.coords k).hashers t).pc = .hash i) (hj : j < parentCount)
    (hptr : (s.coords k).coordRingPtrs ((s.coords k).hashers t).coordIdx (i * parentCount + j) =
      .nodeBuffer e q) {x : ℕ} (hx : hasherSector P k t ≤ x)
    (hx' : x < hasherSector P k t + nodesPerHasher) :
    s.store e q x = some (P.parentOf ((s.coords k).hashers t).thrNode j) := by
  have hc := hs.coord k hk
  have hh := hc.hasher t ht
  have hi := hh.hash_lt i hpc
  have hthr := hh.thrNode
  rw [hpc, HasherPc.offset] at hthr
  set n := ((s.coords k).hashers t).thrNode with hn
  set f := ((s.coords k).hashers t).finished with hf
  have hdiv : n / coordBatchSize = f := by
    rw [hthr, Nat.mul_add_div (by decide), Nat.div_eq_of_lt hi, Nat.add_zero]
  have hmod : n % coordBatchSize = i := by
    rw [hthr, Nat.mul_add_mod, Nat.mod_eq_of_lt hi]
  have hready : Handed P n j ((s.coords k).ringEntry n j) := by
    refine (hs.ptrs k hk).ready n ?_ ?_ j hj
    · have hret := (Coordinator.released_le_retired _).trans (hc.done.retired_le t ht)
      exact (Nat.mul_le_mul_left _ hret).trans (hthr ▸ Nat.le_add_right _ _)
    · have hact := hh.active (.inl ⟨i, hpc⟩)
      have hmul := Nat.mul_le_mul_left coordBatchSize (Nat.succ_le_of_lt hact)
      rw [Coordinator.batches, Nat.mul_div_cancel' hc.run.nextValid, ← hf, Nat.succ_eq_add_one,
        Nat.mul_add, Nat.mul_one] at hmul
      have := Coordinator.coordNextValid_le_filled hc.run
      omega
  rw [Coordinator.ringEntry, hdiv, hmod, ← hh.coordIdx, hptr] at hready
  obtain ⟨src, sync, hrec, hring⟩ := hready
  cases hrec with
  | null => cases hring
  | disk =>
    simp only [Coordinator.ringPtr] at hring
    cases hring
  | cached hlt hwindow hs' =>
    split_ifs at hs' with hnear <;> subst hs' <;> simp only [Coordinator.ringPtr] at hring
    · cases hring
      exact store_of_recorded hs hk ht hlt hwindow.le hx hx'
    · cases hring

end Pc1

end SupraSeal
