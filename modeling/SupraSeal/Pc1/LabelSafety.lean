import SupraSeal.Pc1.LabelPlaces

/-!
# PC1 computes the labels

In every run that reads all nodes with their own requests, a place of the node buffer holds the label of
the node that was stored there, a copy is the label of its parent, and a page on disk holds the labels
of its nodes: those that the graph defines, in every sector and whatever the order of the steps.
-/

namespace SupraSeal

open Orchestrator LabelPc1

/-- The copy of parent `j` of node `m` in the ring of coordinator `k` is its label, where the hashers
get no pointer to it. -/
def Copied (P : Setup) (label : ℕ → ℕ → Node) (ring : ℕ → ℕ → ℕ → Node) (k m j : ℕ)
    (ptr : NodePtr) : Prop :=
  ptr = .null → P.C.node m ≠ 0 → ∀ x < P.numHashers k * nodesPerHasher,
    ring (m / coordBatchSize % coordBatchCount) (m % coordBatchSize * parentCount + j) x =
      label (P.parentOf m j) (Pc1.startSector P k + x)

/-- A copy that a step leaves alone. -/
lemma Copied.congr {P : Setup} {label : ℕ → ℕ → Node} {ring ring' : ℕ → ℕ → ℕ → Node} {k m j : ℕ}
    {ptr : NodePtr} (h : Copied P label ring k m j ptr)
    (heq : ring' (m / coordBatchSize % coordBatchCount) (m % coordBatchSize * parentCount + j) =
      ring (m / coordBatchSize % coordBatchCount) (m % coordBatchSize * parentCount + j)) :
    Copied P label ring' k m j ptr := by
  intro hnull hnode x hx
  rw [heq]
  exact h hnull hnode x hx

/-- The memory holds the labels. -/
structure LabelInv (P : Setup) (replicaIds : ℕ → BitVec 32) (s : LabelPc1) : Prop where
  pages : PageInv P s.threads.orch s.threads.written
  requests : RequestInv P (sdrLabel P replicaIds) s
  ids : ∀ k < P.numCoordinators, ∀ t < P.numHashers k,
    ReplicaIdBuffer.Ready replicaIds (hasherIndex P k t) (s.memory.replicaIdBuffer k t)
  nodes : ∀ e i x n, s.threads.store e i x = some n →
    s.memory.nodeBuffer e i x = sdrLabel P replicaIds n x
  copies : ∀ k < P.numCoordinators,
    (s.threads.coords k).PtrInv (Copied P (sdrLabel P replicaIds) (s.memory.coordRing k) k)
  disk : ∀ m, s.threads.written m = true →
    HoldsPage P (sdrLabel P replicaIds) (s.memory.disk m) m
  saved : ∀ w ∈ s.saved, HoldsPage P (sdrLabel P replicaIds)
    (s.memory.disk (w.2 / P.C.nodesPerPage)) (w.2 / P.C.nodesPerPage)

/-- The steps that read a node with its own requests. -/
def LabelPc1.ReadsClean (P : Setup) (s : LabelPc1) : LabelPc1.Action → Prop
  | .thread a => Pc1.ReadsClean P s.threads a
  | _ => True

namespace LabelInv

variable {P : Setup} {replicaIds : ℕ → BitVec 32} {rest : ℕ → ShaPtr} {s s' : LabelPc1}
  {mem : LabelMemory}

lemma init : LabelInv P replicaIds (LabelPc1.init P replicaIds mem) where
  pages := .init
  requests := .init
  ids k _ t _ := ReplicaIdBuffer.ready_foldl []
  nodes e i x n h := by cases h
  copies k _ := by
    refine ⟨fun m _ hm => absurd hm (Nat.not_lt_zero m), ?_, ?_⟩ <;>
      simp [LabelPc1.init, Pc1.init, Coordinator.init]
  disk m h := by cases h
  saved w h := absurd h List.not_mem_nil

/-- Layer and node of a node to be sealed fit into the words of the location. -/
lemma location_lt (hbits : P.C.nodeBits ≤ 32) (hlayers : P.C.numLayers < 2 ^ 32) {id : ℕ}
    (hid : id < P.C.nodeStop) : P.C.layer id + 1 < 2 ^ 32 ∧ P.C.node id < 2 ^ 32 := by
  have hpos := P.C.numNodes_pos
  have hle : P.C.numNodes ≤ 2 ^ 32 := Nat.pow_le_pow_right (by decide) hbits
  constructor
  · have hlt : P.C.layer id < P.C.numLayers := by
      rw [Config.layer, Nat.shiftRight_eq_div_pow]
      exact Nat.div_lt_of_lt_mul hid
    exact (Nat.succ_le_of_lt hlt).trans_lt hlayers
  · rw [P.C.node_eq_mod]
    exact (Nat.mod_lt _ hpos).trans_le hle

/-! ### Copies -/

/-- What the coordinator hands on when it copies a parent, and the copy that goes with it. -/
lemma copied_of_copyParent (hs : Pc1.Inv P s.threads) (hread : Pc1.ReaderInv P s.threads)
    (hl : LabelInv P replicaIds s) {k j : ℕ} (hk : k < P.numCoordinators)
    (hpc : (s.threads.coords k).pc = .copy j) (hj : j < parentCount) :
    Copied P (sdrLabel P replicaIds) ((s.memory.copyParent P s.threads.orch.sys k
      (s.threads.coords k) j).coordRing k) k (s.threads.coords k).node j
        (Coordinator.ringPtr (s.threads.orch.sys.parentPtrs (s.threads.coords k).idx j)
          (s.threads.orch.sys.parentPtrSyncs (s.threads.coords k).idx j)) := by
  have hc := hs.coord k hk
  have hholds : (s.threads.coords k).pc.holdsNode = true := by rw [hpc]; rfl
  have hrec := Pc1.recorded_of_holdsNode hs hk hholds hj
  have hlt := (hs.behind k hk).holds hholds
  have htail := (hs.cursor.parents_le k hk).trans
    (hc.done.reported_node (Pc1.numHashers_pos P hk))
  have hidx := hc.run.idx
  have hself : ∀ {src : ℕ → Node}, _ → _ → ∀ x < P.numHashers k * nodesPerHasher,
      (s.memory.copyParent P s.threads.orch.sys k (s.threads.coords k) j).coordRing k
        (s.threads.coords k).coordBatchIdx ((s.threads.coords k).curBatchCount * parentCount + j) x =
          src (Pc1.startSector P k + x) :=
    fun hload hsync x hx => LabelMemory.copyParent_self hload hsync hx
  have hcached : ∀ {e q : ℕ}, _ → _ → ∀ {t x : ℕ}, t < P.numHashers k →
      Pc1.hasherSector P k t ≤ x → x < Pc1.hasherSector P k t + nodesPerHasher →
        s.threads.store e q x = some (P.parentOf (s.threads.coords k).node j) :=
    fun hptr hsync _ _ ht hx hx' => Pc1.copied_parent hs hk hpc hptr hsync ht hx hx'
  obtain ⟨hslot, hentry⟩ := (Coordinator.place_eq_iff hc.run hpc hj
    (Coordinator.released_le_node hc (Pc1.numHashers_pos P hk) hpc) le_rfl hj).mpr ⟨rfl, rfl⟩
  intro hnull hnode x hx
  rw [hslot, hentry]
  have hptr := hl.pages.ptr _ htail hlt hnode j hj
  have hplace := hl.pages.place _ htail hlt j hj
  rw [← hidx] at hptr hplace
  generalize s.threads.orch.sys.parentPtrs (s.threads.coords k).idx j = ptr at *
  generalize s.threads.orch.sys.parentPtrSyncs (s.threads.coords k).idx j = sync at *
  cases hrec with
  | null => exact absurd rfl hptr
  | disk slot page i =>
    obtain ⟨h0, rfl, rfl, rfl, htype⟩ := hplace slot page i rfl
    have hvalid := (hread.passed k hk).holds hholds htail
    rw [hidx] at htype
    have hpage := hl.requests.holdsPage hread htail hlt h0 hvalid (Nat.lt_of_succ_lt_succ hj) htype
    rw [hself rfl (by simp) x hx, hidx]
    obtain ⟨t, ht, lane, hlane, -, heq⟩ := Pc1.exists_lane P hx
    rw [heq]
    exact hpage.node (Pc1.lane_lt P hk ht hlane)
  | cached hlt' hwindow hs' =>
    split_ifs at hs' with hnear
    · subst hs'
      cases hnull
    · subst hs'
      obtain ⟨t, ht, lane, hlane, -, heq⟩ := Pc1.exists_lane P hx
      rw [hself rfl (by simp) x hx, heq]
      exact hl.nodes _ _ _ _ (hcached rfl (by simp) ht (Nat.le_add_right _ _)
        (Nat.add_lt_add_left hlane _))

/-- Copying one parent keeps the copies of the others. -/
lemma copies_copyParent (hs : Pc1.Inv P s.threads) (hl : LabelInv P replicaIds s) {k j : ℕ}
    (hk : k < P.numCoordinators) (hpc : (s.threads.coords k).pc = .copy j) (hj : j < parentCount) :
    (s.threads.coords k).PtrInv (Copied P (sdrLabel P replicaIds) ((s.memory.copyParent P
      s.threads.orch.sys k (s.threads.coords k) j).coordRing k) k) := by
  have hc := hs.coord k hk
  have hp := hl.copies k hk
  have hrel := Coordinator.released_le_node hc (Pc1.numHashers_pos P hk) hpc
  have hfilled : (s.threads.coords k).filled = (s.threads.coords k).node := by
    rw [Coordinator.filled, hpc]
  have hother : ∀ {m i : ℕ}, coordBatchSize * (s.threads.coords k).released ≤ m →
      m ≤ (s.threads.coords k).node → i < parentCount → ¬(m = (s.threads.coords k).node ∧ i = j) →
      (s.memory.copyParent P s.threads.orch.sys k (s.threads.coords k) j).coordRing k
        (m / coordBatchSize % coordBatchCount) (m % coordBatchSize * parentCount + i) =
          s.memory.coordRing k (m / coordBatchSize % coordBatchCount)
            (m % coordBatchSize * parentCount + i) := by
    intro m i hm hmn hi hne
    apply LabelMemory.copyParent_of_ne
    rwa [Coordinator.place_eq_iff hc.run hpc hj hm hmn hi]
  constructor
  · intro m hm hmf i hi
    rw [hfilled] at hmf
    refine Copied.congr (hp.ready m hm (hfilled ▸ hmf) i hi) (hother hm hmf.le hi ?_)
    exact fun h => absurd h.1 hmf.ne
  · intro j' hpc' i hi
    obtain rfl : j = j' := CoordPc.copy.inj (hpc.symm.trans hpc')
    refine Copied.congr (hp.copied j hpc i hi) (hother hrel le_rfl (hi.trans hj) ?_)
    exact fun h => absurd h.2 hi.ne
  · exact hp.copy_lt

/-! ### The steps of the threads -/

/-- A step of a coordinator or of one of its hashers. -/
lemma setCoord (hl : LabelInv P replicaIds s) {k : ℕ} {c : Coordinator}
    {store : ℕ → ℕ → ℕ → Option ℕ} {mem : LabelMemory}
    (hpages : mem.parentBuffer = s.memory.parentBuffer) (hdisk : mem.disk = s.memory.disk)
    (hrings : ∀ k' ≠ k, mem.coordRing k' = s.memory.coordRing k')
    (hids : ∀ k < P.numCoordinators, ∀ t < P.numHashers k,
      ReplicaIdBuffer.Ready replicaIds (hasherIndex P k t) (mem.replicaIdBuffer k t))
    (hnodes : ∀ e i x n, store e i x = some n →
      mem.nodeBuffer e i x = sdrLabel P replicaIds n x)
    (hcopies : c.PtrInv (Copied P (sdrLabel P replicaIds) (mem.coordRing k) k)) :
    LabelInv P replicaIds { s with
      threads := { s.threads with coords := Function.update s.threads.coords k c, store := store }
      memory := mem } where
  pages := hl.pages
  requests := hl.requests.frame hpages rfl rfl rfl rfl rfl fun _ => id
  ids := hids
  nodes := hnodes
  copies k' hk' := by
    show (Function.update s.threads.coords k c k').PtrInv (Copied P _ (mem.coordRing k') k')
    by_cases heq : k' = k
    · subst heq
      rwa [Function.update_self]
    · rw [Function.update_of_ne heq, hrings k' heq]
      exact hl.copies k' hk'
  disk := by
    show ∀ m, _ → HoldsPage P _ (mem.disk m) m
    rw [hdisk]
    exact hl.disk
  saved := by
    show ∀ w ∈ s.saved, HoldsPage P _ (mem.disk _) _
    rw [hdisk]
    exact hl.saved

lemma coordinator (hs : Pc1.Inv P s.threads) (hread : Pc1.ReaderInv P s.threads)
    (hl : LabelInv P replicaIds s) {k : ℕ} (hk : k < P.numCoordinators) {c : Coordinator}
    (h : (s.threads.coords k).step (P.numHashers k) P.nodeStop (Pc1.view s.threads.orch.sys) =
      some c) :
    LabelInv P replicaIds { s.effect P rest (.coordinator k) with
      threads := { s.threads with coords := Function.update s.threads.coords k c } } := by
  have hc := hs.coord k hk
  have hcomp := Coordinator.completedNode_le hc.run hc.hasher hc.done (Pc1.numHashers_pos P hk)
  by_cases hcopy : ∃ j, (s.threads.coords k).pc = .copy j
  · obtain ⟨j, hpc⟩ := hcopy
    have hj := (hl.copies k hk).copy_lt j hpc
    have heffect : s.effect P rest (.coordinator k) = { s with
        memory := s.memory.copyParent P s.threads.orch.sys k (s.threads.coords k) j } := by
      simp only [LabelPc1.effect, hpc]
    have hnew := (copies_copyParent hs hl hk hpc hj).step hc.run hcomp (v :=
      Pc1.view s.threads.orch.sys) (fun j' hpc' hj' => by
        obtain rfl : j = j' := CoordPc.copy.inj (hpc.symm.trans hpc')
        exact copied_of_copyParent hs hread hl hk hpc hj') h
    rw [heffect]
    obtain ⟨ring, hring⟩ : ∃ ring, s.memory.copyParent P s.threads.orch.sys k (s.threads.coords k) j =
        { s.memory with coordRing := Function.update s.memory.coordRing k ring } :=
      LabelMemory.copyParent_frame
    rw [hring] at hnew ⊢
    exact hl.setCoord rfl rfl (fun k' hne => Function.update_of_ne hne _ _) hl.ids hl.nodes hnew
  · have heffect : s.effect P rest (.coordinator k) = s := by
      rw [LabelPc1.effect]
      split
      next j hpc => exact absurd ⟨j, hpc⟩ hcopy
      next => rfl
    rw [heffect]
    refine hl.setCoord rfl rfl (fun _ _ => rfl) hl.ids hl.nodes ((hl.copies k hk).step hc.run hcomp
      (fun j hpc => absurd ⟨j, hpc⟩ hcopy) h)

/-- Every parent that a lane of a hasher sees is the label of that parent. -/
lemma seenParent_eq (hs : Pc1.Inv P s.threads) (hl : LabelInv P replicaIds s) {k t i lane j : ℕ}
    (hk : k < P.numCoordinators) (ht : t < P.numHashers k)
    (hpc : ((s.threads.coords k).hashers t).pc = .hash i) (hlane : lane < nodesPerHasher)
    (hnode : P.C.node ((s.threads.coords k).hashers t).thrNode ≠ 0) (hj : j < parentCount) :
    seenParent
      (fun j => s.memory.coordRing k ((s.threads.coords k).hashers t).coordIdx (i * parentCount + j))
      (fun j => s.memory.load ((s.threads.coords k).coordRingPtrs
        ((s.threads.coords k).hashers t).coordIdx (i * parentCount + j)))
      (Pc1.hasherSector P k t) t lane j =
        sdrLabel P replicaIds (P.parentOf ((s.threads.coords k).hashers t).thrNode j)
          (Pc1.hasherSector P k t + lane) := by
  have hc := hs.coord k hk
  obtain ⟨hrel, hlt, hslot, hmod⟩ := Coordinator.place_of_hash hc ht hpc
  have hfill := hlt.trans_le (Coordinator.coordNextValid_le_filled hc.run)
  have hcopied := (hl.copies k hk).ready _ hrel hfill j hj
  have hhanded := (hs.ptrs k hk).ready _ hrel hfill j hj
  rw [Coordinator.ringEntry, hslot, hmod] at hcopied hhanded
  rw [seenParent]
  cases hptr : (s.threads.coords k).coordRingPtrs ((s.threads.coords k).hashers t).coordIdx
    (i * parentCount + j) with
  | null =>
    have hx : t * nodesPerHasher + lane < P.numHashers k * nodesPerHasher :=
      calc t * nodesPerHasher + lane < t * nodesPerHasher + nodesPerHasher :=
            Nat.add_lt_add_left hlane _
        _ = (t + 1) * nodesPerHasher := (Nat.succ_mul ..).symm
        _ ≤ P.numHashers k * nodesPerHasher := Nat.mul_le_mul_right _ ht
    have hcopy := hcopied hptr hnode _ hx
    rw [hslot, hmod] at hcopy
    rw [Pc1.hasherSector, Nat.add_assoc, Nat.mul_comm nodesPerHasher t]
    exact hcopy
  | nodeBuffer e q =>
    exact hl.nodes _ _ _ _ (Pc1.local_parent hs hk ht hpc hj hptr (Nat.le_add_right _ _)
      (Nat.add_lt_add_left hlane _))
  | parentBuffer slot page q =>
    -- a page of the parent buffer is copied, the hashers get no pointer into it
    rw [hptr] at hhanded
    obtain ⟨src, sync, hrec, hring⟩ := hhanded
    cases hrec with
    | null => cases hring
    | disk =>
      simp only [Coordinator.ringPtr] at hring
      cases hring
    | cached _ _ hs' =>
      split_ifs at hs' <;> subst hs' <;> simp only [Coordinator.ringPtr] at hring <;> cases hring

/-- A hasher stores the labels of its node. -/
lemma blocksNode_hashNode (hs : Pc1.Inv P s.threads) (hl : LabelInv P replicaIds s)
    (hbits : P.C.nodeBits ≤ 32) (hlayers : P.C.numLayers < 2 ^ 32) (hstop : P.nodeStop ≤ P.C.nodeStop)
    {k t i lane : ℕ} (hk : k < P.numCoordinators) (ht : t < P.numHashers k)
    (hpc : ((s.threads.coords k).hashers t).pc = .hash i) (hlane : lane < nodesPerHasher) :
    blocksNode ((Coordinator.hash P.C ((s.threads.coords k).hashers t).thrNode
      (fun j => s.memory.coordRing k ((s.threads.coords k).hashers t).coordIdx (i * parentCount + j))
      (fun j => s.memory.load ((s.threads.coords k).coordRingPtrs
        ((s.threads.coords k).hashers t).coordIdx (i * parentCount + j)))
      rest (Pc1.hasherSector P k t) t (s.memory.replicaIdBuffer k t)).2 lane) =
        sdrLabel P replicaIds ((s.threads.coords k).hashers t).thrNode
          (Pc1.hasherSector P k t + lane) := by
  have hc := hs.coord k hk
  obtain ⟨-, hlt, -, -⟩ := Coordinator.place_of_hash hc ht hpc
  have hid := hlt.trans_le ((Coordinator.coordNextValid_le hc.run).trans hstop)
  obtain ⟨hlayer, hnode⟩ := location_lt hbits hlayers hid
  rw [blocksNode_hash hlane (hl.ids k hk t ht) hlayer hnode, sdrLabel_eq, labelFrom, labelFrom,
    labelMessage_congr]
  exact fun h0 j hj => seenParent_eq hs hl hk ht hpc hlane h0 hj

lemma hasher (hs : Pc1.Inv P s.threads) (hl : LabelInv P replicaIds s)
    (hbits : P.C.nodeBits ≤ 32) (hlayers : P.C.numLayers < 2 ^ 32) (hstop : P.nodeStop ≤ P.C.nodeStop)
    {k t : ℕ} (hk : k < P.numCoordinators) (ht : t < P.numHashers k) {c : Coordinator}
    (h : (s.threads.coords k).hasherStep P.C P.nodeStop t = some c) :
    LabelInv P replicaIds { s.effect P rest (.hasher k t) with
      threads := { s.threads with
        coords := Function.update s.threads.coords k c
        store :=
          match ((s.threads.coords k).hashers t).pc with
          | .hash _ => Pc1.hashOut s.threads.store ((s.threads.coords k).hashers t).nodeIdx
              (P.C.node ((s.threads.coords k).hashers t).thrNode % P.C.nodesPerPage)
              (Pc1.hasherSector P k t) ((s.threads.coords k).hashers t).thrNode
          | _ => s.threads.store } } := by
  have hcopies := (hl.copies k hk).hasherStep h
  cases hpc : ((s.threads.coords k).hashers t).pc with
  | hash i =>
    simp only [LabelPc1.effect, hpc]
    refine hl.setCoord rfl rfl (fun _ _ => rfl) ?_ ?_ hcopies
    · intro k' hk' t' ht'
      have hready := hl.ids k' hk' t' ht'
      show ReplicaIdBuffer.Ready _ _ (setEntry s.memory.replicaIdBuffer k t _ k' t')
      rw [hash_fst, setEntry]
      by_cases heq : k' = k
      · subst heq
        rw [Function.update_self]
        by_cases heq : t' = t
        · subst heq
          rw [Function.update_self]
          exact hready.setLoc _ _
        · rwa [Function.update_of_ne heq]
      · rwa [Function.update_of_ne heq]
    · intro e q x n hn
      simp only [LabelMemory.hashNode, storeLabels]
      rw [Pc1.hashOut] at hn
      by_cases hmine : e = ((s.threads.coords k).hashers t).nodeIdx ∧
          q = P.C.node ((s.threads.coords k).hashers t).thrNode % P.C.nodesPerPage ∧
            Pc1.hasherSector P k t ≤ x ∧ x < Pc1.hasherSector P k t + nodesPerHasher
      · rw [if_pos hmine] at hn ⊢
        cases hn
        have hlane : x - Pc1.hasherSector P k t < nodesPerHasher :=
          Nat.sub_lt_left_of_lt_add hmine.2.2.1 hmine.2.2.2
        rw [blocksNode_hashNode hs hl hbits hlayers hstop hk ht hpc hlane,
          Nat.add_sub_cancel' hmine.2.2.1]
      · rw [if_neg hmine] at hn ⊢
        exact hl.nodes e q x n hn
  | _ =>
    simp only [LabelPc1.effect, hpc]
    exact hl.setCoord rfl rfl (fun _ _ => rfl) hl.ids hl.nodes hcopies

lemma orchestrator (hs : Pc1.Inv P s.threads) (hread : Pc1.ReaderInv P s.threads)
    (hl : LabelInv P replicaIds s) (hok : Pc1.ReadsClean P s.threads .orchestrator)
    {o : Orchestrator}
    (h : s.threads.orch.step P (fun k => (s.threads.coords k).coordinatorNode) = some o) :
    LabelInv P replicaIds { s with threads := { s.threads with orch := o } } where
  pages := hl.pages.step hs.cursor (fun rb i hpc => (hok rb i hpc).layerStart)
    (fun _ _ _ hpc hc => Pc1.written_of_not_cached hs hpc hc) h
  requests := hl.requests.orchestrator hs (hread.orchestrator hs hok h).acc h
  ids := hl.ids
  nodes := hl.nodes
  copies := hl.copies
  disk := hl.disk
  saved := hl.saved

lemma readerDequeue (hs : Pc1.Inv P s.threads) (hread : Pc1.ReaderInv P s.threads)
    (hl : LabelInv P replicaIds s) {slot : ℕ} {fifo : List ℕ}
    (hfifo : s.threads.orch.sys.parentReadFifo = slot :: fifo) :
    LabelInv P replicaIds { s with
      threads := { s.threads with
        orch := { s.threads.orch with sys := { s.threads.orch.sys with parentReadFifo := fifo } }
        readsInFlight := s.threads.readsInFlight ++ Pc1.batchReads s.threads.orch.sys slot }
      reads := s.reads ++ batchRequests s.threads.orch.sys slot } where
  pages := hl.pages.frame rfl rfl le_rfl rfl fun _ => id
  requests := hl.requests.readerDequeue hs hread hl.pages hfifo
  ids := hl.ids
  nodes := hl.nodes
  copies := hl.copies
  disk := hl.disk
  saved := hl.saved

lemma readComplete (hs : Pc1.Inv P s.threads) (hl : LabelInv P replicaIds s) {slot j : ℕ}
    (hready : s.transferred (.readComplete slot j) = true) :
    LabelInv P replicaIds { s with
      threads := { s.threads with
        orch := { s.threads.orch with
          sys := { s.threads.orch.sys with
            parentBuffer := s.threads.orch.sys.parentBuffer.incrValid slot 1 } }
        readsInFlight := s.threads.readsInFlight.erase (slot, j) }
      fetched := s.fetched.eraseP fun r => r.key = (slot, j) } where
  pages := hl.pages.frame rfl rfl le_rfl rfl fun _ => id
  requests := hl.requests.readComplete hs hready
  ids := hl.ids
  nodes := hl.nodes
  copies := hl.copies
  disk := hl.disk
  saved := hl.saved

lemma writerDequeue (hl : LabelInv P replicaIds s) {slot : ℕ} {fifo : List ℕ} :
    LabelInv P replicaIds { s with
      threads := { s.threads with
        orch := { s.threads.orch with sys := { s.threads.orch.sys with nodeWriteFifo := fifo } }
        writesInFlight := s.threads.writesInFlight ++
          [(slot, s.threads.orch.sys.nodeBufferIo slot)] } } where
  pages := hl.pages.frame rfl rfl le_rfl rfl fun _ => id
  requests := hl.requests.frame rfl rfl rfl rfl rfl rfl fun _ => id
  ids := hl.ids
  nodes := hl.nodes
  copies := hl.copies
  disk := hl.disk
  saved := hl.saved

/-- A write completes after its page has gone to disk. -/
lemma writeComplete (hl : LabelInv P replicaIds s) {slot node : ℕ}
    (hready : s.transferred (.writeComplete slot node) = true) :
    LabelInv P replicaIds { s with
      threads := { s.threads with
        orch := { s.threads.orch with
          sys := { s.threads.orch.sys with
            nodeBuffer := s.threads.orch.sys.nodeBuffer.incrValid slot 1 } }
        writesInFlight := s.threads.writesInFlight.erase (slot, node)
        written := Function.update s.threads.written (node / P.C.nodesPerPage) true }
      saved := s.saved.erase (slot, node) } := by
  have hmono : ∀ m, s.threads.written m = true →
      Function.update s.threads.written (node / P.C.nodesPerPage) true m = true := by
    intro m hm
    rw [Function.update_apply]
    split_ifs
    · rfl
    · exact hm
  constructor
  · exact hl.pages.frame rfl rfl le_rfl rfl hmono
  · exact hl.requests.frame rfl rfl rfl rfl rfl rfl hmono
  · exact hl.ids
  · exact hl.nodes
  · exact hl.copies
  · intro m hm
    have hm : Function.update s.threads.written (node / P.C.nodesPerPage) true m = true := hm
    by_cases heq : m = node / P.C.nodesPerPage
    · subst heq
      exact hl.saved (slot, node) (List.contains_iff_mem.mp hready)
    · rw [Function.update_of_ne heq] at hm
      exact hl.disk m hm
  · intro w hw
    exact hl.saved w (List.mem_of_mem_erase hw)

/-! ### The transfers -/

lemma fetch (hs : Pc1.Inv P s.threads) (hl : LabelInv P replicaIds s) {r : ReadRequest}
    (hmem : r ∈ s.reads) :
    LabelInv P replicaIds { s with
      memory := s.memory.fetch P r
      reads := s.reads.erase r
      fetched := s.fetched ++ [r] } where
  pages := hl.pages
  requests := hl.requests.fetch hs hl.disk hmem
  ids := hl.ids
  nodes := hl.nodes
  copies := hl.copies
  disk := hl.disk
  saved := hl.saved

/-- A page that is written holds the labels of its nodes. -/
lemma holdsPage_of_mem (hs : Pc1.Inv P s.threads) (hl : LabelInv P replicaIds s) {slot node : ℕ}
    (hmem : (slot, node) ∈ s.threads.writesInFlight) :
    HoldsPage P (sdrLabel P replicaIds) (s.memory.nodeBuffer slot) (node / P.C.nodesPerPage) := by
  obtain ⟨m, hm, heq⟩ := hs.write.flight _ hmem
  obtain ⟨rfl, rfl⟩ := Prod.mk.inj heq
  rw [Nat.mul_div_cancel _ P.C.nodesPerPage_pos]
  intro i hi x hx
  exact hl.nodes _ _ _ _ (Pc1.store_of_issued hs hm hi hx)

lemma save (hs : Pc1.Inv P s.threads) (hl : LabelInv P replicaIds s) {slot node : ℕ}
    (hmem : (slot, node) ∈ s.threads.writesInFlight) :
    LabelInv P replicaIds { s with
      memory := s.memory.save P slot node
      saved := s.saved ++ [(slot, node)] } := by
  have hpage := holdsPage_of_mem hs hl hmem
  have hkeep : ∀ m, HoldsPage P (sdrLabel P replicaIds) (s.memory.disk m) m →
      HoldsPage P (sdrLabel P replicaIds) ((s.memory.save P slot node).disk m) m := by
    intro m hm
    show HoldsPage P _ (Function.update s.memory.disk (node / P.C.nodesPerPage) _ m) m
    by_cases heq : m = node / P.C.nodesPerPage
    · subst heq
      rwa [Function.update_self]
    · rwa [Function.update_of_ne heq]
  constructor
  · exact hl.pages
  · have hpages : (s.memory.save P slot node).parentBuffer = s.memory.parentBuffer := rfl
    exact hl.requests.frame hpages rfl rfl rfl rfl rfl fun _ => id
  · exact hl.ids
  · exact hl.nodes
  · exact hl.copies
  · exact fun m hm => hkeep m (hl.disk m hm)
  · intro w hw
    have hw : w ∈ s.saved ++ [(slot, node)] := hw
    rw [List.mem_append, List.mem_singleton] at hw
    rcases hw with hw | rfl
    · exact hkeep _ (hl.saved w hw)
    · show HoldsPage P _ (Function.update s.memory.disk (node / P.C.nodesPerPage) _ _) _
      rwa [Function.update_self]

/-- Every step keeps the labels. -/
lemma step (hbits : P.C.nodeBits ≤ 32) (hlayers : P.C.numLayers < 2 ^ 32)
    (hstop : P.nodeStop ≤ P.C.nodeStop) (hs : Pc1.Inv P s.threads)
    (hread : Pc1.ReaderInv P s.threads) (hl : LabelInv P replicaIds s) {a : LabelPc1.Action}
    (hok : LabelPc1.ReadsClean P s a) (h : s.step P rest a = some s') : LabelInv P replicaIds s' := by
  cases step_inv h with
  | thread hready hstep =>
    cases Pc1.step_inv P hstep with
    | orchestrator ho => exact orchestrator hs hread hl hok ho
    | coordinator hk hc => exact coordinator hs hread hl hk hc
    | hasher hk ht hc => exact hasher hs hl hbits hlayers hstop hk ht hc
    | readerDequeue hfifo =>
      simp only [LabelPc1.effect, hfifo]
      exact readerDequeue hs hread hl hfifo
    | readComplete => exact readComplete hs hl hready
    | writerDequeue => exact hl.writerDequeue
    | writeComplete => exact hl.writeComplete hready
  | fetch hmem => exact fetch hs hl hmem
  | save hmem => exact save hs hl hmem

end LabelInv

end SupraSeal
