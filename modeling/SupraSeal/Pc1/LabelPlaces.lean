import SupraSeal.Pc1.HashNode
import SupraSeal.Pc1.LabelRequests

/-!
# Where the labels are

The three places a hasher takes the labels of the parents from: the node buffer, the pages of the
parent buffer and the copies of its coordinator. As long as the node buffer holds the labels it is
said to hold, so does a page that is handed to the writer; and a copy that was made stays until
every hasher is done with it.
-/

namespace SupraSeal

open Orchestrator

/-! ### The ring of a coordinator -/

namespace Coordinator

variable {C : Config} {numThreads nodeStop : ℕ} {c : Coordinator}

/-- A place of the ring belongs to one parent of one node. -/
lemma place_eq_iff (hrun : c.RunInv nodeStop) {k : ℕ} (hpc : c.pc = .copy k) (hk : k < parentCount)
    {m j : ℕ} (hm : coordBatchSize * c.released ≤ m) (hmn : m ≤ c.node) (hj : j < parentCount) :
    (m / coordBatchSize % coordBatchCount = c.coordBatchIdx ∧
      m % coordBatchSize * parentCount + j = c.curBatchCount * parentCount + k) ↔
        m = c.node ∧ j = k := by
  -- a value that is put into the place of parent `k` is found in the place of parent `j`
  have hput := fun ptr => ringEntry_copy hrun hpc hk ptr hm hmn hj
  constructor
  · rintro ⟨hslot, hentry⟩
    by_contra hne
    have hnew : ∀ ptr, ptr = c.ringEntry m j := by
      intro ptr
      have h := hput ptr
      rwa [hslot, hentry, Function.update_self, Function.update_self, if_neg hne] at h
    cases (hnew .null).trans (hnew (.nodeBuffer 0 0)).symm
  · intro heq
    by_contra hne
    have hold : ∀ ptr, c.ringEntry m j = ptr := by
      intro ptr
      have h := hput ptr
      rw [if_pos heq] at h
      rw [← h, ringEntry]
      by_cases hslot : m / coordBatchSize % coordBatchCount = c.coordBatchIdx
      · rw [hslot, Function.update_self,
          Function.update_of_ne fun hentry => hne ⟨hslot, hentry⟩]
      · rw [Function.update_of_ne hslot]
    cases (hold .null).symm.trans (hold (.nodeBuffer 0 0))

/-- The node whose parents are copied lies in a batch that is not released. -/
lemma released_le_node (hc : c.Inv C numThreads nodeStop) (hpos : 0 < numThreads) {k : ℕ}
    (hpc : c.pc = .copy k) : coordBatchSize * c.released ≤ c.node := by
  have hnode := hc.run.pos
  rw [NodePos, hpc] at hnode
  calc coordBatchSize * c.released ≤ c.completedNode := Nat.mul_div_le _ _
    _ ≤ c.coordNextValid := completedNode_le hc.run hc.hasher hc.done hpos
    _ ≤ c.node := Nat.le_of_add_right_le hnode.1.ge

/-- The node that a hasher hashes is one that the coordinator has filled. -/
lemma place_of_hash (hc : c.Inv C numThreads nodeStop) {t i : ℕ} (ht : t < numThreads)
    (hpc : (c.hashers t).pc = .hash i) :
    coordBatchSize * c.released ≤ (c.hashers t).thrNode ∧
      (c.hashers t).thrNode < c.coordNextValid ∧
      (c.hashers t).thrNode / coordBatchSize % coordBatchCount = (c.hashers t).coordIdx ∧
      (c.hashers t).thrNode % coordBatchSize = i := by
  have hh := hc.hasher t ht
  have hi := hh.hash_lt i hpc
  have hthr := hh.thrNode
  rw [hpc, HasherPc.offset] at hthr
  have hdiv : (c.hashers t).thrNode / coordBatchSize = (c.hashers t).finished := by
    rw [hthr, Nat.mul_add_div (by decide), Nat.div_eq_of_lt hi, Nat.add_zero]
  have hmul := Nat.mul_le_mul_left coordBatchSize (Nat.succ_le_of_lt (hh.active (.inl ⟨i, hpc⟩)))
  rw [batches, Nat.mul_div_cancel' hc.run.nextValid, Nat.succ_eq_add_one, Nat.mul_add,
    Nat.mul_one] at hmul
  refine ⟨?_, ?_, ?_, ?_⟩
  · have hret := (released_le_retired c).trans (hc.done.retired_le t ht)
    exact (Nat.mul_le_mul_left _ hret).trans (hthr ▸ Nat.le_add_right _ _)
  · rw [hthr]
    exact (Nat.add_lt_add_left hi _).trans_le hmul
  · rw [hdiv, hh.coordIdx]
  · rw [hthr, Nat.mul_add_mod, Nat.mod_eq_of_lt hi]

/-- Every hasher has hashed what the coordinator reports. -/
lemma coordinatorNode_le_thrNode (hc : c.Inv C numThreads nodeStop) {t : ℕ} (ht : t < numThreads) :
    c.coordinatorNode ≤ (c.hashers t).thrNode := by
  have hret := (released_le_retired c).trans (hc.done.retired_le t ht)
  have hmul := Nat.mul_le_mul_left coordBatchSize hret
  rw [released, Nat.mul_div_cancel' hc.run.completed] at hmul
  rw [(hc.hasher t ht).thrNode]
  exact hc.done.reported.trans (hmul.trans (Nat.le_add_right _ _))

end Coordinator

namespace Pc1

variable {P : Setup} {s : Pc1}

/-! ### Sectors -/

lemma startSector_le (P : Setup) (k : ℕ) : startSector P k ≤ P.C.parallelSectors := by
  rw [startSector, ← P.sectors_eq]
  exact Nat.mul_le_mul_left _ ((List.take_sublist k P.hashers).sum_le_sum fun _ _ => Nat.zero_le _)

/-- A sector of coordinator `k` is one of a hasher of it. -/
lemma exists_lane (P : Setup) {k x : ℕ} (hx : x < P.numHashers k * nodesPerHasher) :
    ∃ t < P.numHashers k, ∃ lane < nodesPerHasher, t * nodesPerHasher + lane = x ∧
      startSector P k + x = hasherSector P k t + lane := by
  refine ⟨x / nodesPerHasher, Nat.div_lt_of_lt_mul (Nat.mul_comm _ _ ▸ hx), x % nodesPerHasher,
    Nat.mod_lt _ (by decide), Nat.div_add_mod' x _, ?_⟩
  rw [hasherSector, Nat.add_assoc, Nat.div_add_mod]

lemma lane_lt (P : Setup) {k t lane : ℕ} (hk : k < P.numCoordinators) (ht : t < P.numHashers k)
    (hlane : lane < nodesPerHasher) : hasherSector P k t + lane < P.C.parallelSectors :=
  (Nat.add_lt_add_left hlane _).trans_le
    ((hasherSector_le P hk ht).2.trans (startSector_le P (k + 1)))

/-- Every sector belongs to a hasher. -/
lemma exists_hasher (P : Setup) {x : ℕ} (hx : x < P.C.parallelSectors) :
    ∃ k < P.numCoordinators, ∃ t < P.numHashers k,
      hasherSector P k t ≤ x ∧ x < hasherSector P k t + nodesPerHasher := by
  have hend : startSector P P.numCoordinators = P.C.parallelSectors := by
    rw [startSector, Setup.numCoordinators, List.take_length, P.sectors_eq]
  have hfind : ∀ n ≤ P.numCoordinators, x < startSector P n →
      ∃ k < n, startSector P k ≤ x ∧ x < startSector P (k + 1) := by
    intro n
    induction n with
    | zero => exact fun _ h => absurd h (Nat.not_lt_zero x)
    | succ n ih =>
      intro hn h
      rcases Nat.lt_or_ge x (startSector P n) with hlt | hge
      · obtain ⟨k, hk, hle⟩ := ih (Nat.le_of_succ_le hn) hlt
        exact ⟨k, hk.trans (Nat.lt_succ_self n), hle⟩
      · exact ⟨n, Nat.lt_succ_self n, hge, h⟩
  obtain ⟨k, hk, hle, hlt⟩ := hfind _ le_rfl (hend ▸ hx)
  rw [startSector_succ P hk] at hlt
  have hlt : x - startSector P k < P.numHashers k * nodesPerHasher := by
    rw [Nat.mul_comm]
    omega
  obtain ⟨t, ht, lane, hlane, -, heq⟩ := exists_lane P hlt
  rw [Nat.add_sub_cancel' hle] at heq
  exact ⟨k, hk, t, ht, heq ▸ Nat.le_add_right _ _, heq ▸ Nat.add_lt_add_left hlane _⟩

/-! ### Pages in the node buffer -/

/-- The parents of what the coordinator has published were read. -/
lemma coordNextValid_le_node (hs : Inv P s) {k : ℕ} (hk : k < P.numCoordinators) :
    (s.coords k).coordNextValid ≤ s.orch.parentIter.node := by
  have hpos := (hs.coord k hk).run.pos
  have hle := (hs.behind k hk).le
  have hholds := (hs.behind k hk).holds
  cases hpc : (s.coords k).pc <;> rw [Coordinator.NodePos, hpc] at hpos <;> rw [hpc] at hholds
  case outer | drain | drainReset | finished =>
    have hle' := Nat.le_of_add_right_le hpos.1.ge
    exact hle'.trans hle
  all_goals
    have hlt := hholds rfl
    have hnode := hpos.1
    omega

/-- A page that was handed to the writer is hashed, and its slot is not used again yet. -/
lemma store_of_issued (hs : Inv P s) {m : ℕ} (hm : Issued P s.orch m) {i x : ℕ}
    (hi : i < P.C.nodesPerPage) (hx : x < P.C.parallelSectors) :
    s.store (m % nodeBufferBatches) i x = some (m * P.C.nodesPerPage + i) := by
  obtain ⟨k, hk, t, ht, hle, hlt⟩ := exists_hasher P hx
  have hc := hs.coord k hk
  have hpos := P.C.nodesPerPage_pos
  have hcur := hs.cursor
  have hdiv : (m * P.C.nodesPerPage + i) / P.C.nodesPerPage = m := by
    rw [Nat.mul_comm, Nat.mul_add_div hpos, Nat.div_eq_of_lt hi, Nat.add_zero]
  have hmod : (m * P.C.nodesPerPage + i) % P.C.nodesPerPage = i := by
    rw [Nat.mul_comm, Nat.mul_add_mod, Nat.mod_eq_of_lt hi]
  have hhashed : m * P.C.nodesPerPage + i < ((s.coords k).hashers t).thrNode := by
    have hhead : (m + 1) * P.C.nodesPerPage ≤ s.orch.headNodeWrite.abs :=
      (Nat.le_div_iff_mul_le hpos).mp (Nat.succ_le_of_lt hm.2)
    have hreport := (hcur.head_le k hk).trans (Coordinator.coordinatorNode_le_thrNode hc ht)
    rw [Nat.succ_mul] at hhead
    omega
  have hwindow : ((s.coords k).hashers t).thrNode ≤
      m * P.C.nodesPerPage + i + nodeBufferBatches * P.C.nodesPerPage := by
    have hnode := (thrNode_le (hc.hasher t ht) hc.run.nextValid).trans
      (coordNextValid_le_node hs hk)
    have hreserved := node_le_reserved s.orch
    have hspan := hcur.nodeRing.lt
    have htail : s.orch.tailNode / P.C.nodesPerPage ≤ m :=
      (Nat.div_le_div_right hcur.tail_le).trans hm.1
    have hmul : s.orch.reserved ≤ (m + nodeBufferBatches) * P.C.nodesPerPage := by
      rw [← Nat.div_mul_cancel hcur.reserved_dvd]
      exact Nat.mul_le_mul_right _ (by omega)
    rw [Nat.add_mul] at hmul
    omega
  have hstore := hs.store k hk t ht _ hhashed hwindow x hle hlt
  rwa [hdiv, hmod] at hstore

end Pc1

end SupraSeal
