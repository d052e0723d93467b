import SupraSeal.Pc1.BatchProtocol

/-!
# From the parent buffer to the hashers

Two further invariants of a coordinator. It stays behind the nodes whose parents were read, as long
as the first entry that is not filled is never seen as valid; and the pointers it hands to the
hashers stay in its ring until the hashers are done with them.
-/

namespace SupraSeal

/-- The coordinator is at a node whose entry it has found valid. -/
def CoordPc.holdsNode : CoordPc → Bool
  | .sample | .copy _ | .unlock | .publish | .recover | .reset | .lock | .reserve | .advance => true
  | _ => false

/-- The coordinator has tested the entry of the next node. -/
def CoordPc.sampled : CoordPc → Bool
  | .copy _ | .unlock | .publish | .recover | .reset | .lock | .reserve | .advance => true
  | _ => false

namespace Coordinator

variable {C : Config} {numThreads nodeStop : ℕ} {c c' : Coordinator} {v : ParentView} {N N' : ℕ}

/-- Behind a node the next entry is not tested, and the coordinator is at it if it was found valid. -/
lemma advancePc_holdsNode {q : CoordPc}
    (hq : q = .outer ∨ q = .sample ∧ c.curValid = true ∧ c.node + 1 ≠ nodeStop) :
    q.sampled = false ∧ (q.holdsNode = true → c.curValid = true) := by
  rcases hq with rfl | ⟨rfl, hvalid, -⟩
  · exact ⟨rfl, by simp [CoordPc.holdsNode]⟩
  · exact ⟨rfl, fun _ => hvalid⟩

/-- The coordinator only works on the first `N` nodes. -/
structure BehindInv (N : ℕ) (c : Coordinator) : Prop where
  le : c.node ≤ N
  holds : c.pc.holdsNode = true → c.node < N
  next : c.pc.sampled = true → c.curValid = true → c.node + 1 < N

lemma BehindInv.mono (hb : BehindInv N c) (h : N ≤ N') : BehindInv N' c :=
  ⟨hb.le.trans h, fun hp => (hb.holds hp).trans_le h, fun hp hv => (hb.next hp hv).trans_le h⟩

lemma BehindInv.step (hrun : c.RunInv nodeStop) (hb : BehindInv N c)
    (hv : v.isValid (N % parentBufferBatches) = false)
    (h : c.step numThreads nodeStop v = some c') : BehindInv N c' := by
  obtain ⟨hle, hholds, hnext⟩ := hb
  have hidx := hrun.idx
  -- an entry found valid is not the first unfilled one
  have hvalid : ∀ m, m ≤ N → v.isValid (m % parentBufferBatches) = true → m < N := by
    intro m hm hmv
    refine lt_of_le_of_ne hm fun heq => ?_
    rw [heq, hv] at hmv
    exact absurd hmv (by decide)
  cases hpc : c.pc <;> simp only [hpc, CoordPc.holdsNode, CoordPc.sampled] at hholds hnext <;>
    simp only [Coordinator.step, hpc] at h
  case outer =>
    split_ifs at h with hlt hval <;> cases h
    · rw [hidx] at hval
      exact ⟨hle, fun _ => hvalid _ hle hval, by simp [CoordPc.sampled]⟩
    · exact ⟨hle, by simp [CoordPc.holdsNode], by simp [CoordPc.sampled]⟩
  case sample =>
    cases h
    refine ⟨hle, fun _ => hholds trivial, fun _ hval => ?_⟩
    have hval : v.isValid (RingBuffer.incr parentBufferBatches c.idx) = true := hval
    rw [hidx, RingBuffer.incr_mod (by decide)] at hval
    exact hvalid _ (hholds trivial) hval
  case copy j =>
    split_ifs at h <;> cases h <;>
      exact ⟨hle, fun _ => hholds trivial, fun _ hval => hnext trivial hval⟩
  case recover =>
    split_ifs at h <;> cases h <;>
      exact ⟨hle, fun _ => hholds trivial, fun _ hval => hnext trivial hval⟩
  case lock =>
    split_ifs at h
    cases h
    exact ⟨hle, fun _ => hholds trivial, fun _ hval => hnext trivial hval⟩
  case reserve =>
    rw [RingBuffer.reserve_eq] at h
    split_ifs at h
    cases h
    exact ⟨hle, fun _ => hholds trivial, fun _ hval => hnext trivial hval⟩
  case advance =>
    have hnode : c.node < N := hholds trivial
    obtain ⟨q, hq, hcase⟩ := exists_advancePc c nodeStop
    simp only [hq] at h
    have hq' := advancePc_holdsNode hcase
    have hres : BehindInv N { c with
        node := c.node + 1, idx := RingBuffer.incr parentBufferBatches c.idx, pc := q } :=
      ⟨hnode, fun hp => hnext trivial (hq'.2 hp), fun hp => absurd hp (by simp [hq'.1])⟩
    split_ifs at h <;> cases h <;> exact ⟨hres.le, hres.holds, hres.next⟩
  case drain =>
    split_ifs at h <;> cases h <;>
      exact ⟨hle, by simp [CoordPc.holdsNode], by simp [CoordPc.sampled]⟩
  case drainReset =>
    cases h
    exact ⟨hle, by simp [CoordPc.holdsNode], by simp [CoordPc.sampled]⟩
  case finished => simp at h
  all_goals
    cases h
    exact ⟨hle, fun _ => hholds trivial, fun _ hval => hnext trivial hval⟩

/-- Every node the coordinator has passed, holds or has tested satisfies `V`. -/
structure PassedInv (V : ℕ → Prop) (c : Coordinator) : Prop where
  passed : ∀ n < c.node, V n
  holds : c.pc.holdsNode = true → V c.node
  next : c.pc.sampled = true → c.curValid = true → V (c.node + 1)

variable {V V' : ℕ → Prop}

lemma PassedInv.mono (hb : BehindInv N c) (hp : PassedInv V c) (h : ∀ n < N, V n → V' n) :
    PassedInv V' c :=
  ⟨fun n hn => h n (hn.trans_le hb.le) (hp.passed n hn), fun hpc => h _ (hb.holds hpc) (hp.holds hpc),
    fun hpc hv => h _ (hb.next hpc hv) (hp.next hpc hv)⟩

lemma PassedInv.step (hrun : c.RunInv nodeStop) (hp : PassedInv V c)
    (hv : ∀ n, v.isValid (n % parentBufferBatches) = true → V n)
    (h : c.step numThreads nodeStop v = some c') : PassedInv V c' := by
  obtain ⟨hpassed, hholds, hnext⟩ := hp
  have hidx := hrun.idx
  cases hpc : c.pc <;> simp only [hpc, CoordPc.holdsNode, CoordPc.sampled] at hholds hnext <;>
    simp only [Coordinator.step, hpc] at h
  case outer =>
    split_ifs at h with hlt hval <;> cases h
    · exact ⟨hpassed, fun _ => hv _ (hidx ▸ hval), by simp [CoordPc.sampled]⟩
    · exact ⟨hpassed, by simp [CoordPc.holdsNode], by simp [CoordPc.sampled]⟩
  case sample =>
    cases h
    refine ⟨hpassed, fun _ => hholds trivial, fun _ hval => hv _ ?_⟩
    have hval : v.isValid (RingBuffer.incr parentBufferBatches c.idx) = true := hval
    rwa [hidx, RingBuffer.incr_mod (by decide)] at hval
  case copy j =>
    split_ifs at h <;> cases h <;>
      exact ⟨hpassed, fun _ => hholds trivial, fun _ hval => hnext trivial hval⟩
  case recover =>
    split_ifs at h <;> cases h <;>
      exact ⟨hpassed, fun _ => hholds trivial, fun _ hval => hnext trivial hval⟩
  case lock =>
    split_ifs at h
    cases h
    exact ⟨hpassed, fun _ => hholds trivial, fun _ hval => hnext trivial hval⟩
  case reserve =>
    rw [RingBuffer.reserve_eq] at h
    split_ifs at h
    cases h
    exact ⟨hpassed, fun _ => hholds trivial, fun _ hval => hnext trivial hval⟩
  case advance =>
    obtain ⟨q, hq, hcase⟩ := exists_advancePc c nodeStop
    simp only [hq] at h
    have hq' := advancePc_holdsNode hcase
    have hres : PassedInv V { c with
        node := c.node + 1, idx := RingBuffer.incr parentBufferBatches c.idx, pc := q } := by
      refine ⟨fun n hn => ?_, fun hp => hnext trivial (hq'.2 hp),
        fun hp => absurd hp (by simp [hq'.1])⟩
      rcases Nat.lt_succ_iff_lt_or_eq.mp hn with hn | rfl
      · exact hpassed n hn
      · exact hholds trivial
    split_ifs at h <;> cases h <;> exact ⟨hres.passed, hres.holds, hres.next⟩
  case drain =>
    split_ifs at h <;> cases h <;>
      exact ⟨hpassed, by simp [CoordPc.holdsNode], by simp [CoordPc.sampled]⟩
  case drainReset =>
    cases h
    exact ⟨hpassed, by simp [CoordPc.holdsNode], by simp [CoordPc.sampled]⟩
  case finished => simp at h
  all_goals
    cases h
    exact ⟨hpassed, fun _ => hholds trivial, fun _ hval => hnext trivial hval⟩

/-- Place of parent `j` of node `m` among the pointers handed to the hashers. -/
def ringEntry (c : Coordinator) (m j : ℕ) : NodePtr :=
  c.coordRingPtrs (m / coordBatchSize % coordBatchCount) (m % coordBatchSize * parentCount + j)

/-- The pointers of all nodes that hashers may still read satisfy `R`. -/
structure PtrInv (R : ℕ → ℕ → NodePtr → Prop) (c : Coordinator) : Prop where
  ready : ∀ m, coordBatchSize * c.released ≤ m → m < c.filled → ∀ j < parentCount,
    R m j (c.ringEntry m j)
  copied : ∀ k, c.pc = .copy k → ∀ j < k, R c.node j (c.ringEntry c.node j)
  copy_lt : ∀ k, c.pc = .copy k → k < parentCount

variable {R : ℕ → ℕ → NodePtr → Prop}

/-- A step that leaves the pointers alone and fills no node. -/
lemma PtrInv.frame (hp : PtrInv R c) (hptrs : c'.coordRingPtrs = c.coordRingPtrs)
    (hrel : c.released ≤ c'.released) (hfill : c'.filled = c.filled)
    (hcopy : ∀ k, c'.pc = .copy k → k = 0) : PtrInv R c' := by
  refine ⟨fun m hm hmf j hj => ?_, fun k hk j hj => ?_, fun k hk => ?_⟩
  · rw [ringEntry, hptrs]
    exact hp.ready m ((Nat.mul_le_mul_left _ hrel).trans hm) (hfill ▸ hmf) j hj
  · rw [hcopy k hk] at hj
    exact absurd hj (Nat.not_lt_zero _)
  · rw [hcopy k hk]
    decide

/-- The entries of different nodes, or of different parents of one node, are different. -/
lemma ringEntry_copy (hrun : c.RunInv nodeStop) {k : ℕ} (hpc : c.pc = .copy k)
    (hk : k < parentCount) (ptr : NodePtr) {m j : ℕ} (hm : coordBatchSize * c.released ≤ m)
    (hmn : m ≤ c.node) (hj : j < parentCount) :
    Function.update c.coordRingPtrs c.coordBatchIdx (Function.update
      (c.coordRingPtrs c.coordBatchIdx) (c.curBatchCount * parentCount + k) ptr)
        (m / coordBatchSize % coordBatchCount) (m % coordBatchSize * parentCount + j) =
      if m = c.node ∧ j = k then ptr else c.ringEntry m j := by
  obtain ⟨hnv, -, hring, hslot, hpos, -, -, -⟩ := hrun
  simp only [hpc, CoordPc.published, Bool.false_eq_true, if_false, NodePos] at hring hslot hpos
  obtain ⟨b, hb⟩ := hnv
  have hbatches : c.batches = b := by
    rw [batches, hb, Nat.mul_div_cancel_left _ (by decide)]
  have hdiv : c.node / coordBatchSize = b := by
    rw [hpos.1, hb, Nat.mul_add_div (by decide), Nat.div_eq_of_lt hpos.2.1, Nat.add_zero]
  have hmod : c.node % coordBatchSize = c.curBatchCount := by
    rw [hpos.1, hb, Nat.mul_add_mod, Nat.mod_eq_of_lt hpos.2.1]
  have hmb : m / coordBatchSize ≤ b := hdiv ▸ Nat.div_le_div_right hmn
  have hmr : c.released ≤ m / coordBatchSize :=
    (Nat.le_div_iff_mul_le (by decide)).mpr (by rwa [Nat.mul_comm])
  have hlt := hring.lt
  rw [hbatches] at hlt hslot
  rw [ringEntry, hslot]
  by_cases hslot' : m / coordBatchSize % coordBatchCount = b % coordBatchCount
  · have hmb' : m / coordBatchSize = b := Wrap.eq_of_mod_eq hmb (by omega) hslot'
    rw [hslot', Function.update_self, Function.update_apply]
    have hiff : m % coordBatchSize * parentCount + j = c.curBatchCount * parentCount + k ↔
        m = c.node ∧ j = k := by
      have hm' := Nat.div_add_mod m coordBatchSize
      have hn' := Nat.div_add_mod c.node coordBatchSize
      rw [hmb'] at hm'
      rw [hdiv, hmod] at hn'
      simp only [parentCount, parentCountBase, parentCountExp] at hj hk ⊢
      omega
    simp only [hiff]
  · rw [Function.update_of_ne hslot', if_neg]
    rintro ⟨rfl, -⟩
    exact hslot' (by rw [hdiv])

/-- The copy of one parent pointer. -/
lemma PtrInv.copy (hrun : c.RunInv nodeStop) (hcomp : c.completedNode ≤ c.coordNextValid)
    (hp : PtrInv R c) {k : ℕ} (hpc : c.pc = .copy k)
    (hview : R c.node k (ringPtr (v.ptr c.idx k) (v.sync c.idx k)))
    (h : c.step numThreads nodeStop v = some c') : PtrInv R c' := by
  have hk := hp.copy_lt k hpc
  have hentry {m j : ℕ} (hm : coordBatchSize * c.released ≤ m) (hmn : m ≤ c.node)
      (hj : j < parentCount) := ringEntry_copy hrun hpc hk
        (ringPtr (v.ptr c.idx k) (v.sync c.idx k)) hm hmn hj
  have hfill : c.filled = c.node := by rw [Coordinator.filled, hpc]
  have hold : ∀ m, coordBatchSize * c.released ≤ m → m < c.node → ∀ j < parentCount,
      R m j (Function.update c.coordRingPtrs c.coordBatchIdx (Function.update
        (c.coordRingPtrs c.coordBatchIdx) (c.curBatchCount * parentCount + k)
          (ringPtr (v.ptr c.idx k) (v.sync c.idx k)))
        (m / coordBatchSize % coordBatchCount) (m % coordBatchSize * parentCount + j)) := by
    intro m hm hmn j hj
    rw [hentry hm hmn.le hj, if_neg (by omega)]
    exact hp.ready m hm (hfill ▸ hmn) j hj
  have hnode : coordBatchSize * c.released ≤ c.node := by
    have hpos := hrun.pos
    simp only [NodePos, hpc] at hpos
    have hrel : coordBatchSize * c.released ≤ c.completedNode := Nat.mul_div_le _ _
    omega
  have hnew : ∀ j < k + 1, R c.node j (Function.update c.coordRingPtrs c.coordBatchIdx
      (Function.update (c.coordRingPtrs c.coordBatchIdx) (c.curBatchCount * parentCount + k)
        (ringPtr (v.ptr c.idx k) (v.sync c.idx k)))
      (c.node / coordBatchSize % coordBatchCount)
      (c.node % coordBatchSize * parentCount + j)) := by
    intro j hj
    rw [hentry hnode le_rfl (by omega)]
    split_ifs with heq
    · rw [heq.2]
      exact hview
    · exact hp.copied k hpc j (by omega)
  simp only [Coordinator.step, hpc] at h
  split_ifs at h with hmore hb <;> cases h
  · refine ⟨fun m hm hmf => ?_, ?_, ?_⟩
    · exact hold m hm hmf
    · rintro _ ⟨⟩
      exact hnew
    · rintro _ ⟨⟩
      exact hmore
  all_goals
    have hkl : k + 1 = parentCount := by omega
    refine ⟨fun m hm hmf => ?_, by simp, by simp⟩
    rcases Nat.lt_succ_iff_lt_or_eq.mp hmf with hmf | rfl
    · exact hold m hm hmf
    · exact fun j hj => hnew j (by omega)

/-- Every step of the coordinator keeps the pointers of the nodes that hashers may still read. -/
lemma PtrInv.step (hrun : c.RunInv nodeStop) (hcomp : c.completedNode ≤ c.coordNextValid)
    (hp : PtrInv R c)
    (hview : ∀ k, c.pc = .copy k → k < parentCount →
      R c.node k (ringPtr (v.ptr c.idx k) (v.sync c.idx k)))
    (h : c.step numThreads nodeStop v = some c') : PtrInv R c' := by
  have hrel : c.released ≤ (c.completedNode + coordBatchSize) / coordBatchSize :=
    Nat.div_le_div_right (Nat.le_add_right _ _)
  cases hpc : c.pc
  case copy k => exact hp.copy hrun hcomp hpc (hview k hpc (hp.copy_lt k hpc)) h
  all_goals simp only [Coordinator.step, hpc] at h
  case reserve =>
    rw [RingBuffer.reserve_eq] at h
    split_ifs at h
    cases h
    exact hp.frame rfl le_rfl (by simp [filled, hpc]) (by simp)
  case lock =>
    split_ifs at h
    cases h
    exact hp.frame rfl hrel (by simp [filled, hpc]) (by simp)
  case drainReset =>
    cases h
    exact hp.frame rfl hrel (by simp [filled, hpc]) (by simp)
  case advance =>
    obtain ⟨q, hq, hcase⟩ := exists_advancePc c nodeStop
    simp only [hq] at h
    split_ifs at h <;> cases h <;> rcases hcase with rfl | ⟨rfl, -⟩ <;>
      exact hp.frame rfl le_rfl (by simp [filled, hpc]) (by simp)
  case finished => simp at h
  all_goals first
    | cases h; exact hp.frame rfl le_rfl (by simp [filled, hpc]) (by simp)
    | split_ifs at h <;> cases h <;> exact hp.frame rfl le_rfl (by simp [filled, hpc]) (by simp)

/-- The reported progress only grows. -/
lemma coordinatorNode_le_of_step (hd : c.coordinatorNode ≤ c.completedNode)
    (h : c.step numThreads nodeStop v = some c') : c.coordinatorNode ≤ c'.coordinatorNode := by
  cases hpc : c.pc <;> simp only [Coordinator.step, hpc] at h
  case reserve =>
    rw [RingBuffer.reserve_eq] at h
    split_ifs at h
    cases h
    rfl
  case advance => split_ifs at h <;> cases h <;> first | exact hd | rfl
  case drain => split_ifs at h <;> cases h <;> first | exact hd | rfl
  all_goals first
    | cases h; done
    | cases h; rfl
    | split_ifs at h <;> cases h <;> rfl

/-! ### Steps of the hashers -/

variable {t : ℕ}

lemma BehindInv.hasherStep (hb : BehindInv N c) (h : c.hasherStep C nodeStop t = some c') :
    BehindInv N c' := by
  obtain ⟨_, _, _, rfl⟩ := hasherStep_frame h
  exact ⟨hb.le, hb.holds, hb.next⟩

lemma PassedInv.hasherStep (hp : PassedInv V c) (h : c.hasherStep C nodeStop t = some c') :
    PassedInv V c' := by
  obtain ⟨_, _, _, rfl⟩ := hasherStep_frame h
  exact ⟨hp.passed, hp.holds, hp.next⟩

lemma PtrInv.hasherStep (hp : PtrInv R c) (h : c.hasherStep C nodeStop t = some c') :
    PtrInv R c' := by
  obtain ⟨_, _, _, rfl⟩ := hasherStep_frame h
  exact ⟨hp.ready, hp.copied, hp.copy_lt⟩

lemma coordinatorNode_hasherStep (h : c.hasherStep C nodeStop t = some c') :
    c'.coordinatorNode = c.coordinatorNode := by
  obtain ⟨_, _, _, rfl⟩ := hasherStep_frame h
  rfl

/-- A hasher moves to the next node exactly when it hashes one. -/
lemma thrNode_hasherStep (h : c.hasherStep C nodeStop t = some c') :
    (c'.hashers t).thrNode =
      match (c.hashers t).pc with
      | .hash _ => (c.hashers t).thrNode + 1
      | _ => (c.hashers t).thrNode := by
  cases hpc : (c.hashers t).pc <;> simp only [Coordinator.hasherStep, hpc] at h
  all_goals first
    | cases h; done
    | cases h; simp only [Function.update_self]
    | split_ifs at h <;> cases h <;> simp only [Function.update_self]

end Coordinator

end SupraSeal
