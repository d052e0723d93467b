import SupraSeal.Poseidon.Kernels
import Mathlib.Tactic.Ring

/-!
# The kernels compute Poseidon

The threads of one state go through the rounds of `Poseidon::Hash` together. Each kernel takes the
states in `aux_ptr` from one point of the hash to the next, whatever order its blocks and threads run
in.
-/

namespace SupraSeal.Poseidon

variable {R : Type*}

lemma t_pos (P : Poseidon R) : 0 < P.t := Nat.succ_pos _

/-- A block has room for a whole number of states. -/
lemma exists_blockSize13 (P : Poseidon R) : ∃ q, 0 < q ∧ P.blockSize13 = q * P.t := by
  refine ⟨256 / P.t, Nat.div_pos ?_ P.t_pos, rfl⟩
  have := P.arity_le
  rw [t]
  omega

variable [CommRing R] {P : Poseidon R}

lemma pow5_eq (x : R) : pow5 x = x ^ 5 := by
  rw [pow5]
  ring

/-! ### States -/

/-- The same elements and counters. -/
structure State.Agree (n : ℕ) (s s' : State R) : Prop where
  elements : ∀ i < n, s.elements i = s'.elements i
  rkOffset : s.rkOffset = s'.rkOffset
  currentRound : s.currentRound = s'.currentRound

/-- The counters after some full rounds. -/
lemma fullRound_iterate (s : State R) (n : ℕ) :
    (P.fullRound^[n] s).rkOffset = s.rkOffset + n * P.t ∧
      (P.fullRound^[n] s).currentRound = s.currentRound + n := by
  induction n with
  | zero => simp
  | succ n ih =>
    rw [Function.iterate_succ_apply']
    refine ⟨?_, ?_⟩
    · show (P.fullRound^[n] s).rkOffset + P.t = _
      rw [ih.1, Nat.succ_mul, Nat.add_assoc]
    · show (P.fullRound^[n] s).currentRound + 1 = _
      rw [ih.2, Nat.add_assoc]

/-- A round before or after the partial rounds. -/
def IsFull (P : Poseidon R) (currentRound : ℕ) : Prop :=
  currentRound < halfFullRounds ∨ halfFullRounds + P.partialRounds ≤ currentRound

/-- The matrix of a full round. -/
def roundMatrix (P : Poseidon R) (currentRound : ℕ) : ℕ → R :=
  if currentRound = 3 then P.constants.preSparseMatrix else P.constants.mdsMatrix

lemma roundMatrixMul_of_isFull {currentRound : ℕ} (h : P.IsFull currentRound) (elements : ℕ → R) :
    P.roundMatrixMul elements currentRound = P.matrixMul elements (P.roundMatrix currentRound) := by
  have hnot : ¬(3 < currentRound ∧ currentRound < halfFullRounds + P.partialRounds) := by
    rintro ⟨h1, h2⟩
    have hhalf : halfFullRounds = 4 := rfl
    rcases h with h | h <;> omega
  rw [roundMatrixMul, roundMatrix]
  split_ifs <;> rfl

lemma fullRound_elements {s : State R} (h : P.IsFull s.currentRound) (i : ℕ) :
    (P.fullRound s).elements i = ∑ j ∈ Finset.range P.t,
      quinticSBox (s.elements j) (P.constants.roundConstants (s.rkOffset + j)) *
        P.roundMatrix s.currentRound (j * P.t + i) := by
  show P.roundMatrixMul _ _ i = _
  rw [roundMatrixMul_of_isFull h, matrixMul_eq_sum]

/-- A full round takes nothing from beyond the state. -/
lemma State.Agree.fullRounds {s s' : State R} (h : State.Agree P.t s s') {n : ℕ}
    (hfull : ∀ k < n, P.IsFull (s'.currentRound + k)) :
    State.Agree P.t (P.fullRound^[n] s) (P.fullRound^[n] s') := by
  induction n with
  | zero => exact h
  | succ n ih =>
    have ih := ih fun k hk => hfull k (hk.trans (Nat.lt_succ_self n))
    have hround' : P.IsFull (P.fullRound^[n] s').currentRound := by
      rw [(fullRound_iterate s' n).2]
      exact hfull n (Nat.lt_succ_self n)
    have hround : P.IsFull (P.fullRound^[n] s).currentRound := ih.currentRound ▸ hround'
    rw [Function.iterate_succ_apply', Function.iterate_succ_apply']
    refine ⟨fun i hi => ?_, congrArg (· + P.t) ih.rkOffset, congrArg (· + 1) ih.currentRound⟩
    rw [fullRound_elements hround, fullRound_elements hround', ih.currentRound, ih.rkOffset]
    refine Finset.sum_congr rfl fun j hj => ?_
    rw [ih.elements j (Finset.mem_range.mp hj)]

/-! ### Threads of one state -/

namespace Block

variable {active : ℕ → Prop} [DecidablePred active] {threadPos sharedPos : ℕ → ℕ} {b : Block R}
  {g : ℕ} {s : State R}

/-- The threads from `g` on hold state `s`. -/
structure Follows (P : Poseidon R) (g : ℕ) (b : Block R) (s : State R) : Prop where
  element : ∀ i < P.t, b.element (g + i) = s.elements i
  rkOffset : ∀ i < P.t, b.rkOffset (g + i) = s.rkOffset + i
  currentRound : b.currentRound = s.currentRound

/-- One full round of the threads of a state. -/
lemma Follows.fullRound (h : Follows P g b s) (hactive : ∀ i < P.t, active (g + i))
    (hthread : ∀ i < P.t, threadPos (g + i) = i) (hshared : ∀ i < P.t, sharedPos (g + i) = g)
    (hfull : P.IsFull s.currentRound) :
    Follows P g (b.fullRound P active threadPos sharedPos) (P.fullRound s) where
  element i hi := by
    have hmatrix : ∀ matrix : ℕ → R, dotProduct
        (fun j => if active (sharedPos (g + i) + j)
          then pow5 (b.element (sharedPos (g + i) + j)) +
            P.constants.roundConstants (b.rkOffset (sharedPos (g + i) + j))
          else b.scratchpad (sharedPos (g + i) + j))
        (fun j => matrix (threadPos (g + i) + j)) P.t P.t = ∑ j ∈ Finset.range P.t,
      quinticSBox (s.elements j) (P.constants.roundConstants (s.rkOffset + j)) *
        matrix (j * P.t + i) := by
      intro matrix
      refine Finset.sum_congr rfl fun j hj => ?_
      have hj := Finset.mem_range.mp hj
      simp only
      rw [hshared i hi, hthread i hi, if_pos (hactive j hj), h.element j hj, h.rkOffset j hj,
        pow5_eq, quinticSBox, Nat.add_comm i]
    rw [fullRound_elements hfull, ← hmatrix]
    have hhalf : halfFullRounds - 1 = 3 := rfl
    simp only [Block.fullRound, Block.roundMatrixMul, roundMatrix, hhalf, h.currentRound]
    split_ifs <;> rfl
  rkOffset i hi := by
    have hrk : (b.fullRound P active threadPos sharedPos).rkOffset (g + i) =
        b.rkOffset (g + i) + P.t := by
      simp only [Block.fullRound, Block.roundMatrixMul]
      split_ifs <;> rfl
    show _ = s.rkOffset + P.t + i
    rw [hrk, h.rkOffset i hi]
    omega
  currentRound := by
    have hround : (b.fullRound P active threadPos sharedPos).currentRound = b.currentRound + 1 := by
      simp only [Block.fullRound, Block.roundMatrixMul]
      split_ifs <;> rfl
    rw [hround, h.currentRound]
    rfl

/-- Several full rounds. -/
lemma Follows.iterate (h : Follows P g b s) (hactive : ∀ i < P.t, active (g + i))
    (hthread : ∀ i < P.t, threadPos (g + i) = i) (hshared : ∀ i < P.t, sharedPos (g + i) = g)
    {n : ℕ} (hfull : ∀ k < n, P.IsFull (s.currentRound + k)) :
    Follows P g ((Block.fullRound P active threadPos sharedPos)^[n] b) (P.fullRound^[n] s) := by
  induction n with
  | zero => exact h
  | succ n ih =>
    rw [Function.iterate_succ_apply', Function.iterate_succ_apply']
    refine (ih fun k hk => hfull k (hk.trans (Nat.lt_succ_self n))).fullRound hactive hthread
      hshared ?_
    rw [(fullRound_iterate s n).2]
    exact hfull n (Nat.lt_succ_self n)

end Block

/-! ### The thread of a state -/

lemma gpuSparseMatrixMul_eq (elements sparseMatrix : ℕ → R) :
    P.gpuSparseMatrixMul elements sparseMatrix = P.sparseMatrixMul elements sparseMatrix := by
  funext i
  by_cases hi : i = 0
  · subst hi
    rw [sparseMatrixMul_zero, gpuSparseMatrixMul, if_pos rfl, dotProduct]
    congr 1
    refine Finset.sum_congr rfl fun j _ => ?_
    rw [Nat.mul_one, Nat.add_comm 1 j]
  · rw [gpuSparseMatrixMul, sparseMatrixMul, if_neg hi, if_neg hi]

lemma sparseMatrixMul_congr {elements elements' : ℕ → R}
    (h : ∀ i < P.t, elements i = elements' i) (sparseMatrix : ℕ → R) {i : ℕ} (hi : i < P.t) :
    P.sparseMatrixMul elements sparseMatrix i = P.sparseMatrixMul elements' sparseMatrix i := by
  by_cases hzero : i = 0
  · subst hzero
    rw [sparseMatrixMul_zero, sparseMatrixMul_zero, h 0 hi]
    congr 1
    refine Finset.sum_congr rfl fun j hj => ?_
    have hj := Finset.mem_range.mp hj
    rw [h (j + 1) (by omega)]
  · rw [sparseMatrixMul, sparseMatrixMul, if_neg hzero, if_neg hzero, h i hi, h 0 P.t_pos]

lemma gpuPartialRound_eq {s : State R} (h : ¬P.IsFull s.currentRound) :
    P.gpuPartialRound s = P.partialRound s := by
  have hhalf : halfFullRounds = 4 := rfl
  rw [IsFull, not_or] at h
  rw [gpuPartialRound, partialRound, gpuSparseMatrixMul_eq, pow5_eq, roundMatrixMul, if_neg (by omega),
    if_pos (by omega)]
  rfl

/-- A partial round takes nothing from beyond the state. -/
lemma State.Agree.partialRound {s s' : State R} (h : State.Agree P.t s s')
    (hround : ¬P.IsFull s.currentRound) :
    State.Agree P.t (P.gpuPartialRound s) (P.partialRound s') where
  elements i hi := by
    rw [← gpuPartialRound_eq (h.currentRound ▸ hround)]
    simp only [gpuPartialRound, gpuSparseMatrixMul_eq, h.currentRound]
    refine sparseMatrixMul_congr (fun j hj => ?_) _ hi
    by_cases hzero : j = 0
    · subst hzero
      rw [Function.update_self, Function.update_self, h.elements 0 hj, h.rkOffset]
    · rw [Function.update_of_ne hzero, Function.update_of_ne hzero, h.elements j hj]
  rkOffset := congrArg (· + 1) h.rkOffset
  currentRound := congrArg (· + 1) h.currentRound

lemma partialRound_iterate (s : State R) (n : ℕ) :
    (P.partialRound^[n] s).rkOffset = s.rkOffset + n ∧
      (P.partialRound^[n] s).currentRound = s.currentRound + n := by
  induction n with
  | zero => simp
  | succ n ih =>
    rw [Function.iterate_succ_apply']
    exact ⟨congrArg (· + 1) ih.1, congrArg (· + 1) ih.2⟩

/-- All the partial rounds. -/
lemma State.Agree.iterate {s s' : State R} (h : State.Agree P.t s s')
    (hround : s'.currentRound = halfFullRounds) {n : ℕ} (hn : n ≤ P.partialRounds) :
    State.Agree P.t (P.gpuPartialRound^[n] s) (P.partialRound^[n] s') := by
  induction n with
  | zero => exact h
  | succ n ih =>
    have ih := ih (Nat.le_of_succ_le hn)
    rw [Function.iterate_succ_apply', Function.iterate_succ_apply']
    refine ih.partialRound ?_
    rw [ih.currentRound, (partialRound_iterate s' n).2, hround, IsFull]
    omega

lemma State.Agree.partialRounds {s s' : State R} (h : State.Agree P.t s s')
    (hround : s'.currentRound = halfFullRounds) :
    State.Agree P.t (P.partialRound^[P.partialRounds] s) (P.partialRound^[P.partialRounds] s') := by
  -- both are what the GPU makes of the first
  have hself : State.Agree P.t s s := ⟨fun _ _ => rfl, rfl, rfl⟩
  have h₁ := hself.iterate (h.currentRound.trans hround) le_rfl
  have h₂ := h.iterate hround le_rfl
  exact ⟨fun i hi => (h₁.elements i hi).symm.trans (h₂.elements i hi),
    h₁.rkOffset.symm.trans h₂.rkOffset, h₁.currentRound.symm.trans h₂.currentRound⟩

/-- The hash is one of the `arity` inputs. -/
lemma permute_congr {input input' : ℕ → R} (h : ∀ k < P.arity, input k = input' k) :
    P.permute input = P.permute input' := by
  have hstart : State.Agree P.t (P.start input) (P.start input') := by
    refine ⟨fun i hi => ?_, rfl, rfl⟩
    cases i with
    | zero => rfl
    | succ k => exact congrArg (· + _) (h k (Nat.lt_of_succ_lt_succ hi))
  have hfirst := hstart.fullRounds (n := halfFullRounds) fun k hk =>
    Or.inl ((Nat.zero_add k).trans_lt hk)
  have hround : (P.fullRound^[halfFullRounds] (P.start input')).currentRound = halfFullRounds :=
    (fullRound_iterate _ _).2.trans (Nat.zero_add _)
  have hpartial := hfirst.partialRounds hround
  have hlast := hpartial.fullRounds (n := halfFullRounds - 1) fun k _ => by
    right
    rw [(partialRound_iterate _ _).2, hround]
    exact Nat.le_add_right ..
  rw [permute, permute, lastFullRound, lastFullRound, matrixMul_eq_sum, matrixMul_eq_sum]
  refine Finset.sum_congr rfl fun j hj => ?_
  rw [hlast.elements j (Finset.mem_range.mp hj)]

/-- The last round stores the second element only. -/
lemma lastMatrixMul_eq (elements : ℕ → R) :
    P.lastMatrixMul elements = P.matrixMul elements P.constants.mdsMatrix 1 := by
  rw [matrixMul_eq_sum, lastMatrixMul, dotProduct]
  refine Finset.sum_congr rfl fun j _ => ?_
  rw [Nat.add_comm 1]

end SupraSeal.Poseidon
