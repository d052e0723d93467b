import SupraSeal.C2.QuotientPoly
import SupraSeal.C2.SplitMsm
import SupraSeal.Lib.PairingProof
import SupraSeal.Lib.Qap
import Mathlib.Algebra.Algebra.Bilinear
import Mathlib.Algebra.BigOperators.Field

/-!
# The proofs of a call

The end of `generate_groth16_proofs_c` of `c2/cuda/groth16_cuda.cu` adds the results of the MSMs up to the
points of each proof, with the blinding scalars `r` and `s`. When the SRS comes from a setup for the
circuit, and the vectors of the prover from an assignment that satisfies it, the proof is accepted.

`mult` of a point by a scalar in Montgomery form is not part of the repository: it is the
multiplication of the group. Conversion to affine coordinates changes the representation only.
-/

namespace SupraSeal.Groth16

open PairingProof PrepMsm PackedBits NttMsmH Streams Polynomial Coset Qap

variable {F G₁ G₂ GT : Type*}

/-- `verifying_key`. -/
structure VerifyingKey (G₁ G₂ : Type*) where
  alphaG1 : G₁
  betaG1 : G₁
  betaG2 : G₂
  gammaG2 : G₂
  deltaG1 : G₁
  deltaG2 : G₂

/-- `msm_results` of one circuit, after the batch additions are added. -/
structure MsmResults (G₁ G₂ : Type*) where
  h : G₁
  l : G₁
  a : G₁
  bG1 : G₁
  bG2 : G₂

/-! ### Variables -/

/-- The variables of a circuit: the inputs and then the auxiliary ones. -/
def assignment (p : PrepMsm.Assignment F) (i : ℕ) : F :=
  if i < p.inpAssignmentSize then p.inpAssignmentData i
  else p.auxAssignmentData (i - p.inpAssignmentSize)

/-- The set bits of a density. -/
def denseVars (density : ℕ → BitVec 64) (n : ℕ) : List ℕ :=
  (List.range n).filter fun i => bitAt density i

/-- The auxiliary variables of a density. -/
def auxVars (p : PrepMsm.Assignment F) (density : ℕ → BitVec 64) : List ℕ :=
  (denseVars density p.auxAssignmentSize).map (p.inpAssignmentSize + ·)

/-- The variables of query A. -/
def varsA (p : PrepMsm.Assignment F) : List ℕ :=
  List.range p.inpAssignmentSize ++ auxVars p p.aAuxDensity

def varsB (p : PrepMsm.Assignment F) : List ℕ :=
  denseVars p.bInpDensity p.inpAssignmentSize ++ auxVars p p.bAuxDensity

section

variable (p : PrepMsm.Assignment F)

lemma mem_denseVars {density : ℕ → BitVec 64} {n i : ℕ} (h : i ∈ denseVars density n) : i < n :=
  List.mem_range.mp (List.mem_of_mem_filter h)

lemma map_denseVars_inp (density : ℕ → BitVec 64) :
    (denseVars density p.inpAssignmentSize).map (assignment p) =
      dense density p.inpAssignmentData p.inpAssignmentSize := by
  apply List.map_congr_left
  intro i hi
  exact if_pos (mem_denseVars hi)

lemma map_auxVars (density : ℕ → BitVec 64) :
    (auxVars p density).map (assignment p) =
      dense density p.auxAssignmentData p.auxAssignmentSize := by
  rw [auxVars, List.map_map, dense, denseVars]
  apply List.map_congr_left
  intro i _
  simp only [Function.comp, assignment, Nat.not_lt.mpr (Nat.le_add_right _ i), if_false,
    Nat.add_sub_cancel_left]

lemma map_varsA : (varsA p).map (assignment p) = p.queryA.all := by
  rw [varsA, List.map_append, map_auxVars, Query.all, Assignment.queryA, Assignment.aQuery]
  congr 1
  apply List.map_congr_left
  intro i hi
  exact if_pos (List.mem_range.mp hi)

lemma map_varsB : (varsB p).map (assignment p) = p.queryB.all := by
  rw [varsB, List.map_append, map_auxVars, map_denseVars_inp, Query.all, Assignment.queryB,
    Assignment.bQuery]

lemma nodup_append_auxVars {l : List ℕ} (density : ℕ → BitVec 64) (hl : l.Nodup)
    (hlt : ∀ i ∈ l, i < p.inpAssignmentSize) : (l ++ auxVars p density).Nodup := by
  refine List.nodup_append.mpr ⟨hl, ?_, ?_⟩
  · exact (List.nodup_range.filter _).map fun _ _ h => Nat.add_left_cancel h
  · intro i hi j hj heq
    obtain ⟨k, -, rfl⟩ := List.mem_map.mp hj
    exact absurd (hlt i hi) (by omega)

lemma lt_of_mem_auxVars {density : ℕ → BitVec 64} {i : ℕ} (h : i ∈ auxVars p density) :
    i < p.inpAssignmentSize + p.auxAssignmentSize := by
  obtain ⟨j, hj, rfl⟩ := List.mem_map.mp h
  exact Nat.add_lt_add_left (mem_denseVars hj) _

end

/-! ### Proofs -/

variable [Field F] [AddCommGroup G₁] [AddCommGroup G₂] [Module F G₁] [Module F G₂]

/-- The points of one proof. -/
def assemble (vk : VerifyingKey G₁ G₂) (results : MsmResults G₁ G₂) (r s : F) : Proof G₁ G₂ :=
  let rs := r * s
  let vkDeltaG1Rs := rs • vk.deltaG1
  let vkAlphaG1S := s • vk.alphaG1
  let vkBetaG1R := r • vk.betaG1
  let b1Answer := r • results.bG1
  { a := r • vk.deltaG1 + vk.alphaG1 + results.a
    b := s • vk.deltaG2 + vk.betaG2 + results.bG2
    c := s • results.a + b1Answer + vkDeltaG1Rs + vkAlphaG1S + vkBetaG1R + results.h + results.l }

/-- The points of a proof, from multiples of the generators. -/
lemma assemble_values (t : Trapdoor F) (g₁ : G₁) (g₂ : G₂) (a b h l r s : F) :
    assemble ⟨t.alpha • g₁, t.beta • g₁, t.beta • g₂, t.gamma • g₂, t.delta • g₁, t.delta • g₂⟩
        ⟨h • g₁, l • g₁, a • g₁, b • g₁, b • g₂⟩ r s =
      ⟨(r * t.delta + t.alpha + a) • g₁, (s * t.delta + t.beta + b) • g₂,
        (s * a + r * b + r * s * t.delta + s * t.alpha + r * t.beta + h + l) • g₁⟩ := by
  simp only [assemble, smul_smul, ← add_smul]

/-- The parameters of `generate_groth16_proofs_c`. -/
structure Call (F G₁ G₂ : Type*) where
  prep : Prep F G₁ G₂
  vk : VerifyingKey G₁ G₂
  pointsH : Slice G₁
  abc : ℕ → NttMsmH.Assignment F
  r : ℕ → F
  s : ℕ → F

namespace Call

variable [DecidableEq F] (P : Call F G₁ G₂)

/-- `lg_domain_size`. -/
def lg : ℕ := lgDomainSize P.pointsH.size

/-- `results.h[c]`: the MSM of `execute_ntt_msm_h`, from what is left in `d_a`. -/
def resultH (m : Msm F G₁) (lot : Bool) (mem : Addr → F) : G₁ :=
  m.invoke P.pointsH.size P.pointsH.data fun i => mem (Buffer.dA.addr P.lg lot i)

/-- The auxiliary variables of circuit `c`. -/
def auxRange (c : ℕ) : Finset ℕ :=
  Finset.Ico (P.prep.provers c).inpAssignmentSize
    ((P.prep.provers c).inpAssignmentSize + (P.prep.provers c).auxAssignmentSize)

/-- `proofs[c]`. -/
def proof (m₁ : Msm F G₁) (m₂ : Msm F G₂) (lot : Bool) (mem : Addr → F) (c : ℕ) : Proof G₁ G₂ :=
  assemble P.vk
    { h := P.resultH m₁ lot mem
      l := P.prep.resultL m₁ c
      a := P.prep.resultA m₁ c
      bG1 := P.prep.resultBG1 m₁ c
      bG2 := P.prep.resultBG2 m₂ c } (P.r c) (P.s c)

end Call

/-! ### The quotient -/

section

variable {F : Type*} [Field F]

/-- When the host is through, the coefficients of the quotient are in `d_a`. -/
lemma mem_dA {lg : ℕ} {T : Ntt F lg} (hgen : T.groupGen ^ 2 ^ lg ≠ 1) {gpu : Gpu} {lot : Bool}
    {input : NttMsmH.Assignment F} (hsize : input.abcSize ≤ 2 ^ lg) {m : Addr → F}
    {s : Streams.State Addr F}
    (hs : Transition.Reachable (Streams.step (device T gpu lot)
      (NttMsmH.executeNttMsmH T.groupGen lot input hsize)) (Streams.State.init m) s)
    (hdone : s.issued = (NttMsmH.executeNttMsmH T.groupGen lot input hsize).length)
    {A B C H : F[X]}
    (hA : Interpolates T.root (2 ^ lg) (pad input.a input.abcSize) A)
    (hB : Interpolates T.root (2 ^ lg) (pad input.b input.abcSize) B)
    (hC : Interpolates T.root (2 ^ lg) (pad input.c input.abcSize) C)
    (hH : A * B - C = H * (X ^ 2 ^ lg - 1)) {i : ℕ} (hi : i < 2 ^ lg) :
    s.mem (Buffer.dA.addr lg lot i) = H.coeff i := by
  set prog := NttMsmH.executeNttMsmH T.groupGen lot input hsize with hprog
  have hsched : schedule (device T gpu lot) prog =
      msmHSchedule lot (decide (input.abcSize < 2 ^ lg)) := schedule_executeNttMsmH
  have ho : Ordered (schedule (device T gpu lot) prog) := by
    rw [hsched]
    exact ordered_msmHSchedule _ _
  have hlen : prog.length = (msmHSchedule lot (decide (input.abcSize < 2 ^ lg))).length := by
    rw [← hsched, schedule, List.length_map]
  have hlast : prog[prog.length - 1]? = some (.sync (1 + lot.toNat)) := getElem?_executeNttMsmH
  rw [mem_eq ho hs, runCalls_length, ← load_executeNttMsmH hgen hA hB hC hH hi, load_eq hi]
  · rfl
  · intro j hj hw
    -- all commands come before the last call, and that one only waits
    have hne : j ≠ prog.length - 1 := by
      rintro rfl
      obtain ⟨st, x, hx, -⟩ := mem_writes.mp hw
      rw [hlast] at hx
      cases hx
    have hb := isBefore_sync lot (decide (input.abcSize < 2 ^ lg)) j (by omega)
    rw [← hlen, ← hsched] at hb
    exact (reachable_inv ho hs).finished_of_synced (by omega) hlast
      ((before_map (device T gpu lot).footprint).mp (before_of_isBefore hb))

/-- The vectors of the prover, padded. -/
lemma pad_values {r : R1cs F} {m : ℕ → ℕ → F} {z x : ℕ → F}
    (h : ∀ k < r.numConstraints, x k = r.values m z k) : pad x r.numConstraints = r.values m z := by
  funext k
  rw [pad]
  split_ifs with hk
  · exact h k hk
  · rw [R1cs.values, if_neg hk]

end

/-! ### The setup -/

/-- The points of a query are those of its variables, and the others occur in no constraint. -/
structure QueryFor {G : Type*} [AddCommGroup G] [Module F G] (r : R1cs F) (m : ℕ → ℕ → F) (ω : F)
    (N : ℕ) (tau : F) (vars : List ℕ) (points : ℕ → G) (g : G) : Prop where
  points : ∀ pos < vars.length,
    points pos = (r.poly m ω N (vars.getD pos 0)).eval tau • g
  occurs : ∀ i < r.numVars, i ∉ vars → ∀ k < r.numConstraints, m k i = 0

/-- The sum over a list of different numbers that leaves out only zeros. -/
lemma sum_getD {vars : List ℕ} (hnodup : vars.Nodup) {n : ℕ} (hlt : ∀ i ∈ vars, i < n) {f : ℕ → F}
    (hzero : ∀ i < n, i ∉ vars → f i = 0) :
    ∑ pos ∈ Finset.range vars.length, f (vars.getD pos 0) = ∑ i ∈ Finset.range n, f i := by
  have hsub : vars.toFinset ⊆ Finset.range n := by
    intro i hi
    exact Finset.mem_range.mpr (hlt i (List.mem_toFinset.mp hi))
  rw [← Finset.sum_subset hsub, List.sum_toFinset f hnodup, Finset.sum_range,
    ← Fin.sum_univ_getElem, ← Fin.sum_congr' _ (List.length_map f)]
  · apply Finset.sum_congr rfl
    intro pos _
    have hpos : pos.val < vars.length := List.length_map f ▸ pos.isLt
    simp [hpos]
  · intro i hi hnot
    exact hzero i (Finset.mem_range.mp hi) fun h => hnot (List.mem_toFinset.mpr h)

/-- The MSM over a query is the value of the combined polynomial. -/
lemma QueryFor.msm_eq {G : Type*} [AddCommGroup G] [Module F G] {r : R1cs F} {m : ℕ → ℕ → F}
    {ω : F} {N : ℕ} {tau : F} {vars : List ℕ} {points : ℕ → G} {g : G}
    (h : QueryFor r m ω N tau vars points g) (hnodup : vars.Nodup)
    (hlt : ∀ i ∈ vars, i < r.numVars) {query : Query F} {z : ℕ → F} (hquery : vars.map z = query.all) :
    query.msm points = (r.combine m z ω N).eval tau • g := by
  have hlen : query.length = vars.length := by
    rw [← Query.length_all, ← hquery, List.length_map]
  rw [r.eval_combine, ← sum_getD hnodup hlt, Query.msm, hlen, Finset.sum_smul]
  · apply Finset.sum_congr rfl
    intro pos hpos
    have hpos := Finset.mem_range.mp hpos
    rw [h.points pos hpos, ← hquery, smul_smul]
    simp [hpos]
  · intro i hi hnot
    rw [r.poly_eq_zero m (h.occurs i hi hnot), eval_zero, mul_zero]

/-- What the key material mixes for one variable. -/
noncomputable def varMix (t : Trapdoor F) (r : R1cs F) (ω : F) (N i : ℕ) : F :=
  t.mix ((r.poly r.a ω N i).eval t.tau) ((r.poly r.b ω N i).eval t.tau)
    ((r.poly r.c ω N i).eval t.tau)

/-- The parameters come from a setup for the circuit with the secrets `t`, for the densities of
prover `c`. -/
structure Call.SetUp (P : Call F G₁ G₂) (t : Trapdoor F) (r : R1cs F) (ω : F) (g₁ : G₁) (g₂ : G₂)
    (c : ℕ) : Prop where
  vk : P.vk = ⟨t.alpha • g₁, t.beta • g₁, t.beta • g₂, t.gamma • g₂, t.delta • g₁, t.delta • g₂⟩
  vars : r.numVars =
    (P.prep.provers c).inpAssignmentSize + (P.prep.provers c).auxAssignmentSize
  a : QueryFor r r.a ω (2 ^ P.lg) t.tau (varsA (P.prep.provers c)) P.prep.points.a.data g₁
  bG1 : QueryFor r r.b ω (2 ^ P.lg) t.tau (varsB (P.prep.provers c)) P.prep.points.bG1.data g₁
  bG2 : QueryFor r r.b ω (2 ^ P.lg) t.tau (varsB (P.prep.provers c)) P.prep.points.bG2.data g₂
  bG2_size : P.prep.points.bG2.size = P.prep.points.bG1.size
  l : ∀ j < (P.prep.provers c).auxAssignmentSize, P.prep.points.l.data j =
    (varMix t r ω (2 ^ P.lg) ((P.prep.provers c).inpAssignmentSize + j) / t.delta) • g₁
  h : ∀ i < P.pointsH.size,
    P.pointsH.data i = (t.tau ^ i * (t.tau ^ 2 ^ P.lg - 1) / t.delta) • g₁
  h_size : 2 ^ P.lg - 1 ≤ P.pointsH.size

/-- The vectors of prover `c` are the values of the constraints. -/
structure Call.Evaluates (P : Call F G₁ G₂) (r : R1cs F) (c : ℕ) : Prop where
  size : (P.abc c).abcSize = r.numConstraints
  a : ∀ k < r.numConstraints, (P.abc c).a k = r.values r.a (assignment (P.prep.provers c)) k
  b : ∀ k < r.numConstraints, (P.abc c).b k = r.values r.b (assignment (P.prep.provers c)) k
  c : ∀ k < r.numConstraints, (P.abc c).c k = r.values r.c (assignment (P.prep.provers c)) k

/-! ### The sums -/

/-- The value that some variables contribute to the combined polynomial. -/
noncomputable def partValue (r : R1cs F) (m : ℕ → ℕ → F) (ω : F) (N : ℕ) (tau : F) (z : ℕ → F)
    (s : Finset ℕ) : F :=
  ∑ i ∈ s, z i * (r.poly m ω N i).eval tau

lemma sum_varMix (t : Trapdoor F) (r : R1cs F) (ω : F) (N : ℕ) (z : ℕ → F) (s : Finset ℕ) :
    ∑ i ∈ s, z i * varMix t r ω N i =
      t.mix (partValue r r.a ω N t.tau z s) (partValue r r.b ω N t.tau z s)
        (partValue r r.c ω N t.tau z s) := by
  simp only [Trapdoor.mix, partValue, Finset.mul_sum, ← Finset.sum_add_distrib]
  apply Finset.sum_congr rfl
  intro i _
  rw [varMix, Trapdoor.mix]
  ring

/-- The inputs and the auxiliary variables contribute all. -/
lemma eval_combine_eq (r : R1cs F) (m : ℕ → ℕ → F) (ω : F) (N : ℕ) (tau : F) (z : ℕ → F) {k n : ℕ}
    (hn : r.numVars = k + n) : (r.combine m z ω N).eval tau =
      partValue r m ω N tau z (Finset.range k) + partValue r m ω N tau z (Finset.Ico k (k + n)) := by
  rw [r.eval_combine, hn, partValue, partValue, Finset.range_eq_Ico, Finset.range_eq_Ico]
  exact (Finset.sum_Ico_consecutive _ (Nat.zero_le k) (Nat.le_add_right k n)).symm

namespace Call

variable [DecidableEq F] {P : Call F G₁ G₂} {m₁ : Msm F G₁} {m₂ : Msm F G₂} {t : Trapdoor F}
  {r : R1cs F} {ω : F} {g₁ : G₁} {g₂ : G₂} {c : ℕ}

lemma resultA_eq (h : P.SetUp t r ω g₁ g₂ c) (hc : c < P.prep.numCircuits) :
    P.prep.resultA m₁ c =
      (r.combine r.a (assignment (P.prep.provers c)) ω (2 ^ P.lg)).eval t.tau • g₁ := by
  rw [Prep.resultA_eq m₁ hc]
  refine h.a.msm_eq ?_ ?_ (map_varsA _)
  · exact nodup_append_auxVars _ _ List.nodup_range fun i hi => List.mem_range.mp hi
  · intro i hi
    rw [h.vars]
    rcases List.mem_append.mp hi with hi | hi
    · exact (List.mem_range.mp hi).trans_le (Nat.le_add_right _ _)
    · exact lt_of_mem_auxVars _ hi

/-- Query B in one of the groups. -/
lemma resultB_eq (m₁ : Msm F G₁) (m₂ : Msm F G₂) (h : P.SetUp t r ω g₁ g₂ c)
    (hc : c < P.prep.numCircuits) :
    P.prep.resultBG1 m₁ c =
        (r.combine r.b (assignment (P.prep.provers c)) ω (2 ^ P.lg)).eval t.tau • g₁ ∧
      P.prep.resultBG2 m₂ c =
        (r.combine r.b (assignment (P.prep.provers c)) ω (2 ^ P.lg)).eval t.tau • g₂ := by
  have hnodup : (varsB (P.prep.provers c)).Nodup :=
    nodup_append_auxVars _ _ (List.nodup_range.filter _) fun i hi => mem_denseVars hi
  have hlt : ∀ i ∈ varsB (P.prep.provers c), i < r.numVars := by
    intro i hi
    rw [h.vars]
    rcases List.mem_append.mp hi with hi | hi
    · exact (mem_denseVars hi).trans_le (Nat.le_add_right _ _)
    · exact lt_of_mem_auxVars _ hi
  constructor
  · rw [← h.bG1.msm_eq hnodup hlt (map_varsB _)]
    exact Prep.tailB_eq m₁ hc Prod.fst
  · rw [← h.bG2.msm_eq hnodup hlt (map_varsB _), Prep.resultBG2, h.bG2_size]
    exact Prep.tailB_eq m₂ hc Prod.snd

lemma resultL_eq (h : P.SetUp t r ω g₁ g₂ c) (hc : c < P.prep.numCircuits) :
    P.prep.resultL m₁ c = (t.mix
      (partValue r r.a ω (2 ^ P.lg) t.tau (assignment (P.prep.provers c)) (auxRange P c))
      (partValue r r.b ω (2 ^ P.lg) t.tau (assignment (P.prep.provers c)) (auxRange P c))
      (partValue r r.c ω (2 ^ P.lg) t.tau (assignment (P.prep.provers c)) (auxRange P c)) /
        t.delta) • g₁ := by
  rw [Prep.resultL_eq m₁ hc, ← sum_varMix, Query.msm, auxRange, Finset.sum_Ico_eq_sum_range,
    Nat.add_sub_cancel_left, Finset.sum_div, Finset.sum_smul]
  have hlen : (P.prep.provers c).queryL.length = (P.prep.provers c).auxAssignmentSize :=
    Assignment.length_lQuery ..
  rw [hlen]
  apply Finset.sum_congr rfl
  intro j hj
  have hj := Finset.mem_range.mp hj
  rw [h.l j hj, smul_smul, mul_div_assoc]
  congr 2
  simp [Query.all, Assignment.queryL, Assignment.lQuery, assignment, hj]

/-- The MSM over the coefficients of the quotient. -/
lemma resultH_eq (h : P.SetUp t r ω g₁ g₂ c) {lot : Bool} {mem : Addr → F} {H : F[X]}
    (hdeg : H.degree < (2 ^ P.lg - 1 : ℕ))
    (hmem : ∀ i < 2 ^ P.lg, mem (Buffer.dA.addr P.lg lot i) = H.coeff i) :
    P.resultH m₁ lot mem = (H.eval t.tau * (t.tau ^ 2 ^ P.lg - 1) / t.delta) • g₁ := by
  have hnat : H.natDegree < P.pointsH.size := by
    have htwo : 2 ≤ 2 ^ P.lg := Nat.le_self_pow (Nat.succ_ne_zero _) 2
    by_cases hzero : H = 0
    · rw [hzero, natDegree_zero]
      exact (Nat.sub_pos_of_lt htwo).trans_le h.h_size
    · exact ((natDegree_lt_iff_degree_lt hzero).mpr hdeg).trans_le h.h_size
  rw [resultH, m₁.invoke_eq, eval_eq_sum_range' hnat, Finset.sum_mul, Finset.sum_div,
    Finset.sum_smul]
  apply Finset.sum_congr rfl
  intro i hi
  have hi := Finset.mem_range.mp hi
  rw [hmem i (hi.trans_le (le_domainSize _)), h.h i hi, smul_smul]
  congr 1
  ring

/-- The proofs are accepted. When the SRS comes from a setup for the circuit, for the densities of the
prover, and the vectors of the prover from an assignment that satisfies the circuit, then whatever the
blinding scalars and the order of the commands on the streams, the proof passes the check of the verifier
for the inputs. -/
theorem proofs_accepted [AddCommGroup GT] [Module F GT] {e : G₁ →ₗ[F] G₂ →ₗ[F] GT}
    {T : Ntt F P.lg} (hgen : T.groupGen ^ 2 ^ P.lg ≠ 1) {gpu : Gpu} {lot : Bool}
    (hγ : t.gamma ≠ 0) (hδ : t.delta ≠ 0) (hc : c < P.prep.numCircuits)
    (h : P.SetUp t r T.root g₁ g₂ c) (heval : P.Evaluates r c)
    (hsat : r.Satisfied (assignment (P.prep.provers c)))
    (hsize : (P.abc c).abcSize ≤ 2 ^ P.lg) {m : Addr → F} {st : Streams.State Addr F}
    (hst : Transition.Reachable (Streams.step (device T gpu lot)
      (NttMsmH.executeNttMsmH T.groupGen lot (P.abc c) hsize)) (Streams.State.init m) st)
    (hdone : st.issued = (NttMsmH.executeNttMsmH T.groupGen lot (P.abc c) hsize).length) :
    Accepts e ⟨P.vk.alphaG1, P.vk.betaG2, P.vk.gammaG2, P.vk.deltaG2⟩
      (∑ i ∈ Finset.range (P.prep.provers c).inpAssignmentSize,
        (P.prep.provers c).inpAssignmentData i •
          (varMix t r T.root (2 ^ P.lg) i / t.gamma) • g₁)
      (P.proof m₁ m₂ lot st.mem c) := by
  have hN := Nat.two_pow_pos P.lg
  set z := assignment (P.prep.provers c) with hz
  have hA := r.interpolates_combine r.a z T.root_primitive
  have hB := r.interpolates_combine r.b z T.root_primitive
  have hC := r.interpolates_combine r.c z T.root_primitive
  obtain ⟨H, hH⟩ := R1cs.exists_quotient hN T.root_primitive hsat
  have hmem : ∀ i < 2 ^ P.lg, st.mem (Buffer.dA.addr P.lg lot i) = H.coeff i := by
    intro i hi
    refine mem_dA hgen hsize hst hdone ?_ ?_ ?_ hH hi
    · rw [heval.size, pad_values heval.a]
      exact hA
    · rw [heval.size, pad_values heval.b]
      exact hB
    · rw [heval.size, pad_values heval.c]
      exact hC
  have hdeg := degree_quotient_lt_pred hN hA.degree_lt hB.degree_lt hC.degree_lt hH
  obtain ⟨hb₁, hb₂⟩ := resultB_eq m₁ m₂ h hc
  rw [proof, resultH_eq h hdeg hmem, resultL_eq h hc, resultA_eq h hc, hb₁, hb₂, h.vk, assemble_values]
  -- what the inputs and what the auxiliary variables contribute
  have hvalues := congrArg (eval t.tau) hH
  rw [eval_sub, eval_mul, eval_mul, eval_sub, eval_pow, eval_X, eval_one, sub_eq_iff_eq_add',
    eval_combine_eq r r.a _ _ _ _ h.vars, eval_combine_eq r r.b _ _ _ _ h.vars,
    eval_combine_eq r r.c _ _ _ _ h.vars] at hvalues
  have hinputs : ∑ i ∈ Finset.range (P.prep.provers c).inpAssignmentSize,
      (P.prep.provers c).inpAssignmentData i • (varMix t r T.root (2 ^ P.lg) i / t.gamma) • g₁ =
        (t.mix
          (partValue r r.a T.root (2 ^ P.lg) t.tau z
            (Finset.range (P.prep.provers c).inpAssignmentSize))
          (partValue r r.b T.root (2 ^ P.lg) t.tau z
            (Finset.range (P.prep.provers c).inpAssignmentSize))
          (partValue r r.c T.root (2 ^ P.lg) t.tau z
            (Finset.range (P.prep.provers c).inpAssignmentSize)) / t.gamma) • g₁ := by
    rw [← sum_varMix, Finset.sum_div, Finset.sum_smul]
    apply Finset.sum_congr rfl
    intro i hi
    rw [smul_smul, mul_div_assoc, hz, assignment, if_pos (Finset.mem_range.mp hi)]
  rw [hinputs, eval_combine_eq r r.a _ _ _ _ h.vars, eval_combine_eq r r.b _ _ _ _ h.vars]
  exact accepts_of_values e g₁ g₂ hγ hδ hvalues (P.r c) (P.s c)

end Call

/-! ### A square -/

/-- The input is the square of the auxiliary variable. -/
def square : R1cs ℚ where
  numVars := 2
  numConstraints := 1
  a _ i := if i = 1 then 1 else 0
  b _ i := if i = 1 then 1 else 0
  c _ i := if i = 0 then 1 else 0

def squareSecrets : Trapdoor ℚ := ⟨2, 3, 5, 7, 11⟩

/-- The prover knows that 4 is the square of 2. -/
def squareProver : PrepMsm.Assignment ℚ where
  aAuxDensity := fun _ => 1#64
  aAuxBitLen := 1
  aAuxPopcount := 1
  bInpDensity := fun _ => 0#64
  bInpBitLen := 1
  bInpPopcount := 0
  bAuxDensity := fun _ => 1#64
  bAuxBitLen := 1
  bAuxPopcount := 1
  inpAssignmentData := fun _ => 4
  inpAssignmentSize := 1
  auxAssignmentData := fun _ => 2
  auxAssignmentSize := 1

/-- The call with the SRS of a setup, for two roots of unity. -/
noncomputable def squareCall : Call ℚ ℚ ℚ where
  prep :=
    { numCircuits := 1
      numCircuits_pos := Nat.one_pos
      provers := fun _ => squareProver
      points :=
        { l := ⟨fun j => varMix squareSecrets square (-1) 2 (1 + j) / 7, 1⟩
          a := ⟨fun pos => (square.poly square.a (-1) 2 ((varsA squareProver).getD pos 0)).eval 11, 2⟩
          bG1 := ⟨fun pos => (square.poly square.b (-1) 2 ((varsB squareProver).getD pos 0)).eval 11,
            1⟩
          bG2 := ⟨fun pos => (square.poly square.b (-1) 2 ((varsB squareProver).getD pos 0)).eval 11,
            1⟩ }
      asserts := fun _ _ => ⟨rfl, rfl, rfl, rfl, rfl, rfl⟩
      counted := fun _ _ => ⟨by decide, by decide, by decide⟩
      fresh := ⟨0, 0, 0, 0, 0, 0, 0, 0, 0, 0⟩ }
  vk := ⟨2, 3, 3, 5, 7, 7⟩
  pointsH := ⟨fun i => 11 ^ i * (11 ^ 2 - 1) / 7, 2⟩
  abc := fun _ => ⟨fun _ => 2, fun _ => 2, fun _ => 4, 1⟩
  r := fun _ => 13
  s := fun _ => 17

/-- The query of one variable, or of two. -/
lemma queryFor_square {m : ℕ → ℕ → ℚ} {vars : List ℕ} {points : ℕ → ℚ}
    (hpoints : ∀ pos, points pos = (square.poly m (-1) 2 (vars.getD pos 0)).eval 11)
    (hone : 1 ∈ vars) (hzero : 0 ∈ vars ∨ ∀ k, m k 0 = 0) :
    QueryFor square m (-1) 2 11 vars points (1 : ℚ) where
  points pos _ := by
    rw [hpoints, smul_eq_mul, mul_one]
  occurs i hi hnot k _ := by
    change i < 2 at hi
    interval_cases i
    · exact (hzero.resolve_left hnot) k
    · exact absurd hone hnot

lemma setUp_square : squareCall.SetUp squareSecrets square twoPoints.root 1 1 0 := by
  have hlg : 2 ^ squareCall.lg = 2 := by
    rw [Call.lg, show squareCall.pointsH.size = 2 from rfl, lgDomainSize_two]
    rfl
  have hroot : twoPoints.root = -1 := rfl
  have hvars : varsA squareProver = [0, 1] ∧ varsB squareProver = [1] := by decide
  constructor
  case vk => simp [squareCall, squareSecrets]
  case vars => rfl
  case bG2_size => rfl
  case h_size => rw [hlg]; exact one_le_two
  all_goals rw [hlg]
  case a =>
    refine queryFor_square (fun _ => rfl) ?_ (.inl ?_)
    · rw [show squareCall.prep.provers 0 = squareProver from rfl, hvars.1]; simp
    · rw [show squareCall.prep.provers 0 = squareProver from rfl, hvars.1]; simp
  case bG1 =>
    refine queryFor_square (fun _ => rfl) ?_ (.inr fun _ => rfl)
    rw [show squareCall.prep.provers 0 = squareProver from rfl, hvars.2]; simp
  case bG2 =>
    refine queryFor_square (fun _ => rfl) ?_ (.inr fun _ => rfl)
    rw [show squareCall.prep.provers 0 = squareProver from rfl, hvars.2]; simp
  case l =>
    intro j _
    rw [smul_eq_mul, mul_one]
    rfl
  case h =>
    intro i _
    rw [smul_eq_mul, mul_one]
    rfl

/-- The vectors are the values of the constraint at the assignment. -/
lemma evaluates_square : squareCall.Evaluates square 0 := by
  constructor
  case size => rfl
  all_goals
    intro k hk
    rw [R1cs.values, if_pos hk]
    simp [squareCall, square, assignment, squareProver]

/-- `2 * 2 = 4`. -/
lemma satisfied_square : square.Satisfied (assignment squareProver) := by
  intro k hk
  simp only [R1cs.values, if_pos hk]
  norm_num [square, assignment, squareProver]

def squareNtt : Ntt ℚ squareCall.lg := twoPoints

lemma abcSize_square : (squareCall.abc 0).abcSize ≤ 2 ^ squareCall.lg :=
  Nat.one_le_two_pow

/-- The host gets through, and the proof that 4 is a square is accepted. -/
theorem proofs_accepted_square : ∃ st : Streams.State Addr ℚ, Transition.Reachable
      (Streams.step (device squareNtt oneSm false)
        (NttMsmH.executeNttMsmH squareNtt.groupGen false (squareCall.abc 0) abcSize_square))
      (Streams.State.init fun _ => 0) st ∧
    Accepts (LinearMap.mul ℚ ℚ) ⟨2, 3, 5, 7⟩
      (∑ i ∈ Finset.range 1,
        (4 : ℚ) • (varMix squareSecrets square squareNtt.root (2 ^ squareCall.lg) i / 5) • (1 : ℚ))
      (squareCall.proof Prep.termwise Prep.termwise false st.mem 0) := by
  have hgen : squareNtt.groupGen ^ 2 ^ squareCall.lg ≠ 1 := by
    change (2 : ℚ) ^ 2 ^ lgDomainSize 2 ≠ 1
    rw [lgDomainSize_two]
    norm_num
  have ho : Ordered (schedule (device squareNtt oneSm false)
      (NttMsmH.executeNttMsmH squareNtt.groupGen false (squareCall.abc 0) abcSize_square)) := by
    rw [schedule_executeNttMsmH]
    exact ordered_msmHSchedule _ _
  obtain ⟨st, hst, hthrough⟩ := exists_through (m := fun _ => 0) ho .start
  refine ⟨st, hst, ?_⟩
  exact Call.proofs_accepted hgen (by norm_num [squareSecrets]) (by norm_num [squareSecrets])
    Nat.one_pos setUp_square evaluates_square satisfied_square _ hst hthrough

end SupraSeal.Groth16
