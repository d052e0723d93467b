import SupraSeal.Lib.CosetTransform
import Mathlib.LinearAlgebra.Lagrange

/-!
# Quadratic arithmetic programs

The constraints of a rank-1 system are put at the roots of unity, so that every variable has three
polynomials. An assignment that satisfies the constraints combines them to polynomials for which
`A * B - C` is a multiple of `X ^ N - 1`; the quotient has degree at most `N - 2`.
-/

namespace SupraSeal.Qap

open Polynomial Coset

variable {F : Type*} [Field F] {ω : F} {N : ℕ}

/-! ### Interpolation -/

/-- The polynomial with values `x` at the roots of unity. -/
noncomputable def interpolation (ω : F) (N : ℕ) (x : ℕ → F) : F[X] :=
  Lagrange.interpolate (Finset.range N) (fun k => ω ^ k) x

lemma injOn_pow (hω : IsPrimitiveRoot ω N) :
    Set.InjOn (fun k : ℕ => ω ^ k) (Finset.range N : Finset ℕ) := by
  intro i hi j hj hij
  exact hω.pow_inj (Finset.mem_range.mp hi) (Finset.mem_range.mp hj) hij

lemma interpolates_interpolation (hω : IsPrimitiveRoot ω N) (x : ℕ → F) :
    Interpolates ω N x (interpolation ω N x) := by
  constructor
  · have hdeg := Lagrange.degree_interpolate_lt x (injOn_pow hω)
    rwa [Finset.card_range] at hdeg
  · intro k hk
    exact Lagrange.eval_interpolate_at_node x (injOn_pow hω) (Finset.mem_range.mpr hk)

lemma interpolation_eq_zero {x : ℕ → F} (hx : ∀ k < N, x k = 0) : interpolation ω N x = 0 := by
  rw [interpolation, Lagrange.interpolate_apply]
  apply Finset.sum_eq_zero
  intro k hk
  rw [hx k (Finset.mem_range.mp hk), C_0, zero_mul]

/-! ### Constraint systems -/

/-- A rank-1 constraint system: the coefficients of the variables in each constraint. -/
structure R1cs (F : Type*) where
  numVars : ℕ
  numConstraints : ℕ
  a : ℕ → ℕ → F
  b : ℕ → ℕ → F
  c : ℕ → ℕ → F

namespace R1cs

variable (r : R1cs F) (m : ℕ → ℕ → F) (z : ℕ → F)

/-- The values of a linear form in all constraints, and zero behind them. -/
def values (k : ℕ) : F :=
  if k < r.numConstraints then ∑ i ∈ Finset.range r.numVars, z i * m k i else 0

/-- The constraints hold. -/
def Satisfied : Prop :=
  ∀ k < r.numConstraints, r.values r.a z k * r.values r.b z k = r.values r.c z k

/-- The coefficients of one variable. -/
def column (i k : ℕ) : F := if k < r.numConstraints then m k i else 0

/-- The polynomial of one variable. -/
noncomputable def poly (ω : F) (N i : ℕ) : F[X] := interpolation ω N (r.column m i)

/-- The polynomials of the variables, combined. -/
noncomputable def combine (ω : F) (N : ℕ) : F[X] :=
  ∑ i ∈ Finset.range r.numVars, z i • r.poly m ω N i

lemma interpolates_combine (hω : IsPrimitiveRoot ω N) :
    Interpolates ω N (r.values m z) (r.combine m z ω N) := by
  have hpoly := fun i => interpolates_interpolation hω (r.column m i)
  constructor
  · refine (degree_sum_le _ _).trans_lt ((Finset.sup_lt_iff (WithBot.bot_lt_coe N)).mpr ?_)
    intro i _
    exact (degree_smul_le _ _).trans_lt (hpoly i).degree_lt
  · intro k hk
    have hterm : ∀ i, (z i • r.poly m ω N i).eval (ω ^ k) = z i * r.column m i k := by
      intro i
      rw [eval_smul, smul_eq_mul, poly, (hpoly i).eval k hk]
    rw [combine, eval_finsetSum, values]
    simp only [hterm, column]
    split_ifs
    · rfl
    · simp only [mul_zero, Finset.sum_const_zero]

lemma eval_combine (x : F) :
    (r.combine m z ω N).eval x = ∑ i ∈ Finset.range r.numVars, z i * (r.poly m ω N i).eval x := by
  rw [combine, eval_finsetSum]
  apply Finset.sum_congr rfl
  intro i _
  rw [eval_smul, smul_eq_mul]

/-- A variable that occurs in no constraint. -/
lemma poly_eq_zero {i : ℕ} (hi : ∀ k < r.numConstraints, m k i = 0) : r.poly m ω N i = 0 := by
  apply interpolation_eq_zero
  intro k _
  rw [column]
  split_ifs with hk
  · exact hi k hk
  · rfl

end R1cs

/-! ### The quotient -/

/-- What vanishes at the roots of unity is a multiple of `X ^ N - 1`. -/
theorem dvd_of_eval_eq_zero (hN : 0 < N) (hω : IsPrimitiveRoot ω N) {f : F[X]}
    (hf : ∀ k < N, f.eval (ω ^ k) = 0) : X ^ N - 1 ∣ f := by
  have hmonic : (X ^ N - 1 : F[X]).Monic := by
    rw [← C_1]
    exact monic_X_pow_sub_C 1 hN.ne'
  rw [← modByMonic_eq_zero_iff_dvd hmonic]
  -- the remainder has too many roots for its degree
  apply eq_zero_of_degree_lt_of_eval_index_eq_zero (Finset.range N) (injOn_pow hω)
  · rw [Finset.card_range]
    refine (degree_modByMonic_lt f hmonic).trans_eq ?_
    rw [← C_1, degree_X_pow_sub_C hN]
  · intro k hk
    have hroot : (X ^ N - 1 : F[X]).eval (ω ^ k) = 0 := by
      rw [eval_sub, eval_pow, eval_X, eval_one, ← pow_mul, Nat.mul_comm, pow_mul, hω.pow_eq_one,
        one_pow, sub_self]
    rw [modByMonic_eq_sub_mul_div, eval_sub, eval_mul, hroot, zero_mul, sub_zero]
    exact hf k (Finset.mem_range.mp hk)

/-- An assignment that satisfies the constraints has a quotient. -/
theorem R1cs.exists_quotient (hN : 0 < N) (hω : IsPrimitiveRoot ω N) {r : R1cs F} {z : ℕ → F}
    (hsat : r.Satisfied z) : ∃ H : F[X],
      r.combine r.a z ω N * r.combine r.b z ω N - r.combine r.c z ω N = H * (X ^ N - 1) := by
  have hA := r.interpolates_combine r.a z hω
  have hB := r.interpolates_combine r.b z hω
  have hC := r.interpolates_combine r.c z hω
  obtain ⟨H, hH⟩ : X ^ N - 1 ∣
      r.combine r.a z ω N * r.combine r.b z ω N - r.combine r.c z ω N := by
    apply dvd_of_eval_eq_zero hN hω
    intro k hk
    rw [eval_sub, eval_mul, hA.eval k hk, hB.eval k hk, hC.eval k hk, sub_eq_zero]
    by_cases hlt : k < r.numConstraints
    · exact hsat k hlt
    · simp only [values, if_neg hlt, mul_zero]
  exact ⟨H, hH.trans (mul_comm _ _)⟩

lemma degree_le_of_lt_succ {f : F[X]} {n : ℕ} (h : f.degree < (n + 1 : ℕ)) : f.degree ≤ n := by
  rw [degree_le_iff_coeff_zero]
  intro m hm
  exact (degree_lt_iff_coeff_zero f (n + 1)).mp h m (Nat.succ_le_of_lt (WithBot.coe_lt_coe.mp hm))

/-- The quotient needs one coefficient less than the domain has points. -/
theorem degree_quotient_lt_pred (hN : 0 < N) {A B D H : F[X]} (hA : A.degree < N) (hB : B.degree < N)
    (hD : D.degree < N) (h : A * B - D = H * (X ^ N - 1)) : H.degree < (N - 1 : ℕ) := by
  obtain ⟨n, rfl⟩ := Nat.exists_eq_add_one.mpr hN
  by_contra hge
  have hge : (n : WithBot ℕ) ≤ H.degree := not_lt.mp hge
  have hmul : (A * B).degree ≤ (n + n : ℕ) := by
    rw [degree_mul, Nat.cast_add]
    exact add_le_add (degree_le_of_lt_succ hA) (degree_le_of_lt_succ hB)
  have hle : (A * B - D).degree ≤ (n + n : ℕ) := by
    refine (degree_sub_le _ _).trans (max_le hmul ((degree_le_of_lt_succ hD).trans ?_))
    exact_mod_cast Nat.le_add_left n n
  have hquot : (H * (X ^ (n + 1) - 1)).degree = H.degree + (n + 1 : ℕ) := by
    rw [degree_mul, ← C_1, degree_X_pow_sub_C hN]
  rw [h, hquot] at hle
  have hlow : ((n + (n + 1) : ℕ) : WithBot ℕ) ≤ H.degree + (n + 1 : ℕ) := by
    rw [Nat.cast_add n]
    exact add_le_add_left hge _
  exact absurd (hlow.trans hle) (not_le.mpr (by exact_mod_cast Nat.lt_succ_self (n + n)))

end SupraSeal.Qap
