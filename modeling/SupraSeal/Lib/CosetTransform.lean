import Mathlib.RingTheory.RootsOfUnity.PrimitiveRoots
import Mathlib.Algebra.Polynomial.Degree.Operations
import Mathlib.Algebra.Polynomial.Eval.Degree
import Mathlib.Tactic.FieldSimp
import Mathlib.Tactic.Ring

/-!
# Transforms over a coset of the roots of unity

The transform of `N` coefficients takes the values of the polynomial at `g * ω ^ k`, where `ω` is a
primitive `N`-th root of unity; `g = 1` is the standard transform. The inverse transform recovers
the coefficients. On a coset off the roots of unity `X ^ N - 1` is a constant other than zero, so that a
quotient by it can be taken value by value.
-/

namespace SupraSeal.Coset

open Polynomial

variable {F : Type*} [Field F] {N : ℕ} {g ω : F}

/-- Values at `g * ω ^ k` of the polynomial with coefficients `x`. -/
def forward (g ω : F) (N : ℕ) (x : ℕ → F) (k : ℕ) : F :=
  ∑ j ∈ Finset.range N, x j * (g * ω ^ k) ^ j

/-- Coefficients of the polynomial with values `x` at `g * ω ^ k`. -/
def inverse (g ω : F) (N : ℕ) (x : ℕ → F) (i : ℕ) : F :=
  (N * g ^ i)⁻¹ * ∑ k ∈ Finset.range N, x k * ω⁻¹ ^ (k * i)

lemma forward_congr {x y : ℕ → F} (h : ∀ j < N, x j = y j) (k : ℕ) :
    forward g ω N x k = forward g ω N y k :=
  Finset.sum_congr rfl fun j hj => by rw [h j (Finset.mem_range.mp hj)]

lemma inverse_congr {x y : ℕ → F} (h : ∀ k < N, x k = y k) (i : ℕ) :
    inverse g ω N x i = inverse g ω N y i := by
  rw [inverse, inverse]
  congr 1
  exact Finset.sum_congr rfl fun k hk => by rw [h k (Finset.mem_range.mp hk)]

/-! ### Inversion -/

/-- The powers of the root are orthogonal. -/
lemma sum_pow_mul_inv_pow (hω : IsPrimitiveRoot ω N) {i j : ℕ} (hi : i < N) (hj : j < N) :
    ∑ k ∈ Finset.range N, (ω ^ k) ^ j * ω⁻¹ ^ (k * i) = if j = i then (N : F) else 0 := by
  have hω0 : ω ≠ 0 := hω.ne_zero (by omega)
  have hterm : ∀ k, (ω ^ k) ^ j * ω⁻¹ ^ (k * i) = (ω ^ j * (ω ^ i)⁻¹) ^ k := by
    intro k
    rw [mul_pow, ← pow_mul, ← pow_mul, Nat.mul_comm k j, inv_pow, inv_pow, ← pow_mul,
      Nat.mul_comm k i]
  simp only [hterm]
  split_ifs with hij
  · subst hij
    rw [mul_inv_cancel₀ (pow_ne_zero _ hω0)]
    simp
  · -- the ratio is a root of unity other than one
    have hne : ω ^ j * (ω ^ i)⁻¹ ≠ 1 := by
      intro h
      rw [mul_inv_eq_one₀ (pow_ne_zero _ hω0)] at h
      exact hij (hω.pow_inj hj hi h)
    have hone : (ω ^ j * (ω ^ i)⁻¹) ^ N = 1 := by
      rw [mul_pow, inv_pow, ← pow_mul, ← pow_mul, Nat.mul_comm j, Nat.mul_comm i, pow_mul, pow_mul,
        hω.pow_eq_one, one_pow, one_pow, inv_one, mul_one]
    have hgeom := mul_geom_sum (ω ^ j * (ω ^ i)⁻¹) N
    rw [hone, sub_self] at hgeom
    exact (mul_eq_zero.mp hgeom).resolve_left (sub_ne_zero.mpr hne)

/-- The inverse transform recovers the coefficients. -/
theorem inverse_forward (hω : IsPrimitiveRoot ω N) (hg : g ≠ 0) (x : ℕ → F) {i : ℕ} (hi : i < N) :
    inverse g ω N (forward g ω N x) i = x i := by
  have : NeZero N := ⟨by omega⟩
  have hN : (N : F) ≠ 0 := (hω.neZero').out
  have hswap : ∑ k ∈ Finset.range N, forward g ω N x k * ω⁻¹ ^ (k * i) =
      ∑ j ∈ Finset.range N, x j * g ^ j * if j = i then (N : F) else 0 := by
    simp only [forward, Finset.sum_mul]
    rw [Finset.sum_comm]
    refine Finset.sum_congr rfl fun j hj => ?_
    rw [← sum_pow_mul_inv_pow hω hi (Finset.mem_range.mp hj), Finset.mul_sum]
    refine Finset.sum_congr rfl fun k _ => ?_
    rw [mul_pow]
    ring
  rw [inverse, hswap, Finset.sum_eq_single i]
  · rw [if_pos rfl]
    field_simp
  · intro j _ hji
    rw [if_neg hji, mul_zero]
  · intro hmem
    exact absurd (Finset.mem_range.mpr hi) hmem

/-! ### Polynomials -/

/-- `A` is the polynomial of degree less than `N` with values `x` at the roots of unity. -/
structure Interpolates (ω : F) (N : ℕ) (x : ℕ → F) (A : F[X]) : Prop where
  degree_lt : A.degree < N
  eval : ∀ k < N, A.eval (ω ^ k) = x k

lemma forward_coeff (hN : 0 < N) {A : F[X]} (hA : A.degree < N) (k : ℕ) :
    forward g ω N A.coeff k = A.eval (g * ω ^ k) := by
  refine (eval_eq_sum_range' ?_ _).symm
  by_cases h : A = 0
  · rw [h, natDegree_zero]
    exact hN
  · exact (natDegree_lt_iff_degree_lt h).mpr hA

/-- The inverse transform of the values of a polynomial gives its coefficients. -/
theorem inverse_eval (hω : IsPrimitiveRoot ω N) (hg : g ≠ 0) {A : F[X]} (hA : A.degree < N)
    {x : ℕ → F} (hx : ∀ k < N, x k = A.eval (g * ω ^ k)) {i : ℕ} (hi : i < N) :
    inverse g ω N x i = A.coeff i := by
  rw [← inverse_forward hω hg A.coeff hi]
  exact inverse_congr (fun k hk => by rw [hx k hk, forward_coeff (by omega) hA]) i

lemma Interpolates.inverse (hω : IsPrimitiveRoot ω N) {x : ℕ → F} {A : F[X]}
    (hA : Interpolates ω N x A) {i : ℕ} (hi : i < N) : inverse 1 ω N x i = A.coeff i :=
  inverse_eval hω one_ne_zero hA.degree_lt (fun k hk => by rw [one_mul, hA.eval k hk]) hi

/-! ### Quotients -/

/-- `X ^ N - 1` is constant on the coset. -/
lemma eval_X_pow_sub_one (hω : IsPrimitiveRoot ω N) (k : ℕ) :
    (X ^ N - 1 : F[X]).eval (g * ω ^ k) = g ^ N - 1 := by
  rw [eval_sub, eval_pow, eval_X, eval_one, mul_pow, ← pow_mul, Nat.mul_comm, pow_mul,
    hω.pow_eq_one, one_pow, mul_one]

variable {A B C H : F[X]}

lemma degree_quotient_lt (hN : 0 < N) (hA : A.degree < N) (hB : B.degree < N) (hC : C.degree < N)
    (h : A * B - C = H * (X ^ N - 1)) : H.degree < N := by
  by_contra hge
  have hge : (N : WithBot ℕ) ≤ H.degree := not_lt.mp hge
  have hdeg : (H * (X ^ N - 1)).degree = H.degree + N := by
    rw [degree_mul, ← C_1, degree_X_pow_sub_C hN]
  have hlt : (A * B - C).degree < (N : WithBot ℕ) + N := by
    refine (degree_sub_le _ _).trans_lt (max_lt ?_ ?_)
    · rw [degree_mul]
      calc A.degree + B.degree ≤ N + B.degree := add_le_add_left hA.le _
        _ < N + N := WithBot.add_lt_add_left (WithBot.natCast_ne_bot N) hB
    · exact hC.trans_le (by exact_mod_cast Nat.le_add_left N N)
  rw [h, hdeg] at hlt
  exact absurd hlt (not_lt.mpr (add_le_add_left hge _))

/-- The values of the quotient on a coset off the roots of unity. -/
theorem eval_quotient (hω : IsPrimitiveRoot ω N) (hgN : g ^ N ≠ 1)
    (h : A * B - C = H * (X ^ N - 1)) (k : ℕ) :
    (A.eval (g * ω ^ k) * B.eval (g * ω ^ k) - C.eval (g * ω ^ k)) * (g ^ N - 1)⁻¹ =
      H.eval (g * ω ^ k) := by
  have heval := congrArg (Polynomial.eval (g * ω ^ k)) h
  rw [eval_sub, eval_mul, eval_mul, eval_X_pow_sub_one hω] at heval
  rw [heval, mul_assoc, mul_inv_cancel₀ (sub_ne_zero.mpr hgN), mul_one]

end SupraSeal.Coset
