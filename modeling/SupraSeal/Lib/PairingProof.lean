import Mathlib.Algebra.Module.LinearMap.Basic
import Mathlib.LinearAlgebra.BilinearMap
import Mathlib.Tactic.FieldSimp
import Mathlib.Tactic.LinearCombination

/-!
# The equation of a pairing-based proof

Groups with a bilinear pairing, and the secrets of a setup. A proof is three points; it is accepted when
one equation of pairings holds. Points made from values that satisfy `a * b = c + h` are accepted.
-/

namespace SupraSeal.PairingProof

variable {F G₁ G₂ GT : Type*} [Field F] [AddCommGroup G₁] [AddCommGroup G₂] [AddCommGroup GT]
  [Module F G₁] [Module F G₂] [Module F GT]

/-- The secrets of a setup. -/
structure Trapdoor (F : Type*) where
  alpha : F
  beta : F
  gamma : F
  delta : F
  tau : F

/-- A proof: two points of the first group and one of the second. -/
structure Proof (G₁ G₂ : Type*) where
  a : G₁
  b : G₂
  c : G₁

/-- The points of the second group that the verifier takes, and one of the first. -/
structure Key (G₁ G₂ : Type*) where
  alpha : G₁
  beta : G₂
  gamma : G₂
  delta : G₂

/-- The check of the verifier, with the point that it makes from the public inputs. -/
def Accepts (e : G₁ →ₗ[F] G₂ →ₗ[F] GT) (vk : Key G₁ G₂) (inputs : G₁) (proof : Proof G₁ G₂) : Prop :=
  e proof.a proof.b = e vk.alpha vk.beta + e inputs vk.gamma + e proof.c vk.delta

variable (t : Trapdoor F)

/-- The key of a setup with these secrets. -/
def Trapdoor.key (g₁ : G₁) (g₂ : G₂) : Key G₁ G₂ :=
  ⟨t.alpha • g₁, t.beta • g₂, t.gamma • g₂, t.delta • g₂⟩

/-- The combination of the three values of a variable that the key material is about. -/
def Trapdoor.mix (a b c : F) : F := t.beta * a + t.alpha * b + c

variable {t}

/-- Points made from values that satisfy the equation of the system are accepted. -/
theorem accepts_of_values (e : G₁ →ₗ[F] G₂ →ₗ[F] GT) (g₁ : G₁) (g₂ : G₂) (hγ : t.gamma ≠ 0)
    (hδ : t.delta ≠ 0) {a b c a' b' c' h : F} (hvalues : (a + a') * (b + b') = c + c' + h) (r s : F) :
    Accepts e (t.key g₁ g₂) ((t.mix a b c / t.gamma) • g₁)
      ⟨(r * t.delta + t.alpha + (a + a')) • g₁, (s * t.delta + t.beta + (b + b')) • g₂,
        (s * (a + a') + r * (b + b') + r * s * t.delta + s * t.alpha + r * t.beta + h / t.delta +
          t.mix a' b' c' / t.delta) • g₁⟩ := by
  simp only [Accepts, Trapdoor.key, Trapdoor.mix, map_smul, LinearMap.smul_apply, smul_smul,
    ← add_smul]
  congr 1
  field_simp
  linear_combination hvalues

end SupraSeal.PairingProof
