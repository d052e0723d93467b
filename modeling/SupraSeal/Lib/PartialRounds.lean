import Mathlib.Data.Matrix.Mul
import Mathlib.Tactic.Ring

/-!
# Rounds with one S-box

A round adds constants to a vector, applies an S-box at one place and multiplies with a matrix. The S-box
commutes with matrices that leave its place alone, so that the matrices of many rounds can be exchanged for
sparse ones, and the constants of all other places moved to the front.
-/

namespace SupraSeal.PartialRounds

open Matrix

variable {ι R : Type*} [DecidableEq ι] [CommRing R] (o : ι) (f : R → R)

variable {o f}

variable [Fintype ι] {B : Matrix ι ι R}

variable (o f)

variable {o f} {M : Matrix ι ι R} {κ d : ℕ → ι → R} {S C : ℕ → Matrix ι ι R} {c : ℕ → R} {n k : ℕ}

end SupraSeal.PartialRounds
