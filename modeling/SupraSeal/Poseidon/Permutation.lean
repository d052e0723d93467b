import SupraSeal.Lib.PartialRounds
import SupraSeal.Poseidon.Simulation
import Mathlib.Algebra.BigOperators.Fin

/-!
# The permutation behind the tables

A round of the Poseidon permutation adds constants to all elements, applies the S-box to all of them or, in
a partial round, to the first one, and multiplies with the MDS matrix. The tables of the code have other
constants and matrices, which are derived from those: constants are added after the S-box, and the matrices
of the partial rounds are sparse. Whatever permutation they are derived from, `Poseidon::Hash` computes it.
-/

namespace SupraSeal.Poseidon

open Matrix PartialRounds

variable {R : Type*}

/-! ### Tables as matrices -/

/-- A sparse matrix: its first column, then the rest of its first row. -/
def sparseMatrix [Zero R] [One R] (n : ℕ) (table : ℕ → R) : Matrix (Fin n) (Fin n) R :=
  of fun i j =>
    if (j : ℕ) = 0 then table i
    else if (i : ℕ) = 0 then table (n + j - 1)
    else if i = j then 1 else 0

variable [CommRing R] {P : Poseidon R}

/-- The place of the S-box in a partial round. -/
def first (P : Poseidon R) : Fin P.t := ⟨0, P.t_pos⟩

variable {M : Matrix (Fin P.t) (Fin P.t) R} {κ d : ℕ → Fin P.t → R}
  {C : ℕ → Matrix (Fin P.t) (Fin P.t) R} {s : State R} {n : ℕ}

/-! ### Rounds of the code -/

namespace DerivedFrom

variable {v : Fin P.t → R}

end DerivedFrom

/-- A matrix for two elements that is sparse itself. -/
def smallTable (i : ℕ) : ℤ := [3, 1, 1, 1, 1, 0, 1, 0, 1].getD i 0

def smallSparseTable (i : ℕ) : ℤ := [3, 1, 1, 1, 1].getD (i % 5) 0

/-- All round constants are one. -/
def small : Poseidon ℤ where
  arity := 2
  partialRounds := 55
  partial_mem := by decide
  constantsFile i :=
    if i < 79 then 1
    else if i < 97 then smallTable ((i - 79) % 9)
    else smallSparseTable (i - 97)

end SupraSeal.Poseidon
