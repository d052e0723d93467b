import Mathlib.Algebra.BigOperators.Intervals
import Mathlib.Algebra.BigOperators.Ring.Finset

/-!
# Poseidon

`poseidon/poseidon.cpp`: the hash of `arity` field elements. The state has `t = arity + 1` elements,
with the domain tag in front. There are four full rounds, in which every element goes through the
S-box, then the partial rounds, in which only the first one does, and four more full rounds. The
constants of all rounds are one table, into which `AssignPointers` points.

Field elements are taken in a commutative ring, in Montgomery form; what a byte string converts to
and from is a parameter.
-/

namespace SupraSeal

/-- The constants as the pointers of `AssignPointers` see them. -/
structure PoseidonConstants (R : Type*) where
  roundConstants : ℕ → R
  mdsMatrix : ℕ → R
  preSparseMatrix : ℕ → R
  sparseMatrices : ℕ → R

/-- `partial_rounds_map`, by arity. -/
def partialRoundsMap : List (ℕ × ℕ) :=
  [(2, 55), (4, 56), (8, 57), (11, 57), (16, 59), (24, 59), (36, 60)]

/-- `Poseidon`: the arity with its partial rounds and the table of its constants. -/
structure Poseidon (R : Type*) where
  arity : ℕ
  partialRounds : ℕ
  partial_mem : (arity, partialRounds) ∈ partialRoundsMap
  constantsFile : ℕ → R

/-- Conversion of field elements to and from Montgomery form, and the reversal of the bytes of
their words. -/
structure FrConversion (R : Type*) where
  toMont : R → R
  fromMont : R → R
  bswap : R → R
  toMont_fromMont : ∀ x, toMont (fromMont x) = x
  fromMont_toMont : ∀ x, fromMont (toMont x) = x

namespace Poseidon

variable {R : Type*}

def halfFullRounds : ℕ := 4

variable (P : Poseidon R)

def t : ℕ := P.arity + 1

/-- `AssignPointers`: the tables follow one another. -/
def assignPointers (constantsFile : ℕ → R) : PoseidonConstants R :=
  let mdsMatrix := P.t * halfFullRounds * 2 + P.partialRounds
  let preSparseMatrix := mdsMatrix + P.t * P.t
  let sparseMatrices := preSparseMatrix + P.t * P.t
  { roundConstants := constantsFile
    mdsMatrix := fun i => constantsFile (mdsMatrix + i)
    preSparseMatrix := fun i => constantsFile (preSparseMatrix + i)
    sparseMatrices := fun i => constantsFile (sparseMatrices + i) }

def constants : PoseidonConstants R := P.assignPointers P.constantsFile

/-- `elements` with `rk_offset` and `current_round`. -/
structure State (R : Type*) where
  elements : ℕ → R
  rkOffset : ℕ
  currentRound : ℕ

lemma arity_pos : 0 < P.arity := by
  have hall : ∀ p ∈ partialRoundsMap, 0 < p.1 := by decide
  exact hall _ P.partial_mem

lemma arity_le : P.arity ≤ 36 := by
  have hall : ∀ p ∈ partialRoundsMap, p.1 ≤ 36 := by decide
  exact hall _ P.partial_mem

variable [CommRing R]

/-- `(1 << arity) - 1`, an `int` for the arities below 31. -/
def domainTag : R := ((2 ^ P.arity - 1 : ℕ) : R)

def quinticSBox (element roundConstant : R) : R := element ^ 5 + roundConstant

def matrixMul (elements matrix : ℕ → R) (i : ℕ) : R :=
  (List.range' 1 (P.t - 1)).foldl (fun tmp j => tmp + elements j * matrix (j * P.t + i))
    (elements 0 * matrix i)

def sparseMatrixMul (elements sparseMatrix : ℕ → R) (i : ℕ) : R :=
  if i = 0 then
    (List.range' 1 (P.t - 1)).foldl (fun acc j => acc + elements j * sparseMatrix j)
      (elements 0 * sparseMatrix 0)
  else elements i + elements 0 * sparseMatrix (P.t + i - 1)

def roundMatrixMul (elements : ℕ → R) (currentRound : ℕ) : ℕ → R :=
  if currentRound = 3 then P.matrixMul elements P.constants.preSparseMatrix
  else if 3 < currentRound ∧ currentRound < halfFullRounds + P.partialRounds then
    P.sparseMatrixMul elements fun i =>
      P.constants.sparseMatrices ((P.t * 2 - 1) * (currentRound - halfFullRounds) + i)
  else P.matrixMul elements P.constants.mdsMatrix

def fullRound (s : State R) : State R where
  elements := P.roundMatrixMul
    (fun i => quinticSBox (s.elements i) (P.constants.roundConstants (s.rkOffset + i)))
    s.currentRound
  rkOffset := s.rkOffset + P.t
  currentRound := s.currentRound + 1

def partialRound (s : State R) : State R where
  elements := P.roundMatrixMul
    (Function.update s.elements 0
      (quinticSBox (s.elements 0) (P.constants.roundConstants s.rkOffset))) s.currentRound
  rkOffset := s.rkOffset + 1
  currentRound := s.currentRound + 1

def lastFullRound (elements : ℕ → R) : ℕ → R :=
  P.matrixMul (fun i => elements i ^ 5) P.constants.mdsMatrix

/-- The state with the round constants added, before the first round. -/
def start (input : ℕ → R) : State R where
  elements i := (if i = 0 then P.domainTag else input (i - 1)) + P.constants.roundConstants i
  rkOffset := P.t
  currentRound := 0

/-- `Hash` between the conversions. -/
def permute (input : ℕ → R) : R :=
  let s := P.fullRound^[halfFullRounds] (P.start input)
  let s := P.partialRound^[P.partialRounds] s
  let s := P.fullRound^[halfFullRounds - 1] s
  P.lastFullRound s.elements 1

/-- `Poseidon::Hash`. -/
def hash (conv : FrConversion R) (input : ℕ → R) : R :=
  conv.fromMont (P.permute fun i => conv.toMont (input i))

/-! ### Sums -/

variable {P}

lemma foldl_add_range' (f : ℕ → R) (a : R) (n : ℕ) :
    (List.range' 1 n).foldl (fun acc j => acc + f j) a = a + ∑ j ∈ Finset.range n, f (j + 1) := by
  induction n with
  | zero => simp
  | succ n ih =>
    rw [List.range'_1_concat, List.foldl_append, ih, Finset.sum_range_succ, ← add_assoc,
      Nat.add_comm 1 n]
    rfl

lemma matrixMul_eq_sum (elements matrix : ℕ → R) (i : ℕ) : P.matrixMul elements matrix i =
    ∑ j ∈ Finset.range P.t, elements j * matrix (j * P.t + i) := by
  rw [matrixMul, foldl_add_range' fun j => elements j * matrix (j * P.t + i), t,
    Nat.add_sub_cancel, Finset.sum_range_succ', add_comm, Nat.zero_mul, Nat.zero_add]

lemma sparseMatrixMul_zero (elements sparseMatrix : ℕ → R) :
    P.sparseMatrixMul elements sparseMatrix 0 = elements 0 * sparseMatrix 0 +
      ∑ j ∈ Finset.range (P.t - 1), elements (j + 1) * sparseMatrix (j + 1) := by
  rw [sparseMatrixMul, if_pos rfl, foldl_add_range' fun j => elements j * sparseMatrix j]

end Poseidon

end SupraSeal
