import SupraSeal.Lib.GridStride
import SupraSeal.Poseidon.Hash

/-!
# Poseidon on the GPU

The kernels of `poseidon/cuda/poseidon_kernels.cu` and their launches in `poseidon.cu`. Kernels 1 and 3
have one thread per element of a state, and the threads of a state exchange their elements through
shared memory; kernels 2 and 4 have one thread per state. Between the kernels the states are in
`aux_ptr`, one after the other.

Blocks, and the threads of kernels 2 and 4, run in any order. What the threads of a block do between
two barriers is done for all of them at once. Indices are taken without bounds.
-/

namespace SupraSeal.Poseidon

variable {R : Type*} [CommRing R]

/-- `fr_t::dot_product`. -/
def dotProduct (a m : ℕ → R) (n stride : ℕ) : R := ∑ i ∈ Finset.range n, a i * m (i * stride)

def pow5 (element : R) : R :=
  let tmp := element * element
  let tmp := tmp * tmp
  element * tmp

/-! ### One thread per element -/

/-- The registers of the threads of a block, and its shared memory. All threads are in the same
round. -/
structure Block (R : Type*) where
  element : ℕ → R
  rkOffset : ℕ → ℕ
  currentRound : ℕ
  scratchpad : ℕ → R

namespace Block

variable (P : Poseidon R) (active : ℕ → Prop) [DecidablePred active] (threadPos sharedPos : ℕ → ℕ)

/-- `matrix_mul`: the active threads store their elements, and all go on when this is done. -/
def matrixMul (matrix : ℕ → R) (b : Block R) : Block R :=
  let scratchpad x := if active x then b.element x else b.scratchpad x
  { b with
    element := fun x => dotProduct (fun j => scratchpad (sharedPos x + j))
      (fun j => matrix (threadPos x + j)) P.t P.t
    scratchpad := scratchpad }

def roundMatrixMul (b : Block R) : Block R :=
  if b.currentRound = halfFullRounds - 1 then
    b.matrixMul P active threadPos sharedPos P.constants.preSparseMatrix
  else b.matrixMul P active threadPos sharedPos P.constants.mdsMatrix

/-- `full_round`. -/
def fullRound (b : Block R) : Block R :=
  let b := { b with
    element := fun x => pow5 (b.element x) + P.constants.roundConstants (b.rkOffset x)
    rkOffset := fun x => b.rkOffset x + P.t }
  let b := b.roundMatrixMul P active threadPos sharedPos
  { b with currentRound := b.currentRound + 1 }

end Block

/-! ### One thread per state -/

variable (P : Poseidon R)

/-- `sparse_matrix_mul`, with `scalar_product`. -/
def gpuSparseMatrixMul (elements sparseMatrix : ℕ → R) (i : ℕ) : R :=
  if i = 0 then elements 0 * sparseMatrix 0 +
    dotProduct (fun j => elements (1 + j)) (fun j => sparseMatrix (1 + j)) (P.t - 1) 1
  else elements i + elements 0 * sparseMatrix (P.t + i - 1)

/-- `partial_round`. -/
def gpuPartialRound (s : State R) : State R where
  elements := P.gpuSparseMatrixMul
    (Function.update s.elements 0 (pow5 (s.elements 0) + P.constants.roundConstants s.rkOffset))
    fun i => P.constants.sparseMatrices ((P.t * 2 - 1) * (s.currentRound - halfFullRounds) + i)
  rkOffset := s.rkOffset + 1
  currentRound := s.currentRound + 1

/-- `last_matrix_mul`. -/
def lastMatrixMul (elements : ℕ → R) : R :=
  dotProduct elements (fun j => P.constants.mdsMatrix (1 + j)) P.t P.t

/-! ### Launches -/

/-- What a launch is asked for: the number of hashes, the stride that divides it, the addressing
mode and the conversions. -/
structure Batch where
  numHashes : ℕ
  stride : ℕ
  stride_pos : 0 < stride
  dvd : stride ∣ numHashes
  firstTreeC : Bool
  firstTreeR : Bool
  multiInPtr : Bool
  toMont : Bool
  fromMont : Bool
  doBswap : Bool

/-- The block size of kernels 1 and 3. -/
def blockSize13 : ℕ := 256 / P.t * P.t

/-- The block size of kernels 2 and 4. -/
def blockSize24 : ℕ := 128

variable (batch : Batch)

def threadCount13 : ℕ := batch.numHashes * P.t

def blockCount13 : ℕ :=
  (P.threadCount13 batch + P.blockSize13 - 1) / P.blockSize13

def blockCount24 : ℕ := (batch.numHashes + blockSize24 - 1) / blockSize24

/-- Pointer and index of the element that a thread of kernel 1 takes. -/
def inputIndex (tid : ℕ) : ℕ × ℕ :=
  let numBatches := (batch.numHashes + batch.stride - 1) / batch.stride
  let hashNum := tid / P.t
  let hashInput := tid % P.t
  let node := hashNum % numBatches
  let sector := hashNum / numBatches
  if batch.multiInPtr then
    let elementsPerHashPerPtr := batch.numHashes / batch.stride
    let elementIdx := hashNum * (P.t - 1) + (hashInput - 1)
    let elementBatchIdx := elementIdx / elementsPerHashPerPtr
    let elementBatchOff := elementIdx % elementsPerHashPerPtr
    (elementBatchIdx % P.arity,
      elementIdx / (P.arity * elementsPerHashPerPtr) * elementsPerHashPerPtr + elementBatchOff)
  else if batch.firstTreeR || batch.firstTreeC then
    if batch.firstTreeC then
      let firstElement := node * batch.stride + sector
      (0, firstElement + (hashInput - 1) * batch.stride * numBatches)
    else
      let firstElement := node * P.arity * batch.stride + sector
      (0, firstElement + (hashInput - 1) * batch.stride)
  else (0, hashNum * (P.t - 1) + (hashInput - 1))

variable (conv : FrConversion R)

/-- An input as kernel 1 converts it. -/
def Batch.convertInput (element : R) : R :=
  let element :=
    if !batch.multiInPtr && (batch.firstTreeR || batch.firstTreeC) && batch.doBswap then
      conv.bswap element
    else element
  if batch.toMont then conv.toMont element else element

/-- The element with which a thread of kernel 1 starts. -/
def firstElement (inPtrs : ℕ → ℕ → R) (tid : ℕ) : R :=
  if tid % P.t = 0 then P.domainTag
  else batch.convertInput conv
    (inPtrs (P.inputIndex batch tid).1 (P.inputIndex batch tid).2)

/-- A block of `poseidon_hash_1_0`; its shared memory holds anything. -/
def hash1Block (inPtrs : ℕ → ℕ → R) (shared : ℕ → ℕ → R) (b : ℕ) (aux : ℕ → R) : ℕ → R :=
  let tid x := x + b * P.blockSize13
  let active x := tid x < batch.numHashes * P.t
  let hashInput x := tid x % P.t
  let sharedPos x := x / P.t * P.t
  let block : Block R := {
    element := fun x =>
      P.firstElement batch conv inPtrs (tid x) + P.constants.roundConstants (hashInput x)
    rkOffset := fun x => hashInput x + P.t
    currentRound := 0
    scratchpad := shared b }
  let block := (Block.fullRound P active hashInput sharedPos)^[halfFullRounds] block
  (List.range P.blockSize13).foldl
    (fun aux x => if active x then
      Function.update aux (tid x / P.t * P.t + hashInput x) (block.element x) else aux) aux

/-- A thread of `poseidon_hash_2`. -/
def hash2Thread (rkOffset currentRound : ℕ) (idx : ℕ) (aux : ℕ → R) : ℕ → R :=
  if batch.numHashes ≤ idx then aux
  else
    let s := P.gpuPartialRound^[P.partialRounds]
      ⟨fun i => aux (idx * P.t + i), rkOffset, currentRound⟩
    (List.range P.t).foldl (fun aux i => Function.update aux (idx * P.t + i) (s.elements i)) aux

/-- A block of `poseidon_hash_3`. -/
def hash3Block (shared : ℕ → ℕ → R) (rkOffset currentRound : ℕ) (b : ℕ) (aux : ℕ → R) : ℕ → R :=
  let active x := x + b * P.blockSize13 < P.threadCount13 batch
  let threadPos x := x % P.t
  let sharedPos x := x / P.t * P.t
  let idx x := b * (P.blockSize13 / P.t) + x / P.t
  let block : Block R := {
    element := fun x => aux (idx x * P.t + threadPos x)
    rkOffset := fun x => rkOffset + threadPos x
    currentRound := currentRound
    scratchpad := shared b }
  let block := (Block.fullRound P active threadPos sharedPos)^[halfFullRounds - 1] block
  (List.range P.blockSize13).foldl
    (fun aux x => if active x then
      Function.update aux (idx x * P.t + threadPos x) (pow5 (block.element x)) else aux) aux

/-- A thread of `poseidon_hash_4`. -/
def hash4Thread (aux : ℕ → R) (idx : ℕ) (out : ℕ → R) : ℕ → R :=
  if batch.numHashes ≤ idx then out
  else
    let result := P.lastMatrixMul fun i => aux (idx * P.t + i)
    Function.update out idx (if batch.fromMont then conv.fromMont result else result)

/-- An order in which the blocks or the threads of a launch run. -/
structure LaunchOrder (n : ℕ) where
  list : List ℕ
  perm : list.Perm (List.range n)

def LaunchOrder.inOrder (n : ℕ) : LaunchOrder n := ⟨List.range n, List.Perm.refl _⟩

/-- The orders of the four launches, and what shared memory holds before kernels 1 and 3. -/
structure Schedule where
  order1 : LaunchOrder (P.blockCount13 batch)
  order2 : LaunchOrder (blockSize24 * blockCount24 batch)
  order3 : LaunchOrder (P.blockCount13 batch)
  order4 : LaunchOrder (blockSize24 * blockCount24 batch)
  shared1 : ℕ → ℕ → R
  shared3 : ℕ → ℕ → R

/-- `hash_batch_ptrs`: the four kernels, with the offsets that the host passes on. -/
def hashBatchPtrs (sched : Schedule P batch) (inPtrs : ℕ → ℕ → R) (aux out : ℕ → R) : ℕ → R :=
  let aux := sched.order1.list.foldl
    (fun aux b => P.hash1Block batch conv inPtrs sched.shared1 b aux) aux
  let aux := sched.order2.list.foldl
    (fun aux idx => P.hash2Thread batch (P.t * (halfFullRounds + 1)) halfFullRounds idx aux) aux
  let aux := sched.order3.list.foldl
    (fun aux b => P.hash3Block batch sched.shared3
      (P.t * (halfFullRounds + 1) + P.partialRounds) (halfFullRounds + P.partialRounds) b aux) aux
  sched.order4.list.foldl (fun out idx => P.hash4Thread batch conv aux idx out) out

end SupraSeal.Poseidon
