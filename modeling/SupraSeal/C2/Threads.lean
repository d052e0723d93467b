import SupraSeal.Lib.Transition
import Mathlib.Data.List.Range

/-!
# The threads of the Groth16 prover

`generate_groth16_proofs_c` of `c2/cuda/groth16_cuda.cu` prepares the scalars in `prep_msm_thread`
and computes on every GPU in a thread of its own. The threads meet at a semaphore: the preparing
thread posts it once for each GPU, and the first thread that catches an exception once for each
other GPU.

A thread is the list of the instructions it still has to run. Loops of the source have a known number
of rounds and are unrolled; what the instructions compute is left out, only how they may fail and
which result they store.
-/

namespace SupraSeal

namespace Groth16

/-- An error code of CUDA. -/
structure CudaError where
  code : ℕ
  ne_success : code ≠ 0
  deriving DecidableEq

/-- The vectors of `msm_results`. -/
inductive Results
  | h
  | l
  | a
  | bG1
  | bG2
  deriving DecidableEq

inductive Instr
  /-- An operation of the GPU in the `try` block, in `CUDA_OK` or the like. -/
  | gpu
  /-- An operation of the GPU whose return value is dropped: `cudaMemsetAsync`, and the launches of
  kernels in `execute_ntt_msm_h`. -/
  | unchecked
  /-- `msm.invoke(results.r[c], ...)`. Its return value is dropped too. -/
  | invoke (r : Results) (c : ℕ)
  /-- `mult_pippenger(results.b_g2[c], ...)` on the CPU. -/
  | multPippenger (c : ℕ)
  /-- An operation of the GPU that is not in the `try` block. -/
  | unguarded
  /-- `if (caught_exception) return`. -/
  | check
  /-- `barrier.wait()`. -/
  | wait
  /-- `barrier.notify()`. -/
  | notify
  /-- `caught_exception.exchange(true)`, at the start of the handler. -/
  | exchange (e : CudaError)
  /-- `ret = RustError{e.code()}`. -/
  | setRet (e : CudaError)
  deriving DecidableEq

/-- How an instruction ends. -/
inductive Outcome
  | ok
  | throws (e : CudaError)
  | returns (e : CudaError)

end Groth16

open Groth16 in
/-- What the threads depend on. -/
structure Groth16 where
  numCircuits : ℕ
  /-- `ngpus()`. -/
  ngpus : ℕ
  numCircuits_pos : 0 < numCircuits
  ngpus_pos : 0 < ngpus
  lSplitMsm : Bool
  aSplitMsm : Bool
  bSplitMsm : Bool
  /-- `actual_size < domain_size` for each circuit. -/
  padded : ℕ → Bool
  /-- Batches of points in `execute_batch_addition`. -/
  batchesL : ℕ
  batchesA : ℕ
  batchesB : ℕ

namespace Groth16

variable (P : Groth16)

/-! ### Circuits of a thread -/

def nGpus : ℕ := min P.ngpus P.numCircuits

/-- `num_circuits` of a thread. -/
def circuits (tid : ℕ) : ℕ :=
  P.numCircuits / P.nGpus + if tid < P.numCircuits % P.nGpus then 1 else 0

def circuit0 (tid : ℕ) : ℕ :=
  tid * P.circuits tid + if P.numCircuits % P.nGpus ≤ tid then P.numCircuits % P.nGpus else 0

/-- `for (c = circuit0; c < circuit0 + num_circuits; c++)`. -/
def circuitRange (tid : ℕ) : List ℕ := List.range' (P.circuit0 tid) (P.circuits tid)

/-! ### Code -/

/-- Copy, padding, and two transforms. -/
def executeNttsSingle (padded : Bool) : List Instr :=
  .gpu :: (if padded then [.unchecked] else []) ++ [.gpu, .gpu]

def executeNttMsmH (c : ℕ) : List Instr :=
  -- `d_b` and `sync_event`
  [.gpu, .gpu] ++ executeNttsSingle (P.padded c) ++ [.gpu] ++ executeNttsSingle (P.padded c) ++
    -- `coeff_wise_mult` between two events
    [.gpu, .unchecked, .gpu] ++ executeNttsSingle (P.padded c) ++
    -- `sub_mult_with_constant`, the transform back and `sync`
    [.gpu, .unchecked, .gpu, .gpu] ++
    -- `msm_t`
    [.gpu, .invoke .h c]

def executeBatchAddition (circuits batches : ℕ) : List Instr :=
  -- `d_temp`, and the bit vectors
  .gpu :: List.replicate circuits .gpu ++
    (List.range batches).flatMap (fun _ => .gpu :: List.replicate circuits .gpu) ++
    -- `DtoH` and `sync`
    [.gpu, .gpu]

/-- A batch addition that is made only for a split multiplication. -/
def batchAddition (split : Bool) (circuits batches : ℕ) : List Instr :=
  if split then executeBatchAddition circuits batches ++ [.check] else []

/-- The threads `per_gpu`. -/
def perGpu (tid : ℕ) : List Instr :=
  -- `select_gpu`, and `d_a`
  [.unguarded, .gpu] ++
    (P.circuitRange tid).flatMap (fun c => P.executeNttMsmH c ++ [.check]) ++
    [.wait, .check] ++
    batchAddition P.lSplitMsm (P.circuits tid) P.batchesL ++
    batchAddition P.aSplitMsm (P.circuits tid) P.batchesA ++
    batchAddition P.bSplitMsm (P.circuits tid) P.batchesB ++
    batchAddition P.bSplitMsm (P.circuits tid) P.batchesB ++
    -- `msm_t`
    [.gpu] ++
    (P.circuitRange tid).flatMap (fun c =>
      [.invoke .l c, .check, .invoke .a c, .check, .invoke .bG1 c, .check])

def prepMsmThread : List Instr :=
  [.check, .check] ++ List.replicate P.nGpus .notify ++ [.check] ++
    (List.range P.numCircuits).flatMap (fun c => [.multPippenger c, .check])

/-- The handler of the first exception, after `exchange`. -/
def handler (e : CudaError) : List Instr :=
  List.replicate (P.nGpus - 1) .notify ++ [.setRet e, .unguarded]

/-! ### State -/

structure State where
  /-- The counter of `barrier`. -/
  tokens : ℕ
  caughtException : Bool
  ret : Option CudaError
  /-- The code of `prep_msm_thread` and of the threads `per_gpu`. -/
  code : Option ℕ → List Instr
  /-- How often an element of `results` was stored. -/
  stored : Results → ℕ → ℕ
  /-- Some operation of a GPU has failed. -/
  failed : Bool
  /-- An exception was thrown outside of the `try` block. -/
  terminated : Bool

def init : State where
  tokens := 0
  caughtException := false
  ret := none
  code
    | none => P.prepMsmThread
    | some tid => P.perGpu tid
  stored _ _ := 0
  failed := false
  terminated := false

def State.store (s : State) (r : Results) (c : ℕ) : State :=
  { s with stored := Function.update s.stored r (Function.update (s.stored r) c (s.stored r c + 1)) }

/-! ### Steps -/

/-- Run one instruction: the state of the others, and the code left to the thread. -/
def exec (s : State) : Instr → List Instr → Outcome → Option (State × List Instr)
  | .gpu, rest, .ok => some (s, rest)
  | .gpu, _, .throws e => some ({ s with failed := true }, [.exchange e])
  | .unchecked, rest, .ok => some (s, rest)
  | .unchecked, rest, .returns _ => some ({ s with failed := true }, rest)
  | .invoke r c, rest, .ok => some (s.store r c, rest)
  | .invoke _ _, _, .throws e => some ({ s with failed := true }, [.exchange e])
  | .invoke _ _, rest, .returns _ => some ({ s with failed := true }, rest)
  | .multPippenger c, rest, .ok => some (s.store .bG2 c, rest)
  | .unguarded, rest, .ok => some (s, rest)
  | .unguarded, _, .throws _ => some ({ s with failed := true, terminated := true }, [])
  | .check, rest, .ok => some (s, if s.caughtException then [] else rest)
  | .wait, rest, .ok => if 0 < s.tokens then some ({ s with tokens := s.tokens - 1 }, rest) else none
  | .notify, rest, .ok => some ({ s with tokens := s.tokens + 1 }, rest)
  | .exchange e, _, .ok =>
    some ({ s with caughtException := true },
      if s.caughtException then [.unguarded] else P.handler e)
  | .setRet e, rest, .ok => some ({ s with ret := some e }, rest)
  | _, _, _ => none

/-- A thread runs its next instruction. -/
structure Action where
  thread : Option ℕ
  outcome : Outcome

/-- The threads that exist. -/
def IsThread : Option ℕ → Prop
  | none => True
  | some tid => tid < P.nGpus

instance (t : Option ℕ) : Decidable (P.IsThread t) :=
  match t with
  | none => inferInstanceAs (Decidable True)
  | some tid => inferInstanceAs (Decidable (tid < P.nGpus))

def step (s : State) (a : Action) : Option State :=
  if s.terminated = false ∧ P.IsThread a.thread then
    match s.code a.thread with
    | [] => none
    | i :: rest =>
      (P.exec s i rest a.outcome).map fun (s', code) =>
        { s' with code := Function.update s.code a.thread code }
  else none

/-- All threads are joined. -/
def Joined (s : State) : Prop := s.terminated = false ∧ ∀ t, P.IsThread t → s.code t = []

/-- What `generate_groth16_proofs_c` returns once the threads are joined, `none` for `cudaSuccess`. -/
def Returns (s : State) (ret : Option CudaError) : Prop := P.Joined s ∧ s.ret = ret

end Groth16

end SupraSeal
