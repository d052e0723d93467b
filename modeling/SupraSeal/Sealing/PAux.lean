import Mathlib.Algebra.GroupWithZero.Nat
import Mathlib.Logic.Function.Basic
import Mathlib.Data.List.Basic

/-!
# The p_aux file

The readers and writers of the file `p_aux` in `sealing/supra_seal.cpp`: `comm_c` is its first node and
`comm_r_last` its second. A call that fails an assertion has no result.
-/

namespace SupraSeal

/-- The nodes of the file. -/
abbrev PAux (α : Type*) : Type _ := ℕ → α

namespace PAux

variable {α : Type*}

/-! ### The source -/

/-- `std::memcpy(&(p_aux_buf[index]), value, nodes * sizeof(node_t))`. -/
def copy (index nodes : ℕ) (value : ℕ → α) (buf : PAux α) : PAux α :=
  (List.range nodes).foldl (fun buf i => Function.update buf (index + i) (value i)) buf

/-- `p_aux_write`, with the return value; a cache without the file has none. -/
def write (index nodes : ℕ) (value : ℕ → α) (cache : Option (PAux α)) :
    Option (Bool × Option (PAux α)) :=
  if ¬ (index = 0 ∨ index = 1) then none
  else if ¬ (index = 0 ∧ (nodes = 1 ∨ nodes = 2)) then none
  else if ¬ (index = 1 ∧ nodes = 1) then none
  else
    match cache with
    | none => some (false, none)
    | some buf => some (true, some (copy index nodes value buf))

/-- `set_comm_c`. -/
def setCommC (commC : α) (cache : Option (PAux α)) : Option (Bool × Option (PAux α)) :=
  write 0 1 (fun _ => commC) cache

/-- `set_comm_r_last`. -/
def setCommRLast (commRLast : α) (cache : Option (PAux α)) : Option (Bool × Option (PAux α)) :=
  write 1 1 (fun _ => commRLast) cache

/-- `get_comm_c`. -/
def getCommC (cache : Option (PAux α)) : Option α := cache.map fun buf => buf 0

/-- `get_comm_r_last`. -/
def getCommRLast (cache : Option (PAux α)) : Option α := cache.map fun buf => buf 1

/-- `get_comm_r`. -/
def getCommR (hash : List α → α) (cache : Option (PAux α)) : Option α :=
  cache.map fun buf => hash ((List.range 2).map buf)

/-! ### Histories -/

inductive Call (α : Type*)
  | setCommC (commC : α)
  | setCommRLast (commRLast : α)

/-- A call, which has to return `true`. -/
def Call.run (call : Call α) (cache : Option (PAux α)) : Option (Option (PAux α)) :=
  (match call with
    | .setCommC commC => PAux.setCommC commC cache
    | .setCommRLast commRLast => PAux.setCommRLast commRLast cache).bind fun (ret, cache) =>
      if ret then some cache else none

/-- The calls of a history one after the other. -/
def runCalls (calls : List (Call α)) (cache : Option (PAux α)) : Option (Option (PAux α)) :=
  calls.foldlM (fun cache call => call.run cache) cache

/-- The last value that was set for `comm_c`. -/
def lastCommC (initial : α) : List (Call α) → α
  | [] => initial
  | .setCommC commC :: calls => lastCommC commC calls
  | .setCommRLast _ :: calls => lastCommC initial calls

def lastCommRLast (initial : α) : List (Call α) → α
  | [] => initial
  | .setCommC _ :: calls => lastCommRLast initial calls
  | .setCommRLast commRLast :: calls => lastCommRLast commRLast calls

/-- Every call succeeds, and the readers return what was set last. -/
def Lawful (hash : List α → α) (buf : PAux α) (calls : List (Call α)) : Prop :=
  ∃ cache, runCalls calls (some buf) = some cache ∧
    getCommC cache = some (lastCommC (buf 0) calls) ∧
    getCommRLast cache = some (lastCommRLast (buf 1) calls) ∧
    getCommR hash cache = some (hash [lastCommC (buf 0) calls, lastCommRLast (buf 1) calls])

/-! ### The assertions -/

/-- The second assertion wants the first node and the third one the second node. -/
lemma write_eq_none (index nodes : ℕ) (value : ℕ → α) (cache : Option (PAux α)) :
    write index nodes value cache = none := by
  unfold write
  split_ifs with hindex hfirst hsecond
  · exact absurd (hfirst.1.symm.trans hsecond.1) Nat.zero_ne_one
  · rfl
  · rfl
  · rfl

lemma Call.run_eq_none (call : Call α) (cache : Option (PAux α)) : call.run cache = none := by
  cases call with
  | setCommC commC => simp only [Call.run, PAux.setCommC, write_eq_none, Option.bind_none]
  | setCommRLast commRLast => simp only [Call.run, PAux.setCommRLast, write_eq_none, Option.bind_none]

lemma runCalls_cons (call : Call α) (calls : List (Call α)) (cache : Option (PAux α)) :
    runCalls (call :: calls) cache = none := by
  rw [runCalls, List.foldlM_cons, Call.run_eq_none]
  rfl

/-- No history with a call is lawful: both setters fail an assertion. -/
theorem lawful_iff (hash : List α → α) (buf : PAux α) (calls : List (Call α)) :
    Lawful hash buf calls ↔ calls = [] := by
  constructor
  · rintro ⟨cache, hrun, -⟩
    cases calls with
    | nil => rfl
    | cons call calls =>
      rw [runCalls_cons] at hrun
      cases hrun
  · rintro rfl
    exact ⟨some buf, rfl, rfl, rfl, rfl⟩

/-- Setting `comm_c` once. -/
theorem not_lawful_setCommC : ¬ Lawful List.sum (fun i => i) [.setCommC 7] := by
  rintro ⟨cache, hrun, -⟩
  rw [runCalls_cons] at hrun
  cases hrun

/-! ### Without the assertions -/

/-- What a call does to the file after its assertions. -/
def Call.copy : Call α → PAux α → PAux α
  | .setCommC commC => PAux.copy 0 1 fun _ => commC
  | .setCommRLast commRLast => PAux.copy 1 1 fun _ => commRLast

/-- The copies alone keep the slots apart. -/
theorem foldl_copy (buf : PAux α) (calls : List (Call α)) :
    (calls.foldl (fun buf call => call.copy buf) buf) 0 = lastCommC (buf 0) calls ∧
      (calls.foldl (fun buf call => call.copy buf) buf) 1 = lastCommRLast (buf 1) calls := by
  induction calls generalizing buf with
  | nil => exact ⟨rfl, rfl⟩
  | cons call calls ih =>
    cases call with
    | setCommC commC => exact ih (Function.update buf 0 commC)
    | setCommRLast commRLast => exact ih (Function.update buf 1 commRLast)

end PAux

end SupraSeal
