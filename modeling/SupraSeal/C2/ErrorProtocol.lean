import SupraSeal.C2.Barrier
import Mathlib.Data.List.Count
import Mathlib.Tactic.Ring

/-!
# Errors of the Groth16 prover

When every operation that fails throws, the prover returns an error, and if it returns none then all
results have been stored, each once: the circuits are divided among the GPUs without a gap. What an
operation reports by its return value is lost.
-/

namespace SupraSeal

namespace Groth16

open Transition

variable {P : Groth16} {s s' : State}

/-! ### Circuits -/

lemma circuit0_succ (P : Groth16) (tid : ℕ) :
    P.circuit0 (tid + 1) = P.circuit0 tid + P.circuits tid := by
  simp only [circuit0, circuits]
  generalize P.numCircuits / P.nGpus = q
  rcases lt_trichotomy (tid + 1) (P.numCircuits % P.nGpus) with hlt | heq | hgt
  · rw [if_pos hlt, if_neg (by omega), if_pos (by omega), if_neg (by omega)]
    ring
  · rw [if_neg (by omega), if_pos (by omega), if_pos (by omega), if_neg (by omega), ← heq]
    ring
  · rw [if_neg (by omega), if_pos (by omega), if_neg (by omega), if_pos (by omega)]
    ring

lemma circuit0_nGpus (P : Groth16) : P.circuit0 P.nGpus = P.numCircuits := by
  have hlt := Nat.mod_lt P.numCircuits P.nGpus_pos
  rw [circuit0, circuits, if_neg (by omega), if_pos hlt.le, add_zero]
  exact Nat.div_add_mod ..

/-- The circuits of the first threads, one after the other. -/
lemma flatMap_circuitRange (P : Groth16) (k : ℕ) :
    (List.range k).flatMap P.circuitRange = List.range (P.circuit0 k) := by
  induction k with
  | zero => simp [circuit0]
  | succ k ih =>
    rw [List.range_succ, List.flatMap_append, ih, circuit0_succ, List.flatMap_singleton,
      circuitRange, List.range_eq_range', List.range_eq_range']
    simpa using (List.range'_append_1 (s := 0) (m := P.circuit0 k) (n := P.circuits k))

/-- The circuits of the threads are all circuits, each once. -/
lemma flatMap_circuitRange_nGpus (P : Groth16) :
    (List.range P.nGpus).flatMap P.circuitRange = List.range P.numCircuits := by
  rw [flatMap_circuitRange, circuit0_nGpus]

/-! ### Results -/

/-- How often code stores a result. -/
def stores (r : Results) (c : ℕ) (code : List Instr) : ℕ := (code.filterMap Instr.target).count (r, c)

lemma stores_cons (r : Results) (c : ℕ) (i : Instr) (code : List Instr) :
    stores r c (i :: code) = (if i.target = some (r, c) then 1 else 0) + stores r c code := by
  cases htarget : i.target with
  | none => simp [stores, htarget]
  | some p =>
    by_cases hp : p = (r, c)
    · simp [stores, htarget, hp, Nat.add_comm]
    · simp [stores, htarget, hp]

lemma stores_append (r : Results) (c : ℕ) (code code' : List Instr) :
    stores r c (code ++ code') = stores r c code + stores r c code' := by
  simp [stores, List.count_append]

lemma stores_flatMap {r : Results} {c : ℕ} {f : ℕ → List Instr} (n : ℕ)
    (h : ∀ d, stores r c (f d) = if d = c then n else 0) (cs : List ℕ) :
    stores r c (cs.flatMap f) = n * cs.count c := by
  induction cs with
  | nil => simp [stores]
  | cons d cs ih =>
    rw [List.flatMap_cons, stores_append, ih, h, List.count_cons]
    split_ifs <;> simp_all [Nat.mul_add, Nat.add_comm]

@[simp] lemma stores_nil (r : Results) (c : ℕ) : stores r c [] = 0 := rfl

lemma stores_replicate_gpu (r : Results) (c n : ℕ) : stores r c (List.replicate n .gpu) = 0 := by
  induction n with
  | zero => rfl
  | succ n ih => simp [List.replicate_succ, stores_cons, Instr.target, ih]

lemma stores_batchAddition (r : Results) (c : ℕ) (split : Bool) (circuits batches : ℕ) :
    stores r c (batchAddition split circuits batches) = 0 := by
  have hbatches : stores r c
      ((List.range batches).flatMap fun _ => .gpu :: List.replicate circuits .gpu) = 0 := by
    rw [stores_flatMap 0]
    · simp
    · intro d
      simp [stores_cons, Instr.target, stores_replicate_gpu]
  cases split <;> simp [batchAddition, executeBatchAddition, stores_append, stores_cons, Instr.target,
    stores_replicate_gpu, hbatches]

lemma stores_executeNttMsmH (P : Groth16) (r : Results) (c d : ℕ) :
    stores r c (P.executeNttMsmH d) = if d = c then (if r = .h then 1 else 0) else 0 := by
  have hntts : ∀ padded, stores r c (executeNttsSingle padded) = 0 := by
    intro padded
    cases padded <;> simp [executeNttsSingle, stores_cons, Instr.target]
  have htarget : (Results.h = r ∧ d = c) ↔ (d = c ∧ r = .h) := by
    constructor
    · rintro ⟨rfl, rfl⟩
      exact ⟨rfl, rfl⟩
    · rintro ⟨rfl, rfl⟩
      exact ⟨rfl, rfl⟩
  simp [executeNttMsmH, stores_append, hntts, stores_cons, Instr.target, htarget, ite_and]

/-- What a thread `per_gpu` stores: all results but those of `b_g2` for each of its circuits. -/
lemma stores_perGpu (P : Groth16) (r : Results) (c tid : ℕ) :
    stores r c (P.perGpu tid) = if r = .bG2 then 0 else (P.circuitRange tid).count c := by
  have hh : stores r c ((P.circuitRange tid).flatMap fun d => P.executeNttMsmH d ++ [.check]) =
      (if r = .h then 1 else 0) * (P.circuitRange tid).count c := by
    apply stores_flatMap
    intro d
    simp [stores_append, stores_executeNttMsmH, stores_cons, Instr.target]
  have htail : stores r c ((P.circuitRange tid).flatMap fun d =>
        [.invoke .l d, .check, .invoke .a d, .check, .invoke .bG1 d, .check]) =
      (if r = .h ∨ r = .bG2 then 0 else 1) * (P.circuitRange tid).count c := by
    apply stores_flatMap
    intro d
    cases r <;> simp [stores_cons, Instr.target]
  rw [perGpu]
  simp only [stores_append, hh, htail, stores_batchAddition]
  cases r <;> simp [stores_cons, Instr.target]

lemma stores_prepMsmThread (P : Groth16) (r : Results) (c : ℕ) :
    stores r c P.prepMsmThread = if r = .bG2 then (List.range P.numCircuits).count c else 0 := by
  have hnotify : ∀ n, stores r c (List.replicate n .notify) = 0 := by
    intro n
    induction n with
    | zero => rfl
    | succ n ih => simp [List.replicate_succ, stores_cons, Instr.target, ih]
  have htail : stores r c ((List.range P.numCircuits).flatMap fun d => [.multPippenger d, .check]) =
      (if r = .bG2 then 1 else 0) * (List.range P.numCircuits).count c := by
    apply stores_flatMap
    intro d
    cases r <;> simp [stores_cons, Instr.target]
  rw [prepMsmThread]
  simp only [stores_append, hnotify, htail]
  cases r <;> simp [stores_cons, Instr.target]

/-- The threads together store every result of every circuit once. -/
lemma threadSum_stores_init (P : Groth16) (r : Results) {c : ℕ} (hc : c < P.numCircuits) :
    P.threadSum (stores r c) P.init.code = 1 := by
  have hone : (List.range P.numCircuits).count c = 1 :=
    List.count_eq_one_of_mem List.nodup_range (List.mem_range.mpr hc)
  have hgpus : ∑ tid ∈ Finset.range P.nGpus, (P.circuitRange tid).count c = 1 := by
    rw [← hone, ← flatMap_circuitRange_nGpus, List.count_flatMap]
    rfl
  simp only [threadSum, gpuSum, init, stores_prepMsmThread, stores_perGpu]
  by_cases hr : r = .bG2
  · simp [hr, hone]
  · simp [hr, hgpus]

/-! ### Runs in which every failure is thrown -/

/-- Steps that do not fail by their return value. -/
def Throws (_ : State) (a : Action) : Prop := ∀ e, a.outcome ≠ .returns e

/-- Some thread has thrown and not yet caught its exception. -/
def Thrown (P : Groth16) (s : State) : Prop :=
  ∃ tid < P.nGpus, ∃ e, s.code (some tid) = [.exchange e]

/-- As long as nothing has failed, what is stored and what is still to be stored are all results. -/
def Unfailed (P : Groth16) (s : State) : Prop :=
  s.failed = false ∧ ∀ r c, s.stored r c + P.threadSum (stores r c) s.code =
    P.threadSum (stores r c) P.init.code

/-- A failure is on its way to the caller. -/
def Noticed (P : Groth16) (s : State) : Prop :=
  s.terminated = true ∨ s.caughtException = true ∨ P.Thrown s

lemma exec_caughtException {i : Instr} {rest code : List Instr} {o : Outcome} {s₁ : State}
    (h : Exec P s i rest o s₁ code) (hcaught : s.caughtException = true) :
    s₁.caughtException = true := by
  cases h <;> first | exact hcaught | rfl

/-- A failure that is on its way stays so. -/
lemma Noticed.step (h : P.Noticed s) {a : Action} (hstep : P.step s a = some s') : P.Noticed s' := by
  obtain ⟨⟨hrunning, hthread⟩, i, rest, s₁, code, hcode, hexec, rfl⟩ := step_eq_some.mp hstep
  replace hexec := exec_inv hexec
  generalize a.outcome = o at hexec
  rcases h with hterminated | hcaught | ⟨tid, htid, e, he⟩
  · rw [hrunning] at hterminated
    cases hterminated
  · have hcaught' := exec_caughtException hexec hcaught
    exact Or.inr (Or.inl hcaught')
  · by_cases ht : a.thread = some tid
    · rw [ht, he] at hcode
      obtain ⟨rfl, rfl⟩ := List.cons.inj hcode
      cases hexec with
      | store _ r c hi => simp [Instr.target] at hi
      | pass _ hi | throws _ _ hi | returns _ _ hi => simp at hi
      | exchange => exact Or.inr (Or.inl rfl)
    · refine Or.inr (Or.inr ⟨tid, htid, e, ?_⟩)
      simpa [Function.update_of_ne (Ne.symm ht)] using he

/-- An instruction that stores nothing and goes on. -/
lemma Unfailed.pass (h : P.Unfailed s) {t : Option ℕ} (ht : P.IsThread t) {i : Instr}
    {rest : List Instr} (hcode : s.code t = i :: rest) (htarget : i.target = none) {s₁ : State}
    (hfailed : s₁.failed = s.failed) (hstored : s₁.stored = s.stored) :
    P.Unfailed { s₁ with code := Function.update s.code t rest } := by
  refine ⟨hfailed.trans h.1, ?_⟩
  intro r c
  have hsum := threadSum_update (stores r c) s.code ht rest
  rw [hcode, stores_cons, htarget, if_neg (by simp), zero_add] at hsum
  rw [← h.2 r c]
  simp only [hstored]
  omega

/-- An instruction that stores a result. -/
lemma Unfailed.store (h : P.Unfailed s) {t : Option ℕ} (ht : P.IsThread t) {i : Instr}
    {rest : List Instr} (hcode : s.code t = i :: rest) {r : Results} {c : ℕ}
    (htarget : i.target = some (r, c)) :
    P.Unfailed { s.store r c with code := Function.update s.code t rest } := by
  refine ⟨h.1, ?_⟩
  intro r' c'
  have hsum := threadSum_update (stores r' c') s.code ht rest
  rw [hcode, stores_cons, htarget] at hsum
  rw [← h.2 r' c']
  simp only [State.store]
  by_cases hr : r' = r
  · subst hr
    by_cases hc : c' = c
    · subst hc
      simp only [Function.update_self, if_true] at hsum ⊢
      omega
    · have hne : some (r', c) ≠ some (r', c') := by simp [Ne.symm hc]
      rw [if_neg hne] at hsum
      simp only [Function.update_self, Function.update_of_ne hc]
      omega
  · have hne : some (r, c) ≠ some (r', c') := by simp [Ne.symm hr]
    rw [if_neg hne] at hsum
    simp only [Function.update_of_ne hr]
    omega

/-- A step that does not fail by its return value keeps the results or is noticed. -/
lemma Unfailed.step (h : P.Unfailed s) (hbarrier : BarrierInv P s) (hcaught : s.caughtException = false)
    {a : Action} (ha : Throws s a) (hstep : P.step s a = some s') : P.Noticed s' ∨ P.Unfailed s' := by
  obtain ⟨⟨-, hthread⟩, i, rest, s₁, code, hcode, hexec, rfl⟩ := step_eq_some.mp hstep
  replace hexec := exec_inv hexec
  have hreturns : ∀ e, a.outcome ≠ .returns e := ha
  generalize a.outcome = o at hexec hreturns
  cases hexec with
  | pass _ hi =>
    have htarget : i.target = none := by
      rcases hi with rfl | rfl | rfl <;> rfl
    exact Or.inr (h.pass hthread hcode htarget rfl rfl)
  | store _ r c hi => exact Or.inr (h.store hthread hcode hi)
  | throws _ e hi =>
    -- only a thread of a GPU throws
    cases ht : a.thread with
    | none =>
      rw [ht] at hcode
      have hmem := mem_prepMsmThread (hbarrier.prep.mem (hcode ▸ List.mem_cons_self ..))
      rcases hi with rfl | ⟨r, c, rfl⟩ <;> simp at hmem
    | some tid =>
      rw [ht] at hthread
      exact Or.inl (Or.inr (Or.inr ⟨tid, hthread, e, by simp⟩))
  | returns _ e => exact absurd rfl (hreturns e)
  | terminate => exact Or.inl (Or.inl rfl)
  | check =>
    rw [hcaught]
    exact Or.inr (h.pass hthread hcode rfl rfl rfl)
  | exchange => exact Or.inl (Or.inr (Or.inl rfl))
  | wait | notify | setRet => exact Or.inr (h.pass hthread hcode rfl rfl rfl)

lemma noticed_or_unfailed (h : ReachableVia Throws P.step P.init s) :
    BarrierInv P s ∧ (P.Noticed s ∨ P.Unfailed s) := by
  refine h.invariant (P := fun s => BarrierInv P s ∧ (P.Noticed s ∨ P.Unfailed s)) ?_ ?_
  · exact ⟨P.barrierInv_init, Or.inr ⟨rfl, fun r c => Nat.zero_add _⟩⟩
  · rintro s a s' ⟨hbarrier, hs⟩ ha hstep
    refine ⟨hbarrier.step hstep, ?_⟩
    by_cases hnoticed : P.Noticed s
    · exact Or.inl (hnoticed.step hstep)
    · have hcaught : s.caughtException = false := by
        by_contra hc
        exact hnoticed (Or.inr (Or.inl (by simpa using hc)))
      exact (hs.resolve_left hnoticed).step hbarrier hcaught ha hstep

/-- The prover returns success only when nothing was noticed. -/
lemma BarrierInv.not_noticed (h : BarrierInv P s) (hreturns : P.Returns s none) : ¬P.Noticed s := by
  obtain ⟨⟨hrunning, hjoined⟩, hret⟩ := hreturns
  rintro (hterminated | hcaught | ⟨tid, htid, e, he⟩)
  · rw [hrunning] at hterminated
    cases hterminated
  · rcases h.ret hcaught with hsome | ⟨tid, htid, e, he⟩
    · rw [hret] at hsome
      cases hsome
    · have hnil := hjoined (some tid) htid
      rw [hnil] at he
      cases he
  · have hnil := hjoined (some tid) htid
    rw [hnil] at he
    cases he

/-- In runs in which every operation that fails throws, no thread is blocked for ever (some thread
can go on until all are joined, and every step makes the work left smaller), the prover returns
success only if no operation has failed, and then every result of every circuit was stored once. -/
theorem returns_of_throws (h : ReachableVia Throws P.step P.init s) :
    (s.terminated = true ∨ P.Joined s ∨ ∃ t s', P.step s ⟨t, .ok⟩ = some s') ∧
    (∀ a s', P.step s a = some s' → P.totalWeight s' < P.totalWeight s) ∧
    (P.Returns s none → s.failed = false ∧ ∀ r, ∀ c < P.numCircuits, s.stored r c = 1) ∧
    (List.range P.nGpus).flatMap P.circuitRange = List.range P.numCircuits := by
  obtain ⟨hbarrier, hs⟩ := noticed_or_unfailed h
  refine ⟨?_, fun a s' hstep => step_totalWeight hstep, ?_, P.flatMap_circuitRange_nGpus⟩
  · by_cases hterminated : s.terminated = true
    · exact Or.inl hterminated
    · by_cases hjoined : P.Joined s
      · exact Or.inr (Or.inl hjoined)
      · exact Or.inr (Or.inr (hbarrier.exists_step (by simpa using hterminated) hjoined))
  · intro hreturns
    obtain ⟨hfailed, hstored⟩ := hs.resolve_left (hbarrier.not_noticed hreturns)
    refine ⟨hfailed, ?_⟩
    intro r c hc
    have hjoined := hreturns.1.2
    have hzero : P.threadSum (stores r c) s.code = 0 := by
      have hgpus : P.gpuSum (stores r c) s.code = 0 := by
        apply Finset.sum_eq_zero
        intro tid htid
        rw [hjoined (some tid) (Finset.mem_range.mp htid), stores_nil]
      rw [threadSum, hjoined none trivial, hgpus, stores_nil]
    have hrc := hstored r c
    rw [hzero, threadSum_stores_init P r hc] at hrc
    exact hrc

/-! ### One circuit on one GPU -/

/-- One circuit on one GPU, without split multiplications. -/
def oneCircuit : Groth16 where
  numCircuits := 1
  ngpus := 1
  numCircuits_pos := Nat.one_pos
  ngpus_pos := Nat.one_pos
  lSplitMsm := false
  aSplitMsm := false
  bSplitMsm := false
  padded _ := false
  batchesL := 0
  batchesA := 0
  batchesB := 0

/-- First the preparing thread, then the GPU, with the outcome of the multiplication for `l`. -/
def oneCircuitRun (l : Outcome) : List Action :=
  List.replicate 6 ⟨none, .ok⟩ ++ List.replicate 27 ⟨some 0, .ok⟩ ++ [⟨some 0, l⟩] ++
    List.replicate 5 ⟨some 0, .ok⟩

/-- What is left to the threads of one circuit, and what is returned. -/
def summary (s : State) : Bool × List Instr × List Instr × Option CudaError × Bool :=
  (s.terminated, s.code none, s.code (some 0), s.ret, s.failed)

lemma exists_of_summary {as : List Action} {failed : Bool}
    (h : (runList oneCircuit.step oneCircuit.init as).map summary =
      some (false, [], [], none, failed)) :
    ∃ s, runList oneCircuit.step oneCircuit.init as = some s ∧ oneCircuit.Returns s none ∧
      s.failed = failed := by
  obtain ⟨s, hs, hsummary⟩ := Option.map_eq_some_iff.mp h
  simp only [summary, Prod.mk.injEq] at hsummary
  obtain ⟨hrunning, hprep, hgpu, hret, hfailed⟩ := hsummary
  refine ⟨s, hs, ⟨⟨hrunning, ?_⟩, hret⟩, hfailed⟩
  rintro (_ | tid) ht
  · exact hprep
  · have hzero : tid = 0 := Nat.lt_one_iff.mp ht
    rw [hzero]
    exact hgpu

/-- A run without a failure. -/
theorem returns_of_throws_oneCircuit :
    ∃ s, ReachableVia Throws oneCircuit.step oneCircuit.init s ∧ oneCircuit.Returns s none ∧
      s.failed = false ∧ ∀ r, s.stored r 0 = 1 := by
  obtain ⟨s, hrun, hreturns, -⟩ : ∃ s, runList oneCircuit.step oneCircuit.init (oneCircuitRun .ok) =
      some s ∧ oneCircuit.Returns s none ∧ s.failed = false := exists_of_summary rfl
  have hok : ∀ a ∈ oneCircuitRun .ok, ∀ e, a.outcome ≠ .returns e := by
    simp [oneCircuitRun]
  have hreach : ReachableVia Throws oneCircuit.step oneCircuit.init s :=
    .of_runList hrun (fun _ a ha => hok a ha) .start
  obtain ⟨hfailed, hstored⟩ := (returns_of_throws hreach).2.2.1 hreturns
  exact ⟨s, hreach, hreturns, hfailed, fun r => hstored r 0 Nat.one_pos⟩

/-- The multiplication for `l` returns an error, and the prover success. -/
theorem returns_success_of_failed :
    ∃ s, Reachable oneCircuit.step oneCircuit.init s ∧ oneCircuit.Returns s none ∧
      s.failed = true := by
  obtain ⟨s, hrun, hreturns, hfailed⟩ : ∃ s, runList oneCircuit.step oneCircuit.init
      (oneCircuitRun (.returns ⟨1, Nat.one_ne_zero⟩)) = some s ∧ oneCircuit.Returns s none ∧
        s.failed = true := exists_of_summary rfl
  exact ⟨s, .of_runList hrun (fun _ _ _ => trivial) .start, hreturns, hfailed⟩

end Groth16

end SupraSeal
