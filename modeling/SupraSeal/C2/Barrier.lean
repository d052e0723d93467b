import SupraSeal.C2.Threads
import Mathlib.Algebra.BigOperators.Group.Finset.Basic
import Mathlib.Algebra.GroupWithZero.Nat
import Mathlib.Algebra.Order.BigOperators.Group.Finset

/-!
# The barrier of the Groth16 prover

No thread waits for ever at the barrier: until an exception is caught the preparing thread has a
post for every thread that still has to wait, and the one that catches the first exception brings a
post for every other thread.
-/

namespace SupraSeal

namespace Groth16

open Transition

variable {P : Groth16} {s s' : State}

/-! ### Steps -/

lemma step_eq_some {a : Action} : P.step s a = some s' ↔
    (s.terminated = false ∧ P.IsThread a.thread) ∧ ∃ i rest s₁ code, s.code a.thread = i :: rest ∧
      P.exec s i rest a.outcome = some (s₁, code) ∧
      s' = { s₁ with code := Function.update s.code a.thread code } := by
  rw [step]
  split_ifs with hen
  · cases hcode : s.code a.thread with
    | nil => simp
    | cons i rest =>
      simp only [hen, true_and, Option.map_eq_some_iff, List.cons.injEq, Prod.exists]
      constructor
      · rintro ⟨s₁, code, hexec, rfl⟩
        exact ⟨_, _, s₁, code, ⟨rfl, rfl⟩, hexec, rfl⟩
      · rintro ⟨_, _, s₁, code, ⟨rfl, rfl⟩, hexec, rfl⟩
        exact ⟨s₁, code, hexec, rfl⟩
  · simp [hen]

/-- The result that an instruction stores. -/
def Instr.target : Instr → Option (Results × ℕ)
  | .invoke r c => some (r, c)
  | .multPippenger c => some (.bG2, c)
  | _ => none

/-- What an instruction can do. -/
inductive Exec (P : Groth16) (s : State) : Instr → List Instr → Outcome → State → List Instr → Prop
  | pass {i : Instr} (rest : List Instr) (hi : i = .gpu ∨ i = .unchecked ∨ i = .unguarded) :
      Exec P s i rest .ok s rest
  | store {i : Instr} (rest : List Instr) (r : Results) (c : ℕ) (hi : i.target = some (r, c)) :
      Exec P s i rest .ok (s.store r c) rest
  | throws {i : Instr} (rest : List Instr) (e : CudaError) (hi : i = .gpu ∨ ∃ r c, i = .invoke r c) :
      Exec P s i rest (.throws e) { s with failed := true } [.exchange e]
  | returns {i : Instr} (rest : List Instr) (e : CudaError)
      (hi : i = .unchecked ∨ ∃ r c, i = .invoke r c) :
      Exec P s i rest (.returns e) { s with failed := true } rest
  | terminate (rest : List Instr) (e : CudaError) :
      Exec P s .unguarded rest (.throws e) { s with failed := true, terminated := true } []
  | check (rest : List Instr) : Exec P s .check rest .ok s (if s.caughtException then [] else rest)
  | wait (rest : List Instr) (htokens : 0 < s.tokens) :
      Exec P s .wait rest .ok { s with tokens := s.tokens - 1 } rest
  | notify (rest : List Instr) : Exec P s .notify rest .ok { s with tokens := s.tokens + 1 } rest
  | exchange (rest : List Instr) (e : CudaError) :
      Exec P s (.exchange e) rest .ok { s with caughtException := true }
        (if s.caughtException then [.unguarded] else P.handler e)
  | setRet (rest : List Instr) (e : CudaError) :
      Exec P s (.setRet e) rest .ok { s with ret := some e } rest

lemma exec_inv {i : Instr} {rest code : List Instr} {o : Outcome} {s₁ : State}
    (h : P.exec s i rest o = some (s₁, code)) : Exec P s i rest o s₁ code := by
  cases i with
  | gpu =>
    cases o <;> cases h
    · exact .pass rest (by simp)
    · exact .throws rest _ (by simp)
  | unchecked =>
    cases o <;> cases h
    · exact .pass rest (by simp)
    · exact .returns rest _ (by simp)
  | invoke r c =>
    cases o <;> cases h
    · exact .store rest r c rfl
    · exact .throws rest _ (by simp)
    · exact .returns rest _ (by simp)
  | multPippenger c =>
    cases o <;> cases h
    exact .store rest .bG2 c rfl
  | unguarded =>
    cases o <;> cases h
    · exact .pass rest (by simp)
    · exact .terminate rest _
  | check =>
    cases o <;> cases h
    exact .check rest
  | wait =>
    cases o with
    | ok =>
      rw [exec] at h
      split_ifs at h with htokens
      cases h
      exact .wait rest htokens
    | throws e => cases h
    | returns e => cases h
  | notify =>
    cases o <;> cases h
    exact .notify rest
  | exchange e =>
    cases o <;> cases h
    exact .exchange rest e
  | setRet e =>
    cases o <;> cases h
    exact .setRet rest e

/-- Only `wait` can block. -/
lemma exists_exec_ok (s : State) {i : Instr} (hi : i ≠ .wait) (rest : List Instr) :
    ∃ r, P.exec s i rest .ok = some r := by
  cases i with
  | wait => exact absurd rfl hi
  | _ => exact ⟨_, rfl⟩

/-! ### Sums over the threads -/

/-- A count over the code of the threads `per_gpu`. -/
def gpuSum (P : Groth16) (f : List Instr → ℕ) (code : Option ℕ → List Instr) : ℕ :=
  ∑ tid ∈ Finset.range P.nGpus, f (code (some tid))

lemma gpuSum_update_some (f : List Instr → ℕ) (code : Option ℕ → List Instr) {tid : ℕ}
    (htid : tid < P.nGpus) (c : List Instr) :
    P.gpuSum f (Function.update code (some tid) c) + f (code (some tid)) =
      P.gpuSum f code + f c := by
  have hmem : tid ∈ Finset.range P.nGpus := Finset.mem_range.mpr htid
  have herase : ∑ j ∈ (Finset.range P.nGpus).erase tid,
        f (Function.update code (some tid) c (some j)) =
      ∑ j ∈ (Finset.range P.nGpus).erase tid, f (code (some j)) := by
    apply Finset.sum_congr rfl
    intro j hj
    have hne : some j ≠ some tid := by simpa using (Finset.mem_erase.mp hj).1
    rw [Function.update_of_ne hne]
  have hnew := Finset.add_sum_erase _ (fun j => f (Function.update code (some tid) c (some j))) hmem
  have hold := Finset.add_sum_erase _ (fun j => f (code (some j))) hmem
  simp only [Function.update_self, herase] at hnew
  rw [gpuSum, gpuSum, ← hnew, ← hold]
  omega

lemma gpuSum_update_none (f : List Instr → ℕ) (code : Option ℕ → List Instr) (c : List Instr) :
    P.gpuSum f (Function.update code none c) = P.gpuSum f code := by
  simp [gpuSum]

/-- A count over the code of all threads. -/
def threadSum (P : Groth16) (f : List Instr → ℕ) (code : Option ℕ → List Instr) : ℕ :=
  f (code none) + P.gpuSum f code

lemma threadSum_update (f : List Instr → ℕ) (code : Option ℕ → List Instr) {t : Option ℕ}
    (ht : P.IsThread t) (c : List Instr) :
    P.threadSum f (Function.update code t c) + f (code t) = P.threadSum f code + f c := by
  cases t with
  | none =>
    simp only [threadSum, gpuSum_update_none, Function.update_self]
    omega
  | some tid =>
    have hsum := gpuSum_update_some f code ht c
    simp only [threadSum]
    rw [Function.update_of_ne (by simp)]
    omega

/-! ### Termination -/

/-- An operation that may throw weighs more than the handler. -/
def weight (P : Groth16) : Instr → ℕ
  | .gpu => P.nGpus + 4
  | .invoke _ _ => P.nGpus + 4
  | .exchange _ => P.nGpus + 3
  | _ => 1

def codeWeight (P : Groth16) (code : List Instr) : ℕ := (code.map P.weight).sum

/-- The work left to all threads. -/
def totalWeight (P : Groth16) (s : State) : ℕ := P.threadSum P.codeWeight s.code

lemma nGpus_pos (P : Groth16) : 0 < P.nGpus := lt_min P.ngpus_pos P.numCircuits_pos

lemma codeWeight_cons (i : Instr) (rest : List Instr) :
    P.codeWeight (i :: rest) = P.weight i + P.codeWeight rest := by
  simp [codeWeight]

lemma weight_pos (P : Groth16) (i : Instr) : 0 < P.weight i := by
  cases i <;> simp [weight]

lemma codeWeight_handler (P : Groth16) (e : CudaError) : P.codeWeight (P.handler e) = P.nGpus + 1 := by
  have hn := P.nGpus_pos
  simp [codeWeight, handler, weight]
  omega

lemma exec_codeWeight {i : Instr} {rest code : List Instr} {o : Outcome} {s₁ : State}
    (h : Exec P s i rest o s₁ code) : P.codeWeight code < P.codeWeight (i :: rest) := by
  have hpos := P.weight_pos i
  rw [codeWeight_cons]
  cases h with
  | pass | store | returns | wait | notify | setRet => omega
  | throws _ e hi =>
    have hcode : P.codeWeight [.exchange e] = P.nGpus + 3 := by simp [codeWeight, weight]
    rcases hi with rfl | ⟨r, c, rfl⟩
    · rw [hcode, weight]
      omega
    · rw [hcode, weight]
      omega
  | terminate =>
    rw [codeWeight, List.map_nil, List.sum_nil]
    omega
  | check =>
    split_ifs
    · rw [codeWeight, List.map_nil, List.sum_nil]
      omega
    · omega
  | exchange _ e =>
    split_ifs
    · have hcode : P.codeWeight [.unguarded] = 1 := by simp [codeWeight, weight]
      rw [hcode, weight]
      omega
    · rw [codeWeight_handler, weight]
      omega

/-- Every step makes the work left smaller, so that every run ends. -/
lemma step_totalWeight {a : Action} (h : P.step s a = some s') :
    P.totalWeight s' < P.totalWeight s := by
  obtain ⟨⟨-, hthread⟩, i, rest, s₁, code, hcode, hexec, rfl⟩ := step_eq_some.mp h
  have hlt := exec_codeWeight (exec_inv hexec)
  have hsum := threadSum_update P.codeWeight s.code hthread code
  rw [← hcode] at hlt
  simp only [totalWeight]
  omega

/-! ### Code of the threads -/

/-- Instructions of the `try` block. -/
def Instr.InTry : Instr → Prop
  | .gpu => True
  | .unchecked => True
  | .invoke _ _ => True
  | .unguarded => True
  | .check => True
  | .wait => True
  | _ => False

/-- Code of the `try` block without the barrier. -/
def Straight (code : List Instr) : Prop := ∀ i ∈ code, i.InTry ∧ i ≠ .wait

@[simp] lemma straight_nil : Straight [] := by simp [Straight]

@[simp] lemma straight_cons {i : Instr} {code : List Instr} :
    Straight (i :: code) ↔ (i.InTry ∧ i ≠ .wait) ∧ Straight code := by
  simp [Straight]

@[simp] lemma straight_append {code code' : List Instr} :
    Straight (code ++ code') ↔ Straight code ∧ Straight code' :=
  List.forall_mem_append

lemma straight_flatMap {f : ℕ → List Instr} {cs : List ℕ} (h : ∀ c, Straight (f c)) :
    Straight (cs.flatMap f) := by
  intro i hi
  obtain ⟨c, -, hc⟩ := List.mem_flatMap.mp hi
  exact h c i hc

lemma straight_executeNttsSingle (padded : Bool) : Straight (executeNttsSingle padded) := by
  cases padded <;> simp [executeNttsSingle, Instr.InTry]

lemma straight_executeNttMsmH (P : Groth16) (c : ℕ) : Straight (P.executeNttMsmH c) := by
  simp [executeNttMsmH, straight_executeNttsSingle, Instr.InTry]

lemma straight_batchAddition (split : Bool) (circuits batches : ℕ) :
    Straight (batchAddition split circuits batches) := by
  have hcopies : Straight (List.replicate circuits .gpu) := by
    intro i hi
    simp [List.eq_of_mem_replicate hi, Instr.InTry]
  have hbatches : Straight
      ((List.range batches).flatMap fun _ => .gpu :: List.replicate circuits .gpu) := by
    apply straight_flatMap
    intro _
    simp [hcopies, Instr.InTry]
  cases split <;> simp [batchAddition, executeBatchAddition, hcopies, hbatches, Instr.InTry]

/-- A thread waits once. -/
lemma perGpu_eq (P : Groth16) (tid : ℕ) :
    ∃ before after, P.perGpu tid = before ++ .wait :: after ∧ Straight before ∧ Straight after := by
  refine ⟨[.unguarded, .gpu] ++
      (P.circuitRange tid).flatMap (fun c => P.executeNttMsmH c ++ [.check]),
    .check :: (batchAddition P.lSplitMsm (P.circuits tid) P.batchesL ++
      batchAddition P.aSplitMsm (P.circuits tid) P.batchesA ++
      batchAddition P.bSplitMsm (P.circuits tid) P.batchesB ++
      batchAddition P.bSplitMsm (P.circuits tid) P.batchesB ++ [.gpu] ++
      (P.circuitRange tid).flatMap (fun c =>
        [.invoke .l c, .check, .invoke .a c, .check, .invoke .bG1 c, .check])), ?_, ?_, ?_⟩
  · simp [perGpu]
  · have hflat : Straight
        ((P.circuitRange tid).flatMap fun c => P.executeNttMsmH c ++ [.check]) := by
      apply straight_flatMap
      intro c
      simp [straight_executeNttMsmH, Instr.InTry]
    simp [hflat, Instr.InTry]
  · have hflat : Straight ((P.circuitRange tid).flatMap fun c =>
        [.invoke .l c, .check, .invoke .a c, .check, .invoke .bG1 c, .check]) := by
      apply straight_flatMap
      intro c
      simp [Instr.InTry]
    simp [hflat, straight_batchAddition, Instr.InTry]

lemma inTry_of_mem_perGpu {tid : ℕ} {i : Instr} (hi : i ∈ P.perGpu tid) : i.InTry := by
  obtain ⟨before, after, heq, hbefore, hafter⟩ := P.perGpu_eq tid
  rw [heq, List.mem_append, List.mem_cons] at hi
  rcases hi with hi | rfl | hi
  · exact (hbefore i hi).1
  · trivial
  · exact (hafter i hi).1

lemma count_wait_perGpu (P : Groth16) (tid : ℕ) : (P.perGpu tid).count .wait = 1 := by
  obtain ⟨before, after, heq, hbefore, hafter⟩ := P.perGpu_eq tid
  have hb : before.count .wait = 0 := List.count_eq_zero.mpr fun hmem => (hbefore _ hmem).2 rfl
  have ha : after.count .wait = 0 := List.count_eq_zero.mpr fun hmem => (hafter _ hmem).2 rfl
  simp [heq, hb, ha]

/-- What a thread `per_gpu` can have left. -/
inductive GpuCode (P : Groth16) (caught : Bool) (tid : ℕ) : List Instr → Prop
  | running {code : List Instr} (h : code <:+ P.perGpu tid) : GpuCode P caught tid code
  | thrown (e : CudaError) : GpuCode P caught tid [.exchange e]
  | posting (k : ℕ) (e : CudaError) (hcaught : caught = true) :
      GpuCode P caught tid (List.replicate k .notify ++ [.setRet e, .unguarded])
  | syncing (hcaught : caught = true) : GpuCode P caught tid [.unguarded]

namespace GpuCode

variable {caught : Bool} {tid : ℕ} {code : List Instr}

lemma mono {caught' : Bool} (h : GpuCode P caught tid code) (hle : caught = true → caught' = true) :
    GpuCode P caught' tid code := by
  cases h with
  | running h => exact .running h
  | thrown e => exact .thrown e
  | posting k e hcaught => exact .posting k e (hle hcaught)
  | syncing hcaught => exact .syncing (hle hcaught)

lemma count_wait_le (h : GpuCode P caught tid code) : code.count .wait ≤ 1 := by
  cases h with
  | running h => exact (h.sublist.count_le _).trans (P.count_wait_perGpu tid).le
  | thrown e => simp
  | posting k e => simp [List.count_replicate]
  | syncing => simp

/-- A thread that has to wait posts nothing. -/
lemma count_notify_eq_zero (h : GpuCode P caught tid code) (hwait : .wait ∈ code) :
    code.count .notify = 0 := by
  cases h with
  | running h =>
    apply List.count_eq_zero.mpr
    intro hmem
    exact inTry_of_mem_perGpu (h.mem hmem)
  | thrown e => simp at hwait
  | posting k e => simp at hwait
  | syncing => simp at hwait

end GpuCode

/-! ### The invariant of the barrier -/

/-- The posts to come suffice for the threads that have to wait. Once an exception is caught those
of the preparing thread do not count, since it may return. -/
structure BarrierInv (P : Groth16) (s : State) : Prop where
  prep : s.code none <:+ P.prepMsmThread
  gpu : ∀ tid < P.nGpus, GpuCode P s.caughtException tid (s.code (some tid))
  enough : P.gpuSum (List.count .wait) s.code ≤ s.tokens + P.gpuSum (List.count .notify) s.code +
    if s.caughtException then 0 else (s.code none).count .notify
  ret : s.caughtException = true → s.ret.isSome ∨
    ∃ tid < P.nGpus, ∃ e, Instr.setRet e ∈ s.code (some tid)

lemma count_notify_prepMsmThread (P : Groth16) : P.prepMsmThread.count .notify = P.nGpus := by
  have hflat : ((List.range P.numCircuits).flatMap
      fun c => [Instr.multPippenger c, .check]).count .notify = 0 := by
    apply List.count_eq_zero.mpr
    intro hmem
    obtain ⟨c, -, hc⟩ := List.mem_flatMap.mp hmem
    simp at hc
  simp [prepMsmThread, hflat]

lemma barrierInv_init (P : Groth16) : BarrierInv P P.init := by
  refine ⟨List.suffix_rfl, fun tid _ => .running List.suffix_rfl, ?_, nofun⟩
  have hwaits : P.gpuSum (List.count .wait) P.init.code = P.nGpus := by
    simp [gpuSum, init, count_wait_perGpu]
  rw [hwaits]
  simp only [init, Bool.false_eq_true, if_false, count_notify_prepMsmThread]
  omega

/-- A thread that throws does not wait, so the others are fewer than the threads. -/
lemma BarrierInv.waits_lt (h : BarrierInv P s) {tid : ℕ} (htid : tid < P.nGpus)
    (hwait : (s.code (some tid)).count .wait = 0) :
    P.gpuSum (List.count .wait) s.code < P.nGpus := by
  calc P.gpuSum (List.count .wait) s.code
      < ∑ _j ∈ Finset.range P.nGpus, 1 := by
        apply Finset.sum_lt_sum
        · intro j hj
          exact (h.gpu j (Finset.mem_range.mp hj)).count_wait_le
        · exact ⟨tid, Finset.mem_range.mpr htid, by omega⟩
    _ = P.nGpus := by simp

/-- Instructions of the preparing thread. -/
lemma mem_prepMsmThread {i : Instr} (hi : i ∈ P.prepMsmThread) :
    i = .check ∨ i = .notify ∨ ∃ c, i = .multPippenger c := by
  simp only [prepMsmThread, List.mem_append, List.mem_cons, List.not_mem_nil, or_false,
    List.mem_replicate, List.mem_flatMap] at hi
  rcases hi with (((rfl | rfl) | ⟨-, rfl⟩) | rfl) | ⟨c, -, rfl | rfl⟩ <;> simp

/-- A step of the preparing thread that takes no post away. -/
lemma BarrierInv.update_prep (h : BarrierInv P s) {code : List Instr} {s₁ : State}
    (hcaught : s₁.caughtException = s.caughtException) (hret : s₁.ret = s.ret)
    (hprep : code <:+ P.prepMsmThread)
    (henough : s.caughtException = false →
      s.tokens + (s.code none).count .notify ≤ s₁.tokens + code.count .notify)
    (htokens : s.tokens ≤ s₁.tokens) :
    BarrierInv P { s₁ with code := Function.update s.code none code } := by
  have hold := h.enough
  refine ⟨by simpa using hprep, ?_, ?_, ?_⟩
  · intro tid htid
    simpa [hcaught] using h.gpu tid htid
  · simp only [gpuSum_update_none, hcaught, Function.update_self]
    split_ifs at hold ⊢ with hc
    · omega
    · have := henough (by simpa using hc)
      omega
  · simpa [hcaught, hret] using h.ret

lemma BarrierInv.step_prep (h : BarrierInv P s) {i : Instr} {rest code : List Instr} {o : Outcome}
    {s₁ : State} (hcode : s.code none = i :: rest) (hexec : Exec P s i rest o s₁ code) :
    BarrierInv P { s₁ with code := Function.update s.code none code } := by
  have hprep := h.prep
  rw [hcode] at hprep
  have hrest : rest <:+ P.prepMsmThread := (List.suffix_cons i rest).trans hprep
  have hmem := mem_prepMsmThread (hprep.mem (List.mem_cons_self ..))
  rcases hmem with rfl | rfl | ⟨c, rfl⟩
  · cases hexec with
    | pass _ hi => simp at hi
    | store _ r c hi => simp [Instr.target] at hi
    | throws _ e hi => simp at hi
    | returns _ e hi => simp at hi
    | check =>
      refine h.update_prep rfl rfl ?_ ?_ le_rfl
      · split_ifs
        · exact List.nil_suffix
        · exact hrest
      · intro hc
        simp [hc, hcode]
  · cases hexec with
    | pass _ hi => simp at hi
    | store _ r c hi => simp [Instr.target] at hi
    | throws _ e hi => simp at hi
    | returns _ e hi => simp at hi
    | notify => exact h.update_prep rfl rfl hrest (by simp [hcode]; omega) (Nat.le_succ _)
  · cases hexec with
    | pass _ hi => simp at hi
    | throws _ e hi => simp at hi
    | returns _ e hi => simp at hi
    | store => exact h.update_prep rfl rfl hrest (by simp [hcode, State.store]) le_rfl

/-- A step of a thread `per_gpu` that does not change `caught_exception`. -/
lemma BarrierInv.update_gpu (h : BarrierInv P s) {tid : ℕ} (htid : tid < P.nGpus) {code : List Instr}
    {s₁ : State} (hcaught : s₁.caughtException = s.caughtException)
    (hret : s.ret.isSome → s₁.ret.isSome) (hgpu : GpuCode P s.caughtException tid code)
    (henough : s.tokens + code.count .wait + (s.code (some tid)).count .notify ≤
      s₁.tokens + code.count .notify + (s.code (some tid)).count .wait)
    (hsetRet : ∀ e, Instr.setRet e ∈ s.code (some tid) →
      Instr.setRet e ∈ code ∨ s₁.ret.isSome) :
    BarrierInv P { s₁ with code := Function.update s.code (some tid) code } := by
  have hold := h.enough
  have hwaits := gpuSum_update_some (List.count .wait) s.code htid code
  have hposts := gpuSum_update_some (List.count .notify) s.code htid code
  refine ⟨by simpa using h.prep, ?_, ?_, ?_⟩
  · intro j hj
    by_cases hjt : j = tid
    · subst hjt
      simpa [hcaught] using hgpu
    · simpa [hcaught, Function.update_of_ne, hjt] using h.gpu j hj
  · simp only [hcaught]
    rw [Function.update_of_ne (by simp)]
    omega
  · simp only [hcaught]
    intro hc
    rcases h.ret hc with hsome | ⟨j, hj, e, he⟩
    · exact Or.inl (hret hsome)
    · by_cases hjt : j = tid
      · subst hjt
        rcases hsetRet e he with hmem | hsome
        · exact Or.inr ⟨j, hj, e, by simpa using hmem⟩
        · exact Or.inl hsome
      · exact Or.inr ⟨j, hj, e, by simpa [Function.update_of_ne, hjt] using he⟩

lemma BarrierInv.step_running (h : BarrierInv P s) {tid : ℕ} (htid : tid < P.nGpus) {i : Instr}
    {rest code : List Instr} {o : Outcome} {s₁ : State} (hcode : s.code (some tid) = i :: rest)
    (hsuffix : i :: rest <:+ P.perGpu tid) (hexec : Exec P s i rest o s₁ code) :
    BarrierInv P { s₁ with code := Function.update s.code (some tid) code } := by
  have hrest : GpuCode P s.caughtException tid rest :=
    .running ((List.suffix_cons i rest).trans hsuffix)
  have hnil : GpuCode P s.caughtException tid [] := .running List.nil_suffix
  have hnotify : (i :: rest).count .notify = 0 := by
    apply List.count_eq_zero.mpr
    intro hmem
    exact inTry_of_mem_perGpu (hsuffix.mem hmem)
  have hsetRet : ∀ e, Instr.setRet e ∉ i :: rest := by
    intro e hmem
    exact inTry_of_mem_perGpu (hsuffix.mem hmem)
  have htry := inTry_of_mem_perGpu (hsuffix.mem (List.mem_cons_self ..))
  have hwait : rest.count .wait ≤ (i :: rest).count .wait := List.count_le_count_cons
  have hkeep : s.tokens + rest.count .wait + (i :: rest).count .notify ≤
      s.tokens + rest.count .notify + (i :: rest).count .wait := by omega
  have hvacuous : ∀ (code' : List Instr) (ret : Option CudaError) (e : CudaError),
      Instr.setRet e ∈ s.code (some tid) → Instr.setRet e ∈ code' ∨ ret.isSome := by
    intro code' ret e he
    rw [hcode] at he
    exact absurd he (hsetRet e)
  cases hexec with
  | pass | store | returns =>
    refine h.update_gpu htid rfl id hrest ?_ (hvacuous _ _)
    rw [hcode]
    exact hkeep
  | throws _ e =>
    refine h.update_gpu htid rfl id (.thrown e) ?_ (hvacuous _ _)
    rw [hcode, hnotify]
    simp
  | terminate =>
    refine h.update_gpu htid rfl id hnil ?_ (hvacuous _ _)
    rw [hcode, hnotify]
    simp
  | check =>
    refine h.update_gpu htid rfl id ?_ ?_ (hvacuous _ _)
    · split_ifs
      · exact hnil
      · exact hrest
    · rw [hcode, hnotify]
      split_ifs
      · simp
      · omega
  | wait _ htokens =>
    refine h.update_gpu htid rfl id hrest ?_ (hvacuous _ _)
    rw [hcode, hnotify, List.count_cons_self]
    simp only
    omega
  | notify | exchange | setRet => exact htry.elim

/-- The first exception brings a post for every other thread. -/
lemma BarrierInv.step_thrown (h : BarrierInv P s) {tid : ℕ} (htid : tid < P.nGpus) {e : CudaError}
    (hcode : s.code (some tid) = [.exchange e]) :
    BarrierInv P { s with
      caughtException := true
      code := Function.update s.code (some tid)
        (if s.caughtException then [.unguarded] else P.handler e) } := by
  by_cases hc : s.caughtException = true
  · have hsync : BarrierInv P
        { s with code := Function.update s.code (some tid) [.unguarded] } :=
      h.update_gpu htid rfl id (.syncing hc) (by rw [hcode]; simp) (by rw [hcode]; simp)
    simp only [hc, if_true] at hsync ⊢
    convert hsync using 2
  · have hwait : (s.code (some tid)).count .wait = 0 := by simp [hcode]
    have hnotify : (s.code (some tid)).count .notify = 0 := by simp [hcode]
    have hlt := h.waits_lt htid hwait
    have hwaits := gpuSum_update_some (List.count .wait) s.code htid (P.handler e)
    have hposts := gpuSum_update_some (List.count .notify) s.code htid (P.handler e)
    have hhandler : (P.handler e).count .notify = P.nGpus - 1 := by simp [handler]
    have hhandler' : (P.handler e).count .wait = 0 := by simp [handler, List.count_replicate]
    rw [if_neg hc]
    refine ⟨by simpa using h.prep, ?_, ?_, ?_⟩
    · intro j hj
      by_cases hjt : j = tid
      · subst hjt
        simpa [handler] using GpuCode.posting (P := P) (P.nGpus - 1) e rfl
      · simpa [Function.update_of_ne, hjt] using (h.gpu j hj).mono fun _ => rfl
    · simp only [if_true]
      omega
    · intro _
      exact Or.inr ⟨tid, htid, e, by simp [handler]⟩

lemma BarrierInv.step_posting (h : BarrierInv P s) {tid k : ℕ} (htid : tid < P.nGpus) {e : CudaError}
    (hcaught : s.caughtException = true) {i : Instr} {rest code : List Instr} {o : Outcome}
    {s₁ : State} (hcode : s.code (some tid) = i :: rest)
    (hshape : i :: rest = List.replicate k .notify ++ [.setRet e, .unguarded])
    (hexec : Exec P s i rest o s₁ code) :
    BarrierInv P { s₁ with code := Function.update s.code (some tid) code } := by
  cases k with
  | zero =>
    rw [List.replicate_zero, List.nil_append] at hshape
    obtain ⟨rfl, rfl⟩ := List.cons.inj hshape
    cases hexec with
    | pass _ hi => simp at hi
    | store _ r c hi => simp [Instr.target] at hi
    | throws _ e hi => simp at hi
    | returns _ e hi => simp at hi
    | setRet =>
      refine h.update_gpu htid rfl (fun _ => rfl) (.syncing hcaught) ?_ (fun _ _ => Or.inr rfl)
      rw [hcode]
      simp
  | succ k =>
    rw [List.replicate_succ, List.cons_append] at hshape
    obtain ⟨rfl, rfl⟩ := List.cons.inj hshape
    cases hexec with
    | pass _ hi => simp at hi
    | store _ r c hi => simp [Instr.target] at hi
    | throws _ e hi => simp at hi
    | returns _ e hi => simp at hi
    | notify =>
      refine h.update_gpu htid rfl id (.posting k e hcaught) ?_ ?_
      · rw [hcode]
        simp
        omega
      · intro e' he'
        rw [hcode] at he'
        exact Or.inl (by simpa using he')

lemma BarrierInv.step_syncing (h : BarrierInv P s) {tid : ℕ} (htid : tid < P.nGpus)
    {code : List Instr} {o : Outcome} {s₁ : State} (hcode : s.code (some tid) = [.unguarded])
    (hexec : Exec P s .unguarded [] o s₁ code) :
    BarrierInv P { s₁ with code := Function.update s.code (some tid) code } := by
  have hnil : GpuCode P s.caughtException tid [] := .running List.nil_suffix
  cases hexec with
  | store _ r c hi => simp [Instr.target] at hi
  | throws _ e hi => simp at hi
  | returns _ e hi => simp at hi
  | pass | terminate =>
    refine h.update_gpu htid rfl id hnil ?_ ?_
    · rw [hcode]
      simp
    · rw [hcode]
      simp

lemma BarrierInv.step (h : BarrierInv P s) {a : Action} (hstep : P.step s a = some s') :
    BarrierInv P s' := by
  obtain ⟨⟨-, hthread⟩, i, rest, s₁, code, hcode, hexec, rfl⟩ := step_eq_some.mp hstep
  replace hexec := exec_inv hexec
  generalize a.outcome = o at hexec
  cases ht : a.thread with
  | none =>
    rw [ht] at hcode
    exact h.step_prep hcode hexec
  | some tid =>
    rw [ht] at hcode hthread
    have hgpu := h.gpu tid hthread
    rw [hcode] at hgpu
    generalize hshape : i :: rest = shape at hgpu
    cases hgpu with
    | running hsuffix => exact h.step_running hthread hcode (hshape ▸ hsuffix) hexec
    | thrown e =>
      obtain ⟨rfl, rfl⟩ := List.cons.inj hshape
      cases hexec with
      | store _ r c hi => simp [Instr.target] at hi
      | pass _ hi | throws _ _ hi | returns _ _ hi => simp at hi
      | exchange => exact h.step_thrown hthread hcode
    | posting k e hcaught => exact h.step_posting hthread hcaught hcode hshape hexec
    | syncing hcaught =>
      obtain ⟨rfl, rfl⟩ := List.cons.inj hshape
      exact h.step_syncing hthread hcode hexec

lemma barrierInv_of_reachable (h : Reachable P.step P.init s) : BarrierInv P s :=
  h.invariant P.barrierInv_init fun _ _ _ hs hstep => hs.step hstep

/-! ### No thread is blocked for ever -/

/-- While a thread is not joined, some thread can go on. -/
lemma BarrierInv.exists_step (h : BarrierInv P s) (hterminated : s.terminated = false)
    (hjoined : ¬P.Joined s) : ∃ t s', P.step s ⟨t, .ok⟩ = some s' := by
  have hgo : ∀ t i rest, P.IsThread t → s.code t = i :: rest → (i = .wait → 0 < s.tokens) →
      ∃ t s', P.step s ⟨t, .ok⟩ = some s' := by
    intro t i rest ht hcode hwait
    obtain ⟨⟨s₁, code⟩, hexec⟩ : ∃ r, P.exec s i rest .ok = some r := by
      by_cases hi : i = .wait
      · subst hi
        exact ⟨_, if_pos (hwait rfl)⟩
      · exact exists_exec_ok s hi rest
    exact ⟨t, _, step_eq_some.mpr ⟨⟨hterminated, ht⟩, i, rest, s₁, code, hcode, hexec, rfl⟩⟩
  by_contra hstuck
  have hblocked : ∀ t i rest, P.IsThread t → s.code t = i :: rest → i = .wait ∧ s.tokens = 0 := by
    intro t i rest ht hcode
    by_contra hne
    apply hstuck
    apply hgo t i rest ht hcode
    intro hi
    by_contra htokens
    exact hne ⟨hi, by omega⟩
  -- the preparing thread never waits, so it has returned
  have hprep : s.code none = [] := by
    cases hcode : s.code none with
    | nil => rfl
    | cons i rest =>
      have hmem := mem_prepMsmThread (h.prep.mem (hcode ▸ List.mem_cons_self ..))
      obtain ⟨rfl, -⟩ := hblocked none i rest trivial hcode
      simp at hmem
  -- so there is no post to come, and no thread has to wait
  have hposts : P.gpuSum (List.count .notify) s.code = 0 := by
    apply Finset.sum_eq_zero
    intro tid htid
    cases hcode : s.code (some tid) with
    | nil => rfl
    | cons i rest =>
      have htid := Finset.mem_range.mp htid
      obtain ⟨rfl, -⟩ := hblocked (some tid) i rest htid hcode
      have hgpu := h.gpu tid htid
      rw [hcode] at hgpu
      exact hgpu.count_notify_eq_zero (List.mem_cons_self ..)
  apply hjoined
  refine ⟨hterminated, ?_⟩
  rintro (_ | tid) ht
  · exact hprep
  · cases hcode : s.code (some tid) with
    | nil => rfl
    | cons i rest =>
      obtain ⟨rfl, htokens⟩ := hblocked (some tid) i rest ht hcode
      have henough := h.enough
      rw [hposts, htokens, hprep] at henough
      have hwaits : P.gpuSum (List.count .wait) s.code = 0 := by
        simpa using henough
      have hzero := (Finset.sum_eq_zero_iff.mp hwaits) tid (Finset.mem_range.mpr ht)
      rw [hcode] at hzero
      simp at hzero

end Groth16

end SupraSeal
