import SupraSeal.Pc2.Resources

/-!
# The results of a partition reach the CPU

While a resource copies its last hash to the results it holds the mutex until its callback, and from
the end of the partition to the copy of the worker the main thread and the worker hold it. So the
results of a partition are complete and unchanged when the worker copies them.
-/

namespace SupraSeal

namespace HandOff

open Transition

variable {P : HandOff} {s s' : State}

/-! ### The invariant -/

/-- The results are those of partition `p`. -/
def Results (P : HandOff) (s : State) (p : ℕ) : Prop :=
  ∀ n < P.streamCount, (P.treeROnly = false → s.gpuResultsC n = some (p, n)) ∧
    s.gpuResultsR n = some (p, n)

def CopiedC (P : HandOff) (s : State) (p : ℕ) : Prop :=
  P.treeROnly = false → ∀ n < P.streamCount, s.cpuInputC n = some (p, n)

def CopiedR (P : HandOff) (s : State) (p : ℕ) : Prop :=
  ∀ n < P.streamCount, s.cpuInputR n = some (p, n)

/-- What holds while a job is at a place. -/
def JobOk (P : HandOff) (s : State) : WorkerJob → Prop
  | .copyC p => P.Results s p
  | .copyR p => P.Results s p ∧ P.CopiedC s p
  | .unlock p => P.CopiedC s p ∧ P.CopiedR s p
  | .hashC p => P.treeROnly = false ∧ P.CopiedC s p ∧ P.CopiedR s p
  | .hashR p => P.CopiedR s p
  | .send _ => True

/-- The worker has not released the mutex yet. -/
def Copying (worker : Option WorkerJob) : Prop :=
  ∃ p, worker = some (.copyC p) ∨ worker = some (.copyR p) ∨ worker = some (.unlock p)

structure Inv (P : HandOff) (s : State) : Prop where
  resource : ∀ n < P.streamCount, ResourceInv P s.partition n s.gpuResultsInUse (s.gpuResultsC n)
    (s.gpuResultsR n) (s.resource n)
  other : ∀ n, P.streamCount ≤ n → (s.resource n).stream = []
  owner_lt : ∀ n, s.gpuResultsInUse = some (.resource n) → n < P.streamCount
  main : s.gpuResultsInUse = some .main ↔ s.phase = .recv ∨ s.jobs ≠ [] ∨ Copying s.worker
  alone : s.phase = .recv → s.jobs = [] ∧ ¬Copying s.worker
  done : s.phase ≠ .gpu → P.AllDone s
  token : s.ch + s.jobs.length + s.worker.toList.length = if s.phase = .finished then 0 else 1
  jobs : ∀ p ∈ s.jobs, P.Results s p
  worker : ∀ j, s.worker = some j → P.JobOk s j

lemma inv_init (P : HandOff) : Inv P P.init := by
  refine ⟨?_, fun _ _ => rfl, nofun, ?_, nofun, fun h => absurd rfl h, rfl, nofun, nofun⟩
  · intro n _
    exact resourceInv_reset P (P.init.resource n) rfl nofun
  · simp [init, Copying]

/-- With the mutex held by a resource, no results wait for their copy. -/
lemma Inv.not_awaited (h : Inv P s) {n : ℕ} (howner : s.gpuResultsInUse = some (.resource n)) :
    s.jobs = [] ∧ ¬Copying s.worker := by
  have hmain : ¬(s.phase = .recv ∨ s.jobs ≠ [] ∨ Copying s.worker) := by
    rw [← h.main, howner]
    simp
  simp only [not_or, not_not] at hmain
  exact hmain.2

/-- All resources are done: the results are complete. -/
lemma Inv.results (h : Inv P s) (hdone : P.AllDone s) : P.Results s s.partition := by
  intro n hn
  have hr := h.resource n hn
  obtain ⟨hlast, hstream⟩ := hr.done (hdone n hn)
  refine ⟨fun htree => hr.stashedC hlast (Or.inr (hdone n hn)) htree ?_,
    hr.stashedR hlast (Or.inr (hdone n hn)) ?_⟩
  · simp [hstream]
  · simp [hstream]

/-! ### The main thread -/

lemma Inv.visit (h : Inv P s) (hphase : s.phase = .gpu) {n : ℕ} (hn : n < P.streamCount)
    (ready : Bool) : Inv P (P.visit s n ready) := by
  have hother : ∀ r, ∀ m, P.streamCount ≤ m → (Function.update s.resource n r m).stream = [] := by
    intro r m hm
    rw [Function.update_of_ne (by omega)]
    exact h.other m hm
  have hr := h.resource n hn
  rw [HandOff.visit]
  split_ifs with hstate hready htry hlast
  · exact h
  · have hfree : s.gpuResultsInUse = none := by
      by_contra hne
      exact htry ⟨hlast, hne⟩
    have hmain := h.main
    rw [hfree] at hmain
    refine ⟨?_, hother _, ?_, ?_, h.alone, fun hp => absurd hphase hp, h.token, h.jobs, h.worker⟩
    · intro m hm
      by_cases hmn : m = n
      · subst hmn
        simpa using hr.hashLeaf_last hstate hlast
      · have hiff : some (Holder.resource n) = some (.resource m) ↔
            s.gpuResultsInUse = some (.resource m) := by simp [hfree, Ne.symm hmn]
        simpa [Function.update_of_ne hmn] using (h.resource m hm).of_inUse hiff
    · intro m hm
      cases hm
      exact hn
    · simpa using hmain
  · refine ⟨?_, hother _, h.owner_lt, h.main, h.alone, fun hp => absurd hphase hp, h.token, h.jobs,
      h.worker⟩
    intro m hm
    by_cases hmn : m = n
    · subst hmn
      simpa using hr.hashLeaf_more hstate (by simpa using hlast)
    · simpa [Function.update_of_ne hmn] using h.resource m hm
  · exact h
  · refine ⟨?_, hother _, h.owner_lt, h.main, h.alone, fun hp => absurd hphase hp, h.token, h.jobs,
      h.worker⟩
    intro m hm
    by_cases hmn : m = n
    · subst hmn
      simpa using hr.visitResource ready
    · simpa [Function.update_of_ne hmn] using h.resource m hm

lemma Inv.lock (h : Inv P s) (hphase : s.phase = .lock) (hfree : s.gpuResultsInUse = none) :
    Inv P { s with phase := .recv, gpuResultsInUse := some .main } := by
  have hmain := h.main
  have htoken := h.token
  rw [hfree] at hmain
  simp only [reduceCtorEq, false_iff, not_or, not_not] at hmain
  rw [hphase] at htoken
  refine ⟨?_, h.other, nofun, by simp, fun _ => hmain.2, fun _ => h.done (by simp [hphase]), htoken,
    h.jobs, h.worker⟩
  intro n hn
  exact (h.resource n hn).of_inUse (by simp [hfree])

/-- The job of the partition is spawned. -/
lemma Inv.spawn (h : Inv P s) (hphase : s.phase = .recv) (hch : 0 < s.ch) :
    s.gpuResultsInUse = some .main ∧ s.jobs = [] ∧ ¬Copying s.worker ∧
      s.ch - 1 + (s.jobs ++ [s.partition]).length + s.worker.toList.length = 1 ∧
      ∀ p ∈ s.jobs ++ [s.partition], P.Results s p := by
  obtain ⟨hjobs, hcopying⟩ := h.alone hphase
  have htoken := h.token
  rw [hphase, hjobs] at htoken
  refine ⟨h.main.mpr (Or.inl hphase), hjobs, hcopying, ?_, ?_⟩
  · simp [hjobs] at htoken ⊢
    omega
  · intro p hp
    rw [hjobs, List.nil_append, List.mem_singleton] at hp
    rw [hp]
    exact h.results (h.done (by simp [hphase]))

lemma Inv.recv_next (h : Inv P s) (hphase : s.phase = .recv) (hch : 0 < s.ch) :
    Inv P { s with
      ch := s.ch - 1, jobs := s.jobs ++ [s.partition], partition := s.partition + 1, phase := .gpu
      resource := fun n => P.resetResource (s.resource n) } := by
  obtain ⟨hmain, hjobs, hcopying, htoken, hresults⟩ := h.spawn hphase hch
  refine ⟨?_, h.other, ?_, ?_, nofun, fun hp => absurd rfl hp, htoken, hresults, h.worker⟩
  · intro n hn
    have hdone := h.done (by simp [hphase]) n hn
    exact resourceInv_reset P _ ((h.resource n hn).done hdone).2 (by simp [hmain])
  · intro n hn
    rw [hmain] at hn
    cases hn
  · simp [hmain]

lemma Inv.recv_last (h : Inv P s) (hphase : s.phase = .recv) (hch : 0 < s.ch) :
    Inv P { s with ch := s.ch - 1, jobs := s.jobs ++ [s.partition], phase := .drain } := by
  obtain ⟨hmain, hjobs, hcopying, htoken, hresults⟩ := h.spawn hphase hch
  refine ⟨h.resource, h.other, h.owner_lt, by simp [hmain], nofun, fun _ => h.done (by simp [hphase]),
    htoken, hresults, h.worker⟩

lemma Inv.drain (h : Inv P s) (hphase : s.phase = .drain) (hch : 0 < s.ch) :
    Inv P { s with ch := s.ch - 1, phase := .finished } := by
  have hmain := h.main
  have htoken := h.token
  rw [hphase] at hmain htoken
  refine ⟨h.resource, h.other, h.owner_lt, by simpa using hmain, nofun,
    fun _ => h.done (by simp [hphase]), ?_, h.jobs, h.worker⟩
  simp only [reduceCtorEq, if_false] at htoken
  simp only [if_true]
  omega

/-! ### Streams and the worker -/

/-- A job does not depend on the results once they are copied. -/
lemma JobOk.of_results {j : WorkerJob} (h : P.JobOk s j) (hcopying : ¬Copying (some j))
    {resultsC resultsR : ℕ → Option (ℕ × ℕ)} {inUse : Option Holder} {resource : ℕ → GpuResource} :
    P.JobOk { s with
      gpuResultsC := resultsC, gpuResultsR := resultsR, gpuResultsInUse := inUse
      resource := resource } j := by
  cases j with
  | copyC p => exact absurd ⟨p, Or.inl rfl⟩ hcopying
  | copyR p => exact absurd ⟨p, Or.inr (Or.inl rfl)⟩ hcopying
  | unlock p => exact h
  | hashC p => exact h
  | hashR p => exact h
  | send p => trivial

/-- A stream changes its resource, its results and the mutex. -/
lemma Inv.update (h : Inv P s) {n : ℕ} (hn : n < P.streamCount)
    {resultsC resultsR : ℕ → Option (ℕ × ℕ)} {inUse : Option Holder} {r : GpuResource}
    (hr : ResourceInv P s.partition n inUse (resultsC n) (resultsR n) r)
    (hstate : r.state = (s.resource n).state)
    (hC : ∀ m, m ≠ n → resultsC m = s.gpuResultsC m)
    (hR : ∀ m, m ≠ n → resultsR m = s.gpuResultsR m)
    (hinUse : inUse = s.gpuResultsInUse ∨
      inUse = none ∧ s.gpuResultsInUse = some (.resource n))
    (hresults : resultsC = s.gpuResultsC ∧ resultsR = s.gpuResultsR ∨
      s.jobs = [] ∧ ¬Copying s.worker) :
    Inv P { s with
      gpuResultsC := resultsC, gpuResultsR := resultsR, gpuResultsInUse := inUse
      resource := Function.update s.resource n r } := by
  refine ⟨?_, ?_, ?_, ?_, h.alone, ?_, h.token, ?_, ?_⟩
  · intro m hm
    by_cases hmn : m = n
    · subst hmn
      simpa using hr
    · have hiff : inUse = some (.resource m) ↔ s.gpuResultsInUse = some (.resource m) := by
        rcases hinUse with rfl | ⟨rfl, hold⟩
        · rfl
        · simp [hold, Ne.symm hmn]
      simpa [Function.update_of_ne hmn, hC m hmn, hR m hmn] using (h.resource m hm).of_inUse hiff
  · intro m hm
    simpa [Function.update_of_ne (show m ≠ n by omega)] using h.other m hm
  · intro m hm
    rcases hinUse with rfl | ⟨rfl, -⟩
    · exact h.owner_lt m hm
    · cases hm
  · rcases hinUse with rfl | ⟨rfl, hold⟩
    · exact h.main
    · have hmain := h.main
      rw [hold] at hmain
      simpa using hmain
  · intro hphase m hm
    by_cases hmn : m = n
    · subst hmn
      simpa [hstate] using h.done hphase m hm
    · simpa [Function.update_of_ne hmn] using h.done hphase m hm
  · rcases hresults with ⟨rfl, rfl⟩ | ⟨hjobs, -⟩
    · exact h.jobs
    · rw [hjobs]
      nofun
  · intro j hj
    rcases hresults with ⟨rfl, rfl⟩ | ⟨-, hcopying⟩
    · have hok := h.worker j hj
      cases j <;> exact hok
    · exact (h.worker j hj).of_results (hj ▸ hcopying)

lemma Inv.runStream (h : Inv P s) {n : ℕ} (hstep : HandOff.runStream s n = some s') : Inv P s' := by
  have hn : n < P.streamCount := by
    by_contra hn
    rw [HandOff.runStream, h.other n (Nat.le_of_not_lt hn)] at hstep
    cases hstep
  have hr := h.resource n hn
  cases hstream : (s.resource n).stream with
  | nil =>
    rw [HandOff.runStream, hstream] at hstep
    cases hstep
  | cons op rest =>
    rw [HandOff.runStream, hstream] at hstep
    cases op with
    | stashC p =>
      cases hstep
      obtain ⟨howner, hr'⟩ := hr.stashC hstream
      exact h.update hn (by simpa using hr') rfl (fun m hm => Function.update_of_ne hm ..)
        (fun _ _ => rfl) (Or.inl rfl) (Or.inr (h.not_awaited howner))
    | stashR p =>
      cases hstep
      obtain ⟨howner, hr'⟩ := hr.stashR hstream
      exact h.update hn (by simpa using hr') rfl (fun _ _ => rfl)
        (fun m hm => Function.update_of_ne hm ..) (Or.inl rfl) (Or.inr (h.not_awaited howner))
    | unlock =>
      cases hstep
      obtain ⟨howner, hr'⟩ := hr.unlock hstream
      refine h.update hn hr' rfl (fun _ _ => rfl) (fun _ _ => rfl) ?_ (Or.inl ⟨rfl, rfl⟩)
      by_cases hlast : (s.resource n).last = true
      · exact Or.inr ⟨if_pos hlast, howner hlast⟩
      · exact Or.inl (if_neg hlast)
    | asyncDone =>
      cases hstep
      exact h.update hn (hr.asyncDone hstream) rfl (fun _ _ => rfl) (fun _ _ => rfl) (Or.inl rfl)
        (Or.inl ⟨rfl, rfl⟩)

/-- The worker goes on with its job and keeps the mutex, or does not have it. -/
lemma Inv.update_worker (h : Inv P s) {j j' : WorkerJob} (hj : s.worker = some j)
    {inputC inputR : ℕ → Option (ℕ × ℕ)} (hcopying : Copying (some j') ↔ Copying (some j))
    (hok : P.JobOk { s with worker := some j', cpuInputC := inputC, cpuInputR := inputR } j') :
    Inv P { s with worker := some j', cpuInputC := inputC, cpuInputR := inputR } := by
  refine ⟨h.resource, h.other, h.owner_lt, ?_, ?_, h.done, ?_, h.jobs, ?_⟩
  · rw [hcopying, ← hj]
    exact h.main
  · rw [hcopying, ← hj]
    exact h.alone
  · have htoken := h.token
    rw [hj] at htoken
    exact htoken
  · intro k hk
    cases hk
    exact hok

/-- The worker starts a job. -/
lemma Inv.start (h : Inv P s) (hworker : s.worker = none) {p : ℕ} {jobs : List ℕ}
    (hjobs : s.jobs = p :: jobs) : Inv P { s with worker := some (.copyC p), jobs := jobs } := by
  have hcopying : Copying (some (.copyC p)) := ⟨p, Or.inl rfl⟩
  have htoken := h.token
  rw [hworker, hjobs] at htoken
  refine ⟨h.resource, h.other, h.owner_lt, ?_, ?_, h.done, ?_, ?_, ?_⟩
  · have hmain := h.main.mpr (Or.inr (Or.inl (by simp [hjobs])))
    simp [hmain, hcopying]
  · intro hphase
    have hnil := (h.alone hphase).1
    rw [hjobs] at hnil
    cases hnil
  · simpa [Nat.add_assoc, Nat.add_comm] using htoken
  · intro q hq
    exact h.jobs q (by simp [hjobs, hq])
  · intro j hj
    cases hj
    exact h.jobs p (by simp [hjobs])

/-- The worker releases the mutex. -/
lemma Inv.release (h : Inv P s) {p : ℕ} (hworker : s.worker = some (.unlock p)) :
    Inv P { s with
      gpuResultsInUse := none, worker := some (if P.treeROnly then .hashR p else .hashC p) } := by
  have hcopying : Copying s.worker := ⟨p, Or.inr (Or.inr hworker)⟩
  have hmain : s.gpuResultsInUse = some .main := h.main.mpr (Or.inr (Or.inr hcopying))
  have hphase : s.phase ≠ .recv := fun hp => (h.alone hp).2 hcopying
  have htoken := h.token
  rw [hworker] at htoken
  have hjobs : s.jobs = [] := by
    apply List.eq_nil_of_length_eq_zero
    simp only [Option.toList_some, List.length_singleton] at htoken
    split_ifs at htoken
    omega
  have hnot : ¬Copying (some (if P.treeROnly then WorkerJob.hashR p else .hashC p)) := by
    rintro ⟨q, hq⟩
    split_ifs at hq <;> simp at hq
  obtain ⟨hC, hR⟩ := h.worker _ hworker
  refine ⟨?_, h.other, nofun, ?_, fun hp => absurd hp hphase, h.done, htoken, h.jobs, ?_⟩
  · intro n hn
    exact (h.resource n hn).of_inUse (by simp [hmain])
  · simp [hphase, hjobs, hnot]
  · intro j hj
    cases hj
    split_ifs with htree
    · exact hR
    · exact ⟨by simpa using htree, hC, hR⟩

lemma Inv.runWorker (h : Inv P s) (hstep : P.runWorker s = some s') : Inv P s' := by
  rw [HandOff.runWorker] at hstep
  cases hworker : s.worker with
  | none =>
    rw [hworker] at hstep
    cases hjobs : s.jobs with
    | nil =>
      rw [hjobs] at hstep
      cases hstep
    | cons p jobs =>
      rw [hjobs] at hstep
      cases hstep
      exact h.start hworker hjobs
  | some j =>
    rw [hworker] at hstep
    have hok := h.worker j hworker
    cases j with
    | copyC p =>
      cases hstep
      refine h.update_worker hworker (by simp [Copying]) ⟨hok, ?_⟩
      intro htree n hn
      exact (hok n hn).1 htree
    | copyR p =>
      cases hstep
      exact h.update_worker hworker (by simp [Copying]) ⟨hok.2, fun n hn => (hok.1 n hn).2⟩
    | unlock p =>
      cases hstep
      exact h.release hworker
    | hashC p =>
      cases hstep
      exact h.update_worker hworker (by simp [Copying]) hok.2.2
    | hashR p =>
      cases hstep
      exact h.update_worker hworker (by simp [Copying]) trivial
    | send p =>
      cases hstep
      have htoken := h.token
      have hmain := h.main
      refine ⟨h.resource, h.other, h.owner_lt, ?_, ?_, h.done, ?_, h.jobs, nofun⟩
      · rw [hworker] at hmain
        simpa [Copying] using hmain
      · intro hphase
        exact ⟨(h.alone hphase).1, by simp [Copying]⟩
      · rw [hworker] at htoken
        simp only [Option.toList_some, Option.toList_none, List.length_singleton,
          List.length_nil] at htoken ⊢
        omega

/-! ### Runs -/

lemma Inv.step (h : Inv P s) {a : Action} (hstep : P.step s a = some s') : Inv P s' := by
  cases a with
  | visit n ready =>
    simp only [HandOff.step] at hstep
    split_ifs at hstep with hen
    cases hstep
    exact h.visit hen.1 hen.2 ready
  | gpuDone =>
    simp only [HandOff.step] at hstep
    split_ifs at hstep with hen
    cases hstep
    have hmain := h.main
    have htoken := h.token
    rw [hen.1] at hmain htoken
    exact ⟨h.resource, h.other, h.owner_lt, by simpa using hmain, nofun, fun _ => hen.2, htoken, h.jobs,
      h.worker⟩
  | lock =>
    simp only [HandOff.step] at hstep
    split_ifs at hstep with hen
    cases hstep
    exact h.lock hen.1 hen.2
  | recv =>
    simp only [HandOff.step] at hstep
    split_ifs at hstep with hen hnext
    · cases hstep
      exact h.recv_next hen.1 hen.2
    · cases hstep
      exact h.recv_last hen.1 hen.2
  | drain =>
    simp only [HandOff.step] at hstep
    split_ifs at hstep with hen
    cases hstep
    exact h.drain hen.1 hen.2
  | stream n => exact h.runStream hstep
  | worker => exact h.runWorker hstep

lemma inv_of_reachable (h : Reachable P.step P.init s) : Inv P s :=
  h.invariant P.inv_init fun _ _ _ hs hstep => hs.step hstep

/-- The results of partition `p` wait for their copy. -/
def AwaitsCopy (s : State) (p : ℕ) : Prop :=
  (s.partition = p ∧ (s.phase = .lock ∨ s.phase = .recv)) ∨ p ∈ s.jobs ∨
    s.worker = some (.copyC p) ∨ s.worker = some (.copyR p)

/-- No resource writes results that wait for their copy. -/
lemma Inv.not_awaitsCopy (h : Inv P s) {n : ℕ} (howner : s.gpuResultsInUse = some (.resource n))
    (p : ℕ) : ¬AwaitsCopy s p := by
  obtain ⟨hjobs, hcopying⟩ := h.not_awaited howner
  have hn := h.owner_lt n howner
  have hstream := ((h.resource n hn).owner.mp howner).2
  rintro (⟨-, hphase⟩ | hmem | hC | hR)
  · have hdone : P.AllDone s := by
      apply h.done
      rcases hphase with hp | hp <;> simp [hp]
    rw [((h.resource n hn).done (hdone n hn)).2] at hstream
    cases hstream
  · rw [hjobs] at hmem
    cases hmem
  · exact hcopying ⟨p, Or.inl hC⟩
  · exact hcopying ⟨p, Or.inr (Or.inl hR)⟩

/-- Only a resource that holds the mutex writes results. -/
lemma Inv.gpuResults_eq (h : Inv P s) {a : Action} (hstep : P.step s a = some s') :
    (s'.gpuResultsC = s.gpuResultsC ∧ s'.gpuResultsR = s.gpuResultsR) ∨
      ∃ n, s.gpuResultsInUse = some (.resource n) := by
  cases a with
  | visit n ready =>
    simp only [HandOff.step] at hstep
    split_ifs at hstep
    cases hstep
    left
    rw [HandOff.visit]
    split_ifs <;> exact ⟨rfl, rfl⟩
  | stream n =>
    have hn : n < P.streamCount := by
      by_contra hn
      rw [HandOff.step, HandOff.runStream, h.other n (Nat.le_of_not_lt hn)] at hstep
      cases hstep
    rw [HandOff.step, HandOff.runStream] at hstep
    cases hstream : (s.resource n).stream with
    | nil =>
      rw [hstream] at hstep
      cases hstep
    | cons op rest =>
      rw [hstream] at hstep
      cases op with
      | stashC q => exact Or.inr ⟨n, ((h.resource n hn).stashC hstream).1⟩
      | stashR q => exact Or.inr ⟨n, ((h.resource n hn).stashR hstream).1⟩
      | unlock | asyncDone =>
        cases hstep
        exact Or.inl ⟨rfl, rfl⟩
  | worker =>
    rw [HandOff.step, HandOff.runWorker] at hstep
    left
    split at hstep
    · split at hstep
      · cases hstep
      · cases hstep
        exact ⟨rfl, rfl⟩
    all_goals
      cases hstep
      exact ⟨rfl, rfl⟩
  | gpuDone | lock | recv | drain =>
    simp only [HandOff.step] at hstep
    left
    split_ifs at hstep <;> cases hstep <;> exact ⟨rfl, rfl⟩

/-- Only the worker writes its input, before it hashes. -/
lemma cpuInput_eq {p : ℕ} (hworker : s.worker = some (.hashC p) ∨ s.worker = some (.hashR p))
    {a : Action} (hstep : P.step s a = some s') :
    s'.cpuInputC = s.cpuInputC ∧ s'.cpuInputR = s.cpuInputR := by
  cases a with
  | visit n ready =>
    simp only [HandOff.step] at hstep
    split_ifs at hstep
    cases hstep
    rw [HandOff.visit]
    split_ifs <;> exact ⟨rfl, rfl⟩
  | stream n =>
    rw [HandOff.step, HandOff.runStream] at hstep
    split at hstep <;> cases hstep <;> exact ⟨rfl, rfl⟩
  | worker =>
    rw [HandOff.step, HandOff.runWorker] at hstep
    rcases hworker with hw | hw
    · rw [hw] at hstep
      cases hstep
      exact ⟨rfl, rfl⟩
    · rw [hw] at hstep
      cases hstep
      exact ⟨rfl, rfl⟩
  | gpuDone | lock | recv | drain =>
    simp only [HandOff.step] at hstep
    split_ifs at hstep <;> cases hstep <;> exact ⟨rfl, rfl⟩

/-- In every run the worker hashes what all resources have produced in its partition, no results are
written while they wait for their copy, the input of the worker is not overwritten while it hashes,
and the mutex is released by its holder only. -/
theorem handOff_of_reachable (h : Reachable P.step P.init s) :
    (∀ p, s.worker = some (.hashC p) → ∀ n < P.streamCount, s.cpuInputC n = some (p, n)) ∧
    (∀ p, s.worker = some (.hashR p) → ∀ n < P.streamCount, s.cpuInputR n = some (p, n)) ∧
    (∀ p a s', AwaitsCopy s p → P.step s a = some s' →
      s'.gpuResultsC = s.gpuResultsC ∧ s'.gpuResultsR = s.gpuResultsR) ∧
    (∀ p a s', s.worker = some (.hashC p) ∨ s.worker = some (.hashR p) → P.step s a = some s' →
      s'.cpuInputC = s.cpuInputC ∧ s'.cpuInputR = s.cpuInputR) ∧
    (∀ n rest, (s.resource n).stream = .unlock :: rest → (s.resource n).last = true →
      s.gpuResultsInUse = some (.resource n)) ∧
    ∀ p, s.worker = some (.unlock p) → s.gpuResultsInUse = some .main := by
  have hinv := inv_of_reachable h
  refine ⟨?_, fun p hp => hinv.worker _ hp, ?_, ?_, ?_, ?_⟩
  · intro p hp
    obtain ⟨htree, hC, -⟩ := hinv.worker _ hp
    exact hC htree
  · intro p a s' hawaits hstep
    rcases hinv.gpuResults_eq hstep with heq | ⟨n, howner⟩
    · exact heq
    · exact absurd hawaits (hinv.not_awaitsCopy howner p)
  · intro p a s' hworker hstep
    exact cpuInput_eq hworker hstep
  · intro n rest hstream hlast
    have hn : n < P.streamCount := by
      by_contra hn
      rw [hinv.other n (Nat.le_of_not_lt hn)] at hstream
      cases hstream
    exact ((hinv.resource n hn).unlock hstream).1 hlast
  · intro p hp
    exact hinv.main.mpr (Or.inr (Or.inr ⟨p, Or.inr (Or.inr hp)⟩))

/-- One partition on one stream with two leaves. -/
def twoLeaves : HandOff where
  numPartitions := 1
  streamCount := 1
  arity := 2
  initialNodes := 2
  treeROnly := false
  numPartitions_pos := Nat.one_pos
  arity_pos := Nat.two_pos
  initialNodes_pos := Nat.two_pos
  arity_dvd := Nat.dvd_refl 2

/-- Both leaves, their parent, and the worker up to its first hash. -/
def twoLeavesRun : List Action :=
  let leaf := List.replicate 4 (Action.visit 0 true) ++ [.stream 0, .visit 0 true, .stream 0] ++
    [.visit 0 true]
  leaf ++ leaf ++ List.replicate 2 (.visit 0 true) ++ List.replicate 4 (.stream 0) ++
    [.visit 0 true, .gpuDone, .lock, .recv] ++ List.replicate 4 .worker

/-- The worker hashes the output of the stream. -/
theorem handOff_of_reachable_twoLeaves :
    ∃ s, Reachable twoLeaves.step twoLeaves.init s ∧ s.worker = some (.hashC 0) ∧
      s.cpuInputC 0 = some (0, 0) := by
  have hrun : (runList twoLeaves.step twoLeaves.init twoLeavesRun).map (fun s => s.worker) =
      some (some (.hashC 0)) := by rfl
  obtain ⟨s, hs, hworker⟩ := Option.map_eq_some_iff.mp hrun
  have hreach : Reachable twoLeaves.step twoLeaves.init s :=
    .of_runList hs (fun _ _ _ => trivial) .start
  exact ⟨s, hreach, hworker, (handOff_of_reachable hreach).1 0 hworker 0 Nat.one_pos⟩

end HandOff

end SupraSeal
