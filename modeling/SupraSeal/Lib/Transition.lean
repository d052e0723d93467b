import Mathlib.Logic.Function.Basic
import Mathlib.Data.Int.LeastGreatest

/-!
# Transition systems

A system is a partial step function `step : σ → α → Option σ` over actions. An action that is
blocked has no result. `ReachableVia ok` keeps the runs all of whose steps satisfy `ok`; the runs
without a restriction are `Reachable`.
-/

namespace Transition

variable {σ α : Type*}

/-- States reached from `init` by steps that `ok` admits. -/
inductive ReachableVia (ok : σ → α → Prop) (step : σ → α → Option σ) (init : σ) : σ → Prop
  | start : ReachableVia ok step init init
  | next {s s' : σ} {a : α} :
      ReachableVia ok step init s → ok s a → step s a = some s' → ReachableVia ok step init s'

/-- States reached from `init` by any steps. -/
def Reachable (step : σ → α → Option σ) (init : σ) : σ → Prop :=
  ReachableVia (fun _ _ => True) step init

variable {ok : σ → α → Prop} {step : σ → α → Option σ} {init s s' : σ} {a : α}

/-- The invariant rule: what holds at the start and is kept by every admitted step holds in
every state of every admitted run. -/
theorem ReachableVia.invariant {P : σ → Prop} (h : ReachableVia ok step init s) (h₀ : P init)
    (hstep : ∀ s a s', P s → ok s a → step s a = some s' → P s') : P s := by
  induction h with
  | start => exact h₀
  | next _ hok hs ih => exact hstep _ _ _ ih hok hs

theorem Reachable.invariant {P : σ → Prop} (h : Reachable step init s) (h₀ : P init)
    (hstep : ∀ s a s', P s → step s a = some s' → P s') : P s :=
  ReachableVia.invariant h h₀ fun s a s' hs _ => hstep s a s' hs

theorem Reachable.start : Reachable step init init := ReachableVia.start

theorem Reachable.next (h : Reachable step init s) (hs : step s a = some s') :
    Reachable step init s' := ReachableVia.next h trivial hs

/-- Runs compose. -/
theorem ReachableVia.trans {s₁ s₂ s₃ : σ} (h : ReachableVia ok step s₁ s₂)
    (h' : ReachableVia ok step s₂ s₃) : ReachableVia ok step s₁ s₃ :=
  h'.invariant h fun _ _ _ ih hok hs => ih.next hok hs

theorem Reachable.trans {s₁ s₂ s₃ : σ} (h : Reachable step s₁ s₂) (h' : Reachable step s₂ s₃) :
    Reachable step s₁ s₃ :=
  ReachableVia.trans h h'

/-- A run of admitted steps is a run of a weaker restriction. -/
theorem ReachableVia.mono {ok' : σ → α → Prop} (h : ReachableVia ok step init s)
    (hok : ∀ s a, ok s a → ok' s a) : ReachableVia ok' step init s :=
  h.invariant .start fun s a _ ih ha hs => ih.next (hok s a ha) hs

/-- The run of a list of actions. -/
def runList (step : σ → α → Option σ) (s : σ) (as : List α) : Option σ := as.foldlM step s

theorem ReachableVia.of_runList {as : List α} (hrun : runList step s as = some s')
    (has : ∀ s, ∀ a ∈ as, ok s a) (h : ReachableVia ok step init s) : ReachableVia ok step init s' := by
  induction as generalizing s with
  | nil =>
    cases hrun
    exact h
  | cons a as ih =>
    simp only [runList, List.foldlM_cons, Option.bind_eq_bind, Option.bind_eq_some_iff] at hrun
    obtain ⟨t, ht, hrun⟩ := hrun
    exact ih hrun (fun s b hb => has s b (List.mem_cons_of_mem a hb))
      (h.next (has s a (List.mem_cons_self ..)) ht)

/-- A restricted run is a run. -/
theorem ReachableVia.reachable (h : ReachableVia ok step init s) : Reachable step init s :=
  h.invariant Reachable.start fun _ _ _ ih _ hs => ih.next hs

/-! ### Measures -/

/-- Where no admitted step lowers a bounded measure, some run leads to a state after which the
measure never changes. -/
theorem exists_settled {f : σ → ℤ} {B : ℤ}
    (hle : ∀ s₁ a s₂, ReachableVia ok step s s₁ → ok s₁ a → step s₁ a = some s₂ → f s₁ ≤ f s₂)
    (hB : ∀ s₁, ReachableVia ok step s s₁ → f s₁ ≤ B) :
    ∃ s', ReachableVia ok step s s' ∧ ∀ s₁ a s₂, ReachableVia ok step s' s₁ → ok s₁ a →
      step s₁ a = some s₂ → f s₂ = f s₁ := by
  obtain ⟨_, ⟨s', hs', rfl⟩, hmax⟩ := Int.exists_greatest_of_bdd
    (P := fun z => ∃ s', ReachableVia ok step s s' ∧ f s' = z)
    ⟨B, fun _ ⟨s₁, hs₁, hz⟩ => hz ▸ hB s₁ hs₁⟩ ⟨f s, s, .start, rfl⟩
  -- the measure does not sink on the way to a later state, and it cannot exceed the greatest value
  have hconst : ∀ s₁, ReachableVia ok step s' s₁ → f s₁ = f s' := by
    intro s₁ hs₁
    have hrun : ReachableVia ok step s' s₁ ∧ f s' ≤ f s₁ :=
      hs₁.invariant (P := fun s₁ => ReachableVia ok step s' s₁ ∧ f s' ≤ f s₁) ⟨.start, le_rfl⟩
        fun s₁ a s₂ hs hok hstep =>
          ⟨hs.1.next hok hstep, hs.2.trans (hle s₁ a s₂ (hs'.trans hs.1) hok hstep)⟩
    exact le_antisymm (hmax _ ⟨s₁, hs'.trans hrun.1, rfl⟩) hrun.2
  refine ⟨s', hs', fun s₁ a s₂ hs₁ hok hstep => ?_⟩
  rw [hconst s₂ (hs₁.next hok hstep), hconst s₁ hs₁]

/-- A run is no longer than a bounded measure that every step raises. -/
theorem length_le_of_measure {f : σ → ℕ} {B : ℕ}
    (hlt : ∀ s a s', Reachable step init s → step s a = some s' → f s < f s')
    (hB : ∀ s, Reachable step init s → f s ≤ B) {as : List α}
    (hrun : runList step init as = some s) : as.length ≤ B := by
  have hlen : ∀ (as : List α) (s₁ s₂ : σ), Reachable step init s₁ → runList step s₁ as = some s₂ →
      Reachable step init s₂ ∧ f s₁ + as.length ≤ f s₂ := by
    intro as
    induction as with
    | nil =>
      intro s₁ s₂ h₁ hrun
      cases hrun
      exact ⟨h₁, le_rfl⟩
    | cons a as ih =>
      intro s₁ s₂ h₁ hrun
      simp only [runList, List.foldlM_cons, Option.bind_eq_bind, Option.bind_eq_some_iff] at hrun
      obtain ⟨t, ht, hrun⟩ := hrun
      obtain ⟨h₂, hle⟩ := ih t s₂ (h₁.next ht) hrun
      have hstep := hlt s₁ a t h₁ ht
      refine ⟨h₂, ?_⟩
      rw [List.length_cons]
      omega
  obtain ⟨hs, hle⟩ := hlen as init s Reachable.start hrun
  exact (Nat.le_add_left ..).trans (hle.trans (hB s hs))

/-- With such a measure some run cannot be continued. -/
theorem exists_blocked {f : σ → ℕ} {B : ℕ}
    (hlt : ∀ s a s', Reachable step init s → step s a = some s' → f s < f s')
    (hB : ∀ s, Reachable step init s → f s ≤ B) :
    ∃ s, Reachable step init s ∧ ∀ a, ok s a → step s a = none := by
  have hgo : ∀ k s, Reachable step init s → B - f s ≤ k →
      ∃ s', Reachable step init s' ∧ ∀ a, ok s' a → step s' a = none := by
    intro k
    induction k with
    | zero =>
      intro s hs hk
      refine ⟨s, hs, ?_⟩
      intro a _
      cases hstep : step s a with
      | none => rfl
      | some s' =>
        have := hlt s a s' hs hstep
        have := hB s' (hs.next hstep)
        omega
    | succ k ih =>
      intro s hs hk
      by_cases hblocked : ∀ a, ok s a → step s a = none
      · exact ⟨s, hs, hblocked⟩
      · push Not at hblocked
        obtain ⟨a, -, hne⟩ := hblocked
        obtain ⟨s', hstep⟩ := Option.ne_none_iff_exists'.1 hne
        have := hlt s a s' hs hstep
        exact ih s' (hs.next hstep) (by omega)
  exact hgo _ init Reachable.start le_rfl

end Transition
