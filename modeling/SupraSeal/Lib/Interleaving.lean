import Mathlib.Data.List.Basic
import Mathlib.Data.Prod.Basic

/-!
# Interleavings

Threads run programs, lists of operations on one state. In a trace every operation carries its
thread; the trace is an interleaving of the programs when each thread makes the operations of its
program, in their order.

Where an operation changes what its own thread sees as a function of what this thread sees, and
leaves alone what the others see, a thread sees after every interleaving what it would see after
its program alone.
-/

namespace Interleaving

variable {ι Op σ : Type*} [DecidableEq ι]

/-- The operations of a thread. -/
def ofThread (i : ι) (trace : List (ι × Op)) : List Op :=
  (trace.filter (·.1 = i)).map Prod.snd

def IsInterleaving (progs : ι → List Op) (trace : List (ι × Op)) : Prop :=
  ∀ i, ofThread i trace = progs i

variable (exec : Op → σ → σ)

def runProg (prog : List Op) (s : σ) : σ := prog.foldl (fun s op => exec op s) s

def run (trace : List (ι × Op)) (s : σ) : σ := runProg exec (trace.map Prod.snd) s

variable {exec} {progs : ι → List Op} {trace : List (ι × Op)} {s s' : σ} {i : ι}

@[simp] lemma runProg_nil : runProg exec [] s = s := rfl

@[simp] lemma runProg_cons (op : Op) (prog : List Op) :
    runProg exec (op :: prog) s = runProg exec prog (exec op s) := rfl

@[simp] lemma runProg_append (p q : List Op) :
    runProg exec (p ++ q) s = runProg exec q (runProg exec p s) :=
  List.foldl_append ..

lemma ofThread_cons (e : ι × Op) (trace : List (ι × Op)) :
    ofThread i (e :: trace) = if e.1 = i then e.2 :: ofThread i trace else ofThread i trace := by
  rw [ofThread, List.filter_cons]
  split_ifs <;> simp_all [ofThread]

lemma IsInterleaving.mem (h : IsInterleaving progs trace) {e : ι × Op} (he : e ∈ trace) :
    e.2 ∈ progs e.1 := by
  rw [← h e.1, ofThread]
  exact List.mem_map_of_mem (List.mem_filter.mpr ⟨he, by simp⟩)

/-- What no operation changes stays. -/
lemma runProg_invariant {p : σ → Prop} {prog : List Op}
    (hstep : ∀ op ∈ prog, ∀ s, p s → p (exec op s)) (hs : p s) : p (runProg exec prog s) := by
  induction prog generalizing s with
  | nil => exact hs
  | cons op prog ih =>
    refine ih (fun op' hop' => hstep op' (List.mem_cons_of_mem op hop')) ?_
    exact hstep op List.mem_cons_self s hs

lemma IsInterleaving.invariant {p : σ → Prop} (h : IsInterleaving progs trace)
    (hstep : ∀ i, ∀ op ∈ progs i, ∀ s, p s → p (exec op s)) (hs : p s) :
    p (run exec trace s) := by
  refine runProg_invariant (fun op hop => ?_) hs
  obtain ⟨e, he, rfl⟩ := List.mem_map.mp hop
  exact hstep e.1 e.2 (h.mem he)

/-- A thread sees after an interleaving what it sees after its program. -/
theorem IsInterleaving.same_view {Same : ι → σ → σ → Prop} (h : IsInterleaving progs trace)
    (hown : ∀ i, ∀ op ∈ progs i, ∀ s s', Same i s s' → Same i (exec op s) (exec op s'))
    (hother : ∀ i j, i ≠ j → ∀ op ∈ progs j, ∀ s s', Same i s s' → Same i (exec op s) s')
    (hs : Same i s s') : Same i (run exec trace s) (runProg exec (progs i) s') := by
  have hmem : ∀ e ∈ trace, e.2 ∈ progs e.1 := fun e he => h.mem he
  rw [← h i]
  clear h
  induction trace generalizing s s' with
  | nil => exact hs
  | cons e trace ih =>
    have hrest : ∀ e' ∈ trace, e'.2 ∈ progs e'.1 := fun e' he' =>
      hmem e' (List.mem_cons_of_mem e he')
    have he := hmem e List.mem_cons_self
    rw [ofThread_cons]
    split_ifs with hi
    · subst hi
      exact ih (hown e.1 e.2 he s s' hs) hrest
    · exact ih (hother i e.1 (Ne.symm hi) e.2 he s s' hs) hrest

end Interleaving
