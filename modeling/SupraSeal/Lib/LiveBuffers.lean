import Mathlib.Data.List.Basic

/-!
# Buffers that are used again

Jobs run one after the other. A job reads the results of some earlier jobs in their buffers and
leaves its own result in a buffer. A buffer is used again when its result was read, so that a result
is there until then and possibly no longer.

What a job leaves is told by a predicate on the contents of its buffer.
-/

namespace LiveBuffers

variable {ι κ β : Type*}

/-- No job takes a buffer with a result that no job has read, and no result is read twice. -/
structure Safe (reads : ι → ι → Prop) (out : ι → κ) (jobs : List ι) : Prop where
  fresh : ∀ before x after, jobs = before ++ x :: after →
    ∀ e ∈ before, (∀ y ∈ before, ¬ reads y e) → out e ≠ out x
  once : ∀ before x after, jobs = before ++ x :: after →
    ∀ e, reads x e → ∀ y ∈ before, ¬ reads y e

/-- After the jobs `done`, the results that were not read are in their buffers. -/
def Live (reads : ι → ι → Prop) (out : ι → κ) (ok : ι → β → Prop) (done : List ι) (mem : κ → β) :
    Prop :=
  ∀ e ∈ done, (∀ y ∈ done, ¬ reads y e) → ok e (mem (out e))

variable {reads : ι → ι → Prop} {out : ι → κ} {ok : ι → β → Prop} {jobs done after : List ι}
  {mem mem' : κ → β} {x e : ι}

lemma live_nil (mem : κ → β) : Live reads out ok [] mem := fun _ he => absurd he List.not_mem_nil

/-- A job finds the results that it reads. -/
lemma Live.input (h : Live reads out ok done mem) (hsafe : Safe reads out jobs)
    (hjobs : jobs = done ++ x :: after) (he : e ∈ done) (hread : reads x e) : ok e (mem (out e)) :=
  h e he (hsafe.once done x after hjobs e hread)

/-- A job that leaves its result and no other change keeps the results to be read. -/
lemma Live.step (h : Live reads out ok done mem) (hsafe : Safe reads out jobs)
    (hjobs : jobs = done ++ x :: after) (hx : ok x (mem' (out x)))
    (hframe : ∀ b, b ≠ out x → mem' b = mem b) : Live reads out ok (done ++ [x]) mem' := by
  intro e he hunread
  rcases List.mem_append.mp he with he | he
  · have hunread' : ∀ y ∈ done, ¬ reads y e := by
      intro y hy
      exact hunread y (List.mem_append_left _ hy)
    rw [hframe _ (hsafe.fresh done x after hjobs e he hunread')]
    exact h e he hunread'
  · rw [List.mem_singleton.mp he]
    exact hx

end LiveBuffers
