import SupraSeal.Pc2.HandOff

/-!
# Resources

What holds of one resource of `pc2_t` in every partition: which work is the last, what its stream has
still to do, and that it holds the mutex from the last hash to the callback.
-/

namespace SupraSeal

namespace HandOff

variable {P : HandOff}

/-! ### Resources -/

/-- What a stream can have left to do, in partition `p`. -/
inductive StreamShape (P : HandOff) (p : ℕ) (r : GpuResource) : Prop
  | quiet (h : r.stream = []) (hdone : r.asyncDone = true)
  | noting (h : r.stream = [.asyncDone]) (hdone : r.asyncDone = false)
      (hstate : r.state = .hashColumnLeaves ∨ r.state = .hashWait)
  | unlocking (h : r.stream = [.unlock, .asyncDone]) (hdone : r.asyncDone = false)
      (hstate : r.state = .hashWait)
  | stashingR (h : r.stream = [.stashR p, .unlock, .asyncDone]) (hdone : r.asyncDone = false)
      (hstate : r.state = .hashWait) (hlast : r.last = true)
  | stashingC (h : r.stream = [.stashC p, .stashR p, .unlock, .asyncDone])
      (hdone : r.asyncDone = false) (hstate : r.state = .hashWait) (hlast : r.last = true)

/-- States in which the work is a leaf. -/
def LeafState (state : ResourceState) : Prop :=
  state = .dataRead ∨ state = .dataWait ∨ state = .hashColumn ∨ state = .hashColumnLeaves

/-- The invariant of resource `n` in partition `p`, with the mutex and the results of `n`. -/
structure ResourceInv (P : HandOff) (p n : ℕ) (inUse : Option Holder) (resultC resultR : Option (ℕ × ℕ))
    (r : GpuResource) : Prop where
  leaves : Scheduler.LeavesFrom P.arity P.initialNodes r.scheduler
  more : r.last = false → r.scheduler.stack ≠ []
  inner : r.last = true → r.work.1 ≠ 1
  leaf : LeafState r.state → r.work.1 = 1
  idle : r.state = .idle → r.last = false
  done : r.state = .done → r.last = true ∧ r.stream = []
  shape : StreamShape P p r
  owner : inUse = some (.resource n) ↔ r.last = true ∧ .unlock ∈ r.stream
  stashedC : r.last = true → r.state = .hashWait ∨ r.state = .done → P.treeROnly = false →
    .stashC p ∉ r.stream → resultC = some (p, n)
  stashedR : r.last = true → r.state = .hashWait ∨ r.state = .done →
    .stashR p ∉ r.stream → resultR = some (p, n)

variable {p n : ℕ} {inUse : Option Holder} {resultC resultR : Option (ℕ × ℕ)} {r : GpuResource}

/-- A resource at the start of a partition. -/
lemma resourceInv_reset (P : HandOff) (r : GpuResource) (hstream : r.stream = [])
    (hinUse : inUse ≠ some (.resource n)) :
    ResourceInv P p n inUse resultC resultR (P.resetResource r) := by
  refine ⟨Scheduler.leavesFrom_reset .., ?_, nofun, ?_, fun _ => rfl, nofun, .quiet hstream rfl, ?_,
    nofun, nofun⟩
  · intro _ hnil
    have hpos := P.initialNodes_pos
    simp [resetResource, Scheduler.reset] at hnil
    omega
  · rintro (h | h | h | h) <;> cases h
  · simp [resetResource, hinUse]

namespace ResourceInv

/-- A callback is on its way in two states only. -/
lemma quiet (h : ResourceInv P p n inUse resultC resultR r) (hleaves : r.state ≠ .hashColumnLeaves)
    (hwait : r.state ≠ .hashWait) : r.stream = [] ∧ r.asyncDone = true := by
  cases h.shape with
  | quiet hstream hdone => exact ⟨hstream, hdone⟩
  | noting _ _ hstate => exact absurd hstate (by simp [hleaves, hwait])
  | unlocking _ _ hstate => exact absurd hstate hwait
  | stashingR _ _ hstate => exact absurd hstate hwait
  | stashingC _ _ hstate => exact absurd hstate hwait

lemma quiet_of_asyncDone (h : ResourceInv P p n inUse resultC resultR r)
    (hdone : r.asyncDone = true) : r.stream = [] := by
  cases h.shape with
  | quiet hstream => exact hstream
  | noting _ hfalse | unlocking _ hfalse | stashingR _ hfalse | stashingC _ hfalse =>
    rw [hdone] at hfalse
    cases hfalse

/-- The work of a leaf is not the last one. -/
lemma last_of_leaf (h : ResourceInv P p n inUse resultC resultR r) (hleaf : LeafState r.state) :
    r.last = false := by
  by_contra hlast
  exact h.inner (by simpa using hlast) (h.leaf hleaf)

/-- The work of a leaf goes on, with or without a callback. -/
lemma goOn (h : ResourceInv P p n inUse resultC resultR r) (hleaf : LeafState r.state)
    {r' : GpuResource} (hlast : r'.last = r.last) (hwork : r'.work = r.work)
    (hscheduler : r'.scheduler = r.scheduler) (hidle : r'.state ≠ .idle) (hdone : r'.state ≠ .done)
    (hshape : StreamShape P p r') :
    ResourceInv P p n inUse resultC resultR r' := by
  have hlast' : r'.last = false := hlast.trans (h.last_of_leaf hleaf)
  have hnot : ¬r'.last = true := by simp [hlast']
  refine ⟨hscheduler ▸ h.leaves, ?_, fun hl => absurd hl hnot, ?_, fun hs => absurd hs hidle,
    fun hs => absurd hs hdone, hshape, ?_, fun hl => absurd hl hnot, fun hl => absurd hl hnot⟩
  · intro _
    rw [hscheduler]
    exact h.more (h.last_of_leaf hleaf)
  · intro _
    rw [hwork]
    exact h.leaf hleaf
  · rw [h.owner, h.last_of_leaf hleaf, hlast']
    simp

/-- The next work of the scheduler. -/
lemma next (h : ResourceInv P p n inUse resultC resultR r) (hidle : r.state = .idle) :
    ResourceInv P p n inUse resultC resultR { r with
      last := !(r.scheduler.next P.arity r.work).1
      work := (r.scheduler.next P.arity r.work).2.1
      scheduler := (r.scheduler.next P.arity r.work).2.2
      state := if (r.scheduler.next P.arity r.work).2.1.1 = 1 then .dataRead else .hashLeaf } := by
  obtain ⟨hleaves, hinner, hmore⟩ :=
    h.leaves.next P.arity_pos P.arity_dvd (h.more (h.idle hidle)) r.work
  obtain ⟨hstream, hdone⟩ := h.quiet (by simp [hidle]) (by simp [hidle])
  have hinUse : inUse ≠ some (.resource n) := by
    rw [Ne, h.owner, hstream]
    simp
  generalize r.scheduler.next P.arity r.work = res at hleaves hinner hmore ⊢
  refine ⟨hleaves, ?_, ?_, ?_, ?_, ?_, .quiet hstream hdone, ?_, ?_, ?_⟩
  · intro hlast
    exact hmore (by simpa using hlast)
  · intro hlast
    exact hinner (by simpa using hlast)
  · intro hleaf
    by_contra hne
    simp [hne, LeafState] at hleaf
  · intro hstate
    split_ifs at hstate
  · intro hstate
    split_ifs at hstate
  · simp [hinUse, hstream]
  · intro _ hstate
    split_ifs at hstate <;> simp at hstate
  · intro _ hstate
    split_ifs at hstate <;> simp at hstate

/-- The callback has been run. -/
lemma finish (h : ResourceInv P p n inUse resultC resultR r) (hstate : r.state = .hashWait)
    (hdone : r.asyncDone = true) :
    ResourceInv P p n inUse resultC resultR
      { r with state := if r.last then .done else .idle } := by
  have hstream := h.quiet_of_asyncDone hdone
  refine ⟨h.leaves, h.more, h.inner, ?_, ?_, ?_, .quiet hstream hdone, h.owner, ?_, ?_⟩
  · intro hleaf
    split_ifs at hleaf <;> simp [LeafState] at hleaf
  · intro hidle
    by_contra hlast
    simp [hlast] at hidle
  · intro hd
    refine ⟨?_, hstream⟩
    by_contra hlast
    simp [hlast] at hd
  · intro hlast _ htree hmem
    exact h.stashedC hlast (Or.inl hstate) htree hmem
  · intro hlast _ hmem
    exact h.stashedR hlast (Or.inl hstate) hmem

/-- A visit in a state other than `HASH_LEAF`. -/
lemma visitResource (h : ResourceInv P p n inUse resultC resultR r) (ready : Bool) :
    ResourceInv P p n inUse resultC resultR (P.visitResource r ready) := by
  rw [HandOff.visitResource]
  cases hstate : r.state with
  | done => exact h
  | hashLeaf => exact h
  | idle => exact h.next hstate
  | dataRead =>
    obtain ⟨hstream, hdone⟩ := h.quiet (by simp [hstate]) (by simp [hstate])
    exact h.goOn (Or.inl hstate) rfl rfl rfl nofun nofun (.quiet hstream hdone)
  | dataWait =>
    obtain ⟨hstream, hdone⟩ := h.quiet (by simp [hstate]) (by simp [hstate])
    simp only
    split_ifs
    · exact h.goOn (Or.inr (Or.inl hstate)) rfl rfl rfl nofun nofun (.quiet hstream hdone)
    · exact h.goOn (Or.inr (Or.inl hstate)) rfl rfl rfl nofun nofun (.quiet hstream hdone)
    · exact h
  | hashColumn =>
    obtain ⟨hstream, -⟩ := h.quiet (by simp [hstate]) (by simp [hstate])
    simp only
    split_ifs
    · exact h.goOn (Or.inr (Or.inr (Or.inl hstate))) rfl rfl rfl nofun nofun
        (.noting (by simp [hstream]) rfl (Or.inl rfl))
    · exact h
  | hashColumnLeaves =>
    simp only [Bool.and_eq_true]
    split_ifs with hready
    · have hstream := h.quiet_of_asyncDone hready.1
      exact h.goOn (Or.inr (Or.inr (Or.inr hstate))) rfl rfl rfl nofun nofun
        (.noting (by simp [hstream]) rfl (Or.inr rfl))
    · exact h
  | hashWait =>
    simp only
    split_ifs with hdone hlast
    · have hfinish := h.finish hstate hdone
      rwa [if_pos hlast] at hfinish
    · have hfinish := h.finish hstate hdone
      rwa [if_neg hlast] at hfinish
    · exact h

/-- The mutex changes hands, but not to or from this resource. -/
lemma of_inUse (h : ResourceInv P p n inUse resultC resultR r) {inUse' : Option Holder}
    (hiff : inUse' = some (.resource n) ↔ inUse = some (.resource n)) :
    ResourceInv P p n inUse' resultC resultR r :=
  ⟨h.leaves, h.more, h.inner, h.leaf, h.idle, h.done, h.shape, hiff.trans h.owner, h.stashedC,
    h.stashedR⟩

/-- The last hash is put into the stream by the holder of the mutex. -/
lemma hashLeaf_last (h : ResourceInv P p n inUse resultC resultR r) (hstate : r.state = .hashLeaf)
    (hlast : r.last = true) :
    ResourceInv P p n (some (.resource n)) resultC resultR
      { r with asyncDone := false, stream := r.stream ++ P.leafOps r.last p, state := .hashWait } := by
  obtain ⟨hstream, -⟩ := h.quiet (by simp [hstate]) (by simp [hstate])
  have hleaf : ¬LeafState .hashWait := by simp [LeafState]
  cases htree : P.treeROnly with
  | true =>
    have hops : r.stream ++ P.leafOps r.last p = [.stashR p, .unlock, .asyncDone] := by
      simp [hstream, leafOps, hlast, htree]
    refine ⟨h.leaves, h.more, h.inner, fun hl => absurd hl hleaf, nofun, nofun,
      .stashingR hops rfl rfl hlast, ?_, ?_, ?_⟩
    · simp [leafOps, hlast]
    · intro _ _ hfalse
      rw [htree] at hfalse
      cases hfalse
    · simp [hops]
  | false =>
    have hops : r.stream ++ P.leafOps r.last p =
        [.stashC p, .stashR p, .unlock, .asyncDone] := by
      simp [hstream, leafOps, hlast, htree]
    refine ⟨h.leaves, h.more, h.inner, fun hl => absurd hl hleaf, nofun, nofun,
      .stashingC hops rfl rfl hlast, ?_, ?_, ?_⟩
    · simp [leafOps, hlast]
    · simp [hops]
    · simp [hops]

/-- Another hash is put into the stream. -/
lemma hashLeaf_more (h : ResourceInv P p n inUse resultC resultR r) (hstate : r.state = .hashLeaf)
    (hlast : r.last = false) :
    ResourceInv P p n inUse resultC resultR
      { r with asyncDone := false, stream := r.stream ++ P.leafOps r.last p, state := .hashWait } := by
  obtain ⟨hstream, -⟩ := h.quiet (by simp [hstate]) (by simp [hstate])
  have hops : r.stream ++ P.leafOps r.last p = [.unlock, .asyncDone] := by
    simp [hstream, leafOps, hlast]
  have hleaf : ¬LeafState .hashWait := by simp [LeafState]
  have hnot : ¬r.last = true := by simp [hlast]
  refine ⟨h.leaves, h.more, h.inner, fun hl => absurd hl hleaf, nofun, nofun,
    .unlocking hops rfl rfl, ?_, fun hl => absurd hl hnot, fun hl => absurd hl hnot⟩
  rw [h.owner, hlast]
  simp

/-! ### Operations of a stream -/

lemma stashC {q : ℕ} {rest : List StreamOp} (h : ResourceInv P p n inUse resultC resultR r)
    (hstream : r.stream = .stashC q :: rest) : inUse = some (.resource n) ∧
      ResourceInv P p n inUse (some (q, n)) resultR { r with stream := rest } := by
  cases h.shape with
  | quiet hs | noting hs | unlocking hs | stashingR hs =>
    rw [hs] at hstream
    cases hstream
  | stashingC hs hdone hstate hlast =>
    have hs' := hs
    rw [hstream] at hs'
    obtain ⟨hq, rfl⟩ := List.cons.inj hs'
    cases hq
    have hleaf : ¬LeafState r.state := by simp [LeafState, hstate]
    refine ⟨h.owner.mpr ⟨hlast, by simp [hs]⟩, h.leaves, h.more, h.inner, fun hl => absurd hl hleaf,
      h.idle, ?_, .stashingR rfl hdone hstate hlast, ?_, fun _ _ _ _ => rfl, ?_⟩
    · intro hd
      cases hstate.symm.trans hd
    · rw [h.owner, hs]
      simp
    · simp

lemma stashR {q : ℕ} {rest : List StreamOp} (h : ResourceInv P p n inUse resultC resultR r)
    (hstream : r.stream = .stashR q :: rest) : inUse = some (.resource n) ∧
      ResourceInv P p n inUse resultC (some (q, n)) { r with stream := rest } := by
  cases h.shape with
  | quiet hs | noting hs | unlocking hs | stashingC hs =>
    rw [hs] at hstream
    cases hstream
  | stashingR hs hdone hstate hlast =>
    have hs' := hs
    rw [hstream] at hs'
    obtain ⟨hq, rfl⟩ := List.cons.inj hs'
    cases hq
    have hleaf : ¬LeafState r.state := by simp [LeafState, hstate]
    refine ⟨h.owner.mpr ⟨hlast, by simp [hs]⟩, h.leaves, h.more, h.inner, fun hl => absurd hl hleaf,
      h.idle, ?_, .unlocking rfl hdone hstate, ?_, ?_, fun _ _ _ => rfl⟩
    · intro hd
      cases hstate.symm.trans hd
    · rw [h.owner, hs]
      simp
    · intro _ hst htree _
      exact h.stashedC hlast hst htree (by simp [hs])

lemma unlock {rest : List StreamOp} (h : ResourceInv P p n inUse resultC resultR r)
    (hstream : r.stream = .unlock :: rest) : (r.last = true → inUse = some (.resource n)) ∧
      ResourceInv P p n (if r.last then none else inUse) resultC resultR
        { r with stream := rest } := by
  cases h.shape with
  | quiet hs | noting hs | stashingR hs | stashingC hs =>
    rw [hs] at hstream
    cases hstream
  | unlocking hs hdone hstate =>
    have hs' := hs
    rw [hstream] at hs'
    obtain ⟨-, rfl⟩ := List.cons.inj hs'
    have hleaf : ¬LeafState r.state := by simp [LeafState, hstate]
    refine ⟨fun hlast => h.owner.mpr ⟨hlast, by simp [hs]⟩, h.leaves, h.more, h.inner,
      fun hl => absurd hl hleaf, h.idle, ?_, .noting rfl hdone (Or.inr hstate), ?_, ?_, ?_⟩
    · intro hd
      cases hstate.symm.trans hd
    · cases hlast : r.last with
      | true => simp
      | false => simp [h.owner, hlast]
    · intro hlast hst htree _
      exact h.stashedC hlast hst htree (by simp [hs])
    · intro hlast hst _
      exact h.stashedR hlast hst (by simp [hs])

lemma asyncDone {rest : List StreamOp} (h : ResourceInv P p n inUse resultC resultR r)
    (hstream : r.stream = .asyncDone :: rest) :
    ResourceInv P p n inUse resultC resultR { r with asyncDone := true, stream := rest } := by
  cases h.shape with
  | quiet hs | unlocking hs | stashingR hs | stashingC hs =>
    rw [hs] at hstream
    cases hstream
  | noting hs hdone hstate =>
    have hs' := hs
    rw [hstream] at hs'
    obtain ⟨-, rfl⟩ := List.cons.inj hs'
    refine ⟨h.leaves, h.more, h.inner, h.leaf, h.idle, fun hd => ⟨(h.done hd).1, rfl⟩, .quiet rfl rfl,
      ?_, ?_, ?_⟩
    · rw [h.owner, hs]
      simp
    · intro hlast hst htree _
      exact h.stashedC hlast hst htree (by simp [hs])
    · intro hlast hst _
      exact h.stashedR hlast hst (by simp [hs])

end ResourceInv

end HandOff

end SupraSeal
