import SupraSeal.Lib.Transition
import Mathlib.Algebra.Order.BigOperators.Group.Finset
import Mathlib.Data.List.Perm.Basic
import Mathlib.Data.List.Count
import Mathlib.Data.Fintype.Basic
import Mathlib.Tactic.Ring

/-!
# Reference counts of the SRS

The handles of class `SRS` in `c2/cuda/groth16_srs.cuh`. `create_SRS`, `clone_SRS`, `drop_SRS` and
`evict_SRS` run concurrently; a call is a list of steps, each of which accesses shared memory once, and
the `SRS` objects that it creates on the way are its temporaries. A handle is lent to `clone_SRS` and
`evict_SRS`, so it is not dropped while they run.
-/

namespace SupraSeal

open Transition

namespace Srs

/-! ### Calls -/

/-- `SRS::inner`: the path of the SRS, the count, and whether `delete` was called. -/
structure Inner (κ : Type*) where
  path : κ
  refCnt : ℕ
  deleted : Bool

inductive Instr (κ : Type*)
  | lock
  | unlock
  /-- The loop of `lookup`, or the eviction of the last entry. -/
  | lookup (key : κ)
  /-- `SRS{key}`, which may throw; `lookup` has the lock then. -/
  | construct (key : κ) (locked : Bool)
  /-- A copy of the last temporary. -/
  | copyTop
  /-- A copy of the first entry of the cache. -/
  | copyFront
  | emplaceFront (key : κ)
  | removeIf (key : κ)
  /-- `~SRS` of the last temporary. -/
  | destroy
  /-- `operator by_value` of a handle. -/
  | byValue (handle : ℕ)
  /-- `evict` of a handle: the key is the path of its SRS. -/
  | evict (handle : ℕ)
  /-- `ret = …` of `create_SRS`, a move from a temporary. -/
  | moveRet
  /-- The value of `clone_SRS` becomes a handle. -/
  | giveValue
  deriving DecidableEq

/-- A call: its steps, its temporaries with the last one first, the handle that it was lent, and the
object that it is about to delete. -/
structure Call (κ : Type*) where
  code : List (Instr κ)
  temps : List (Option ℕ)
  borrowed : Option ℕ
  deleting : Option ℕ

namespace Call

variable {κ : Type*}

def idle : Call κ := ⟨[], [], none, none⟩

def start (code : List (Instr κ)) (temps : List (Option ℕ)) (borrowed : Option ℕ) : Call κ :=
  ⟨code, temps, borrowed, none⟩

def Finished (c : Call κ) : Prop := c.code = [] ∧ c.deleting = none

instance (c : Call κ) : Decidable c.Finished := inferInstanceAs (Decidable (_ ∧ _))

def push (c : Call κ) (o : ℕ) : Call κ := { c with temps := some o :: c.temps }

end Call

/-- Objects and handles are numbered in the order in which they are made. -/
structure State (ι κ : Type*) where
  objs : ℕ → Inner κ
  next : ℕ
  handles : List (ℕ × ℕ)
  nextHandle : ℕ
  /-- The cache, the most recently used entry first. -/
  list : List (κ × ℕ)
  mtx : Option ι
  calls : ι → Call κ

/-- The first entry with this key, and the other entries. -/
def takeEntry {κ : Type*} [DecidableEq κ] (key : κ) : List (κ × ℕ) → Option (ℕ × List (κ × ℕ))
  | [] => none
  | (k, o) :: l =>
    if k = key then some (o, l) else (takeEntry key l).map fun (o', l') => (o', (k, o) :: l')

/-- `if (list.size() > 3) list.pop_back()`. -/
def popBack {κ : Type*} (l : List (κ × ℕ)) : Option (ℕ × List (κ × ℕ)) :=
  if 3 < l.length then l.getLast?.map fun e => (e.2, l.dropLast) else none

section Steps

variable {ι κ : Type*}

namespace State

variable (s : State ι κ)

def addRef (o : ℕ) : State ι κ :=
  { s with objs := Function.update s.objs o { s.objs o with refCnt := (s.objs o).refCnt + 1 } }

def subRef (o : ℕ) : State ι κ :=
  { s with objs := Function.update s.objs o { s.objs o with refCnt := (s.objs o).refCnt - 1 } }

def delete (o : ℕ) : State ι κ :=
  { s with objs := Function.update s.objs o { s.objs o with deleted := true } }

/-- `new inner(key)`. -/
def newInner (key : κ) : State ι κ :=
  { s with objs := Function.update s.objs s.next ⟨key, 1, false⟩, next := s.next + 1 }

/-- The caller gets a handle. -/
def newHandle (o : ℕ) : State ι κ :=
  { s with handles := (s.nextHandle, o) :: s.handles, nextHandle := s.nextHandle + 1 }

variable {s} {o o' : ℕ}

lemma addRef_self :
    (s.addRef o).objs o = { s.objs o with refCnt := (s.objs o).refCnt + 1 } := Function.update_self ..

lemma addRef_of_ne (h : o' ≠ o) : (s.addRef o).objs o' = s.objs o' := Function.update_of_ne h ..

lemma subRef_self :
    (s.subRef o).objs o = { s.objs o with refCnt := (s.objs o).refCnt - 1 } := Function.update_self ..

lemma subRef_of_ne (h : o' ≠ o) : (s.subRef o).objs o' = s.objs o' := Function.update_of_ne h ..

lemma delete_self : (s.delete o).objs o = { s.objs o with deleted := true } :=
  Function.update_self ..

lemma delete_of_ne (h : o' ≠ o) : (s.delete o).objs o' = s.objs o' := Function.update_of_ne h ..

lemma newInner_self (key : κ) : (s.newInner key).objs s.next = ⟨key, 1, false⟩ :=
  Function.update_self ..

lemma newInner_of_ne (key : κ) (h : o ≠ s.next) : (s.newInner key).objs o = s.objs o :=
  Function.update_of_ne h ..

end State

/-- The steps of `create_SRS`. -/
def createSRS (key : κ) (cache : Bool) : List (Instr κ) :=
  (if cache then [.lock, .lookup key, .unlock] else [.construct key false]) ++ [.moveRet, .destroy]

variable [DecidableEq ι]

def State.setCall (s : State ι κ) (t : ι) (c : Call κ) : State ι κ :=
  { s with calls := Function.update s.calls t c }

lemma State.setCall_self {s : State ι κ} {t : ι} {c : Call κ} : (s.setCall t c).calls t = c :=
  Function.update_self ..

lemma State.setCall_of_ne {s : State ι κ} {t t' : ι} {c : Call κ} (h : t' ≠ t) :
    (s.setCall t c).calls t' = s.calls t' := Function.update_of_ne h ..

variable [DecidableEq κ]

/-- One step of a call whose other steps are `c.code`. -/
def exec (s : State ι κ) (t : ι) (c : Call κ) (throws : Bool) :
    Instr κ → Option (State ι κ × Call κ)
  | .lock => if s.mtx = none then some ({ s with mtx := some t }, c) else none
  | .unlock => some ({ s with mtx := none }, c)
  | .lookup key =>
    match takeEntry key s.list with
    | some (o, l) => some ({ s with list := (key, o) :: l }, { c with code := .copyFront :: c.code })
    | none =>
      let code := [.construct key true, .copyTop, .copyTop, .emplaceFront key, .destroy, .destroy,
        .copyFront] ++ c.code
      match popBack s.list with
      | some (o, l) =>
        some ({ s with list := l }, { c with code := .destroy :: code, temps := some o :: c.temps })
      | none => some (s, { c with code := code })
  | .construct key locked =>
    if throws then some (s, { c with code := if locked then [.unlock] else [] })
    else some (s.newInner key, c.push s.next)
  | .copyTop =>
    match c.temps with
    | some o :: _ => some (s.addRef o, c.push o)
    | _ => none
  | .copyFront =>
    match s.list with
    | (_, o) :: _ => some (s.addRef o, c.push o)
    | [] => none
  | .emplaceFront key =>
    match c.temps with
    | some o :: ts => some ({ s with list := (key, o) :: s.list }, { c with temps := ts })
    | _ => none
  | .removeIf key =>
    match takeEntry key s.list with
    | some (o, l) => some ({ s with list := l },
        { c with code := .destroy :: .removeIf key :: c.code, temps := some o :: c.temps })
    | none => some (s, c)
  | .destroy =>
    match c.temps with
    | some o :: ts =>
      some (s.subRef o,
        { c with temps := ts, deleting := if (s.objs o).refCnt = 1 then some o else none })
    | none :: ts => some (s, { c with temps := ts })
    | [] => none
  | .byValue h => (s.handles.lookup h).map fun o => (s.addRef o, c.push o)
  | .evict h => (s.handles.lookup h).map fun o =>
      (s, { c with code := [.lock, .removeIf (s.objs o).path, .unlock] ++ c.code })
  | .moveRet =>
    match c.temps with
    | some o :: ts => some (s.newHandle o, { c with temps := none :: ts })
    | _ => none
  | .giveValue =>
    match c.temps with
    | some o :: ts => some (s.newHandle o, { c with temps := ts })
    | _ => none

inductive Action (ι κ : Type*)
  | create (t : ι) (key : κ) (cache : Bool)
  | clone (t : ι) (handle : ℕ)
  | drop (t : ι) (handle : ℕ)
  | evict (t : ι) (handle : ℕ)
  | run (t : ι) (throws : Bool)

/-- The next step of a call. -/
def runCall (s : State ι κ) (t : ι) (throws : Bool) : Option (State ι κ) :=
  match (s.calls t).deleting with
  | some o => some ((s.delete o).setCall t { s.calls t with deleting := none })
  | none =>
    match (s.calls t).code with
    | [] => none
    | i :: code =>
      (exec s t { s.calls t with code := code } throws i).map fun (s', c) => s'.setCall t c

/-- A call starts when its caller runs no other. -/
def step [Fintype ι] (s : State ι κ) : Action ι κ → Option (State ι κ)
  | .create t key cache =>
    if (s.calls t).Finished then some (s.setCall t (.start (createSRS key cache) [] none)) else none
  | .clone t h =>
    if (s.calls t).Finished ∧ (s.handles.lookup h).isSome then
      some (s.setCall t (.start [.byValue h, .giveValue] [] (some h)))
    else none
  | .drop t h =>
    if (s.calls t).Finished ∧ ∀ t', ¬ (s.calls t').Finished → (s.calls t').borrowed ≠ some h then
      (takeEntry h s.handles).map fun (o, l) =>
        ({ s with handles := l }).setCall t (.start [.destroy] [some o] none)
    else none
  | .evict t h =>
    if (s.calls t).Finished ∧ (s.handles.lookup h).isSome then
      some (s.setCall t (.start [.evict h] [] (some h)))
    else none
  | .run t throws => runCall s t throws

/-- Before any call; `objs` is what memory holds. -/
def State.init (objs : ℕ → Inner κ) : State ι κ where
  objs := objs
  next := 0
  handles := []
  nextHandle := 0
  list := []
  mtx := none
  calls := fun _ => .idle

end Steps

/-! ### References -/

section References

variable {ι κ : Type*}

namespace State

variable (s : State ι κ) (o : ℕ)

/-- The handles that callers hold. -/
def callerHandles : ℕ := (s.handles.map Prod.snd).count o

def cacheEntries : ℕ := (s.list.map Prod.snd).count o

/-- The references that one call can change. -/
def shared (temps : List (Option ℕ)) : ℕ :=
  s.callerHandles o + s.cacheEntries o + temps.count (some o)

variable [Fintype ι]

def temporaries : ℕ := ∑ t, (s.calls t).temps.count (some o)

/-- All handles outside the cache: those of callers, and the temporaries of calls. -/
def liveHandles : ℕ := s.callerHandles o + s.temporaries o

def references : ℕ := s.liveHandles o + s.cacheEntries o

/-- Some call deletes the object in its next step. -/
def Deleting (s : State ι κ) (o : ℕ) : Prop := ∃ t, (s.calls t).deleting = some o

/-- The calls that delete the object in their next step. -/
def deletions : ℕ := ∑ t, if (s.calls t).deleting = some o then 1 else 0

end State

/-- What a step of a call can do to objects and references. -/
inductive Effect (s : State ι κ) (temps : List (Option ℕ)) (s' : State ι κ) (c' : Call κ) : Prop
  | move (hobjs : s'.objs = s.objs) (hnext : s'.next = s.next)
      (hshared : ∀ o, s'.shared o c'.temps = s.shared o temps) (hdel : c'.deleting = none)
  | copy (o : ℕ) (hpos : 0 < s.shared o temps) (hobjs : s'.objs = (s.addRef o).objs)
      (hnext : s'.next = s.next)
      (hshared : ∀ o', s'.shared o' c'.temps = s.shared o' temps + if o' = o then 1 else 0)
      (hdel : c'.deleting = none)
  | new (key : κ) (hobjs : s'.objs = (s.newInner key).objs) (hnext : s'.next = s.next + 1)
      (hshared : ∀ o, s'.shared o c'.temps = s.shared o temps + if o = s.next then 1 else 0)
      (hdel : c'.deleting = none)
  | destroy (o : ℕ) (hobjs : s'.objs = (s.subRef o).objs) (hnext : s'.next = s.next)
      (hshared : ∀ o', s.shared o' temps = s'.shared o' c'.temps + if o' = o then 1 else 0)
      (hdel : c'.deleting = if (s.objs o).refCnt = 1 then some o else none)

lemma count_some_cons (o o' : ℕ) (ts : List (Option ℕ)) :
    (some o :: ts).count (some o') = ts.count (some o') + if o' = o then 1 else 0 := by
  rw [List.count_cons]
  by_cases h : o' = o
  · simp [h]
  · simp [h, Ne.symm h]

lemma count_none_cons (o : ℕ) (ts : List (Option ℕ)) :
    (none :: ts).count (some o) = ts.count (some o) := by
  rw [List.count_cons]
  simp

lemma count_snd_cons {α : Type*} (k : α) (o o' : ℕ) (l : List (α × ℕ)) :
    (((k, o) :: l).map Prod.snd).count o' = (l.map Prod.snd).count o' + if o' = o then 1 else 0 := by
  rw [List.map_cons, List.count_cons]
  by_cases h : o' = o
  · simp [h]
  · simp [h, Ne.symm h]

lemma takeEntry_perm {α : Type*} [DecidableEq α] {key : α} {l l' : List (α × ℕ)} {o : ℕ}
    (h : takeEntry key l = some (o, l')) : l.Perm ((key, o) :: l') := by
  induction l generalizing o l' with
  | nil => cases h
  | cons e l ih =>
    obtain ⟨k, o₁⟩ := e
    rw [takeEntry] at h
    split_ifs at h with hk
    · obtain ⟨rfl, rfl⟩ := Prod.mk.inj (Option.some.inj h)
      rw [hk]
    · obtain ⟨⟨o₂, l₂⟩, hl₂, heq⟩ := Option.map_eq_some_iff.mp h
      obtain ⟨rfl, rfl⟩ := Prod.mk.inj heq
      exact ((ih hl₂).cons (k, o₁)).trans (List.Perm.swap ..)

lemma popBack_perm {l l' : List (κ × ℕ)} {o : ℕ} (h : popBack l = some (o, l')) :
    ∃ k, l.Perm ((k, o) :: l') := by
  rw [popBack] at h
  split_ifs at h
  obtain ⟨⟨k, o₁⟩, hlast, heq⟩ := Option.map_eq_some_iff.mp h
  obtain ⟨rfl, rfl⟩ := Prod.mk.inj heq
  have hperm := List.perm_append_singleton (k, o₁) l.dropLast
  rw [List.dropLast_append_getLast? _ hlast] at hperm
  exact ⟨k, hperm⟩

/-- Taking an element out of a list of handles or entries. -/
lemma count_snd_perm {α : Type*} {k : α} {l l' : List (α × ℕ)} {o : ℕ} (h : l.Perm ((k, o) :: l'))
    (o' : ℕ) : (l.map Prod.snd).count o' = (l'.map Prod.snd).count o' + if o' = o then 1 else 0 := by
  rw [(h.map Prod.snd).count_eq, ← count_snd_cons k]

/-! ### What a step of a call does -/

variable [DecidableEq κ] {s s' : State ι κ} {c c' : Call κ} {t : ι}

lemma exec_calls {throws : Bool} {i : Instr κ} (h : exec s t c throws i = some (s', c')) :
    s'.calls = s.calls := by
  cases i with
  | lock =>
    simp only [exec] at h
    split_ifs at h
    cases h
    rfl
  | unlock =>
    cases h
    rfl
  | lookup key =>
    simp only [exec] at h
    split at h
    · cases h
      rfl
    · split at h
      · cases h
        rfl
      · cases h
        rfl
  | construct key locked =>
    simp only [exec] at h
    split at h
    · cases h
      rfl
    · cases h
      rfl
  | byValue handle =>
    obtain ⟨o, -, heq⟩ := Option.map_eq_some_iff.mp h
    cases heq
    rfl
  | evict handle =>
    obtain ⟨o, -, heq⟩ := Option.map_eq_some_iff.mp h
    cases heq
    rfl
  | _ =>
    simp only [exec] at h
    split at h <;> cases h <;> rfl

lemma mem_of_lookup {h o : ℕ} {l : List (ℕ × ℕ)} (hl : l.lookup h = some o) :
    o ∈ l.map Prod.snd := by
  induction l with
  | nil => cases hl
  | cons e l ih =>
    obtain ⟨k, o₁⟩ := e
    rw [List.lookup_cons] at hl
    split at hl
    · obtain rfl := Option.some.inj hl
      exact List.mem_cons_self
    · exact List.mem_cons_of_mem _ (ih hl)

/-- Every step but the deletion itself moves references, copies one, makes an object with its first
reference, or destroys a reference. -/
lemma exec_effect {throws : Bool} {i : Instr κ} (hdel : c.deleting = none)
    (h : exec s t c throws i = some (s', c')) : Effect s c.temps s' c' := by
  cases i with
  | lock =>
    simp only [exec] at h
    split_ifs at h
    cases h
    exact .move rfl rfl (fun _ => rfl) hdel
  | unlock =>
    cases h
    exact .move rfl rfl (fun _ => rfl) hdel
  | lookup key =>
    simp only [exec] at h
    split at h
    · rename_i o l hl
      cases h
      refine .move rfl rfl (fun o' => ?_) hdel
      simp only [State.shared, State.callerHandles, State.cacheEntries,
        count_snd_perm (takeEntry_perm hl), count_snd_cons]
    · split at h
      · rename_i o l hl
        cases h
        obtain ⟨k, hperm⟩ := popBack_perm hl
        refine .move rfl rfl (fun o' => ?_) hdel
        simp only [State.shared, State.callerHandles, State.cacheEntries, count_snd_perm hperm,
          count_some_cons]
        ring
      · cases h
        exact .move rfl rfl (fun _ => rfl) hdel
  | construct key locked =>
    simp only [exec] at h
    split at h
    · cases h
      exact .move rfl rfl (fun _ => rfl) hdel
    · cases h
      refine .new key rfl rfl (fun o' => ?_) hdel
      simp only [State.shared, State.callerHandles, State.cacheEntries, State.newInner, Call.push,
        count_some_cons]
      ring
  | copyTop =>
    simp only [exec] at h
    split at h
    · rename_i o ts htemps
      cases h
      refine .copy o ?_ rfl rfl (fun o' => ?_) hdel
      · rw [State.shared, htemps, List.count_cons_self]
        omega
      · simp only [State.shared, State.callerHandles, State.cacheEntries, State.addRef, Call.push,
          count_some_cons]
        ring
    · cases h
  | copyFront =>
    simp only [exec] at h
    split at h
    · rename_i k o l hl
      cases h
      refine .copy o ?_ rfl rfl (fun o' => ?_) hdel
      · have hmem : 0 < s.cacheEntries o := by
          rw [State.cacheEntries, hl, List.map_cons, List.count_cons_self]
          omega
        rw [State.shared]
        omega
      · simp only [State.shared, State.callerHandles, State.cacheEntries, State.addRef, Call.push,
          count_some_cons]
        ring
    · cases h
  | emplaceFront key =>
    simp only [exec] at h
    split at h
    · rename_i o ts htemps
      cases h
      refine .move rfl rfl (fun o' => ?_) hdel
      simp only [State.shared, State.callerHandles, State.cacheEntries, htemps, count_some_cons,
        count_snd_cons]
      ring
    · cases h
  | removeIf key =>
    simp only [exec] at h
    split at h
    · rename_i o l hl
      cases h
      refine .move rfl rfl (fun o' => ?_) hdel
      simp only [State.shared, State.callerHandles, State.cacheEntries,
        count_snd_perm (takeEntry_perm hl), count_some_cons]
      ring
    · cases h
      exact .move rfl rfl (fun _ => rfl) hdel
  | destroy =>
    simp only [exec] at h
    split at h
    · rename_i o ts htemps
      cases h
      refine .destroy o rfl rfl (fun o' => ?_) rfl
      simp only [State.shared, State.callerHandles, State.cacheEntries, State.subRef, htemps,
        count_some_cons]
      ring
    · rename_i ts htemps
      cases h
      refine .move rfl rfl (fun o' => ?_) hdel
      simp only [State.shared, htemps, count_none_cons]
    · cases h
  | byValue handle =>
    obtain ⟨o, hlookup, heq⟩ := Option.map_eq_some_iff.mp h
    cases heq
    refine .copy o ?_ rfl rfl (fun o' => ?_) hdel
    · have hmem : 0 < s.callerHandles o := List.count_pos_iff.mpr (mem_of_lookup hlookup)
      rw [State.shared]
      omega
    · simp only [State.shared, State.callerHandles, State.cacheEntries, State.addRef, Call.push,
        count_some_cons]
      ring
  | evict handle =>
    obtain ⟨o, -, heq⟩ := Option.map_eq_some_iff.mp h
    cases heq
    exact .move rfl rfl (fun _ => rfl) hdel
  | moveRet =>
    simp only [exec] at h
    split at h
    · rename_i o ts htemps
      cases h
      refine .move rfl rfl (fun o' => ?_) hdel
      simp only [State.shared, State.callerHandles, State.cacheEntries, State.newHandle, htemps,
        count_some_cons, count_none_cons, count_snd_cons]
      ring
    · cases h
  | giveValue =>
    simp only [exec] at h
    split at h
    · rename_i o ts htemps
      cases h
      refine .move rfl rfl (fun o' => ?_) hdel
      simp only [State.shared, State.callerHandles, State.cacheEntries, State.newHandle, htemps,
        count_some_cons, count_snd_cons]
      ring
    · cases h

end References

/-! ### Temporaries -/

/-- The temporaries that a call has are those that its steps need, and none are left at its end. -/
def Fits {κ : Type*} : List (Instr κ) → List (Option ℕ) → Prop
  | [], ts => ts = []
  | .lock :: code, ts => Fits code ts
  | .unlock :: code, ts => Fits code ts
  | .lookup _ :: code, ts => ts = [] ∧ ∀ o, Fits code [some o]
  | .construct _ _ :: code, ts => ts = [] ∧ ∀ o, Fits code [some o]
  | .copyTop :: code, ts => ∃ o ts', ts = some o :: ts' ∧ Fits code (some o :: ts)
  | .copyFront :: code, ts => ∀ o, Fits code (some o :: ts)
  | .emplaceFront _ :: code, ts => ∃ o ts', ts = some o :: ts' ∧ Fits code ts'
  | .removeIf _ :: code, ts => Fits code ts
  | .destroy :: code, ts => ∃ x ts', ts = x :: ts' ∧ Fits code ts'
  | .byValue _ :: code, ts => ∀ o, Fits code (some o :: ts)
  | .evict _ :: code, ts => Fits code ts
  | .moveRet :: code, ts => ∃ o ts', ts = some o :: ts' ∧ Fits code (none :: ts')
  | .giveValue :: code, ts => ∃ o ts', ts = some o :: ts' ∧ Fits code ts'

section Temporaries

variable {ι κ : Type*} {s s' : State ι κ} {c c' : Call κ} {t : ι}

lemma createSRS_fits (key : κ) (cache : Bool) : Fits (createSRS key cache) [] := by
  cases cache with
  | false => simp [createSRS, Fits]
  | true => simp [createSRS, Fits]

lemma fits_setCall [DecidableEq ι] (h : ∀ t, Fits (s.calls t).code (s.calls t).temps)
    (hcalls : s'.calls = s.calls) (hc : Fits c.code c.temps) (t t' : ι) :
    Fits ((s'.setCall t c).calls t').code ((s'.setCall t c).calls t').temps := by
  by_cases heq : t' = t
  · rw [heq, State.setCall_self]
    exact hc
  · rw [State.setCall_of_ne heq, hcalls]
    exact h t'

lemma exec_fits [DecidableEq κ] {throws : Bool} {i : Instr κ} (hfits : Fits (i :: c.code) c.temps)
    (h : exec s t c throws i = some (s', c')) : Fits c'.code c'.temps := by
  cases i with
  | lock =>
    simp only [exec] at h
    split_ifs at h
    cases h
    exact hfits
  | unlock =>
    cases h
    exact hfits
  | lookup key =>
    obtain ⟨htemps, hrest⟩ := hfits
    simp only [exec] at h
    split at h
    · cases h
      intro o
      rw [htemps]
      exact hrest o
    · split at h
      · cases h
        simp [Fits, htemps, hrest]
      · cases h
        simp [Fits, htemps, hrest]
  | construct key locked =>
    obtain ⟨htemps, hrest⟩ := hfits
    simp only [exec] at h
    split at h
    · cases h
      cases locked <;> exact htemps
    · cases h
      simp only [Call.push, htemps]
      exact hrest _
  | copyTop =>
    obtain ⟨o, ts, htemps, hrest⟩ := hfits
    simp only [exec, htemps] at h
    cases h
    exact hrest
  | copyFront =>
    simp only [exec] at h
    split at h
    · cases h
      exact hfits _
    · cases h
  | emplaceFront key =>
    obtain ⟨o, ts, htemps, hrest⟩ := hfits
    simp only [exec, htemps] at h
    cases h
    exact hrest
  | removeIf key =>
    simp only [exec] at h
    split at h
    · cases h
      exact ⟨_, _, rfl, hfits⟩
    · cases h
      exact hfits
  | destroy =>
    obtain ⟨x, ts, htemps, hrest⟩ := hfits
    cases x with
    | none =>
      simp only [exec, htemps] at h
      cases h
      exact hrest
    | some o =>
      simp only [exec, htemps] at h
      cases h
      exact hrest
  | byValue handle =>
    obtain ⟨o, -, heq⟩ := Option.map_eq_some_iff.mp h
    cases heq
    exact hfits o
  | evict handle =>
    obtain ⟨o, -, heq⟩ := Option.map_eq_some_iff.mp h
    cases heq
    exact hfits
  | moveRet =>
    obtain ⟨o, ts, htemps, hrest⟩ := hfits
    simp only [exec, htemps] at h
    cases h
    exact hrest
  | giveValue =>
    obtain ⟨o, ts, htemps, hrest⟩ := hfits
    simp only [exec, htemps] at h
    cases h
    exact hrest

end Temporaries


/-! ### The invariant -/

section Invariant

variable {ι κ : Type*} [Fintype ι] {s s' : State ι κ} {c : Call κ} {t : ι}

/-- Counts are those of the references, and an object without references has been deleted, or one call
is about to delete it. -/
structure Counted (s : State ι κ) : Prop where
  refCnt : ∀ o < s.next, (s.objs o).refCnt = s.references o
  fresh : ∀ o, s.next ≤ o → s.references o = 0 ∧ s.deletions o = 0
  deleted : ∀ o < s.next, (if (s.objs o).deleted then 1 else 0) + s.deletions o =
    if s.references o = 0 then 1 else 0

lemma shared_le (s : State ι κ) (t : ι) (o : ℕ) : s.shared o (s.calls t).temps ≤ s.references o := by
  have hle := Finset.single_le_sum (f := fun t => (s.calls t).temps.count (some o))
    (fun _ _ => Nat.zero_le _) (Finset.mem_univ t)
  simp only [State.references, State.liveHandles, State.temporaries, State.shared]
  omega

/-- The invariant of all runs. -/
structure Inv (s : State ι κ) : Prop where
  counted : Counted s
  fits : ∀ t, Fits (s.calls t).code (s.calls t).temps

lemma Inv.finished (h : Inv s) (hfin : (s.calls t).Finished) : (s.calls t).temps = [] := by
  have hfits := h.fits t
  rw [hfin.1] at hfits
  exact hfits

lemma Inv.init (objs : ℕ → Inner κ) : Inv (State.init objs : State ι κ) := by
  refine ⟨⟨fun o ho => absurd ho (Nat.not_lt_zero o), fun o _ => ?_,
    fun o ho => absurd ho (Nat.not_lt_zero o)⟩, fun t => rfl⟩
  simp [State.references, State.liveHandles, State.callerHandles, State.temporaries,
    State.cacheEntries, State.deletions, State.init, Call.idle]

lemma deletions_eq_zero {o : ℕ} : s.deletions o = 0 ↔ ¬ s.Deleting o := by
  rw [State.deletions, Finset.sum_eq_zero_iff, State.Deleting, not_exists]
  refine ⟨fun h t => ?_, fun h t _ => if_neg (h t)⟩
  have hzero := h t (Finset.mem_univ t)
  by_contra hdel
  rw [if_pos hdel] at hzero
  exact absurd hzero one_ne_zero

/-- An object is deleted once, when nothing refers to it any more. -/
lemma Counted.deleted_iff (h : Counted s) {o : ℕ} (ho : o < s.next) :
    ((s.objs o).deleted = true ∨ s.Deleting o ↔ s.references o = 0) ∧
      ¬ ((s.objs o).deleted = true ∧ s.Deleting o) := by
  have hdeleted := h.deleted o ho
  have hDeleting : s.Deleting o ↔ s.deletions o ≠ 0 := by rw [ne_eq, deletions_eq_zero, not_not]
  rw [hDeleting]
  cases hd : (s.objs o).deleted with
  | false =>
    simp only [hd, Bool.false_eq_true, if_false, Nat.zero_add] at hdeleted
    rw [hdeleted]
    simp
  | true =>
    simp only [hd, if_true] at hdeleted
    split_ifs at hdeleted with hrefs
    · simp only [hrefs, true_or, true_and, ne_eq, not_not]
      omega
    · omega

/-- While no call runs, all handles are those of the callers. -/
lemma Inv.liveHandles (h : Inv s) (hfin : ∀ t, (s.calls t).Finished) (o : ℕ) :
    s.liveHandles o = s.callerHandles o := by
  rw [State.liveHandles, State.temporaries, Nat.add_eq_left]
  refine Finset.sum_eq_zero fun t _ => ?_
  rw [h.finished (hfin t), List.count_nil]

variable [DecidableEq ι]

/-- One summand is replaced. -/
lemma sum_update {α : Type*} (f : α → ℕ) (g : ι → α) (t : ι) (a : α) :
    ∑ t', f (Function.update g t a t') + f (g t) = ∑ t', f (g t') + f a := by
  have hmem := Finset.mem_univ t
  have hothers : ∑ t' ∈ Finset.univ.erase t, f (Function.update g t a t') =
      ∑ t' ∈ Finset.univ.erase t, f (g t') := by
    refine Finset.sum_congr rfl fun t' ht' => ?_
    rw [Function.update_of_ne (Finset.ne_of_mem_erase ht')]
  rw [← Finset.add_sum_erase _ _ hmem, ← Finset.add_sum_erase _ (fun t' => f (g t')) hmem, hothers,
    Function.update_self]
  ring

lemma references_setCall (hcalls : s'.calls = s.calls) (c : Call κ) (t : ι) (o : ℕ) :
    (s'.setCall t c).references o + s.shared o (s.calls t).temps =
      s.references o + s'.shared o c.temps := by
  have hsum := sum_update (fun c : Call κ => c.temps.count (some o)) s.calls t c
  simp only [State.references, State.liveHandles, State.temporaries, State.shared, State.setCall,
    hcalls, State.callerHandles, State.cacheEntries]
  omega

lemma deletions_setCall (hcalls : s'.calls = s.calls) (c : Call κ) (t : ι) (o : ℕ) :
    (s'.setCall t c).deletions o + (if (s.calls t).deleting = some o then 1 else 0) =
      s.deletions o + if c.deleting = some o then 1 else 0 := by
  have hsum := sum_update (fun c : Call κ => if c.deleting = some o then 1 else 0) s.calls t c
  simp only [State.deletions, State.setCall, hcalls]
  exact hsum

/-- References follow the shares of the call that takes the step. -/
lemma references_eq_add (hcalls : s'.calls = s.calls) {o n : ℕ}
    (hshared : s'.shared o c.temps = s.shared o (s.calls t).temps + n) :
    (s'.setCall t c).references o = s.references o + n := by
  have href := references_setCall hcalls c t o
  omega

lemma deletions_eq (hcalls : s'.calls = s.calls) (hdel : (s.calls t).deleting = none)
    (hdel' : c.deleting = none) (o : ℕ) : (s'.setCall t c).deletions o = s.deletions o := by
  have hdels := deletions_setCall hcalls c t o
  rwa [hdel, hdel', if_neg (by simp), Nat.add_zero, Nat.add_zero] at hdels

/-- Counts stay right if the state of one call changes by an effect. -/
lemma Counted.effect (h : Counted s) (hcalls : s'.calls = s.calls)
    (hdel : (s.calls t).deleting = none) (heff : Effect s (s.calls t).temps s' c) :
    Counted (s'.setCall t c) := by
  cases heff with
  | move hobjs hnext hshared hdel' =>
    have hrefs : ∀ o, (s'.setCall t c).references o = s.references o :=
      fun o => references_eq_add hcalls ((hshared o).trans (Nat.add_zero _).symm)
    have hdels' := deletions_eq hcalls hdel hdel'
    constructor
    · intro o ho
      have ho : o < s.next := hnext ▸ ho
      rw [hrefs, ← h.refCnt o ho]
      exact congrArg (fun objs => (objs o).refCnt) hobjs
    · intro o ho
      rw [hrefs, hdels']
      exact h.fresh o (hnext ▸ ho)
    · intro o ho
      have hobj : (s'.setCall t c).objs o = s.objs o := congrFun hobjs o
      rw [hrefs, hdels', hobj]
      exact h.deleted o (hnext ▸ ho)
  | copy o₀ hpos hobjs hnext hshared hdel' =>
    have hrefs : ∀ o, (s'.setCall t c).references o = s.references o + if o = o₀ then 1 else 0 :=
      fun o => references_eq_add hcalls (hshared o)
    have hdels' := deletions_eq hcalls hdel hdel'
    have hobj : (s'.setCall t c).objs = (s.addRef o₀).objs := hobjs
    have hpos' : s.references o₀ ≠ 0 := (hpos.trans_le (shared_le s t o₀)).ne'
    constructor
    · intro o ho
      have hcount := h.refCnt o (hnext ▸ ho)
      rw [hrefs, hobj, ← hcount]
      by_cases heq : o = o₀
      · rw [heq, if_pos rfl, State.addRef_self]
      · rw [if_neg heq, State.addRef_of_ne heq, Nat.add_zero]
    · intro o ho
      have hfresh := h.fresh o (hnext ▸ ho)
      have hne : o ≠ o₀ := fun heq => hpos' (heq ▸ hfresh.1)
      rw [hrefs, hdels', if_neg hne]
      exact hfresh
    · intro o ho
      have hdeleted := h.deleted o (hnext ▸ ho)
      rw [hrefs, hdels', hobj]
      by_cases heq : o = o₀
      · rw [heq, if_neg hpos'] at hdeleted
        rw [heq, if_pos rfl, if_neg (Nat.succ_ne_zero _), State.addRef_self]
        exact hdeleted
      · rw [if_neg heq, State.addRef_of_ne heq, Nat.add_zero]
        exact hdeleted
  | new key hobjs hnext hshared hdel' =>
    have hrefs : ∀ o, (s'.setCall t c).references o =
        s.references o + if o = s.next then 1 else 0 :=
      fun o => references_eq_add hcalls (hshared o)
    have hdels' := deletions_eq hcalls hdel hdel'
    have hobj : (s'.setCall t c).objs = (s.newInner key).objs := hobjs
    have hnew := h.fresh s.next le_rfl
    constructor
    · intro o ho
      have ho : o < s.next + 1 := hnext ▸ ho
      rw [hrefs, hobj]
      by_cases heq : o = s.next
      · rw [heq, if_pos rfl, hnew.1, State.newInner_self]
      · rw [if_neg heq, State.newInner_of_ne key heq, Nat.add_zero]
        exact h.refCnt o (Nat.lt_of_le_of_ne (Nat.lt_succ_iff.mp ho) heq)
    · intro o ho
      have ho : s.next + 1 ≤ o := hnext ▸ ho
      rw [hrefs, hdels', if_neg (Nat.lt_of_succ_le ho).ne']
      exact h.fresh o (Nat.le_of_succ_le ho)
    · intro o ho
      have ho : o < s.next + 1 := hnext ▸ ho
      rw [hrefs, hdels', hobj]
      by_cases heq : o = s.next
      · rw [heq, if_pos rfl, hnew.1, hnew.2, State.newInner_self]
        rfl
      · rw [if_neg heq, State.newInner_of_ne key heq, Nat.add_zero]
        exact h.deleted o (Nat.lt_of_le_of_ne (Nat.lt_succ_iff.mp ho) heq)
  | destroy o₀ hobjs hnext hshared hdel' =>
    have hrefs : ∀ o, s.references o =
        (s'.setCall t c).references o + if o = o₀ then 1 else 0 := by
      intro o
      have := references_setCall hcalls c t o
      have := hshared o
      omega
    have hdels : ∀ o, (s'.setCall t c).deletions o =
        s.deletions o + if c.deleting = some o then 1 else 0 := by
      intro o
      have := deletions_setCall hcalls c t o
      rwa [hdel, if_neg (by simp), Nat.add_zero] at this
    have hobj : (s'.setCall t c).objs = (s.subRef o₀).objs := hobjs
    have hpos : s.references o₀ = (s'.setCall t c).references o₀ + 1 := by
      rw [hrefs, if_pos rfl]
    have ho₀ : o₀ < s.next := by
      by_contra hle
      have := (h.fresh o₀ (Nat.le_of_not_lt hle)).1
      omega
    have hcount₀ := h.refCnt o₀ ho₀
    have hother : ∀ o, o ≠ o₀ → (s'.setCall t c).references o = s.references o ∧
        (s'.setCall t c).deletions o = s.deletions o ∧ (s'.setCall t c).objs o = s.objs o := by
      intro o hne
      refine ⟨?_, ?_, ?_⟩
      · rw [hrefs o, if_neg hne, Nat.add_zero]
      · rw [hdels, hdel', if_neg, Nat.add_zero]
        split_ifs
        · exact fun heq => hne (Option.some.inj heq).symm
        · simp
      · rw [hobj, State.subRef_of_ne hne]
    constructor
    · intro o ho
      by_cases heq : o = o₀
      · rw [heq, hobj, State.subRef_self, hcount₀, hpos, Nat.add_sub_cancel]
      · rw [(hother o heq).1, (hother o heq).2.2]
        exact h.refCnt o (hnext ▸ ho)
    · intro o ho
      have ho : s.next ≤ o := hnext ▸ ho
      have hne : o ≠ o₀ := fun heq => absurd (heq ▸ ho) (Nat.not_le_of_lt ho₀)
      rw [(hother o hne).1, (hother o hne).2.1]
      exact h.fresh o ho
    · intro o ho
      by_cases heq : o = o₀
      · -- the call that destroys the last reference deletes the object
        have hne : s.references o₀ ≠ 0 := hpos ▸ Nat.succ_ne_zero _
        have hdeleted := h.deleted o₀ ho₀
        rw [if_neg hne] at hdeleted
        rw [heq, hdels, hobj, State.subRef_self, hdel', hcount₀, hpos]
        simp only [Nat.add_eq_right]
        by_cases hlast : (s'.setCall t c).references o₀ = 0
        · simp only [hlast, if_true]
          omega
        · simp only [hlast, if_false]
          simpa using hdeleted
      · rw [(hother o heq).1, (hother o heq).2.1, (hother o heq).2.2]
        exact h.deleted o (hnext ▸ ho)

/-- The deletion: the object had no references, and had not been deleted. -/
lemma Counted.delete (h : Counted s) {o : ℕ} (hdel : (s.calls t).deleting = some o) :
    Counted ((s.delete o).setCall t { s.calls t with deleting := none }) := by
  have hcalls : (s.delete o).calls = s.calls := rfl
  have hrefs : ∀ o', ((s.delete o).setCall t { s.calls t with deleting := none }).references o' =
      s.references o' := by
    intro o'
    have href := references_setCall hcalls { s.calls t with deleting := none } t o'
    exact Nat.add_right_cancel href
  have hdels : ∀ o', ((s.delete o).setCall t { s.calls t with deleting := none }).deletions o' +
      (if some o = some o' then 1 else 0) = s.deletions o' := by
    intro o'
    have hset := deletions_setCall hcalls { s.calls t with deleting := none } t o'
    rwa [hdel, if_neg (by simp : ¬ none = some o'), Nat.add_zero] at hset
  have hone := hdels o
  rw [if_pos rfl] at hone
  have ho : o < s.next := by
    by_contra hle
    have := (h.fresh o (Nat.le_of_not_lt hle)).2
    omega
  constructor
  · intro o' ho'
    have hcount : ((s.delete o).objs o').refCnt = (s.objs o').refCnt := by
      by_cases heq : o' = o
      · rw [heq, State.delete_self]
      · rw [State.delete_of_ne heq]
    rw [hrefs, ← h.refCnt o' ho', ← hcount]
    rfl
  · intro o' ho'
    have hfresh := h.fresh o' ho'
    have := hdels o'
    exact ⟨(hrefs o').trans hfresh.1, by omega⟩
  · intro o' ho'
    have hdeleted := h.deleted o' ho'
    have hset := hdels o'
    rw [hrefs]
    by_cases heq : o' = o
    · obtain rfl := heq
      have hobj : (((s.delete o').setCall t { s.calls t with deleting := none }).objs o').deleted =
          true := congrArg Inner.deleted State.delete_self
      rw [hobj, if_pos rfl]
      split_ifs at hdeleted ⊢ <;> omega
    · have hobj : ((s.delete o).setCall t { s.calls t with deleting := none }).objs o' = s.objs o' :=
        State.delete_of_ne heq
      rw [hobj, ← hdeleted, ← hset, if_neg fun h => heq (Option.some.inj h).symm, Nat.add_zero]

/-! ### Runs -/

/-- A call starts with no temporaries. -/
lemma Inv.start (h : Inv s) (hfin : (s.calls t).Finished) {code : List (Instr κ)}
    {borrowed : Option ℕ} (hfits : Fits code []) : Inv (s.setCall t (.start code [] borrowed)) := by
  refine ⟨h.counted.effect rfl hfin.2 (.move rfl rfl (fun o => ?_) rfl), fun t' => ?_⟩
  · rw [State.shared, State.shared, h.finished hfin]
    rfl
  · exact fits_setCall h.fits rfl hfits t t'

variable [DecidableEq κ]

lemma Inv.runCall (h : Inv s) {throws : Bool} (hrun : runCall s t throws = some s') : Inv s' := by
  rw [Srs.runCall] at hrun
  split at hrun
  · rename_i o hdel
    cases hrun
    refine ⟨h.counted.delete hdel, fun t' => ?_⟩
    refine fits_setCall h.fits ?_ ?_ t t'
    · rfl
    · exact h.fits t
  · rename_i hdel
    split at hrun
    · cases hrun
    · rename_i i code hcode
      obtain ⟨⟨s₁, c⟩, hexec, rfl⟩ := Option.map_eq_some_iff.mp hrun
      have hcalls := exec_calls hexec
      have hfits := h.fits t
      rw [hcode] at hfits
      refine ⟨h.counted.effect hcalls hdel ?_, fun t' => ?_⟩
      · exact exec_effect (c := { s.calls t with code := code }) hdel hexec
      · exact fits_setCall h.fits hcalls (exec_fits (c := { s.calls t with code := code }) hfits hexec)
          t t'

/-- What one step preserves. -/
theorem Inv.step {a : Action ι κ} (h : Inv s) (hstep : step s a = some s') : Inv s' := by
  cases a with
  | create t key cache =>
    simp only [Srs.step] at hstep
    split_ifs at hstep with hfin
    cases hstep
    exact h.start hfin (createSRS_fits key cache)
  | clone t handle =>
    simp only [Srs.step] at hstep
    split_ifs at hstep with hfin
    cases hstep
    exact h.start hfin.1 (by simp [Fits])
  | drop t handle =>
    simp only [Srs.step] at hstep
    split_ifs at hstep with hfin
    obtain ⟨⟨o, l⟩, hl, rfl⟩ := Option.map_eq_some_iff.mp hstep
    refine ⟨h.counted.effect rfl hfin.1.2 (.move rfl rfl (fun o' => ?_) rfl), fun t' => ?_⟩
    · -- the handle becomes a temporary of the call that drops it
      simp only [State.shared, State.callerHandles, State.cacheEntries, Call.start,
        h.finished hfin.1, count_snd_perm (takeEntry_perm hl), count_some_cons, List.count_nil]
      ring
    · have hfits : Fits [Instr.destroy (κ := κ)] [some o] := ⟨_, _, rfl, rfl⟩
      refine fits_setCall h.fits ?_ hfits t t'
      rfl
  | evict t handle =>
    simp only [Srs.step] at hstep
    split_ifs at hstep with hfin
    cases hstep
    exact h.start hfin.1 rfl
  | run t throws => exact h.runCall hstep

/-- In every run, counts are the numbers of references, an object is deleted once, when it has none left,
and no handle and no entry of the cache refers to a deleted object. -/
theorem refCnt_eq_references {objs : ℕ → Inner κ} (h : Reachable Srs.step (State.init objs) s) :
    (∀ o < s.next, (s.objs o).refCnt = s.liveHandles o + s.cacheEntries o) ∧
      (∀ o < s.next, ((s.objs o).deleted = true ∨ s.Deleting o ↔
        s.liveHandles o + s.cacheEntries o = 0) ∧ ¬ ((s.objs o).deleted = true ∧ s.Deleting o)) ∧
      (∀ o, 0 < s.liveHandles o + s.cacheEntries o → o < s.next ∧ (s.objs o).deleted = false) ∧
      ((∀ t, (s.calls t).Finished) → ∀ o < s.next,
        (s.objs o).refCnt = s.callerHandles o + s.cacheEntries o ∧
          ((s.objs o).deleted = true ↔ s.callerHandles o + s.cacheEntries o = 0)) := by
  have hinv : Inv s := h.invariant (Inv.init objs) fun s a s' hs hstep => hs.step hstep
  refine ⟨hinv.counted.refCnt, fun o ho => hinv.counted.deleted_iff ho, fun o hpos => ?_,
    fun hfin o ho => ?_⟩
  · have ho : o < s.next := by
      by_contra hle
      exact hpos.ne' (hinv.counted.fresh o (Nat.le_of_not_lt hle)).1
    refine ⟨ho, Bool.eq_false_iff.mpr fun hdel => hpos.ne' ?_⟩
    exact (hinv.counted.deleted_iff ho).1.mp (.inl hdel)
  · rw [← hinv.liveHandles hfin]
    refine ⟨hinv.counted.refCnt o ho, ⟨fun hdel => ?_, fun hrefs => ?_⟩⟩
    · exact (hinv.counted.deleted_iff ho).1.mp (.inl hdel)
    · refine ((hinv.counted.deleted_iff ho).1.mpr hrefs).resolve_right ?_
      rintro ⟨t, ht⟩
      rw [(hfin t).2] at ht
      cases ht

/-- A handle is cloned, and the first one is dropped. -/
theorem refCnt_eq_references_clone :
    let s₀ : State Unit ℕ := State.init fun _ => ⟨0, 0, false⟩
    ∃ s, runList Srs.step s₀ [.create () 7 false, .run () false, .run () false, .run () false,
        .clone () 0, .run () false, .run () false, .drop () 0, .run () false] = some s ∧
      (s.objs 0).refCnt = s.liveHandles 0 + s.cacheEntries 0 ∧
      s.liveHandles 0 + s.cacheEntries 0 = 1 := by
  intro s₀
  have hrun : (runList Srs.step s₀ [.create () 7 false, .run () false, .run () false, .run () false,
      .clone () 0, .run () false, .run () false, .drop () 0, .run () false]).map
        (fun s => (s.next, s.liveHandles 0 + s.cacheEntries 0)) = some (1, 1) := by decide
  obtain ⟨s, hs, heq⟩ := Option.map_eq_some_iff.mp hrun
  obtain ⟨hnext, hrefs⟩ := Prod.mk.inj heq
  have hreach : Reachable Srs.step s₀ s := ReachableVia.of_runList hs (fun _ _ _ => trivial) .start
  exact ⟨s, hs, (refCnt_eq_references hreach).1 0 (hnext ▸ Nat.one_pos), hrefs⟩

end Invariant

end Srs

end SupraSeal
