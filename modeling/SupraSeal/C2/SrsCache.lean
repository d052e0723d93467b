import SupraSeal.C2.SrsRefCount
import Mathlib.Data.List.Nodup

/-!
# The SRS cache

Class `SRS_cache` in `c2/cuda/groth16_srs.cuh`, as a list of paths and objects. Its calls hold a lock, so
they run one after the other. A lookup that has to load the SRS can fail.
-/

namespace SupraSeal

namespace Srs

/-! ### Calls -/

/-- The list of the cache, the number of objects so far, and the path that each was loaded from. -/
structure Cache (κ : Type*) where
  list : List (κ × ℕ)
  next : ℕ
  path : ℕ → κ

inductive CacheOp (κ : Type*)
  | lookup (key : κ) (throws : Bool)
  | evict (key : κ)

namespace Cache

variable {κ : Type*}

/-- `emplace_front(std::make_pair(key, SRS{key}))`. -/
def emplaceFront (c : Cache κ) (key : κ) : Cache κ where
  list := (key, c.next) :: c.list
  next := c.next + 1
  path := Function.update c.path c.next key

/-- `if (list.size() > 3) list.pop_back()`. -/
def popBack (c : Cache κ) : Cache κ :=
  if 3 < c.list.length then { c with list := c.list.dropLast } else c

lemma popBack_list (c : Cache κ) :
    c.popBack.list = if 3 < c.list.length then c.list.dropLast else c.list := by
  unfold popBack
  split <;> rfl

lemma popBack_next (c : Cache κ) : c.popBack.next = c.next := by
  unfold popBack
  split <;> rfl

lemma popBack_path (c : Cache κ) : c.popBack.path = c.path := by
  unfold popBack
  split <;> rfl

lemma popBack_sublist (c : Cache κ) : c.popBack.list.Sublist c.list := by
  rw [popBack_list]
  split
  · exact List.dropLast_sublist _
  · exact List.Sublist.refl _

lemma length_popBack_le {c : Cache κ} (h : c.list.length ≤ 4) : c.popBack.list.length ≤ 3 := by
  rw [popBack_list]
  split
  · rw [List.length_dropLast]
    exact Nat.sub_le_sub_right h 1
  next hlen => exact Nat.le_of_not_lt hlen

variable [DecidableEq κ]

/-- `SRS_cache::lookup`, with the object of the handle that it returns. -/
def lookup (c : Cache κ) (key : κ) (throws : Bool) : Option ℕ × Cache κ :=
  match takeEntry key c.list with
  | some (o, l) => (some o, { c with list := (key, o) :: l })
  | none => if throws then (none, c.popBack) else (some c.next, c.popBack.emplaceFront key)

/-- `SRS_cache::evict`. -/
def evict (c : Cache κ) (key : κ) : Cache κ := { c with list := c.list.filter fun e => e.1 ≠ key }

def run (c : Cache κ) : CacheOp κ → Cache κ
  | .lookup key throws => (c.lookup key throws).2
  | .evict key => c.evict key

/-- The cache after some calls; `path` is what memory held before. -/
def after (path : ℕ → κ) (ops : List (CacheOp κ)) : Cache κ := ops.foldl run ⟨[], 0, path⟩

end Cache

/-- When the key was looked up last; the first call has number one. -/
def lastLookup {κ : Type*} [DecidableEq κ] (ops : List (CacheOp κ)) (key : κ) : ℕ :=
  ops.zipIdx.foldl (fun last e =>
    match e.1 with
    | .lookup key' _ => if key' = key then e.2 + 1 else last
    | .evict _ => last) 0

section LastLookup

variable {κ : Type*} [DecidableEq κ] (ops : List (CacheOp κ)) (key key' : κ)

lemma lastLookup_append_lookup (throws : Bool) :
    lastLookup (ops ++ [.lookup key' throws]) key
      = if key' = key then ops.length + 1 else lastLookup ops key := by
  simp [lastLookup, List.zipIdx_append]

lemma lastLookup_append_evict : lastLookup (ops ++ [.evict key']) key = lastLookup ops key := by
  simp [lastLookup, List.zipIdx_append]

lemma lastLookup_le_length : lastLookup ops key ≤ ops.length := by
  induction ops using List.reverseRecOn with
  | nil => exact Nat.zero_le _
  | append_singleton ops op ih =>
    cases op with
    | lookup key' throws =>
      rw [lastLookup_append_lookup, List.length_append, List.length_singleton]
      split
      · exact le_refl _
      · exact ih.trans (Nat.le_succ _)
    | evict key' =>
      rw [lastLookup_append_evict, List.length_append, List.length_singleton]
      exact ih.trans (Nat.le_succ _)

end LastLookup

/-! ### Entries -/

section Entries

variable {κ : Type*} [DecidableEq κ] {key : κ} {l l' : List (κ × ℕ)} {o : ℕ}

lemma takeEntry_eq_none_iff : takeEntry key l = none ↔ ∀ e ∈ l, e.1 ≠ key := by
  induction l with
  | nil => simp [takeEntry]
  | cons e l ih =>
    rw [takeEntry, List.forall_mem_cons]
    by_cases h : e.1 = key
    · simp [h]
    · simp [h, ih]

/-- Only the entry with the key is taken out. -/
lemma takeEntry_eq_some (hnodup : (l.map Prod.fst).Nodup) (hmem : (key, o) ∈ l) :
    takeEntry key l = some (o, l.filter fun e => e.1 ≠ key) := by
  induction l with
  | nil => cases hmem
  | cons e l ih =>
    rw [List.map_cons, List.nodup_cons] at hnodup
    rw [takeEntry]
    by_cases h : e.1 = key
    · have hrest : ∀ e' ∈ l, e'.1 ≠ key := by
        intro e' he' heq
        exact hnodup.1 (List.mem_map.2 ⟨e', he', heq.trans h.symm⟩)
      have ho : e = (key, o) := by
        rcases List.mem_cons.1 hmem with hmem | hmem
        · exact hmem.symm
        · exact absurd rfl (hrest _ hmem)
      rw [if_pos h, List.filter_cons_of_neg (by simpa using h), List.filter_eq_self.2, ho]
      intro e' he'
      simpa using hrest e' he'
    · have hmem : (key, o) ∈ l := by
        rcases List.mem_cons.1 hmem with hmem | hmem
        · exact absurd (congrArg Prod.fst hmem).symm h
        · exact hmem
      rw [if_neg h, ih hnodup.2 hmem, List.filter_cons_of_pos (by simpa using h)]
      rfl

/-- An entry that is taken out was not kept by `remove_if`. -/
lemma filter_of_takeEntry (h : takeEntry key l = some (o, l')) :
    (l.filter fun e => e.1 ≠ key) = l'.filter fun e => e.1 ≠ key := by
  induction l generalizing l' with
  | nil => cases h
  | cons e l ih =>
    rw [takeEntry] at h
    split at h
    next hkey =>
      cases h
      rw [List.filter_cons_of_neg (by simpa using hkey)]
    next hkey =>
      obtain ⟨⟨o'', l''⟩, htake, heq⟩ := Option.map_eq_some_iff.1 h
      cases heq
      rw [List.filter_cons_of_pos (by simpa using hkey), List.filter_cons_of_pos (by simpa using hkey),
        ih htake]

end Entries

/-! ### The invariant -/

/-- What holds of the cache after the calls `ops`. -/
structure IsLru {κ : Type*} [DecidableEq κ] (ops : List (CacheOp κ)) (c : Cache κ) : Prop where
  distinct : (c.list.map Prod.fst).Nodup
  length_le : c.list.length ≤ 4
  /-- The most recently used entry is the first one. -/
  recent : c.list.Pairwise fun e e' => lastLookup ops e'.1 < lastLookup ops e.1
  /-- Entries hold objects that were loaded from their keys. -/
  loaded : ∀ e ∈ c.list, e.2 < c.next ∧ c.path e.2 = e.1

namespace IsLru

variable {κ : Type*} [DecidableEq κ] {ops : List (CacheOp κ)} {c c' : Cache κ} {key : κ} {o : ℕ}

lemma init (path : ℕ → κ) : IsLru [] (Cache.after path []) where
  distinct := List.nodup_nil
  length_le := Nat.zero_le _
  recent := List.Pairwise.nil
  loaded := by
    intro e he
    cases he

/-- Entries can go away. -/
lemma sublist (h : IsLru ops c) (hlist : c'.list.Sublist c.list) (hnext : c'.next = c.next)
    (hpath : c'.path = c.path) : IsLru ops c' where
  distinct := h.distinct.sublist (hlist.map _)
  length_le := hlist.length_le.trans h.length_le
  recent := h.recent.sublist hlist
  loaded := by
    intro e he
    rw [hnext, hpath]
    exact h.loaded e (hlist.subset he)

/-- An entry of another key comes behind the key that was looked up. -/
lemma lookup_front (h : IsLru ops c) (hkey : ∀ e ∈ c.list, e.1 ≠ key) (hlen : c.list.length ≤ 3)
    (ho : o < c.next ∧ c.path o = key) (throws : Bool) :
    IsLru (ops ++ [.lookup key throws]) { c with list := (key, o) :: c.list } where
  distinct := by
    refine List.nodup_cons.2 ⟨?_, h.distinct⟩
    intro hmem
    obtain ⟨e, he, heq⟩ := List.mem_map.1 hmem
    exact hkey e he heq
  length_le := Nat.succ_le_succ hlen
  recent := by
    have hlast : ∀ e ∈ c.list, lastLookup (ops ++ [.lookup key throws]) e.1 = lastLookup ops e.1 := by
      intro e he
      rw [lastLookup_append_lookup, if_neg (hkey e he).symm]
    refine List.pairwise_cons.2 ⟨?_, ?_⟩
    · intro e he
      rw [hlast e he, lastLookup_append_lookup, if_pos rfl]
      exact Nat.lt_succ_of_le (lastLookup_le_length ops e.1)
    · refine h.recent.imp_of_mem ?_
      intro e e' he he' hlt
      rwa [hlast e he, hlast e' he']
  loaded := by
    intro e he
    rcases List.mem_cons.1 he with rfl | he
    · exact ho
    · exact h.loaded e he

/-- A call that looks up nothing that is cached. -/
lemma append (h : IsLru ops c) {op : CacheOp κ}
    (hlast : ∀ e ∈ c.list, lastLookup (ops ++ [op]) e.1 = lastLookup ops e.1) :
    IsLru (ops ++ [op]) c where
  distinct := h.distinct
  length_le := h.length_le
  recent := by
    refine h.recent.imp_of_mem ?_
    intro e e' he he' hlt
    rwa [hlast e he, hlast e' he']
  loaded := h.loaded

/-- `pop_back` makes room. -/
lemma popBack (h : IsLru ops c) : IsLru ops c.popBack :=
  h.sublist c.popBack_sublist c.popBack_next c.popBack_path

lemma evict (h : IsLru ops c) (key : κ) : IsLru (ops ++ [.evict key]) (c.evict key) := by
  have hrest : IsLru ops (c.evict key) := h.sublist List.filter_sublist rfl rfl
  exact hrest.append fun e _ => lastLookup_append_evict ops e.1 key

/-- What a lookup does when the key is cached. -/
lemma lookup_hit (h : IsLru ops c) (hmem : (key, o) ∈ c.list) (throws : Bool) :
    c.lookup key throws
      = (some o, { c with list := (key, o) :: c.list.filter fun e => e.1 ≠ key }) := by
  rw [Cache.lookup, takeEntry_eq_some h.distinct hmem]

lemma lookup_miss (hkey : ∀ e ∈ c.list, e.1 ≠ key) (throws : Bool) :
    c.lookup key throws
      = if throws then (none, c.popBack) else (some c.next, c.popBack.emplaceFront key) := by
  rw [Cache.lookup, takeEntry_eq_none_iff.2 hkey]

lemma emplaceFront (h : IsLru ops c) (hkey : ∀ e ∈ c.list, e.1 ≠ key) (hlen : c.list.length ≤ 3)
    (throws : Bool) : IsLru (ops ++ [.lookup key throws]) (c.emplaceFront key) := by
  have hnew : IsLru ops { c with next := c.next + 1, path := Function.update c.path c.next key } := by
    refine ⟨h.distinct, h.length_le, h.recent, ?_⟩
    intro e he
    obtain ⟨hlt, hpath⟩ := h.loaded e he
    refine ⟨Nat.lt_succ_of_lt hlt, ?_⟩
    exact (Function.update_of_ne (Nat.ne_of_lt hlt) ..).trans hpath
  exact hnew.lookup_front hkey hlen ⟨Nat.lt_succ_self _, Function.update_self ..⟩ throws

lemma lookup (h : IsLru ops c) (key : κ) (throws : Bool) :
    IsLru (ops ++ [.lookup key throws]) (c.lookup key throws).2 := by
  by_cases hkey : ∀ e ∈ c.list, e.1 ≠ key
  · have hkey' : ∀ e ∈ c.popBack.list, e.1 ≠ key := fun e he => hkey e (c.popBack_sublist.subset he)
    rw [lookup_miss hkey]
    cases throws with
    | true =>
      refine h.popBack.append ?_
      intro e he
      rw [lastLookup_append_lookup, if_neg (hkey' e he).symm]
    | false =>
      have := h.popBack.emplaceFront hkey' (Cache.length_popBack_le h.length_le) false
      simpa [Cache.popBack_next] using this
  · push Not at hkey
    obtain ⟨⟨key', o⟩, hmem, rfl⟩ := hkey
    rw [h.lookup_hit hmem]
    have hrest : IsLru ops { c with list := c.list.filter fun e => e.1 ≠ key' } :=
      h.sublist List.filter_sublist rfl rfl
    refine hrest.lookup_front ?_ ?_ (h.loaded _ hmem) throws
    · intro e he
      simpa using (List.mem_filter.1 he).2
    · -- the entry of the key is not among the others
      have hlt : (c.list.filter fun e => e.1 ≠ key').length < c.list.length :=
        List.length_filter_lt_length_iff_exists.2 ⟨_, hmem, by simp⟩
      exact Nat.le_of_lt_succ (hlt.trans_le h.length_le)

lemma run (h : IsLru ops c) (op : CacheOp κ) : IsLru (ops ++ [op]) (c.run op) := by
  cases op with
  | lookup key throws => exact h.lookup key throws
  | evict key => exact h.evict key

end IsLru

namespace Cache

variable {κ : Type*} [DecidableEq κ]

lemma isLru_after (path : ℕ → κ) (ops : List (CacheOp κ)) : IsLru ops (after path ops) := by
  induction ops using List.reverseRecOn with
  | nil => exact IsLru.init path
  | append_singleton ops op ih =>
    rw [after, List.foldl_append]
    exact ih.run op

/-- After any calls the cache is in order of the last lookups, and this is what the next call does. -/
theorem lru_after (path : ℕ → κ) (ops : List (CacheOp κ)) (key : κ) :
    IsLru ops (after path ops) ∧
      (∀ o, (key, o) ∈ (after path ops).list → ∀ throws,
        (after path ops).lookup key throws = (some o,
          { after path ops with
            list := (key, o) :: (after path ops).list.filter fun e => e.1 ≠ key })) ∧
      ((∀ e ∈ (after path ops).list, e.1 ≠ key) →
        (after path ops).lookup key false = (some (after path ops).next,
          { list := (key, (after path ops).next) ::
              if (after path ops).list.length = 4 then (after path ops).list.dropLast
              else (after path ops).list
            next := (after path ops).next + 1
            path := Function.update (after path ops).path (after path ops).next key })) ∧
      ∀ e, e ∈ ((after path ops).evict key).list ↔ e ∈ (after path ops).list ∧ e.1 ≠ key := by
  have h := isLru_after path ops
  generalize after path ops = c at h
  refine ⟨h, fun o hmem throws => h.lookup_hit hmem throws, ?_, ?_⟩
  · intro hkey
    have hlen : (3 < c.list.length) ↔ c.list.length = 4 := by
      have := h.length_le
      omega
    rw [IsLru.lookup_miss hkey]
    simp only [Bool.false_eq_true, if_false, emplaceFront, popBack_list, popBack_next, popBack_path, hlen]
  · intro e
    simp [evict]

end Cache

/-! ### The steps of a call -/

section Steps

variable {ι κ : Type*}

namespace State

/-- The cache that the calls share. -/
def cache (s : State ι κ) : Cache κ := ⟨s.list, s.next, fun o => (s.objs o).path⟩

variable {s : State ι κ} (o : ℕ)

lemma cache_eq_of_path {s' : State ι κ} (hlist : s'.list = s.list) (hnext : s'.next = s.next)
    (hpath : ∀ o, (s'.objs o).path = (s.objs o).path) : s'.cache = s.cache := by
  rw [cache, cache, hlist, hnext, funext hpath]

lemma update_path (f : ℕ → Inner κ) (n : ℕ) (deleted : Bool) (o' : ℕ) :
    (Function.update f o ⟨(f o).path, n, deleted⟩ o').path = (f o').path := by
  by_cases h : o' = o
  · rw [h, Function.update_self]
  · rw [Function.update_of_ne h]

lemma cache_addRef : (s.addRef o).cache = s.cache :=
  cache_eq_of_path rfl rfl (update_path o s.objs _ _)

lemma cache_subRef : (s.subRef o).cache = s.cache :=
  cache_eq_of_path rfl rfl (update_path o s.objs _ _)

lemma cache_delete : (s.delete o).cache = s.cache :=
  cache_eq_of_path rfl rfl (update_path o s.objs _ _)

lemma path_newInner (key : κ) :
    (fun o => ((s.newInner key).objs o).path) = Function.update (fun o => (s.objs o).path) s.next key := by
  funext o'
  by_cases h : o' = s.next
  · rw [h, newInner_self, Function.update_self]
  · rw [newInner_of_ne key h, Function.update_of_ne h]

end State

lemma popBack_eq_some {s : State ι κ} {o : ℕ} {l : List (κ × ℕ)} (h : popBack s.list = some (o, l)) :
    s.cache.popBack = { s.cache with list := l } := by
  rw [popBack] at h
  split at h
  next hlen =>
    obtain ⟨e, -, heq⟩ := Option.map_eq_some_iff.1 h
    cases heq
    exact if_pos hlen
  next => cases h

lemma popBack_eq_none {s : State ι κ} (h : popBack s.list = none) : s.cache.popBack = s.cache := by
  rw [popBack] at h
  split at h
  next hlen =>
    rw [Option.map_eq_none_iff, List.getLast?_eq_none_iff] at h
    rw [h] at hlen
    cases hlen
  next hlen => exact if_neg hlen

variable [DecidableEq ι]

lemma setCall_setCall (s : State ι κ) (t : ι) (c c' : Call κ) :
    (s.setCall t c).setCall t c' = s.setCall t c' := by
  simp [State.setCall]

variable [DecidableEq κ]

/-- A step does not depend on what is stored of its call. -/
lemma exec_setCall (s : State ι κ) (t : ι) (c₀ c : Call κ) (throws : Bool) (i : Instr κ) :
    exec (s.setCall t c₀) t c throws i
      = (exec s t c throws i).map fun (s', c') => (s'.setCall t c₀, c') := by
  cases i with
  | byValue h | evict h =>
    simp only [exec, Option.map_map]
    rfl
  | _ =>
    simp only [exec, State.setCall]
    (repeat' split) <;> simp_all [State.subRef, State.addRef, State.newHandle, State.newInner]

variable {t : ι}

/-- Steps of one call, with nothing from other calls in between; nothing throws. -/
def Alone (t : ι) : State ι κ → State ι κ → Prop :=
  Relation.ReflTransGen fun s s' => runCall s t false = some s'

lemma alone_exec {s s' : State ι κ} {i : Instr κ} {code : List (Instr κ)} {ts : List (Option ℕ)}
    {b : Option ℕ} {c' : Call κ} (h : exec s t ⟨code, ts, b, none⟩ false i = some (s', c')) :
    Alone t (s.setCall t ⟨i :: code, ts, b, none⟩) (s'.setCall t c') := by
  refine Relation.ReflTransGen.single ?_
  rw [runCall, State.setCall_self]
  simp only [exec_setCall, h, Option.map_some, setCall_setCall]

/-- `~SRS` of a temporary, and `delete` after it if that was the last reference. -/
lemma alone_destroy (s : State ι κ) (code : List (Instr κ)) (o : ℕ) (ts : List (Option ℕ)) (b : Option ℕ) :
    ∃ s' : State ι κ, Alone t (s.setCall t ⟨.destroy :: code, some o :: ts, b, none⟩)
        (s'.setCall t ⟨code, ts, b, none⟩) ∧
      s'.cache = s.cache ∧ s'.mtx = s.mtx ∧ s'.handles = s.handles ∧ s'.nextHandle = s.nextHandle := by
  have hstep : exec s t ⟨code, some o :: ts, b, none⟩ false .destroy = some (s.subRef o,
    ⟨code, ts, b, if (s.objs o).refCnt = 1 then some o else none⟩) := rfl
  split at hstep
  · refine ⟨(s.subRef o).delete o, (alone_exec hstep).trans (.single ?_), ?_, rfl, rfl, rfl⟩
    · rw [runCall, State.setCall_self]
      exact congrArg some (setCall_setCall ((s.subRef o).delete o) t _ _)
    · rw [State.cache_delete, State.cache_subRef]
  · exact ⟨s.subRef o, alone_exec hstep, State.cache_subRef o, rfl, rfl, rfl⟩

/-- The value that `lookup` returns becomes a handle of the caller. -/
lemma alone_copyFront {s : State ι κ} {key : κ} {o : ℕ} {l : List (κ × ℕ)} (hlist : s.list = (key, o) :: l) :
    Alone t (s.setCall t ⟨[.copyFront, .unlock, .moveRet, .destroy], [], none, none⟩)
      ((State.newHandle { s.addRef o with mtx := none } o).setCall t .idle) := by
  have hcopy : exec s t ⟨[.unlock, .moveRet, .destroy], [], none, none⟩ false .copyFront
      = some (s.addRef o, ⟨[.unlock, .moveRet, .destroy], [some o], none, none⟩) := by
    simp only [exec, hlist, Call.push]
  refine (alone_exec hcopy).trans ((alone_exec (i := .unlock) rfl).trans ?_)
  exact (alone_exec (i := .moveRet) rfl).trans (alone_exec (i := .destroy) rfl)

/-- `emplace_front`, and the two temporaries of its argument. -/
lemma alone_emplaceFront (s : State ι κ) (key : κ) (code : List (Instr κ)) :
    ∃ s' : State ι κ, Alone t
        (s.setCall t ⟨[.construct key true, .copyTop, .copyTop, .emplaceFront key, .destroy, .destroy]
          ++ code, [], none, none⟩)
        (s'.setCall t ⟨code, [], none, none⟩) ∧
      s'.cache = s.cache.emplaceFront key ∧ s'.mtx = s.mtx ∧ s'.handles = s.handles ∧
      s'.nextHandle = s.nextHandle := by
  set s₁ := (((s.newInner key).addRef s.next).addRef s.next) with hs₁
  have hrun : Alone t
      (s.setCall t ⟨[.construct key true, .copyTop, .copyTop, .emplaceFront key, .destroy, .destroy]
        ++ code, [], none, none⟩)
      (State.setCall { s₁ with list := (key, s.next) :: s.list } t
        ⟨[.destroy, .destroy] ++ code, [some s.next, some s.next], none, none⟩) := by
    refine (alone_exec (i := .construct key true) rfl).trans ((alone_exec (i := .copyTop) rfl).trans ?_)
    exact (alone_exec (i := .copyTop) rfl).trans (alone_exec (i := .emplaceFront key) rfl)
  have hcache : State.cache { s₁ with list := (key, s.next) :: s.list } = s.cache.emplaceFront key := by
    have hpath : s₁.cache.path = Function.update s.cache.path s.next key := by
      rw [hs₁, State.cache_addRef, State.cache_addRef]
      exact State.path_newInner key
    rw [Cache.emplaceFront]
    exact congrArg (Cache.mk _ _) hpath
  obtain ⟨s₂, hdestroy, hcache₂, hmtx₂, hhandles₂, hnext₂⟩ := alone_destroy
    { s₁ with list := (key, s.next) :: s.list } (t := t) (.destroy :: code) s.next [some s.next] none
  obtain ⟨s₃, hdestroy', hcache₃, hmtx₃, hhandles₃, hnext₃⟩ := alone_destroy s₂ (t := t) code s.next [] none
  exact ⟨s₃, hrun.trans (hdestroy.trans hdestroy'), (hcache₃.trans hcache₂).trans hcache,
    hmtx₃.trans hmtx₂, hhandles₃.trans hhandles₂, hnext₃.trans hnext₂⟩

/-- `create_SRS` with the cache does to the shared state what `Cache.lookup` says. -/
theorem alone_createSRS {s : State ι κ} (hmtx : s.mtx = none) (key : κ) :
    ∃ (s' : State ι κ) (o : ℕ), Alone t (s.setCall t (.start (createSRS key true) [] none))
        (s'.setCall t .idle) ∧
      s'.mtx = none ∧ s.cache.lookup key false = (some o, s'.cache) ∧
      s'.handles = (s.nextHandle, o) :: s.handles := by
  set ret : List (Instr κ) := [.unlock, .moveRet, .destroy] with hret
  have hlock : Alone t (s.setCall t (.start (createSRS key true) [] none))
      (State.setCall { s with mtx := some t } t ⟨.lookup key :: ret, [], none, none⟩) :=
    alone_exec (i := .lock) (if_pos hmtx)
  cases htake : takeEntry key s.list with
  | some e =>
    obtain ⟨o, l⟩ := e
    have hlookup : exec { s with mtx := some t } t ⟨ret, [], none, none⟩ false (.lookup key)
        = some ({ s with mtx := some t, list := (key, o) :: l }, ⟨.copyFront :: ret, [], none, none⟩) := by
      simp only [exec, htake]
    refine ⟨_, o, hlock.trans ((alone_exec hlookup).trans (alone_copyFront rfl)), rfl, ?_, rfl⟩
    have hcache := State.cache_addRef (s := { s with mtx := some t, list := (key, o) :: l }) o
    have htake' : takeEntry key s.cache.list = some (o, l) := htake
    simp only [Cache.lookup, htake']
    exact congrArg (Prod.mk (some o)) hcache.symm
  | none =>
    set load : List (Instr κ) := [.construct key true, .copyTop, .copyTop, .emplaceFront key, .destroy,
      .destroy] ++ .copyFront :: ret with hload
    -- up to the construction, with the last entry gone if there were too many
    have hpop : ∃ s₁ : State ι κ, Alone t
        (State.setCall { s with mtx := some t } t ⟨.lookup key :: ret, [], none, none⟩)
        (s₁.setCall t ⟨load, [], none, none⟩) ∧ s₁.cache = s.cache.popBack ∧
        s₁.handles = s.handles ∧ s₁.nextHandle = s.nextHandle := by
      cases hpop : popBack s.list with
      | some e =>
        obtain ⟨o, l⟩ := e
        have hlookup : exec { s with mtx := some t } t ⟨ret, [], none, none⟩ false (.lookup key)
            = some ({ s with mtx := some t, list := l }, ⟨.destroy :: load, [some o], none, none⟩) := by
          simp only [exec, htake, hpop, hload]
          rfl
        obtain ⟨s₁, hdestroy, hcache, -, hhandles, hnext⟩ :=
          alone_destroy { s with mtx := some t, list := l } (t := t) load o [] none
        exact ⟨s₁, (alone_exec hlookup).trans hdestroy, hcache.trans (popBack_eq_some hpop).symm,
          hhandles, hnext⟩
      | none =>
        have hlookup : exec { s with mtx := some t } t ⟨ret, [], none, none⟩ false (.lookup key)
            = some ({ s with mtx := some t }, ⟨load, [], none, none⟩) := by
          simp only [exec, htake, hpop, hload]
          rfl
        exact ⟨_, alone_exec hlookup, (popBack_eq_none hpop).symm, rfl, rfl⟩
    obtain ⟨s₁, hpop, hcache₁, hhandles₁, hnext₁⟩ := hpop
    obtain ⟨s₂, hemplace, hcache₂, -, hhandles₂, hnext₂⟩ :=
      alone_emplaceFront s₁ key (t := t) (.copyFront :: ret)
    have hlist : s₂.list = (key, s₁.next) :: s₁.list := congrArg Cache.list hcache₂
    refine ⟨_, s₁.next, hlock.trans (hpop.trans (hemplace.trans (alone_copyFront hlist))), rfl, ?_, ?_⟩
    · have hnext : s₁.next = s.next := (congrArg Cache.next hcache₁).trans (Cache.popBack_next s.cache)
      have htake' : takeEntry key s.cache.list = none := htake
      simp only [Cache.lookup, htake', Bool.false_eq_true, if_false]
      rw [← hcache₁, ← hcache₂, ← State.cache_addRef (s := s₂) s₁.next, hnext]
      rfl
    · simp only [State.newHandle, State.addRef, hhandles₂, hhandles₁, hnext₂, hnext₁]

/-- The loop of `remove_if`. -/
lemma alone_removeIf (s : State ι κ) (key : κ) (code : List (Instr κ)) (b : Option ℕ) :
    ∃ s' : State ι κ, Alone t (s.setCall t ⟨.removeIf key :: code, [], b, none⟩)
        (s'.setCall t ⟨code, [], b, none⟩) ∧
      s'.cache = s.cache.evict key ∧ s'.mtx = s.mtx ∧ s'.handles = s.handles := by
  generalize hn : s.list.length = n
  induction n using Nat.strong_induction_on generalizing s with
  | _ n ih =>
  cases htake : takeEntry key s.list with
  | some e =>
    obtain ⟨o, l⟩ := e
    have hexec : exec s t ⟨code, [], b, none⟩ false (.removeIf key)
        = some ({ s with list := l }, ⟨.destroy :: .removeIf key :: code, [some o], b, none⟩) := by
      simp only [exec, htake]
    obtain ⟨s₁, hdestroy, hcache₁, hmtx₁, hhandles₁, -⟩ :=
      alone_destroy { s with list := l } (t := t) (.removeIf key :: code) o [] b
    have hlist : s₁.list = l := congrArg Cache.list hcache₁
    have hlt : s₁.list.length < n := by
      rw [hlist, ← hn, (takeEntry_perm htake).length_eq]
      exact Nat.lt_succ_self _
    obtain ⟨s₂, hrun, hcache₂, hmtx₂, hhandles₂⟩ := ih _ hlt s₁ rfl
    refine ⟨s₂, (alone_exec hexec).trans (hdestroy.trans hrun), ?_, hmtx₂.trans hmtx₁,
      hhandles₂.trans hhandles₁⟩
    rw [hcache₂, hcache₁, Cache.evict, Cache.evict]
    exact congrArg (fun l => Cache.mk l s.next _) (filter_of_takeEntry htake).symm
  | none =>
    have hexec : exec s t ⟨code, [], b, none⟩ false (.removeIf key) = some (s, ⟨code, [], b, none⟩) := by
      simp only [exec, htake]
    refine ⟨s, alone_exec hexec, ?_, rfl, rfl⟩
    have hfilter : (s.list.filter fun e => e.1 ≠ key) = s.list := by
      refine List.filter_eq_self.2 fun e he => ?_
      simpa using takeEntry_eq_none_iff.1 htake e he
    exact congrArg (fun l => Cache.mk l s.next _) hfilter.symm

/-- `evict_SRS` evicts the path of its SRS. -/
theorem alone_evict {s : State ι κ} (hmtx : s.mtx = none) {h o : ℕ} (ho : s.handles.lookup h = some o) :
    ∃ s' : State ι κ, Alone t (s.setCall t (.start [.evict h] [] (some h)))
        (s'.setCall t ⟨[], [], some h, none⟩) ∧
      s'.mtx = none ∧ s'.cache = s.cache.evict (s.cache.path o) ∧ s'.handles = s.handles := by
  have hexec : exec s t ⟨[], [], some h, none⟩ false (.evict h)
      = some (s, ⟨[.lock, .removeIf (s.objs o).path, .unlock], [], some h, none⟩) := by
    simp only [exec, ho, Option.map_some, List.append_nil]
  obtain ⟨s₁, hrun, hcache, -, hhandles⟩ := alone_removeIf { s with mtx := some t } (t := t)
    (s.objs o).path [.unlock] (some h)
  refine ⟨{ s₁ with mtx := none }, (alone_exec hexec).trans ((alone_exec (i := .lock) (if_pos hmtx)).trans
    (hrun.trans (alone_exec (i := .unlock) rfl))), rfl, ?_, hhandles⟩
  exact hcache

end Steps

end Srs

end SupraSeal
