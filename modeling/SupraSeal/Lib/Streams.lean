import SupraSeal.Lib.Transition
import Mathlib.Data.Finset.Card
import Mathlib.Logic.Relation

/-!
# Streams and events

A host issues commands to the streams of a device. The commands of one stream run one after the
other, those of different streams at the same time; an event recorded on one stream can be waited for
on another, and the host can wait for a stream. An event may be recorded more than once: a wait is for
the last record that the host issued before it.

A command reads and writes buffers. It takes effect on what it found in them when it started, and
until it has finished the buffers it writes may hold anything. When any two commands that conflict
are ordered by the streams and the events, no run has two of them at work at once, and every run
leaves in memory what the commands leave one after the other.
-/

namespace SupraSeal.Streams

/-- Buffers that a command reads and those that it writes. -/
structure Footprint (R : Type*) where
  reads : List R
  writes : List R

/-- A call of the host. -/
inductive Call (K : Type*)
  | launch (stream : ℕ) (c : K)
  | record (event stream : ℕ)
  | wait (event stream : ℕ)
  | sync (stream : ℕ)

variable {K K' L V R X : Type*}

namespace Call

def map (f : K → K') : Call K → Call K'
  | launch s c => launch s (f c)
  | record e s => record e s
  | wait e s => wait e s
  | sync s => sync s

/-- The call is queued on stream `s`. -/
def onStream (s : ℕ) : Call K → Bool
  | launch s' _ | record _ s' | wait _ s' => s' == s
  | sync _ => false

def isRecord (e : ℕ) : Call K → Bool
  | record e' _ => e' == e
  | _ => false

/-- The call is for the device. -/
def isDevice : Call K → Bool
  | sync _ => false
  | _ => true

lemma isDevice_of_onStream {s : ℕ} {c : Call K} (h : c.onStream s = true) : c.isDevice = true := by
  cases c <;> first | rfl | cases h

lemma isDevice_of_isRecord {e : ℕ} {c : Call K} (h : c.isRecord e = true) : c.isDevice = true := by
  cases c <;> first | rfl | cases h

end Call

/-! ### Order of the calls -/

/-- The last call before call `k` with property `p`. -/
def lastOf (p : Call K → Bool) (prog : List (Call K)) (k : ℕ) : Option ℕ :=
  (List.range k).reverse.find? fun j => prog[j]?.any p

/-- The calls that call `k` waits for: the one before it in its stream, and for an event the call
that recorded it. -/
def deps (prog : List (Call K)) (k : ℕ) : List ℕ :=
  match prog[k]? with
  | some (.launch s _) | some (.record _ s) | some (.sync s) =>
    (lastOf (Call.onStream s) prog k).toList
  | some (.wait e s) =>
    (lastOf (Call.onStream s) prog k).toList ++ (lastOf (Call.isRecord e) prog k).toList
  | none => []

/-- Call `j` is ordered before call `k`. -/
def Before (prog : List (Call K)) : ℕ → ℕ → Prop :=
  Relation.TransGen fun j k => j ∈ deps prog k

/-- `Before`, decided by following the dependencies of `k` back. -/
def isBefore (prog : List (Call K)) (j : ℕ) : ℕ → ℕ → Bool
  | 0, _ => false
  | fuel + 1, k => (deps prog k).any fun i => i == j || isBefore prog j fuel i

variable {prog : List (Call K)} {j k : ℕ}

lemma of_lastOf {p : Call K → Bool} (h : lastOf p prog k = some j) :
    j < k ∧ ∃ c, prog[j]? = some c ∧ p c = true := by
  have hmem := List.mem_of_find?_eq_some h
  have hp := List.find?_some h
  rw [List.mem_reverse, List.mem_range] at hmem
  refine ⟨hmem, ?_⟩
  cases hc : prog[j]? with
  | none =>
    rw [hc] at hp
    cases hp
  | some c =>
    rw [hc] at hp
    exact ⟨c, rfl, hp⟩

/-- A call waits for earlier calls to the device. -/
lemma of_mem_deps (h : j ∈ deps prog k) : j < k ∧ ∃ c, prog[j]? = some c ∧ c.isDevice = true := by
  have hstream : ∀ s, j ∈ (lastOf (Call.onStream s) prog k).toList →
      j < k ∧ ∃ c, prog[j]? = some c ∧ c.isDevice = true := by
    intro s hs
    obtain ⟨hlt, c, hc, hp⟩ := of_lastOf (Option.mem_toList.mp hs)
    exact ⟨hlt, c, hc, Call.isDevice_of_onStream hp⟩
  unfold deps at h
  split at h
  · exact hstream _ h
  · exact hstream _ h
  · exact hstream _ h
  · rcases List.mem_append.mp h with h | h
    · exact hstream _ h
    · obtain ⟨hlt, c, hc, hp⟩ := of_lastOf (Option.mem_toList.mp h)
      exact ⟨hlt, c, hc, Call.isDevice_of_isRecord hp⟩
  · cases h

lemma before_of_isBefore {fuel : ℕ} (h : isBefore prog j fuel k = true) : Before prog j k := by
  induction fuel generalizing k with
  | zero => cases h
  | succ fuel ih =>
    rw [isBefore, List.any_eq_true] at h
    obtain ⟨i, hi, h⟩ := h
    rcases Bool.or_eq_true_iff.mp h with h | h
    · rw [← beq_iff_eq.mp h]
      exact .single hi
    · exact (ih h).tail hi

/-- Calls `j` and `k` use a buffer that one of them writes. -/
def Conflict (prog : List (Call (Footprint R))) (j k : ℕ) : Prop :=
  match prog[j]?, prog[k]? with
  | some (.launch _ c), some (.launch _ d) =>
    (∃ r ∈ c.writes, r ∈ d.reads ∨ r ∈ d.writes) ∨ ∃ r ∈ d.writes, r ∈ c.reads
  | _, _ => False

instance [DecidableEq R] (prog : List (Call (Footprint R))) (j k : ℕ) :
    Decidable (Conflict prog j k) := by
  unfold Conflict
  split <;> infer_instance

lemma Conflict.symm {prog : List (Call (Footprint R))} (h : Conflict prog j k) :
    Conflict prog k j := by
  unfold Conflict at *
  split at h
  · next st c st' d hj hk =>
    simp only [hj, hk]
    rcases h with ⟨r, hc, hd | hd⟩ | ⟨r, hd, hc⟩
    · exact .inr ⟨r, hc, hd⟩
    · exact .inl ⟨r, hd, .inr hc⟩
    · exact .inl ⟨r, hd, .inl hc⟩
  · exact h.elim

/-- Conflicting calls are ordered. -/
def Ordered (prog : List (Call (Footprint R))) : Prop :=
  ∀ j k, j < k → Conflict prog j k → Before prog j k

lemma ordered_of_isBefore {prog : List (Call (Footprint R))}
    (h : ∀ k < prog.length, ∀ j < k, Conflict prog j k → isBefore prog j k k = true) :
    Ordered prog := by
  intro j k hjk hc
  refine before_of_isBefore (h k ?_ j hjk hc)
  by_contra hge
  rw [Conflict, List.getElem?_eq_none (not_lt.mp hge)] at hc
  split at hc
  · next hk => cases hk
  · exact hc

/-! ### Runs -/

/-- What the commands do: `exec c x m` is the memory that command `c` leaves where it found `m`, when
its threads run as `x` says; `run` is the same for all of these. -/
structure Device (K L V R X : Type*) where
  region : L → R
  footprint : K → Footprint R
  exec : K → X → (L → V) → Option (L → V)
  run : K → (L → V) → L → V
  exec_isSome : ∀ c m, ∃ x, (exec c x m).isSome = true
  exec_eq : ∀ {c x m m'}, exec c x m = some m' → ∀ l, region l ∈ (footprint c).writes →
    m' l = run c m l
  run_congr : ∀ {c m m'}, (∀ l, region l ∈ (footprint c).reads → m l = m' l) →
    ∀ l, region l ∈ (footprint c).writes → run c m l = run c m' l
  run_frame : ∀ {c m l}, region l ∉ (footprint c).writes → run c m l = m l

/-- The calls the host has made, the calls that the device has started and finished, the memory, and
what each command found there when it started. -/
structure State (L V : Type*) where
  issued : ℕ
  started : Finset ℕ
  finished : Finset ℕ
  mem : L → V
  found : ℕ → L → V

def State.init (m : L → V) : State L V := ⟨0, ∅, ∅, m, fun _ => m⟩

inductive Action (L V X : Type*)
  | issue
  | start (k : ℕ)
  /-- Call `k` finishes; for a command, with the order `x` of its threads. -/
  | finish (k : ℕ) (x : Option X)
  /-- Command `k` is at work on its buffers. -/
  | scribble (k : ℕ) (l : L) (v : V)

variable (D : Device K L V R X) (prog : List (Call K))

/-- Buffers that call `k` writes. -/
def writes (k : ℕ) : List R :=
  match prog[k]? with
  | some (.launch _ c) => (D.footprint c).writes
  | _ => []

/-- Buffers that call `k` reads. -/
def reads (k : ℕ) : List R :=
  match prog[k]? with
  | some (.launch _ c) => (D.footprint c).reads
  | _ => []

/-- The memory that a call leaves on its own. -/
def perform (c : Call K) (m : L → V) : L → V :=
  match c with
  | .launch _ c => D.run c m
  | _ => m

/-- The memory that call `k` leaves on its own. -/
def runCall (k : ℕ) (m : L → V) : L → V :=
  match prog[k]? with
  | some c => perform D c m
  | none => m

/-- The memory that the first `k` calls leave one after the other. -/
def runCalls (k : ℕ) (m : L → V) : L → V :=
  (List.range k).foldl (fun m j => runCall D prog j m) m

/-- The calls by their buffers. -/
def schedule : List (Call (Footprint R)) := prog.map (Call.map D.footprint)

/-- Call `k` is at work. -/
def State.Running (s : State L V) (k : ℕ) : Prop := k ∈ s.started ∧ k ∉ s.finished

instance (s : State L V) (k : ℕ) : Decidable (s.Running k) := by
  unfold State.Running
  infer_instance

/-- Calls made, started and finished. -/
def State.progress (s : State L V) : ℕ := s.issued + s.started.card + s.finished.card

variable {D prog} {s s' : State L V} {m : L → V} {r : R} {l : L}

lemma mem_writes : r ∈ writes D prog k ↔
    ∃ st c, prog[k]? = some (.launch st c) ∧ r ∈ (D.footprint c).writes := by
  rw [writes]
  split
  · next st c h => simp [h]
  · next h =>
    simp only [List.not_mem_nil, false_iff]
    rintro ⟨st, c, hc, -⟩
    exact h st c hc

lemma mem_reads : r ∈ reads D prog k ↔
    ∃ st c, prog[k]? = some (.launch st c) ∧ r ∈ (D.footprint c).reads := by
  rw [reads]
  split
  · next st c h => simp [h]
  · next h =>
    simp only [List.not_mem_nil, false_iff]
    rintro ⟨st, c, hc, -⟩
    exact h st c hc

lemma runCalls_succ (k : ℕ) (m : L → V) :
    runCalls D prog (k + 1) m = runCall D prog k (runCalls D prog k m) := by
  rw [runCalls, List.range_succ, List.foldl_append]
  rfl

lemma runCalls_length (m : L → V) :
    runCalls D prog prog.length m = prog.foldl (fun m c => perform D c m) m := by
  have htake : ∀ k ≤ prog.length,
      runCalls D prog k m = (prog.take k).foldl (fun m c => perform D c m) m := by
    intro k
    induction k with
    | zero =>
      intro _
      rfl
    | succ k ih =>
      intro hk
      rw [runCalls_succ, ih (Nat.le_of_succ_le hk), List.take_add_one, List.foldl_append, runCall,
        List.getElem?_eq_getElem hk]
      rfl
  rw [htake _ le_rfl, List.take_length]

lemma runCall_frame (h : D.region l ∉ writes D prog k) : runCall D prog k m l = m l := by
  rw [runCall]
  cases hc : prog[k]? with
  | none => rfl
  | some c =>
    cases c with
    | launch st c => exact D.run_frame fun hl => h (mem_writes.mpr ⟨st, c, hc, hl⟩)
    | _ => rfl

/-- Calls that do not write a location do not matter for it. -/
lemma runCalls_eq (hjk : j ≤ k) (h : ∀ i, j ≤ i → i < k → D.region l ∉ writes D prog i) :
    runCalls D prog k m l = runCalls D prog j m l := by
  induction k, hjk using Nat.le_induction with
  | base => rfl
  | succ k hjk ih =>
    rw [runCalls_succ, runCall_frame (h k hjk (Nat.lt_succ_self k))]
    exact ih fun i hi hik => h i hi (hik.trans (Nat.lt_succ_self k))

lemma conflict_of_writes (hj : r ∈ writes D prog j)
    (hk : r ∈ reads D prog k ∨ r ∈ writes D prog k) : Conflict (schedule D prog) j k := by
  obtain ⟨st, c, hc, hj⟩ := mem_writes.mp hj
  obtain ⟨st', d, hd, hk⟩ : ∃ st' d, prog[k]? = some (.launch st' d) ∧
      (r ∈ (D.footprint d).reads ∨ r ∈ (D.footprint d).writes) := by
    rcases hk with hk | hk
    · obtain ⟨st', d, hd, hk⟩ := mem_reads.mp hk
      exact ⟨st', d, hd, .inl hk⟩
    · obtain ⟨st', d, hd, hk⟩ := mem_writes.mp hk
      exact ⟨st', d, hd, .inr hk⟩
  simp only [Conflict, schedule, List.getElem?_map, hc, hd, Option.map_some, Call.map]
  exact .inl ⟨r, hj, hk⟩

lemma conflict_of_reads (hj : r ∈ reads D prog j) (hk : r ∈ writes D prog k) :
    Conflict (schedule D prog) j k := by
  obtain ⟨st, c, hc, hj⟩ := mem_reads.mp hj
  obtain ⟨st', d, hd, hk⟩ := mem_writes.mp hk
  simp only [Conflict, schedule, List.getElem?_map, hc, hd, Option.map_some, Call.map]
  exact .inr ⟨r, hk, hj⟩

/-! ### The order does not depend on the commands -/

lemma lastOf_map (f : K → K') {p : Call K → Bool} {p' : Call K' → Bool}
    (h : ∀ c, p' (c.map f) = p c) (k : ℕ) :
    lastOf p' (prog.map (Call.map f)) k = lastOf p prog k := by
  rw [lastOf, lastOf]
  congr 1
  funext j
  rw [List.getElem?_map]
  cases prog[j]? with
  | none => rfl
  | some c => exact h c

lemma deps_map (f : K → K') (k : ℕ) : deps (prog.map (Call.map f)) k = deps prog k := by
  have hstream : ∀ s, lastOf (Call.onStream s) (prog.map (Call.map f)) k =
      lastOf (Call.onStream s) prog k := fun s => lastOf_map f (fun c => by cases c <;> rfl) k
  have hrecord : ∀ e, lastOf (Call.isRecord e) (prog.map (Call.map f)) k =
      lastOf (Call.isRecord e) prog k := fun e => lastOf_map f (fun c => by cases c <;> rfl) k
  rw [deps, deps, List.getElem?_map]
  cases prog[k]? with
  | none => rfl
  | some c => cases c <;> simp only [Option.map_some, Call.map, hstream, hrecord]

lemma before_map (f : K → K') : Before (prog.map (Call.map f)) j k ↔ Before prog j k := by
  simp only [Before, deps_map]

/-! ### The invariant -/

/-- The invariant of a run from memory `m`. A location that is not written any more, after call `k`
at the latest, holds what the first `k` calls leave there. -/
structure Inv (D : Device K L V R X) (prog : List (Call K)) (m : L → V) (s : State L V) : Prop where
  issued : s.issued ≤ prog.length
  started : ∀ k ∈ s.started, k < s.issued ∧ prog[k]?.any Call.isDevice = true
  finished : s.finished ⊆ s.started
  deps : ∀ k ∈ s.started, ∀ j ∈ deps prog k, j ∈ s.finished
  synced : ∀ k < s.issued, ∀ st, prog[k]? = some (.sync st) → ∀ j ∈ Streams.deps prog k,
    j ∈ s.finished
  mem : ∀ l k, (∀ j < k, D.region l ∈ writes D prog j → j ∈ s.finished) →
    (∀ j, k ≤ j → D.region l ∈ writes D prog j → j ∉ s.started) →
    s.mem l = runCalls D prog k m l
  found : ∀ k, s.Running k → ∀ l, D.region l ∈ reads D prog k → s.found k l = runCalls D prog k m l

namespace Inv

lemma init (m : L → V) : Inv D prog m (State.init m) where
  issued := Nat.zero_le _
  started := by simp [State.init]
  finished := Finset.Subset.refl _
  deps := by simp [State.init]
  synced := by simp [State.init]
  mem := by
    intro l k hfin _
    refine (runCalls_eq (D := D) (Nat.zero_le k) fun i _ hik hw => ?_).symm
    exact absurd (hfin i hik hw) (Finset.notMem_empty i)
  found := by
    rintro k ⟨hk, -⟩
    exact absurd hk (Finset.notMem_empty k)

/-- What a call is ordered after has finished when it starts. -/
lemma finished_of_before (hi : Inv D prog m s) (hb : Before prog j k) (hk : k ∈ s.started) :
    j ∈ s.finished := by
  induction hb using Relation.TransGen.head_induction_on with
  | single h => exact hi.deps k hk _ h
  | head h _ ih => exact hi.deps _ (hi.finished ih) _ h

/-- No two conflicting calls are at work. -/
lemma not_conflict (ho : Ordered (schedule D prog)) (hi : Inv D prog m s) (hj : s.Running j)
    (hk : s.Running k) (hjk : j < k) : ¬Conflict (schedule D prog) j k := by
  intro hc
  exact hj.2 (hi.finished_of_before ((before_map D.footprint).mp (ho j k hjk hc)) hk.1)

lemma issue (hi : Inv D prog m s) (hlt : s.issued < prog.length)
    (hsync : ∀ st, prog[s.issued]? = some (.sync st) → ∀ j ∈ Streams.deps prog s.issued,
      j ∈ s.finished) : Inv D prog m { s with issued := s.issued + 1 } where
  issued := hlt
  started k hk := ⟨(hi.started k hk).1.trans (Nat.lt_succ_self _), (hi.started k hk).2⟩
  finished := hi.finished
  deps := hi.deps
  synced k hk st hst := by
    rcases Nat.lt_succ_iff_lt_or_eq.mp hk with hk | rfl
    · exact hi.synced k hk st hst
    · exact hsync st hst
  mem := hi.mem
  found := hi.found

/-- Nobody writes what a call uses when it starts, and everything before it is there. -/
lemma mem_of_start (ho : Ordered (schedule D prog)) (hi : Inv D prog m s) (hk : k ∉ s.started)
    (hdeps : ∀ j ∈ Streams.deps prog k, j ∈ s.finished) (hl : D.region l ∈ reads D prog k) :
    s.mem l = runCalls D prog k m l := by
  have hbefore : ∀ j, Before prog j k → j ∈ s.finished := by
    intro j hb
    rcases Relation.TransGen.tail'_iff.mp hb with ⟨i, hji, hik⟩
    have hfin := hdeps i hik
    rcases Relation.reflTransGen_iff_eq_or_transGen.mp hji with rfl | hji
    · exact hfin
    · exact hi.finished_of_before hji (hi.finished hfin)
  refine hi.mem l k (fun j hj hw => hbefore j ?_) (fun j hj hw hs => ?_)
  · exact (before_map D.footprint).mp (ho j k hj (conflict_of_writes hw (.inl hl)))
  · rcases Nat.eq_or_lt_of_le hj with rfl | hj
    · exact hk hs
    · have hb := ho k j hj (conflict_of_reads hl hw)
      exact hk (hi.finished (hi.finished_of_before ((before_map D.footprint).mp hb) hs))

lemma start (ho : Ordered (schedule D prog)) (hi : Inv D prog m s) (hlt : k < s.issued)
    (hk : k ∉ s.started) (hdevice : prog[k]?.any Call.isDevice = true)
    (hdeps : ∀ j ∈ Streams.deps prog k, j ∈ s.finished) :
    Inv D prog m { s with
      started := insert k s.started, found := Function.update s.found k s.mem } where
  issued := hi.issued
  started j hj := by
    rcases Finset.mem_insert.mp hj with rfl | hj
    · exact ⟨hlt, hdevice⟩
    · exact hi.started j hj
  finished := hi.finished.trans (Finset.subset_insert _ _)
  deps j hj := by
    rcases Finset.mem_insert.mp hj with rfl | hj
    · exact hdeps
    · exact hi.deps j hj
  synced := hi.synced
  mem l i hfin hwrite :=
    hi.mem l i hfin fun j hj hw hs => hwrite j hj hw (Finset.mem_insert_of_mem hs)
  found := by
    rintro j ⟨hj, hj'⟩ l hl
    show Function.update s.found k s.mem j l = _
    by_cases hjk : j = k
    · subst hjk
      rw [Function.update_self]
      exact hi.mem_of_start ho hk hdeps hl
    · rw [Function.update_of_ne hjk]
      exact hi.found j ⟨(Finset.mem_insert.mp hj).resolve_left hjk, hj'⟩ l hl

/-- A call finishes: it leaves in its buffers what it leaves after the calls before it. -/
lemma finish (ho : Ordered (schedule D prog)) (hi : Inv D prog m s) (hk : s.Running k)
    {mem' : L → V} (hwrite : ∀ l, D.region l ∈ writes D prog k → mem' l = runCalls D prog (k + 1) m l)
    (hframe : ∀ l, D.region l ∉ writes D prog k → mem' l = s.mem l) :
    Inv D prog m { s with finished := insert k s.finished, mem := mem' } where
  issued := hi.issued
  started := hi.started
  finished := Finset.insert_subset hk.1 hi.finished
  deps j hj i hij := Finset.mem_insert_of_mem (hi.deps j hj i hij)
  synced j hj st hst i hij := Finset.mem_insert_of_mem (hi.synced j hj st hst i hij)
  mem := by
    intro l i hfin hnew
    have hfin : ∀ j < i, D.region l ∈ writes D prog j → j = k ∨ j ∈ s.finished :=
      fun j hj hw => Finset.mem_insert.mp (hfin j hj hw)
    show mem' l = _
    by_cases hl : D.region l ∈ writes D prog k
    · have hki : k < i := by
        by_contra hik
        exact hnew k (not_lt.mp hik) hl hk.1
      rw [hwrite l hl]
      -- a later call that writes the location would have waited for this one
      refine (runCalls_eq hki fun j hj hji hw => ?_).symm
      have hjs := (hfin j hji hw).resolve_left (Nat.ne_of_gt hj)
      have hb := ho k j hj (conflict_of_writes hl (.inr hw))
      exact hk.2 (hi.finished_of_before ((before_map D.footprint).mp hb) (hi.finished hjs))
    · rw [hframe l hl]
      refine hi.mem l i (fun j hj hw => ?_) hnew
      refine (hfin j hj hw).resolve_left ?_
      rintro rfl
      exact hl hw
  found j hj := hi.found j ⟨hj.1, fun h => hj.2 (Finset.mem_insert_of_mem h)⟩

lemma scribble (hi : Inv D prog m s) (hk : s.Running k) (hl : D.region l ∈ writes D prog k)
    {mem' : L → V} (hframe : ∀ l', l' ≠ l → mem' l' = s.mem l') :
    Inv D prog m { s with mem := mem' } where
  issued := hi.issued
  started := hi.started
  finished := hi.finished
  deps := hi.deps
  synced := hi.synced
  mem := by
    intro l' i hfin hnew
    show mem' l' = _
    by_cases h : l' = l
    · -- the call at work is neither before nor after the cut
      subst h
      rcases Nat.lt_or_ge k i with hki | hik
      · exact absurd (hfin k hki hl) hk.2
      · exact absurd hk.1 (hnew k hik hl)
    · rw [hframe l' h]
      exact hi.mem l' i hfin hnew
  found := hi.found

/-- What is ordered before a call that waits for its stream has finished when the host goes on. -/
lemma finished_of_synced (hi : Inv D prog m s) (hk : k < s.issued) {st : ℕ}
    (hst : prog[k]? = some (.sync st)) (hb : Before prog j k) : j ∈ s.finished := by
  obtain ⟨i, hji, hik⟩ := Relation.TransGen.tail'_iff.mp hb
  have hfin := hi.synced k hk st hst i hik
  rcases Relation.reflTransGen_iff_eq_or_transGen.mp hji with rfl | hji
  · exact hfin
  · exact hi.finished_of_before hji (hi.finished hfin)

lemma progress_le (hi : Inv D prog m s) : s.progress ≤ 3 * prog.length := by
  have hstarted : s.started ⊆ Finset.range prog.length := fun k hk =>
    Finset.mem_range.mpr ((hi.started k hk).1.trans_le hi.issued)
  have hcard := Finset.card_le_card hstarted
  have hcard' := Finset.card_le_card hi.finished
  have hissued := hi.issued
  rw [Finset.card_range] at hcard
  rw [State.progress]
  omega

end Inv

/-! ### Steps -/

section Step

variable [DecidableEq R] [DecidableEq L]

/-- One step of the host or of the device. -/
def step (D : Device K L V R X) (prog : List (Call K)) (s : State L V) : Action L V X → Option (State L V)
  | .issue =>
    match prog[s.issued]? with
    | some (.sync _) =>
      if ∀ j ∈ deps prog s.issued, j ∈ s.finished then some { s with issued := s.issued + 1 }
      else none
    | some _ => some { s with issued := s.issued + 1 }
    | none => none
  | .start k =>
    if k < s.issued ∧ k ∉ s.started ∧ prog[k]?.any Call.isDevice ∧
        ∀ j ∈ deps prog k, j ∈ s.finished then
      some { s with
        started := insert k s.started
        found := Function.update s.found k s.mem }
    else none
  | .finish k x =>
    if s.Running k then
      match prog[k]? with
      | some (.launch _ c) =>
        match x.bind fun x => D.exec c x (s.found k) with
        | some m => some { s with
            finished := insert k s.finished
            mem := fun l => if D.region l ∈ (D.footprint c).writes then m l else s.mem l }
        | none => none
      | _ => some { s with finished := insert k s.finished }
    else none
  | .scribble k l v =>
    if s.Running k ∧ D.region l ∈ writes D prog k then
      some { s with mem := Function.update s.mem l v }
    else none

/-- Every step keeps the invariant. -/
theorem Inv.step (ho : Ordered (schedule D prog)) (hi : Inv D prog m s) {a : Action L V X}
    (h : Streams.step D prog s a = some s') : Inv D prog m s' := by
  cases a with
  | issue =>
    simp only [Streams.step] at h
    split at h
    · next st hst =>
      split_ifs at h with hdeps
      cases h
      exact hi.issue (List.getElem?_eq_some_iff.mp hst).1 fun _ _ => hdeps
    · next c hne hc =>
      cases h
      refine hi.issue (List.getElem?_eq_some_iff.mp hc).1 fun st hst => ?_
      rw [hc] at hst
      cases hst
      exact absurd rfl (hne st)
    · cases h
  | start k =>
    simp only [Streams.step] at h
    split_ifs at h with hk
    cases h
    exact hi.start ho hk.1 hk.2.1 hk.2.2.1 hk.2.2.2
  | finish k x =>
    simp only [Streams.step] at h
    split_ifs at h with hk
    split at h
    · next st c hc =>
      split at h
      · next m' hm' =>
        cases h
        obtain ⟨x, -, hm'⟩ := Option.bind_eq_some_iff.mp hm'
        have hw : writes D prog k = (D.footprint c).writes := by
          rw [writes, hc]
        have hr : reads D prog k = (D.footprint c).reads := by
          rw [reads, hc]
        refine hi.finish ho hk (fun l hl => ?_) (fun l hl => ?_)
        · rw [hw] at hl
          rw [if_pos hl, D.exec_eq hm' l hl, runCalls_succ, runCall, hc]
          exact D.run_congr (fun l hl => hi.found k hk l (hr ▸ hl)) l hl
        · rw [hw] at hl
          exact if_neg hl
      · cases h
    · next hne =>
      cases h
      have hw : writes D prog k = [] := by
        rw [writes]
        split
        · next st c hc => exact absurd hc (hne st c)
        · rfl
      refine hi.finish ho hk (fun l hl => ?_) (fun _ _ => rfl)
      rw [hw] at hl
      cases hl
  | scribble k l v =>
    simp only [Streams.step] at h
    split_ifs at h with hk
    cases h
    exact hi.scribble hk.1 hk.2 fun l' hl' => Function.update_of_ne hl' ..

theorem reachable_inv (ho : Ordered (schedule D prog))
    (h : Transition.Reachable (step D prog) (State.init m) s) : Inv D prog m s :=
  h.invariant (.init m) fun _ _ _ hi hs => hi.step ho hs

/-! ### Results -/

/-- No run has two conflicting calls at work. -/
theorem no_conflict (ho : Ordered (schedule D prog))
    (h : Transition.Reachable (step D prog) (State.init m) s) (hj : s.Running j) (hk : s.Running k)
    (hjk : j ≠ k) : ¬Conflict (schedule D prog) j k := by
  intro hc
  rcases Nat.lt_or_gt_of_ne hjk with hlt | hlt
  · exact (reachable_inv ho h).not_conflict ho hj hk hlt hc
  · exact (reachable_inv ho h).not_conflict ho hk hj hlt hc.symm

/-- When the calls that write a location have finished, it holds what the calls leave there one
after the other. -/
theorem mem_eq (ho : Ordered (schedule D prog))
    (h : Transition.Reachable (step D prog) (State.init m) s) {l : L}
    (hfin : ∀ j < prog.length, D.region l ∈ writes D prog j → j ∈ s.finished) :
    s.mem l = runCalls D prog prog.length m l := by
  have hi := reachable_inv ho h
  refine hi.mem l prog.length hfin fun j hj _ hs => ?_
  have hlt := (hi.started j hs).1.trans_le hi.issued
  omega

lemma progress_le_of_step {a : Action L V X} (h : step D prog s a = some s') :
    s.progress ≤ s'.progress := by
  cases a with
  | issue =>
    simp only [step] at h
    split at h
    · split_ifs at h
      cases h
      simp only [State.progress]
      omega
    · cases h
      simp only [State.progress]
      omega
    · cases h
  | start k =>
    simp only [step] at h
    split_ifs at h
    cases h
    have := Finset.card_le_card (Finset.subset_insert k s.started)
    simp only [State.progress]
    omega
  | finish k x =>
    have := Finset.card_le_card (Finset.subset_insert k s.finished)
    simp only [step] at h
    split_ifs at h
    split at h
    · split at h <;> cases h
      simp only [State.progress]
      omega
    · cases h
      simp only [State.progress]
      omega
  | scribble k l v =>
    simp only [step] at h
    split_ifs at h
    cases h
    exact le_rfl

/-- As long as the host is not through, some call can be made, started or finished. -/
lemma exists_progress (hlt : s.issued < prog.length) :
    ∃ (a : Action L V X) (s' : State L V), Streams.step D prog s a = some s' ∧
      s.progress < s'.progress := by
  by_cases hopen : ∃ k, k < s.issued ∧ prog[k]?.any Call.isDevice = true ∧ k ∉ s.finished
  · -- the first unfinished call waits for nothing
    classical
    obtain ⟨hk, hdevice, hfin⟩ := Nat.find_spec hopen
    have hmin := fun j hj => Nat.find_min hopen (m := j) hj
    generalize Nat.find hopen = k at hk hdevice hfin hmin
    by_cases hs : k ∈ s.started
    · have hrun : s.Running k := ⟨hs, hfin⟩
      have hcard := Finset.card_insert_of_notMem hfin
      cases hc : prog[k]? with
      | none =>
        rw [hc] at hdevice
        cases hdevice
      | some c =>
        cases c with
        | launch st c =>
          obtain ⟨x, hx⟩ := D.exec_isSome c (s.found k)
          obtain ⟨mem', hmem'⟩ := Option.isSome_iff_exists.mp hx
          refine ⟨.finish k (some x), _, by
            simp only [Streams.step, if_pos hrun, hc, Option.bind_some, hmem']
            rfl, ?_⟩
          simp only [State.progress]
          omega
        | _ =>
          refine ⟨.finish k none, _, by
            simp only [Streams.step, if_pos hrun, hc]
            rfl, ?_⟩
          simp only [State.progress]
          omega
    · have hcard := Finset.card_insert_of_notMem hs
      have hdeps : ∀ j ∈ Streams.deps prog k, j ∈ s.finished := by
        intro j hj
        obtain ⟨hjk, c, hc, hcd⟩ := of_mem_deps hj
        by_contra hjf
        refine hmin j hjk ⟨hjk.trans hk, ?_, hjf⟩
        rw [hc]
        exact hcd
      refine ⟨.start k, _, if_pos ⟨hk, hs, hdevice, hdeps⟩, ?_⟩
      simp only [State.progress]
      omega
  · push Not at hopen
    have hdeps : ∀ j ∈ Streams.deps prog s.issued, j ∈ s.finished := by
      intro j hj
      obtain ⟨hjk, c, hc, hcd⟩ := of_mem_deps hj
      refine hopen j hjk ?_
      rw [hc]
      exact hcd
    obtain ⟨c, hc⟩ : ∃ c, prog[s.issued]? = some c := ⟨_, List.getElem?_eq_getElem hlt⟩
    refine ⟨.issue, { s with issued := s.issued + 1 }, ?_, ?_⟩
    · cases c <;> simp only [Streams.step, hc]
      exact if_pos hdeps
    · simp only [State.progress]
      omega

/-- From every state of a run, the host can get through its calls. -/
theorem exists_through (ho : Ordered (schedule D prog))
    (h : Transition.Reachable (step D prog) (State.init m) s) :
    ∃ s', Transition.Reachable (step D prog) s s' ∧ s'.issued = prog.length := by
  have hbound : ∀ s₁, Transition.Reachable (step D prog) s s₁ →
      (s₁.progress : ℤ) ≤ (3 * prog.length : ℕ) := fun s₁ hs₁ => by
    exact_mod_cast (reachable_inv ho (h.trans hs₁)).progress_le
  obtain ⟨s', hs', hsettled⟩ : ∃ s', Transition.Reachable (step D prog) s s' ∧ ∀ s₁ a s₂,
      Transition.Reachable (step D prog) s' s₁ → True → step D prog s₁ a = some s₂ →
        (s₂.progress : ℤ) = s₁.progress :=
    Transition.exists_settled
      (fun s₁ a s₂ _ _ hstep => by exact_mod_cast progress_le_of_step hstep) hbound
  have hi := reachable_inv ho (h.trans hs')
  refine ⟨s', hs', ?_⟩
  by_contra hne
  obtain ⟨a, s'', hstep, hlt⟩ : ∃ (a : Action L V X) (s'' : State L V),
      step D prog s' a = some s'' ∧ s'.progress < s''.progress :=
    exists_progress (lt_of_le_of_ne hi.issued hne)
  have heq := hsettled s' a s'' .start trivial hstep
  omega

end Step

end SupraSeal.Streams
