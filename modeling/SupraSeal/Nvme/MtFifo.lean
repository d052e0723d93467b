import SupraSeal.Lib.RingWindow
import SupraSeal.Lib.Transition

/-!
# Lock free fifos

`mt_fifo_t` of `nvme/ring_t.hpp`, with one thread that enqueues and one that dequeues. A call is a
sequence of steps that access shared memory once each: loads and stores of `head` and `tail`, which are
atomic, and of a slot. What a call has loaded may be stale when it is used.
-/

namespace SupraSeal

open RingWindow Transition

/-- `mt_fifo_t<T>`. -/
structure MtFifo (α : Type*) where
  store : ℕ → α
  storeSize : ℕ
  head : ℕ
  tail : ℕ

namespace MtFifo

variable {α : Type*}

def create (null : α) (count : ℕ) : MtFifo α := ⟨fun _ => null, count + 1, 0, 0⟩

variable (f : MtFifo α)

/-- `fill`, with the pointers to the allocated elements. -/
def fill (contents : ℕ → α) : MtFifo α :=
  { f with
    store := fun i => if i < f.storeSize - 1 then contents i else f.store i
    head := f.storeSize - 1 }

def capacity : ℕ := f.storeSize - 1

/-- The index that is stored to `head` or `tail` after `i`. -/
def next (i : ℕ) : ℕ := if i = f.storeSize - 1 then 0 else i + 1

/-- What `size` computes from the values that it has loaded. -/
def size (h t : ℕ) : ℕ := if h ≥ t then h - t else f.storeSize + h - t

/-! ### Threads -/

/-- Where the thread that enqueues is. -/
inductive Producer (α : Type*)
  | idle
  /-- `size` before its loads, and between them. -/
  | size
  | sizeHead (h : ℕ)
  /-- The assertion of `enqueue`. -/
  | assert (obj : α)
  | assertHead (obj : α) (h : ℕ)
  | failed
  /-- `enqueue_nocheck`, or `enqueue` after its assertion. -/
  | enqueue (obj : α)
  | loaded (obj : α) (h : ℕ)
  | stored (obj : α) (h : ℕ)

/-- Where the thread that dequeues is. -/
inductive Consumer (α : Type*)
  | idle
  | size
  | sizeHead (h : ℕ)
  /-- `dequeue`, which first calls `size`. -/
  | dequeue
  | dequeueHead (h : ℕ)
  | nonempty
  | loadedTail (t : ℕ)
  | loaded (t : ℕ) (obj : α)

/-- The fifo with its threads. `freeRead` is what `free_count` last returned to the producer, less the
elements enqueued since; `sizeRead` is what `size` last returned to the consumer, less those dequeued
since. -/
structure State (α : Type*) where
  fifo : MtFifo α
  producer : Producer α
  consumer : Consumer α
  freeRead : ℕ
  sizeRead : ℕ
  enqueued : List α
  dequeued : List α

/-- A call of one of the threads, or its next step. -/
inductive Action (α : Type*)
  | producerSize
  | enqueue (obj : α)
  | enqueueNocheck (obj : α)
  | producer
  | consumerSize
  | dequeue
  | consumer

namespace State

variable (s : State α)

/-- A call of the producer; it enqueues only what `is_full` or `free_count` has told it there is room
for. -/
def callProducer (p : Producer α) (room : Bool) : Option (State α) :=
  match s.producer with
  | .idle => if room ∨ 0 < s.freeRead then some { s with producer := p } else none
  | _ => none

def callConsumer (c : Consumer α) : Option (State α) :=
  match s.consumer with
  | .idle => some { s with consumer := c }
  | _ => none

def stepProducer : Option (State α) :=
  match s.producer with
  | .idle => none
  | .failed => none
  | .size => some { s with producer := .sizeHead s.fifo.head }
  | .sizeHead h =>
    some { s with
      producer := .idle
      freeRead := s.fifo.capacity - s.fifo.size h s.fifo.tail }
  | .assert obj => some { s with producer := .assertHead obj s.fifo.head }
  | .assertHead obj h =>
    some { s with
      producer := if s.fifo.size h s.fifo.tail = s.fifo.storeSize - 1 then .failed else .enqueue obj }
  | .enqueue obj => some { s with producer := .loaded obj s.fifo.head }
  | .loaded obj h =>
    some { s with
      fifo := { s.fifo with store := Function.update s.fifo.store h obj }
      producer := .stored obj h }
  | .stored obj h =>
    some { s with
      fifo := { s.fifo with head := s.fifo.next h }
      producer := .idle
      freeRead := s.freeRead - 1
      enqueued := s.enqueued ++ [obj] }

def stepConsumer : Option (State α) :=
  match s.consumer with
  | .idle => none
  | .size => some { s with consumer := .sizeHead s.fifo.head }
  | .sizeHead h =>
    some { s with
      consumer := .idle
      sizeRead := s.fifo.size h s.fifo.tail }
  | .dequeue => some { s with consumer := .dequeueHead s.fifo.head }
  | .dequeueHead h =>
    -- `nullptr` for an empty fifo
    some { s with consumer := if s.fifo.size h s.fifo.tail ≠ 0 then .nonempty else .idle }
  | .nonempty => some { s with consumer := .loadedTail s.fifo.tail }
  | .loadedTail t => some { s with consumer := .loaded t (s.fifo.store t) }
  | .loaded t obj =>
    some { s with
      fifo := { s.fifo with tail := s.fifo.next t }
      consumer := .idle
      sizeRead := s.sizeRead - 1
      dequeued := s.dequeued ++ [obj] }

def step : Action α → Option (State α)
  | .producerSize => s.callProducer .size true
  | .enqueue obj => s.callProducer (.assert obj) false
  | .enqueueNocheck obj => s.callProducer (.enqueue obj) false
  | .producer => s.stepProducer
  | .consumerSize => s.callConsumer .size
  | .dequeue => s.callConsumer .dequeue
  | .consumer => s.stepConsumer

end State

/-- The threads start with a new fifo, or with one that was filled. -/
inductive IsStart (cap : ℕ) : State α → Prop
  | created (null : α) : IsStart cap ⟨create null cap, .idle, .idle, 0, 0, [], []⟩
  | filled (null : α) (contents : ℕ → α) :
      IsStart cap ⟨(create null cap).fill contents, .idle, .idle, 0, 0,
        (List.range cap).map contents, []⟩

/-! ### Indices as counters -/

variable {f} {s s' : State α} {t h n : ℕ}

/-- `size` of loaded indices whose elements are less than the store apart. -/
lemma size_mod (hth : t ≤ h) (hlt : h < t + f.storeSize) :
    f.size (h % f.storeSize) (t % f.storeSize) = h - t :=
  Wrap.sub_mod_of_lt hth hlt

lemma next_mod (hpos : 0 < f.storeSize) (x : ℕ) :
    f.next (x % f.storeSize) = (x + 1) % f.storeSize :=
  Wrap.succ_mod hpos

/-- The elements that the fifo holds, in order. -/
def contents (f : MtFifo α) : List α :=
  window f.store f.storeSize f.tail (f.tail + f.size f.head f.tail)

/-- The store never grows. -/
lemma step_storeSize {a : Action α} (hstep : s.step a = some s') :
    s'.fifo.storeSize = s.fifo.storeSize := by
  have hcallProducer : ∀ p room, s.callProducer p room = some s' →
      s'.fifo.storeSize = s.fifo.storeSize := by
    intro p room h
    simp only [State.callProducer] at h
    split at h
    · split at h <;> cases h
      rfl
    · cases h
  have hcallConsumer : ∀ c, s.callConsumer c = some s' → s'.fifo.storeSize = s.fifo.storeSize := by
    intro c h
    simp only [State.callConsumer] at h
    split at h <;> cases h
    rfl
  cases a with
  | producerSize => exact hcallProducer _ _ hstep
  | enqueue obj => exact hcallProducer _ _ hstep
  | enqueueNocheck obj => exact hcallProducer _ _ hstep
  | producer =>
    rw [State.step, State.stepProducer] at hstep
    split at hstep <;> cases hstep <;> rfl
  | consumerSize => exact hcallConsumer _ hstep
  | dequeue => exact hcallConsumer _ hstep
  | consumer =>
    rw [State.step, State.stepConsumer] at hstep
    split at hstep <;> cases hstep <;> rfl

/-! ### The invariant -/

/-- What the producer knows: `head` is its own, and there is room for what it enqueues. -/
def Producer.Knows (f : MtFifo α) (freeRead : ℕ) : Producer α → Prop
  | .idle => True
  | .size => True
  | .sizeHead h => h = f.head
  | .assert _ => 0 < freeRead
  | .assertHead _ h => h = f.head ∧ 0 < freeRead
  | .failed => False
  | .enqueue _ => 0 < freeRead
  | .loaded _ h => h = f.head ∧ 0 < freeRead
  | .stored obj h => h = f.head ∧ 0 < freeRead ∧ f.store h = obj

/-- What the consumer knows: `tail` is its own, and a head that it has loaded was the head while at
most the present elements were enqueued. -/
def Consumer.Knows (f : MtFifo α) (t h : ℕ) : Consumer α → Prop
  | .idle => True
  | .size => True
  | .sizeHead x => ∃ k, t ≤ k ∧ k ≤ h ∧ x = k % f.storeSize
  | .dequeue => True
  | .dequeueHead x => ∃ k, t ≤ k ∧ k ≤ h ∧ x = k % f.storeSize
  | .nonempty => t < h
  | .loadedTail x => x = f.tail ∧ t < h
  | .loaded x obj => x = f.tail ∧ t < h ∧ f.store x = obj

/-- Element `m` of all that were enqueued is in slot `m % storeSize` until it is dequeued. -/
structure Inv (s : State α) (t h : ℕ) : Prop where
  head : s.fifo.head = h % s.fifo.storeSize
  tail : s.fifo.tail = t % s.fifo.storeSize
  freeRead : h + s.freeRead < t + s.fifo.storeSize
  sizeRead : t + s.sizeRead ≤ h
  history : s.enqueued = s.dequeued ++ window s.fifo.store s.fifo.storeSize t h
  producer : s.producer.Knows s.fifo s.freeRead
  consumer : s.consumer.Knows s.fifo t h

namespace Inv

lemma le (hs : Inv s t h) : t ≤ h := (Nat.le_add_right t _).trans hs.sizeRead

lemma lt (hs : Inv s t h) : h < t + s.fifo.storeSize := (Nat.le_add_right h _).trans_lt hs.freeRead

lemma pos (hs : Inv s t h) : 0 < s.fifo.storeSize := by
  have := hs.le
  have := hs.lt
  omega

lemma size_tail (hs : Inv s t h) {k : ℕ} (htk : t ≤ k) (hkh : k ≤ h) :
    s.fifo.size (k % s.fifo.storeSize) s.fifo.tail = k - t := by
  rw [hs.tail]
  exact size_mod htk (hkh.trans_lt hs.lt)

lemma size_head (hs : Inv s t h) : s.fifo.size s.fifo.head s.fifo.tail = h - t := by
  rw [hs.head]
  exact hs.size_tail hs.le le_rfl

/-- The slot of the next element is not the slot of one that is held. -/
lemma head_ne_tail (hs : Inv s t h) (hlt : t < h) : s.fifo.tail ≠ s.fifo.head := by
  rw [hs.head, hs.tail]
  exact Wrap.mod_ne_of_lt hlt hs.lt

/-! ### Steps of the producer -/

/-- The producer has moved on without a store. -/
lemma setProducer (hs : Inv s t h) {p : Producer α} (hp : p.Knows s.fifo s.freeRead) :
    Inv { s with producer := p } t h :=
  ⟨hs.head, hs.tail, hs.freeRead, hs.sizeRead, hs.history, hp, hs.consumer⟩

lemma callProducer (hs : Inv s t h) {p : Producer α} {room : Bool}
    (hp : (room ∨ 0 < s.freeRead) → p.Knows s.fifo s.freeRead)
    (hstep : s.callProducer p room = some s') : Inv s' t h := by
  rw [State.callProducer] at hstep
  split at hstep
  next =>
    split at hstep
    next hroom =>
      cases hstep
      exact hs.setProducer (hp hroom)
    next => cases hstep
  next => cases hstep

/-- A slot is stored. -/
lemma storeSlot (hs : Inv s t h) {obj : α} (hroom : 0 < s.freeRead) :
    Inv { s with
      fifo := { s.fifo with store := Function.update s.fifo.store s.fifo.head obj }
      producer := .stored obj s.fifo.head } t h where
  head := hs.head
  tail := hs.tail
  freeRead := hs.freeRead
  sizeRead := hs.sizeRead
  history := by
    refine hs.history.trans (congrArg (s.dequeued ++ ·) ?_)
    rw [hs.head]
    exact (window_update hs.lt le_rfl obj).symm
  producer := ⟨rfl, hroom, Function.update_self ..⟩
  consumer := by
    have hc := hs.consumer
    cases hcons : s.consumer with
    | loaded x obj' =>
      -- the slot that was loaded is that of an element which is still held
      rw [hcons] at hc
      obtain ⟨rfl, hlt, hobj⟩ := hc
      exact ⟨rfl, hlt, (Function.update_of_ne (hs.head_ne_tail hlt) ..).trans hobj⟩
    | _ =>
      rw [hcons] at hc
      exact hc

/-- An element is enqueued. -/
lemma storeHead (hs : Inv s t h) {obj : α} (hroom : 0 < s.freeRead)
    (hobj : s.fifo.store s.fifo.head = obj) :
    Inv { s with
      fifo := { s.fifo with head := s.fifo.next s.fifo.head }
      producer := .idle
      freeRead := s.freeRead - 1
      enqueued := s.enqueued ++ [obj] } t (h + 1) where
  head := by
    show s.fifo.next s.fifo.head = _
    rw [hs.head, next_mod hs.pos]
  tail := hs.tail
  freeRead := by
    have := hs.freeRead
    show h + 1 + (s.freeRead - 1) < t + s.fifo.storeSize
    omega
  sizeRead := Nat.le_succ_of_le hs.sizeRead
  history := by
    show s.enqueued ++ [obj] = s.dequeued ++ window s.fifo.store s.fifo.storeSize t (h + 1)
    rw [← window_append hs.le (Nat.le_succ h), window_one, ← hs.head, hobj, hs.history,
      List.append_assoc]
  producer := trivial
  consumer := by
    have hc := hs.consumer
    cases hcons : s.consumer with
    | sizeHead x =>
      rw [hcons] at hc
      obtain ⟨k, htk, hkh, hx⟩ := hc
      exact ⟨k, htk, Nat.le_succ_of_le hkh, hx⟩
    | dequeueHead x =>
      rw [hcons] at hc
      obtain ⟨k, htk, hkh, hx⟩ := hc
      exact ⟨k, htk, Nat.le_succ_of_le hkh, hx⟩
    | nonempty =>
      rw [hcons] at hc
      exact Nat.lt_succ_of_lt hc
    | loadedTail x =>
      rw [hcons] at hc
      exact ⟨hc.1, Nat.lt_succ_of_lt hc.2⟩
    | loaded x obj' =>
      rw [hcons] at hc
      exact ⟨hc.1, Nat.lt_succ_of_lt hc.2.1, hc.2.2⟩
    | _ => trivial

lemma stepProducer (hs : Inv s t h) (hstep : s.stepProducer = some s') : ∃ h', Inv s' t h' := by
  have hp := hs.producer
  rw [State.stepProducer] at hstep
  cases hprod : s.producer with
  | idle => simp [hprod] at hstep
  | failed => simp [hprod] at hstep
  | size =>
    simp only [hprod, Option.some.injEq] at hstep
    subst hstep
    exact ⟨h, hs.setProducer rfl⟩
  | sizeHead x =>
    simp only [hprod, Option.some.injEq] at hstep
    rw [hprod] at hp
    subst hstep
    have hx : x = s.fifo.head := hp
    have hlt := hs.lt
    have hle := hs.le
    refine ⟨h, hs.head, hs.tail, ?_, hs.sizeRead, hs.history, trivial, hs.consumer⟩
    show h + (s.fifo.storeSize - 1 - s.fifo.size x s.fifo.tail) < t + s.fifo.storeSize
    rw [hx, hs.size_head]
    omega
  | assert obj =>
    simp only [hprod, Option.some.injEq] at hstep
    rw [hprod] at hp
    subst hstep
    exact ⟨h, hs.setProducer ⟨rfl, hp⟩⟩
  | assertHead obj x =>
    simp only [hprod, Option.some.injEq] at hstep
    rw [hprod] at hp
    obtain ⟨rfl, hroom⟩ := hp
    subst hstep
    -- what is loaded from `tail` now shows at least as much room as before
    have hne : s.fifo.size s.fifo.head s.fifo.tail ≠ s.fifo.storeSize - 1 := by
      have := hs.le
      have := hs.freeRead
      rw [hs.size_head]
      omega
    refine ⟨h, hs.setProducer ?_⟩
    rw [if_neg hne]
    exact hroom
  | enqueue obj =>
    simp only [hprod, Option.some.injEq] at hstep
    rw [hprod] at hp
    subst hstep
    exact ⟨h, hs.setProducer ⟨rfl, hp⟩⟩
  | loaded obj x =>
    simp only [hprod, Option.some.injEq] at hstep
    rw [hprod] at hp
    obtain ⟨rfl, hroom⟩ := hp
    subst hstep
    exact ⟨h, hs.storeSlot hroom⟩
  | stored obj x =>
    simp only [hprod, Option.some.injEq] at hstep
    rw [hprod] at hp
    obtain ⟨rfl, hroom, hobj⟩ := hp
    subst hstep
    exact ⟨h + 1, hs.storeHead hroom hobj⟩

/-! ### Steps of the consumer -/

/-- The consumer has moved on without a store. -/
lemma setConsumer (hs : Inv s t h) {c : Consumer α} (hc : c.Knows s.fifo t h) :
    Inv { s with consumer := c } t h :=
  ⟨hs.head, hs.tail, hs.freeRead, hs.sizeRead, hs.history, hs.producer, hc⟩

lemma callConsumer (hs : Inv s t h) {c : Consumer α} (hc : c.Knows s.fifo t h)
    (hstep : s.callConsumer c = some s') : Inv s' t h := by
  rw [State.callConsumer] at hstep
  split at hstep
  next =>
    cases hstep
    exact hs.setConsumer hc
  next => cases hstep

/-- An element is dequeued. -/
lemma storeTail (hs : Inv s t h) {obj : α} (hlt : t < h) (hobj : s.fifo.store s.fifo.tail = obj) :
    Inv { s with
      fifo := { s.fifo with tail := s.fifo.next s.fifo.tail }
      consumer := .idle
      sizeRead := s.sizeRead - 1
      dequeued := s.dequeued ++ [obj] } (t + 1) h where
  head := hs.head
  tail := by
    show s.fifo.next s.fifo.tail = _
    rw [hs.tail, next_mod hs.pos]
  freeRead := by
    have := hs.freeRead
    show h + s.freeRead < t + 1 + s.fifo.storeSize
    omega
  sizeRead := by
    have := hs.sizeRead
    show t + 1 + (s.sizeRead - 1) ≤ h
    omega
  history := by
    show s.enqueued = s.dequeued ++ [obj] ++ window s.fifo.store s.fifo.storeSize (t + 1) h
    rw [hs.history, window_pop hlt, ← hs.tail, hobj, List.append_assoc]
    rfl
  producer := by
    have hp := hs.producer
    cases hprod : s.producer <;> rw [hprod] at hp <;> exact hp
  consumer := trivial

lemma stepConsumer (hs : Inv s t h) (hstep : s.stepConsumer = some s') : ∃ t', Inv s' t' h := by
  have hc := hs.consumer
  rw [State.stepConsumer] at hstep
  cases hcons : s.consumer with
  | idle => simp [hcons] at hstep
  | size =>
    simp only [hcons, Option.some.injEq] at hstep
    subst hstep
    exact ⟨t, hs.setConsumer ⟨h, hs.le, le_rfl, hs.head⟩⟩
  | sizeHead x =>
    simp only [hcons, Option.some.injEq] at hstep
    rw [hcons] at hc
    obtain ⟨k, htk, hkh, rfl⟩ := hc
    subst hstep
    refine ⟨t, hs.head, hs.tail, hs.freeRead, ?_, hs.history, hs.producer, trivial⟩
    show t + s.fifo.size _ s.fifo.tail ≤ h
    rw [hs.size_tail htk hkh, Nat.add_sub_cancel' htk]
    exact hkh
  | dequeue =>
    simp only [hcons, Option.some.injEq] at hstep
    subst hstep
    exact ⟨t, hs.setConsumer ⟨h, hs.le, le_rfl, hs.head⟩⟩
  | dequeueHead x =>
    simp only [hcons, Option.some.injEq] at hstep
    rw [hcons] at hc
    obtain ⟨k, htk, hkh, rfl⟩ := hc
    subst hstep
    rw [hs.size_tail htk hkh]
    refine ⟨t, hs.setConsumer ?_⟩
    by_cases hne : k - t ≠ 0
    · rw [if_pos hne]
      show t < h
      omega
    · rw [if_neg hne]
      trivial
  | nonempty =>
    simp only [hcons, Option.some.injEq] at hstep
    rw [hcons] at hc
    subst hstep
    exact ⟨t, hs.setConsumer ⟨rfl, hc⟩⟩
  | loadedTail x =>
    simp only [hcons, Option.some.injEq] at hstep
    rw [hcons] at hc
    subst hstep
    exact ⟨t, hs.setConsumer ⟨hc.1, hc.2, rfl⟩⟩
  | loaded x obj =>
    simp only [hcons, Option.some.injEq] at hstep
    rw [hcons] at hc
    obtain ⟨rfl, hlt, hobj⟩ := hc
    subst hstep
    exact ⟨t + 1, hs.storeTail hlt hobj⟩

/-! ### Runs -/

lemma step (hs : Inv s t h) {a : Action α} (hstep : s.step a = some s') :
    ∃ t' h', Inv s' t' h' := by
  cases a with
  | producerSize => exact ⟨t, h, hs.callProducer (p := Producer.size) (fun _ => trivial) hstep⟩
  | enqueue obj =>
    refine ⟨t, h, hs.callProducer (p := Producer.assert obj) (fun hroom => ?_) hstep⟩
    show 0 < s.freeRead
    simpa using hroom
  | enqueueNocheck obj =>
    refine ⟨t, h, hs.callProducer (p := Producer.enqueue obj) (fun hroom => ?_) hstep⟩
    show 0 < s.freeRead
    simpa using hroom
  | producer =>
    obtain ⟨h', hs'⟩ := hs.stepProducer hstep
    exact ⟨t, h', hs'⟩
  | consumerSize => exact ⟨t, h, hs.callConsumer (c := Consumer.size) trivial hstep⟩
  | dequeue => exact ⟨t, h, hs.callConsumer (c := Consumer.dequeue) trivial hstep⟩
  | consumer =>
    obtain ⟨t', hs'⟩ := hs.stepConsumer hstep
    exact ⟨t', h, hs'⟩

end Inv

lemma IsStart.inv {cap : ℕ} (hs : IsStart cap s) : s.fifo.storeSize = cap + 1 ∧ ∃ h, Inv s 0 h := by
  cases hs with
  | created null =>
    refine ⟨rfl, 0, rfl, rfl, ?_, le_rfl, rfl, trivial, trivial⟩
    exact (Nat.succ_pos cap).trans_eq (Nat.zero_add _).symm
  | filled null contents =>
    refine ⟨rfl, cap, (Nat.mod_eq_of_lt (Nat.lt_succ_self cap)).symm, rfl, ?_, Nat.zero_le cap, ?_,
      trivial, trivial⟩
    · exact (Nat.lt_succ_self cap).trans_eq (Nat.zero_add _).symm
    · show (List.range cap).map contents = window _ _ 0 cap
      rw [window, Nat.sub_zero, ← List.range_eq_range']
      refine List.map_congr_left fun i hi => ?_
      have hi : i < cap := List.mem_range.mp hi
      have hmod : i % (cap + 1) = i := Nat.mod_eq_of_lt (Nat.lt_succ_of_lt hi)
      show contents i = if i % (cap + 1) < cap then contents (i % (cap + 1)) else null
      rw [hmod, if_pos hi]

/-- What holds at any time of a fifo of capacity `cap`. -/
structure Correct (cap : ℕ) (s : State α) : Prop where
  head_lt : s.fifo.head < s.fifo.storeSize
  tail_lt : s.fifo.tail < s.fifo.storeSize
  /-- What was enqueued was dequeued or is still held, in order. -/
  history : s.enqueued = s.dequeued ++ s.fifo.contents
  freeRead : s.freeRead + s.fifo.contents.length ≤ cap
  sizeRead : s.sizeRead ≤ s.fifo.contents.length
  assertion : s.producer ≠ .failed
  /-- A slot is not stored and loaded at once. -/
  disjoint : ∀ obj h t, s.producer = .loaded obj h → s.consumer = .loadedTail t → h ≠ t

lemma Inv.correctState (hs : Inv s t h) {cap : ℕ} (hcap : s.fifo.storeSize = cap + 1) : Correct cap s := by
  have hle := hs.le
  have hcontents : s.fifo.contents = window s.fifo.store s.fifo.storeSize t h := by
    rw [contents, hs.size_head, hs.tail, window_mod, Nat.add_sub_cancel' hle]
  have hlen : s.fifo.contents.length = h - t := by rw [hcontents, length_window]
  refine ⟨hs.head ▸ Nat.mod_lt h hs.pos, hs.tail ▸ Nat.mod_lt t hs.pos, ?_, ?_, ?_, ?_, ?_⟩
  · rw [hcontents]
    exact hs.history
  · have := hs.freeRead
    rw [hlen]
    omega
  · have := hs.sizeRead
    rw [hlen]
    omega
  · intro hfailed
    have hp := hs.producer
    rwa [hfailed] at hp
  · intro obj x y hprod hcons
    have hp := hs.producer
    have hc := hs.consumer
    rw [hprod] at hp
    rw [hcons] at hc
    rw [hp.1, hc.1]
    exact (hs.head_ne_tail hc.2).symm

/-- For every order of the steps of both threads the fifo is a queue: what was dequeued is a prefix of
what was enqueued, the rest is held, and neither thread is told of more than there is. -/
theorem correct {cap : ℕ} {init : State α} (hinit : IsStart cap init)
    (hs : Reachable State.step init s) : Correct cap s ∧ s.dequeued <+: s.enqueued := by
  obtain ⟨hsize, h₀, h₀inv⟩ := hinit.inv
  have hinv : s.fifo.storeSize = cap + 1 ∧ ∃ t h, Inv s t h :=
    hs.invariant (P := fun s => s.fifo.storeSize = cap + 1 ∧ ∃ t h, Inv s t h) ⟨hsize, 0, h₀, h₀inv⟩
      fun s a s' ⟨hsize, _, _, hinv⟩ hstep => ⟨(step_storeSize hstep).trans hsize, hinv.step hstep⟩
  obtain ⟨hsize, t, h, hinv⟩ := hinv
  have hcorrect := hinv.correctState hsize
  exact ⟨hcorrect, hcorrect.history ▸ List.prefix_append ..⟩

/-- A fifo of one element: it is enqueued, and dequeued while the producer asks for room again. -/
theorem correct_one :
    let init : State ℕ := ⟨create 0 1, .idle, .idle, 0, 0, [], []⟩
    ∃ s, runList State.step init [.producerSize, .producer, .producer, .enqueue 7, .producer, .producer,
        .dequeue, .producer, .producer, .producer, .consumer, .consumer, .producerSize, .consumer,
        .producer, .consumer, .consumer, .producer] = some s ∧
      s.dequeued = [7] ∧ Correct 1 s ∧ s.dequeued <+: s.enqueued := by
  intro init
  have hrun : runList State.step init [.producerSize, .producer, .producer, .enqueue 7, .producer,
      .producer, .dequeue, .producer, .producer, .producer, .consumer, .consumer, .producerSize,
      .consumer, .producer, .consumer, .consumer, .producer] = some _ := rfl
  exact ⟨_, hrun, rfl,
    correct (.created 0) (ReachableVia.of_runList hrun (fun _ _ _ => trivial) .start)⟩

end MtFifo

end SupraSeal
