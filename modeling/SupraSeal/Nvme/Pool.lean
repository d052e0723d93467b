import SupraSeal.Lib.RingWindow

/-!
# Pools

`pool_t` of `nvme/ring_t.hpp`, a fifo of pointers in a ring with one slot more than its capacity. A
bulk removal returns a pointer to the slots themselves, which later calls may write again.
-/

namespace SupraSeal

open RingWindow

/-- `pool_t<T>`. -/
structure Pool (α : Type*) where
  store : ℕ → α
  storeSize : ℕ
  head : ℕ
  tail : ℕ

namespace Pool

variable {α : Type*}

def create (null : α) (count : ℕ) : Pool α := ⟨fun _ => null, count + 1, 0, 0⟩

variable (p : Pool α)

/-- `fill`, with the pointers to the allocated elements. -/
def fill (contents : ℕ → α) : Pool α :=
  { p with
    store := fun i => if i < p.storeSize - 1 then contents i else p.store i
    head := p.storeSize - 1 }

def size : ℕ := if p.head ≥ p.tail then p.head - p.tail else p.storeSize + p.head - p.tail

def isFull : Bool := p.size == p.storeSize - 1

def capacity : ℕ := p.storeSize - 1

def freeCount : ℕ := p.capacity - p.size

/-- `enqueue`, which asserts that the pool is not full. -/
def enqueue (obj : α) : Option (Pool α) :=
  if p.isFull then none
  else
    let head := p.head + 1
    some
      { p with
        store := Function.update p.store p.head obj
        head := if head ≥ p.storeSize then 0 else head }

def dequeue : Option α × Pool α :=
  if p.size ≠ 0 then
    let tail := p.tail + 1
    (some (p.store p.tail), { p with tail := if tail ≥ p.storeSize then 0 else tail })
  else (none, p)

/-- `dequeue_bulk`: the index of the first of the removed slots. -/
def dequeueBulk (count : ℕ) : Option ℕ × Pool α :=
  if p.size ≥ count ∧ p.tail + count ≤ p.storeSize then
    let tail := p.tail + count
    (some p.tail, { p with tail := if tail ≥ p.storeSize then tail - p.storeSize else tail })
  else (none, p)

/-! ### Runs -/

inductive Op (α : Type*)
  | enqueue (obj : α)
  | dequeue
  | dequeueBulk (count : ℕ)

/-- A call with what the caller sees: for `dequeue_bulk` the pointers in the window. -/
inductive Event (α : Type*)
  | enqueue (obj : α)
  | dequeue (obj : Option α)
  | dequeueBulk (count : ℕ) (window : Option (List α))

def step : Op α → Option (Event α × Pool α)
  | .enqueue obj => (p.enqueue obj).map fun p' => (.enqueue obj, p')
  | .dequeue => some (.dequeue p.dequeue.1, p.dequeue.2)
  | .dequeueBulk count =>
    let (ptr, p') := p.dequeueBulk count
    some (.dequeueBulk count (ptr.map fun i => (List.range count).map fun k => p'.store (i + k)), p')

/-- The calls in order, as long as no assertion fails. -/
def run : List (Op α) → Pool α → Option (List (Event α) × Pool α)
  | [], p => some ([], p)
  | op :: ops, p =>
    (p.step op).bind fun (e, p') => (run ops p').map fun (es, p'') => (e :: es, p'')

/-- How often a run enqueues. -/
def enqueues : List (Op α) → ℕ
  | [] => 0
  | .enqueue _ :: ops => enqueues ops + 1
  | .dequeue :: ops => enqueues ops
  | .dequeueBulk _ :: ops => enqueues ops

/-- A pool as the program sets it up. -/
inductive IsStart (cap : ℕ) : Pool α → List α → Prop
  | created (null : α) : IsStart cap (create null cap) []
  | filled (null : α) (contents : ℕ → α) :
      IsStart cap ((create null cap).fill contents) ((List.range cap).map contents)

/-! ### List queues -/

/-- A queue of at most `cap` elements. A bulk removal may always be refused. -/
inductive QueueStep (cap : ℕ) : List α → Event α → List α → Prop
  | enqueue {xs : List α} {x : α} : xs.length < cap → QueueStep cap xs (.enqueue x) (xs ++ [x])
  | dequeue {xs : List α} {x : α} : QueueStep cap (x :: xs) (.dequeue (some x)) xs
  | dequeueEmpty : QueueStep cap [] (.dequeue none) []
  | dequeueBulk {xs ys : List α} : QueueStep cap (ys ++ xs) (.dequeueBulk ys.length (some ys)) xs
  | refused {xs : List α} {count : ℕ} : QueueStep cap xs (.dequeueBulk count none) xs

inductive QueueRun (cap : ℕ) : List α → List (Event α) → List α → Prop
  | nil {xs : List α} : QueueRun cap xs [] xs
  | cons {xs ys zs : List α} {e : Event α} {es : List (Event α)} :
      QueueStep cap xs e ys → QueueRun cap ys es zs → QueueRun cap xs (e :: es) zs

/-! ### Indices as counters -/

/-- The pool holds the elements `t, …, h - 1` of all that were enqueued. -/
structure Spans (p : Pool α) (t h : ℕ) : Prop where
  head : p.head = h % p.storeSize
  tail : p.tail = t % p.storeSize
  le : t ≤ h
  lt : h < t + p.storeSize

/-- The pointers that the pool holds, in order. -/
def contents : List α := window p.store p.storeSize p.tail (p.tail + p.size)

variable {p} {p' : Pool α} {t h : ℕ}

namespace Spans

lemma pos (hp : p.Spans t h) : 0 < p.storeSize := by
  have := hp.le
  have := hp.lt
  omega

lemma size_eq (hp : p.Spans t h) : p.size = h - t := by
  rw [size, hp.head, hp.tail]
  exact Wrap.sub_mod_of_lt hp.le hp.lt

lemma contents_eq (hp : p.Spans t h) : p.contents = window p.store p.storeSize t h := by
  rw [contents, hp.size_eq, hp.tail, window_mod, Nat.add_sub_cancel' hp.le]

lemma size_le (hp : p.Spans t h) : p.size ≤ p.capacity := by
  have := hp.lt
  rw [hp.size_eq, capacity]
  omega

lemma isFull_iff (hp : p.Spans t h) : p.isFull = true ↔ h + 1 = t + p.storeSize := by
  have := hp.le
  have := hp.lt
  rw [isFull, beq_iff_eq, hp.size_eq]
  omega

lemma enqueue (hp : p.Spans t h) {obj : α} (h' : p.enqueue obj = some p') :
    p'.Spans t (h + 1) ∧ p'.storeSize = p.storeSize ∧
      p'.store = Function.update p.store (h % p.storeSize) obj := by
  rw [Pool.enqueue] at h'
  split at h'
  next => cases h'
  next hfull =>
    have hne : h + 1 ≠ t + p.storeSize := fun heq => hfull (hp.isFull_iff.mpr heq)
    have hhead : (if p.head + 1 ≥ p.storeSize then 0 else p.head + 1) = (h + 1) % p.storeSize := by
      rw [← Wrap.succ_mod hp.pos, hp.head]
      have := Nat.mod_lt h hp.pos
      split_ifs <;> omega
    cases h'
    refine ⟨⟨hhead, hp.tail, Nat.le_succ_of_le hp.le, ?_⟩, rfl, ?_⟩
    · exact Nat.lt_of_le_of_ne hp.lt hne
    · exact congrArg (Function.update p.store · obj) hp.head

/-- Whatever is removed, the rest stays where it is. -/
lemma advance (hp : p.Spans t h) {k : ℕ} (hk : t + k ≤ h) :
    ({ p with tail := (t + k) % p.storeSize } : Pool α).Spans (t + k) h :=
  ⟨hp.head, rfl, hk, by have := hp.lt; show h < t + k + p.storeSize; omega⟩

lemma dequeue_eq (hp : p.Spans t h) (hlt : t < h) :
    p.dequeue = (some (p.store (t % p.storeSize)), { p with tail := (t + 1) % p.storeSize }) := by
  have hsize : p.size ≠ 0 := by
    rw [hp.size_eq]
    omega
  have htail : (if p.tail + 1 ≥ p.storeSize then 0 else p.tail + 1) = (t + 1) % p.storeSize := by
    rw [← Wrap.succ_mod hp.pos, hp.tail]
    have := Nat.mod_lt t hp.pos
    split_ifs <;> omega
  rw [dequeue, if_pos hsize]
  exact Prod.ext (congrArg (some <| p.store ·) hp.tail) (by rw [← htail])

lemma dequeueBulk_eq (hp : p.Spans t h) {count : ℕ} (hcount : t + count ≤ h)
    (hwrap : t % p.storeSize + count ≤ p.storeSize) :
    p.dequeueBulk count =
      (some (t % p.storeSize), { p with tail := (t + count) % p.storeSize }) := by
  have hcond : p.size ≥ count ∧ p.tail + count ≤ p.storeSize := by
    rw [hp.size_eq, hp.tail]
    exact ⟨by omega, hwrap⟩
  have htail : (if p.tail + count ≥ p.storeSize then p.tail + count - p.storeSize
      else p.tail + count) = (t + count) % p.storeSize := by
    rw [hp.tail]
    exact Wrap.add_mod_of_le hp.pos (by omega)
  rw [dequeueBulk, if_pos hcond]
  exact Prod.ext (congrArg some hp.tail) (by rw [← htail])

/-- `dequeue_bulk` removes the next elements, or it returns null and changes nothing. -/
lemma dequeueBulk_cases (hp : p.Spans t h) (count : ℕ) :
    p.dequeueBulk count = (none, p) ∨
      t + count ≤ h ∧ t % p.storeSize + count ≤ p.storeSize ∧
        p.dequeueBulk count =
          (some (t % p.storeSize), { p with tail := (t + count) % p.storeSize }) := by
  by_cases hcond : p.size ≥ count ∧ p.tail + count ≤ p.storeSize
  · have hcount : t + count ≤ h := by
      have h1 := hcond.1
      have := hp.le
      rw [hp.size_eq] at h1
      omega
    have hwrap : t % p.storeSize + count ≤ p.storeSize := hp.tail ▸ hcond.2
    exact .inr ⟨hcount, hwrap, hp.dequeueBulk_eq hcount hwrap⟩
  · exact .inl (by rw [dequeueBulk, if_neg hcond])

/-- The slots of a window that does not wrap. -/
lemma map_range_store (p : Pool α) {count : ℕ} (hwrap : t % p.storeSize + count ≤ p.storeSize) :
    (List.range count).map (fun k => p.store (t % p.storeSize + k)) =
      window p.store p.storeSize t (t + count) := by
  refine List.ext_getElem? fun i => ?_
  by_cases hi : i < count
  · have hlt : t % p.storeSize + i < p.storeSize := by omega
    rw [getElem?_window (by omega), ← Nat.mod_add_mod, Nat.mod_eq_of_lt hlt]
    simp [hi]
  · rw [List.getElem?_eq_none, List.getElem?_eq_none] <;> simp <;> omega

/-! ### Steps -/

/-- What a step does to the counters, and to the queue of the contents. -/
lemma step (hp : p.Spans t h) {op : Op α} {e : Event α} (hstep : p.step op = some (e, p')) :
    ∃ t' h', p'.Spans t' h' ∧ t ≤ t' ∧ h ≤ h' ∧ p'.storeSize = p.storeSize ∧
      h' = h + enqueues [op] ∧
      (∀ i, (∀ m, h ≤ m → m < h' → i ≠ m % p.storeSize) → p'.store i = p.store i) ∧
      QueueStep p.capacity p.contents e p'.contents := by
  cases op with
  | enqueue obj =>
    obtain ⟨p₁, hp₁, heq⟩ := Option.map_eq_some_iff.mp hstep
    cases heq
    obtain ⟨hspans, hsize, hstore⟩ := hp.enqueue hp₁
    refine ⟨t, h + 1, hspans, le_rfl, Nat.le_succ h, hsize, rfl, ?_, ?_⟩
    · intro i hi
      rw [hstore, Function.update_of_ne (hi h le_rfl (Nat.lt_succ_self h))]
    · have hle := hp.le
      have hlt := hspans.lt
      rw [hsize] at hlt
      rw [hspans.contents_eq, hp.contents_eq, hsize, hstore, window_push hp.le hp.lt]
      refine .enqueue ?_
      rw [length_window, capacity]
      omega
  | dequeue =>
    rcases Nat.eq_or_lt_of_le hp.le with rfl | hlt
    · have hnone : p.dequeue = (none, p) := by
        rw [dequeue, if_neg (not_not.mpr (by rw [hp.size_eq, Nat.sub_self]))]
      rw [Pool.step, hnone] at hstep
      cases hstep
      refine ⟨t, t, hp, le_rfl, le_rfl, rfl, rfl, fun i _ => rfl, ?_⟩
      rw [hp.contents_eq, window_self]
      exact .dequeueEmpty
    · rw [Pool.step, hp.dequeue_eq hlt] at hstep
      cases hstep
      refine ⟨t + 1, h, hp.advance hlt, Nat.le_succ t, le_rfl, rfl, rfl, fun i _ => rfl, ?_⟩
      rw [hp.contents_eq, (hp.advance hlt).contents_eq, window_pop hlt]
      exact .dequeue
  | dequeueBulk count =>
    rcases hp.dequeueBulk_cases count with hnone | ⟨hcount, hwrap, hsome⟩
    · rw [Pool.step, hnone] at hstep
      cases hstep
      exact ⟨t, h, hp, le_rfl, le_rfl, rfl, rfl, fun i _ => rfl, .refused⟩
    · rw [Pool.step, hsome] at hstep
      cases hstep
      refine ⟨t + count, h, hp.advance hcount, Nat.le_add_right t count, le_rfl, rfl, rfl,
        fun i _ => rfl, ?_⟩
      have hlen : (window p.store p.storeSize t (t + count)).length = count := by
        rw [length_window, Nat.add_sub_cancel_left]
      rw [hp.contents_eq, (hp.advance hcount).contents_eq]
      simp only [Option.map_some]
      rw [map_range_store p hwrap, ← window_append (Nat.le_add_right t count) hcount]
      have hbulk : QueueStep p.capacity (window p.store p.storeSize t (t + count) ++
          window p.store p.storeSize (t + count) h) (.dequeueBulk _ (some _)) _ := .dequeueBulk
      rwa [hlen] at hbulk

/-- A run keeps the slots that it does not enqueue into. -/
lemma run (hp : p.Spans t h) {ops : List (Op α)} {es : List (Event α)}
    (hrun : Pool.run ops p = some (es, p')) :
    ∃ t' h', p'.Spans t' h' ∧ t ≤ t' ∧ p'.storeSize = p.storeSize ∧ h' = h + enqueues ops ∧
      (∀ i, (∀ m, h ≤ m → m < h' → i ≠ m % p.storeSize) → p'.store i = p.store i) ∧
      QueueRun p.capacity p.contents es p'.contents := by
  induction ops generalizing p t h es with
  | nil =>
    cases hrun
    exact ⟨t, h, hp, le_rfl, rfl, rfl, fun i _ => rfl, .nil⟩
  | cons op ops ih =>
    obtain ⟨⟨e, p₁⟩, hstep, hrest⟩ := Option.bind_eq_some_iff.mp hrun
    obtain ⟨⟨es', p₂⟩, hrest, heq⟩ := Option.map_eq_some_iff.mp hrest
    cases heq
    obtain ⟨t₁, h₁, hp₁, ht₁, hh₁, hsize₁, hcount₁, hstore₁, hq₁⟩ := hp.step hstep
    obtain ⟨t₂, h₂, hp₂, ht₂, hsize₂, hcount₂, hstore₂, hq₂⟩ := ih hp₁ hrest
    have hle : h₁ ≤ h₂ := hcount₂ ▸ Nat.le_add_right _ _
    refine ⟨t₂, h₂, hp₂, ht₁.trans ht₂, hsize₂.trans hsize₁, ?_, ?_, .cons hq₁ ?_⟩
    · have hcons : enqueues (op :: ops) = enqueues [op] + enqueues ops := by
        cases op <;> simp [enqueues, Nat.add_comm]
      rw [hcount₂, hcount₁, hcons, Nat.add_assoc]
    · intro i hi
      rw [hstore₂ i fun m hm hlt => hsize₁ ▸ hi m (hh₁.trans hm) hlt]
      exact hstore₁ i fun m hm hlt => hi m hm (hlt.trans_le hle)
    · rwa [capacity, hsize₁] at hq₂

end Spans

/-! ### The pool as a queue -/

lemma IsStart.spans {cap : ℕ} {xs : List α} (h : IsStart cap p xs) :
    p.storeSize = cap + 1 ∧ p.contents = xs ∧ ∃ n, p.Spans 0 n := by
  cases h with
  | created null =>
    have hp : (create null cap).Spans 0 0 :=
      ⟨rfl, rfl, le_rfl, by rw [Nat.zero_add]; exact Nat.succ_pos cap⟩
    exact ⟨rfl, hp.contents_eq.trans window_self, 0, hp⟩
  | filled null contents =>
    have hp : ((create null cap).fill contents).Spans 0 cap := by
      refine ⟨(Nat.mod_eq_of_lt (Nat.lt_succ_self cap)).symm, rfl, Nat.zero_le cap, ?_⟩
      rw [Nat.zero_add]
      exact Nat.lt_succ_self cap
    refine ⟨rfl, ?_, cap, hp⟩
    rw [hp.contents_eq, window, Nat.sub_zero, ← List.range_eq_range']
    refine List.map_congr_left fun i hi => ?_
    have hi : i < cap := List.mem_range.mp hi
    have hmod : i % (cap + 1) = i := Nat.mod_eq_of_lt (Nat.lt_succ_of_lt hi)
    show (if i % (cap + 1) < cap then contents (i % (cap + 1)) else null) = contents i
    rw [hmod, if_pos hi]

/-- What a caller relies on after any run: the sizes are those of the queue, and a window that
`dequeue_bulk` returns is kept by the next calls. -/
structure AgreesWith (cap : ℕ) (p : Pool α) : Prop where
  size : p.size = p.contents.length
  isFull : p.isFull = true ↔ p.contents.length = cap
  freeCount : p.freeCount + p.contents.length = cap
  enqueue : ∀ obj, (p.enqueue obj).isSome ↔ p.contents.length < cap
  dequeueBulk : ∀ count, p.dequeueBulk count = (none, p) ∨
    ∃ ptr p', p.dequeueBulk count = (some ptr, p') ∧ ptr + count ≤ p.storeSize ∧
      (List.range count).map (fun i => p'.store (ptr + i)) ++ p'.contents = p.contents ∧
      ∀ ops es p'', run ops p' = some (es, p'') → enqueues ops ≤ p.freeCount →
        ∀ i < count, p''.store (ptr + i) = p'.store (ptr + i)

lemma Spans.agreesWith (hp : p.Spans t h) {cap : ℕ} (hcap : p.storeSize = cap + 1) :
    p.AgreesWith cap := by
  have hle := hp.le
  have hlt := hp.lt
  have hlen : p.contents.length = h - t := by rw [hp.contents_eq, length_window]
  refine ⟨hp.size_eq.trans hlen.symm, ?_, ?_, ?_, ?_⟩
  · rw [hp.isFull_iff, hlen]
    omega
  · rw [freeCount, capacity, hp.size_eq, hlen]
    omega
  · intro obj
    rw [Pool.enqueue, hlen]
    split
    next hfull =>
      have := hp.isFull_iff.mp hfull
      simp only [Option.isSome_none, Bool.false_eq_true, false_iff]
      omega
    next hfull =>
      have hne : h + 1 ≠ t + p.storeSize := fun heq => hfull (hp.isFull_iff.mpr heq)
      simp only [Option.isSome_some, true_iff]
      omega
  · intro count
    rcases hp.dequeueBulk_cases count with hnone | ⟨hcount, hwrap, hsome⟩
    · exact .inl hnone
    refine .inr ⟨_, _, hsome, hwrap, ?_, ?_⟩
    · rw [(hp.advance hcount).contents_eq, hp.contents_eq, Spans.map_range_store p hwrap,
        window_append (Nat.le_add_right t count) hcount]
    · intro ops es p'' hrun hops i hi
      obtain ⟨t', h', -, -, -, hh', hstore, -⟩ := (hp.advance hcount).run hrun
      refine hstore _ fun m hm hmh heq => ?_
      -- the slot of element `t + i` is entered again by element `t + i + p.storeSize` only
      have hslot : (t + i) % p.storeSize = m % p.storeSize := by
        rw [← Nat.mod_add_mod, Nat.mod_eq_of_lt (by omega)]
        exact heq
      rw [freeCount, capacity, hp.size_eq] at hops
      exact Wrap.mod_ne_of_lt (by omega) (by omega) hslot

/-- A pool is a queue of at most `cap` elements: from any start the calls see what they see of a queue
that holds the contents of the pool. -/
theorem refines_queue {cap : ℕ} {xs : List α} (hstart : IsStart cap p xs) {ops : List (Op α)}
    {es : List (Event α)} (hrun : run ops p = some (es, p')) :
    QueueRun cap xs es p'.contents ∧ p'.AgreesWith cap := by
  obtain ⟨hsize, rfl, n, hp⟩ := hstart.spans
  obtain ⟨t', h', hp', -, hsize', -, -, hq⟩ := hp.run hrun
  have hcap : p.capacity = cap := by rw [capacity, hsize, Nat.add_sub_cancel]
  rw [hcap] at hq
  exact ⟨hq, hp'.agreesWith (hsize'.trans hsize)⟩

/-- A pool of three elements, and a window that ends with the store. -/
theorem refines_queue_three : ∃ p' : Pool ℕ,
    run [.dequeue, .dequeueBulk 1, .enqueue 4, .dequeueBulk 2] ((create 0 3).fill fun i => i + 1) =
        some ([.dequeue (some 1), .dequeueBulk 1 (some [2]), .enqueue 4,
          .dequeueBulk 2 (some [3, 4])], p') ∧
      QueueRun 3 [1, 2, 3] [.dequeue (some 1), .dequeueBulk 1 (some [2]), .enqueue 4,
        .dequeueBulk 2 (some [3, 4])] p'.contents ∧ p'.AgreesWith 3 := by
  obtain ⟨p', hrun⟩ : ∃ p' : Pool ℕ,
      run [.dequeue, .dequeueBulk 1, .enqueue 4, .dequeueBulk 2] ((create 0 3).fill fun i => i + 1) =
        some ([.dequeue (some 1), .dequeueBulk 1 (some [2]), .enqueue 4,
          .dequeueBulk 2 (some [3, 4])], p') := ⟨_, rfl⟩
  exact ⟨p', hrun, refines_queue (.filled 0 fun i => i + 1) hrun⟩

end Pool

end SupraSeal
