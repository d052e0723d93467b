import SupraSeal.Pc2.BufferConservation

/-!
# The end of a partition

`flush` fills `bundle` with the buffers left in `unbundle` and hands both batches over. Its loop
increments `idx_unbundle` twice a round, and for an untouched `unbundle` it puts the other batch into
the pool. So it does what it is for in two cases: one buffer is missing in `bundle`, or no batch is
open.
-/

namespace SupraSeal

namespace DiskBatcher

open Transition

variable {s : DiskBatcher}

/-- Steps of the writers. -/
def Action.IsWriter : Action → Prop
  | .writerDequeue _ => True
  | .writerEnqueue _ _ => True
  | _ => False

/-- The states in which `flush` does what it is for. -/
def FlushOk (s : DiskBatcher) : Prop :=
  s.idxBundle = diskIoBatchSize - 1 ∨ (s.idxBundle = 0 ∧ s.unbundle = none)

/-- `flush` leads from `s` to `s'`, and the next partition finds the pools as this one has. -/
structure FlushLaw (s s' : DiskBatcher) : Prop where
  flush : s.flush = .ok s'
  inOnePlace : InOnePlace s'
  /-- Every batch is in a queue or with a writer. -/
  closed : s'.unbundle = none ∧ s'.bundle = none ∧ s'.held = []
  /-- Nothing is written of the buffers that were not taken. -/
  untouched : ∀ buf, some buf ∈ tailSlots s.slot s.unbundle s.idxUnbundle → s'.bufSize buf = 0
  /-- The destructor's `flush`. -/
  again : s'.flush = .ok s'
  drained : ∀ t, ReachableVia (fun _ a => a.IsWriter) step { s' with alive := false, granted := 0 } t →
    t.toDisk = [] → t.writing = [] → t.poolFull.length = numHostBatches ∧
      t.poolEmpty.length = numHostEmptyBatches ∧ ∃ t', t.step .construct = some t'

/-! ### States before `flush` -/

/-- With no buffer held, as many buffers have been put as have been taken. -/
lemma Conserved.idxBundle_eq (h : Conserved s) (hheld : s.held = []) :
    s.idxBundle = s.idxUnbundle := by
  have hlive := h.card_live
  have htail := h.length_tailSlots
  have hbu : s.idxUnbundle < diskIoBatchSize := by
    cases hu : s.unbundle with
    | none => simp [h.unbundle_none hu, diskIoBatchSize]
    | some u => exact h.unbundle_lt u hu
  have hbb : s.idxBundle < diskIoBatchSize := by
    cases hb : s.bundle with
    | none => simp [h.bundle_none hb, diskIoBatchSize]
    | some b => exact h.bundle_lt b hb
  have hbufs : numHostBufs = 8192 := rfl
  rw [h.length_headSlots, hheld, List.length_nil] at hlive
  simp only [diskIoBatchSize] at hlive htail hbu hbb
  omega

/-- Both batches are open once a buffer has been taken. -/
lemma Conserved.open_of_pos (h : Conserved s) (hheld : s.held = []) (hpos : 0 < s.idxBundle) :
    (∃ u, s.unbundle = some u) ∧ ∃ b, s.bundle = some b := by
  constructor
  · cases hu : s.unbundle with
    | some u => exact ⟨u, rfl⟩
    | none =>
      have hidx := h.unbundle_none hu
      rw [h.idxBundle_eq hheld] at hpos
      omega
  · cases hb : s.bundle with
    | some b => exact ⟨b, rfl⟩
    | none =>
      have hidx := h.bundle_none hb
      omega

/-! ### What `flush` does -/

/-- A closed batcher has nothing to flush. -/
lemma flush_closed (hu : s.unbundle = none) (hb : s.bundle = none) (hiu : s.idxUnbundle = 0)
    (hib : s.idxBundle = 0) : s.flush = .ok s := by
  cases s
  simp only at hu hb hiu hib
  subst hu hb hiu hib
  rfl

/-- One buffer is missing in `bundle`. -/
lemma flush_last {u b buf : ℕ} (hu : s.unbundle = some u) (hb : s.bundle = some b)
    (hiu : s.idxUnbundle = diskIoBatchSize - 1) (hib : s.idxBundle = diskIoBatchSize - 1)
    (hbuf : s.slot u s.idxUnbundle = some buf) (hdisk : s.toDisk.length < numBatches)
    (hempty : s.poolEmpty.length < numBatches) :
    s.flush = .ok { s with
      bufSize := Function.update s.bufSize buf 0
      slot := Function.update s.slot b (Function.update (s.slot b) s.idxBundle (some buf))
      toDisk := s.toDisk ++ [b], poolEmpty := s.poolEmpty ++ [u], bundle := none, unbundle := none
      idxUnbundle := 0, idxBundle := 0 } := by
  have hsize : diskIoBatchSize - s.idxBundle = 1 := by
    rw [hib]
    rfl
  have hpos : 0 < s.idxBundle := by
    rw [hib]
    decide
  have hlt : s.idxUnbundle < diskIoBatchSize := by
    rw [hiu]
    decide
  have hloop : flushLoop u b 1 s = .ok { s with
      bufSize := Function.update s.bufSize buf 0
      slot := Function.update s.slot b (Function.update (s.slot b) s.idxBundle (some buf))
      idxUnbundle := s.idxUnbundle + 1 + 1, idxBundle := s.idxBundle + 1 } := by
    simp only [flushLoop, hlt, if_true, hbuf]
  rw [flush, if_neg (by rw [hiu, hib]; simp), if_pos hpos, hu, hb]
  have hpushDisk : push s.toDisk b = .ok (s.toDisk ++ [b]) := Conserved.push_eq hdisk
  have hpushEmpty : push s.poolEmpty u = .ok (s.poolEmpty ++ [u]) := Conserved.push_eq hempty
  simp only [hsize, hloop, Bind.bind, Except.bind, hpushDisk, hpushEmpty]
  rfl

/-- Nothing has been taken since the last full batch. -/
lemma flush_empty (hu : s.unbundle = none) (hiu : s.idxUnbundle = 0) (hib : s.idxBundle = 0) {b : ℕ}
    (hb : s.bundle = some b) (hempty : s.poolEmpty.length < numBatches) :
    s.flush = .ok { s with
      poolEmpty := s.poolEmpty ++ [b], bundle := none, unbundle := none
      idxUnbundle := 0, idxBundle := 0 } := by
  have hpush : push s.poolEmpty b = .ok (s.poolEmpty ++ [b]) := Conserved.push_eq hempty
  rw [flush, if_neg (by rw [hiu, hib]; simp), if_neg (by rw [hib]; simp), hu, hb]
  simp only [Bind.bind, Except.bind, hpush]
  rfl

/-- Nothing has been taken at all. -/
lemma flush_untouched {u b : ℕ} (hu : s.unbundle = some u) (hb : s.bundle = some b)
    (hiu : s.idxUnbundle = 0) (hib : s.idxBundle = 0) (hempty : s.poolEmpty.length < numBatches)
    (hfull : s.poolFull.length < numBatches) :
    s.flush = .ok { s with
      poolEmpty := s.poolEmpty ++ [b], poolFull := s.poolFull ++ [b], bundle := none
      unbundle := none, idxUnbundle := 0, idxBundle := 0 } := by
  have hpushEmpty : push s.poolEmpty b = .ok (s.poolEmpty ++ [b]) := Conserved.push_eq hempty
  have hpushFull : push s.poolFull b = .ok (s.poolFull ++ [b]) := Conserved.push_eq hfull
  rw [flush, if_neg (by rw [hiu, hib]; simp), if_neg (by rw [hib]; simp)]
  simp only [hu, hb, Bind.bind, Except.bind, Pure.pure, Except.pure, hpushEmpty, hpushFull]

lemma flush_error_of_bundle_none {u : ℕ} (hu : s.unbundle = some u) (hb : s.bundle = none)
    (hiu : s.idxUnbundle = 0) (hib : s.idxBundle = 0) : s.flush = .error .nullBuffer := by
  rw [flush, if_neg (by rw [hiu, hib]; simp), if_neg (by rw [hib]; simp)]
  simp only [hu, hb, pure_bind]
  rfl

/-- The loop runs out of its batch when more than one buffer is missing. -/
lemma flushLoop_error (u b n : ℕ) (hn : 0 < n) (hidx : diskIoBatchSize ≤ s.idxUnbundle + 2 * (n - 1)) :
    ∃ e, flushLoop u b n s = .error e := by
  induction n generalizing s with
  | zero => exact absurd hn (Nat.lt_irrefl 0)
  | succ n ih =>
    rw [flushLoop]
    split_ifs with hlt
    · cases hbuf : s.slot u s.idxUnbundle with
      | none => exact ⟨_, rfl⟩
      | some buf =>
        apply ih
        · by_contra hzero
          omega
        · simp only
          omega
    · exact ⟨_, rfl⟩

/-! ### Where `flush` fails -/

/-- More than one buffer is missing in `bundle`. -/
lemma flush_error (h : Conserved s) (hheld : s.held = []) (hpos : 0 < s.idxBundle)
    (hlt : s.idxBundle + 1 < diskIoBatchSize) : ∃ e, s.flush = .error e := by
  obtain ⟨⟨u, hu⟩, b, hb⟩ := h.open_of_pos hheld hpos
  have heq := h.idxBundle_eq hheld
  obtain ⟨e, he⟩ := flushLoop_error (s := s) u b (diskIoBatchSize - s.idxBundle) (by omega) (by omega)
  refine ⟨e, ?_⟩
  rw [flush, if_neg (by simpa using heq), if_pos hpos, hu, hb]
  simp only [he]
  rfl

/-- An untouched `unbundle` is lost, and `bundle` is in both pools. -/
lemma not_inOnePlace_flush (h : Conserved s) (hheld : s.held = []) (hidx : s.idxBundle = 0) {u : ℕ}
    (hu : s.unbundle = some u) {s' : DiskBatcher} (hs' : s.flush = .ok s') : ¬InOnePlace s' := by
  have heq := h.idxBundle_eq hheld
  have hidx' : s.idxUnbundle = 0 := heq ▸ hidx
  cases hb : s.bundle with
  | none =>
    rw [flush_error_of_bundle_none hu hb hidx' hidx] at hs'
    cases hs'
  | some b =>
    have hcard := h.card_places
    rw [hb, Option.toList_some, List.length_singleton] at hcard
    rw [flush_untouched hu hb hidx' hidx (by omega) (by omega)] at hs'
    cases hs'
    rintro ⟨hplaces, -⟩
    have hnodup := Multiset.nodup_range numBatches
    rw [← hplaces, DiskBatcher.places, Multiset.nodup_iff_count_le_one] at hnodup
    have hcount := hnodup b
    simp only [← Multiset.coe_add, Multiset.count_add, Multiset.coe_singleton,
      Multiset.count_singleton_self] at hcount
    omega

/-! ### Where it does not -/

/-- The state after `flush` keeps the invariant. -/
lemma Conserved.flush (h : Conserved s) (halive : s.alive = true) (hheld : s.held = [])
    (hok : FlushOk s) : ∃ s', s.flush = .ok s' ∧
      Conserved { s' with alive := false, granted := 0 } ∧ s'.unbundle = none ∧ s'.bundle = none ∧
      s'.held = [] ∧
      ∀ buf, some buf ∈ tailSlots s.slot s.unbundle s.idxUnbundle → s'.bufSize buf = 0 := by
  have heq := h.idxBundle_eq hheld
  have hcard := h.card_places
  rcases hok with hlast | ⟨hzero, hu⟩
  · -- the last buffer goes the way of one that is taken and put back
    have hpos : 0 < s.idxBundle := by
      rw [hlast]
      decide
    obtain ⟨⟨u, hu⟩, b, hb⟩ := h.open_of_pos hheld hpos
    rw [hu, hb, Option.toList_some, Option.toList_some, List.length_singleton,
      List.length_singleton] at hcard
    have hnext : s.idxBundle + 1 = diskIoBatchSize := by
      rw [hlast]
      rfl
    have hpushEmpty : push s.poolEmpty u = .ok (s.poolEmpty ++ [u]) := push_eq (by omega)
    have hpushDisk : push s.toDisk b = .ok (s.toDisk ++ [b]) := push_eq (by omega)
    obtain ⟨buf, s₁, htake, hc₁⟩ := h.takeBuffer halive hu
    simp only [DiskBatcher.takeBuffer, ← heq, hnext, if_true, hpushEmpty] at htake
    injection htake with htake
    obtain ⟨hbuf, rfl⟩ := Prod.mk.inj htake
    obtain ⟨s₂, hput, hc₂⟩ := (hc₁ 0).putBuffer halive hb (List.mem_cons_self ..)
    simp only [DiskBatcher.putBuffer, hnext, if_true, hpushDisk] at hput
    injection hput with hput
    subst hput
    simp only [List.erase_cons_head] at hc₂
    refine ⟨_, flush_last hu hb (heq ▸ hlast) hlast (heq ▸ hbuf) (by omega) (by omega), ?_, rfl, rfl,
      hheld, ?_⟩
    · exact ⟨hc₂.places, hc₂.live, by simp, fun _ => rfl, by simp, fun _ => rfl, Nat.zero_le _,
        fun _ => ⟨rfl, rfl, hheld⟩⟩
    · intro buf' hbuf'
      have hrange : diskIoBatchSize - s.idxUnbundle = 1 := by omega
      simp only [tailSlots, hu, hrange, Option.toList_some, List.flatMap_cons, List.flatMap_nil,
        List.append_nil, List.range'_one, List.map_cons, List.map_nil, List.mem_singleton] at hbuf'
      rw [← heq, hbuf] at hbuf'
      cases hbuf'
      exact Function.update_self ..
  · cases hb : s.bundle with
    | none =>
      refine ⟨s, flush_closed hu hb (heq ▸ hzero) hzero, ?_, hu, hb, hheld, ?_⟩
      · exact ⟨h.places, h.live, h.unbundle_lt, h.unbundle_none, h.bundle_lt, h.bundle_none,
          Nat.zero_le _, fun _ => ⟨hu, hb, hheld⟩⟩
      · intro buf hbuf
        simp [tailSlots, hu] at hbuf
    | some b =>
      rw [hb, Option.toList_some, List.length_singleton] at hcard
      refine ⟨_, flush_empty hu (heq ▸ hzero) hzero hb (by omega), ?_, rfl, rfl, hheld, ?_⟩
      · refine ⟨?_, ?_, by simp, fun _ => rfl, by simp, fun _ => rfl, Nat.zero_le _,
          fun _ => ⟨rfl, rfl, hheld⟩⟩
        · have hplaces := h.places
          simp only [DiskBatcher.places, hu, hb, ← Multiset.coe_add, Option.toList_none,
            Option.toList_some, Multiset.coe_nil] at hplaces ⊢
          rw [← hplaces]
          abel
        · have hlive := h.live
          simp only [live_eq, hu, hb, hzero, headSlots, Option.toList_none, Option.toList_some,
            List.flatMap_cons, List.flatMap_nil, List.range_zero, List.map_nil, List.append_nil]
            at hlive ⊢
          exact hlive
      · intro buf hbuf
        simp [tailSlots, hu] at hbuf

/-! ### Partitions in sequence -/

/-- The next partition starts once all batches are written. -/
lemma Conserved.drained (h : Conserved s) (halive : s.alive = false) {t : DiskBatcher}
    (ht : ReachableVia (fun _ a => a.IsWriter) step s t) (hdisk : t.toDisk = [])
    (hwriting : t.writing = []) : t.poolFull.length = numHostBatches ∧
      t.poolEmpty.length = numHostEmptyBatches ∧ ∃ t', t.step .construct = some t' := by
  obtain ⟨hc, hdead⟩ : Conserved t ∧ t.alive = false := by
    refine ht.invariant (P := fun t => Conserved t ∧ t.alive = false) ⟨h, halive⟩ ?_
    intro s a s' hs ha hstep
    obtain ⟨hen, hrun⟩ := step_eq_some.mp hstep
    have hne : a ≠ .flush := by
      rintro rfl
      exact ha
    obtain ⟨s'', hs'', hc⟩ := hs.1.run hne hen
    cases hrun.symm.trans hs''
    refine ⟨hc, ?_⟩
    cases a with
    | writerDequeue writer =>
      rw [DiskBatcher.run] at hrun
      split at hrun <;> cases hrun <;> exact hs.2
    | writerEnqueue writer b =>
      obtain ⟨full, hpush, -⟩ := hs.1.writerEnqueue hen
      simp only [DiskBatcher.run, hpush] at hrun
      cases hrun
      exact hs.2
    | _ => exact ha.elim
  obtain ⟨hu, hb, hheld⟩ := hc.dead hdead
  obtain ⟨hfull, hempty⟩ := hc.length_pools hu hb hheld hdisk hwriting
  obtain ⟨t', ht', -⟩ := hc.construct hdead hdisk hwriting
  exact ⟨hfull, hempty, t', step_eq_some.mpr ⟨⟨hdead, hdisk, hwriting⟩, ht'⟩⟩

lemma Conserved.exists_flushLaw (h : Conserved s) (halive : s.alive = true) (hheld : s.held = [])
    (hok : FlushOk s) : ∃ s', FlushLaw s s' := by
  obtain ⟨s', hs', hc, hu, hb, hheld', hsize⟩ := h.flush halive hheld hok
  have hagain : s'.flush = .ok s' := flush_closed hu hb (hc.unbundle_none hu) (hc.bundle_none hb)
  exact ⟨s', hs', ⟨hc.places, hc.live⟩, ⟨hu, hb, hheld'⟩, hsize, hagain, fun t ht => hc.drained rfl ht⟩

lemma Conserved.not_flushLaw (h : Conserved s) (hheld : s.held = []) (hok : ¬FlushOk s) :
    ¬∃ s', FlushLaw s s' := by
  rintro ⟨s', hlaw⟩
  rw [FlushOk, not_or] at hok
  by_cases hidx : s.idxBundle = 0
  · cases hu : s.unbundle with
    | none => exact hok.2 ⟨hidx, hu⟩
    | some u => exact not_inOnePlace_flush h hheld hidx hu hlaw.flush hlaw.inOnePlace
  · have hpos := Nat.pos_of_ne_zero hidx
    obtain ⟨-, b, hb⟩ := h.open_of_pos hheld hpos
    have hlt := h.bundle_lt b hb
    obtain ⟨e, he⟩ := flush_error h hheld hpos (by omega)
    cases he.symm.trans hlaw.flush

/-- Steps of runs in which every `flush` finds a state where it does what it is for. -/
def FlushesOk (s : DiskBatcher) (a : Action) : Prop := a = .flush → FlushOk s

lemma conserved_of_flushesOk (h : ReachableVia FlushesOk step init s) : Conserved s := by
  refine h.invariant conserved_init ?_
  intro s a s' hs ha hstep
  obtain ⟨hen, hrun⟩ := step_eq_some.mp hstep
  by_cases hflush : a = .flush
  · subst hflush
    obtain ⟨s₁, hs₁, hc, hu, hb, -, -⟩ := hs.flush hen.1 hen.2 (ha rfl)
    have hagain : s₁.flush = .ok s₁ := flush_closed hu hb (hc.unbundle_none hu) (hc.bundle_none hb)
    simp only [DiskBatcher.run, hs₁, Bind.bind, Except.bind, hagain] at hrun
    cases hrun
    exact hc
  · obtain ⟨t, ht, hc⟩ := hs.run hflush hen
    cases hrun.symm.trans ht
    exact hc

/-- In every partition, `flush` does what it is for exactly in the states of `FlushOk`; runs in which
every `flush` does so have no fault, for any number of partitions. -/
theorem flushLaw_iff (h : ReachableVia FlushesOk step init s) :
    (∀ a, s.enabled a → FlushesOk s a → ∃ s', s.run a = .ok s') ∧
      (s.alive = true → s.held = [] → ((∃ s', FlushLaw s s') ↔ FlushOk s)) := by
  have hc := conserved_of_flushesOk h
  constructor
  · intro a hen ha
    by_cases hflush : a = .flush
    · subst hflush
      obtain ⟨s', hlaw⟩ := hc.exists_flushLaw hen.1 hen.2 (ha rfl)
      refine ⟨{ s' with alive := false, granted := 0 }, ?_⟩
      simp only [DiskBatcher.run, hlaw.flush, Bind.bind, Except.bind, hlaw.again]
      rfl
    · obtain ⟨s', hs', -⟩ := hc.run hflush hen
      exact ⟨s', hs'⟩
  · intro halive hheld
    constructor
    · intro hlaw
      by_contra hok
      exact hc.not_flushLaw hheld hok hlaw
    · exact hc.exists_flushLaw halive hheld

/-! ### Partitions with few buffers -/

/-- A partition in which `k` buffers have been taken and put back. -/
structure AfterBuffers (k : ℕ) (s : DiskBatcher) : Prop where
  reachable : ReachableVia FlushesOk step init s
  alive : s.alive = true
  held : s.held = []
  unbundle : ∃ u, s.unbundle = some u
  bundle : ∃ b, s.bundle = some b
  idxBundle : s.idxBundle = k

lemma afterBuffers_zero : ∃ s, AfterBuffers 0 s :=
  ⟨_, .next .start (by simp [FlushesOk]) step_construct_init, rfl, rfl, ⟨0, rfl⟩, ⟨128, rfl⟩, rfl⟩

lemma AfterBuffers.next {k : ℕ} (h : AfterBuffers k s) (hk : k + 1 < diskIoBatchSize) :
    ∃ s', AfterBuffers (k + 1) s' := by
  have hc := conserved_of_flushesOk h.reachable
  obtain ⟨u, hu⟩ := h.unbundle
  obtain ⟨b, hb⟩ := h.bundle
  have hib := h.idxBundle
  have hiu : s.idxUnbundle = k := by rw [← hc.idxBundle_eq h.held, hib]
  have hne : k + 1 ≠ diskIoBatchSize := Nat.ne_of_lt hk
  obtain ⟨buf, hbuf⟩ : ∃ buf, s.slot u k = some buf := by
    apply hc.slot_isSome
    rw [live_eq]
    simp only [Multiset.mem_add, Multiset.mem_coe, tailSlots, hu, hiu, Option.toList_some,
      List.flatMap_cons, List.flatMap_nil, List.append_nil]
    refine Or.inl (Or.inl (Or.inr (List.mem_map_of_mem ?_)))
    exact List.mem_range'_1.mpr ⟨le_rfl, by omega⟩
  have hsize : 1 ≤ s.size := by
    simp only [size, hu, hb, hib, hiu, reduceCtorEq, if_false, le_min_iff]
    constructor <;> omega
  have hcheck : s.step (.check 1) = some { s with granted := 1 } := by
    rw [step_eq_some]
    refine ⟨h.alive, ?_⟩
    simp [DiskBatcher.run, hsize]
  have hdequeue : { s with granted := 1 }.step (.dequeue 0) =
      some { s with idxUnbundle := k + 1, held := [(0, buf)], granted := 0 } := by
    rw [step_eq_some]
    refine ⟨⟨h.alive, Nat.one_pos⟩, ?_⟩
    simp only [DiskBatcher.run, DiskBatcher.dequeue, hu, DiskBatcher.takeBuffer, hiu, hne, if_false,
      hbuf, h.held]
    rfl
  have henqueue : { s with idxUnbundle := k + 1, held := [(0, buf)], granted := 0 }.step
      (.enqueue 0 buf 0) = some { s with
        idxUnbundle := k + 1, held := [], granted := 0, idxBundle := k + 1
        bufSize := Function.update s.bufSize buf 0
        slot := Function.update s.slot b (Function.update (s.slot b) k (some buf)) } := by
    rw [step_eq_some]
    refine ⟨⟨h.alive, List.mem_cons_self ..⟩, ?_⟩
    simp only [DiskBatcher.run, DiskBatcher.enqueue, hb, DiskBatcher.putBuffer, hib, hne, if_false]
    simp [Bind.bind, Except.bind, Pure.pure, Except.pure]
  have hreach := h.reachable.next (by simp [FlushesOk]) hcheck
  have hreach' := hreach.next (by simp [FlushesOk]) hdequeue
  exact ⟨_, hreach'.next (by simp [FlushesOk]) henqueue, h.alive, rfl, ⟨u, hu⟩, ⟨b, hb⟩, rfl⟩

lemma exists_afterBuffers (k : ℕ) (hk : k < diskIoBatchSize) : ∃ s, AfterBuffers k s := by
  induction k with
  | zero => exact afterBuffers_zero
  | succ k ih =>
    obtain ⟨s, hs⟩ := ih (by omega)
    exact hs.next hk

/-- A partition of sixty-three buffers. -/
theorem flushLaw_iff_sixty_three :
    ∃ s, ReachableVia FlushesOk step init s ∧ s.alive = true ∧ s.held = [] ∧ s.idxBundle = 63 ∧
      ∃ s', FlushLaw s s' := by
  obtain ⟨s, hs⟩ := exists_afterBuffers 63 (by decide)
  refine ⟨s, hs.reachable, hs.alive, hs.held, hs.idxBundle, ?_⟩
  exact ((flushLaw_iff hs.reachable).2 hs.alive hs.held).mpr (Or.inl hs.idxBundle)

/-- A partition of one buffer. -/
theorem not_flushLaw_one :
    ∃ s, ReachableVia FlushesOk step init s ∧ s.alive = true ∧ s.held = [] ∧ s.idxBundle = 1 ∧
      s.idxUnbundle = 1 ∧ ¬∃ s', FlushLaw s s' := by
  obtain ⟨s, hs⟩ := exists_afterBuffers 1 (by decide)
  have hc := conserved_of_flushesOk hs.reachable
  have hidx := hs.idxBundle
  refine ⟨s, hs.reachable, hs.alive, hs.held, hidx, ?_, ?_⟩
  · rw [← hc.idxBundle_eq hs.held, hidx]
  · apply hc.not_flushLaw hs.held
    rintro (hlast | ⟨hzero, -⟩)
    · rw [hidx] at hlast
      exact absurd hlast (by decide)
    · rw [hidx] at hzero
      exact absurd hzero (by decide)

end DiskBatcher

end SupraSeal
