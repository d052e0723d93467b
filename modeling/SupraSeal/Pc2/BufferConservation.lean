import SupraSeal.Pc2.DiskBatcher
import Mathlib.Algebra.Order.Group.Multiset
import Mathlib.Data.Multiset.Range
import Mathlib.Tactic.Abel

/-!
# No buffer is lost

Every batch is in one place and every buffer is in one slot in use or held by one resource. The
batches outnumber the buffers by `num_host_empty_batches` batches, so there is always an empty batch
for a buffer that is held.
-/

namespace SupraSeal

namespace DiskBatcher

open Transition

variable {s : DiskBatcher}

/-- All slots of a batch. -/
def batchSlots (slot : ℕ → ℕ → Option ℕ) (b : ℕ) : List (Option ℕ) :=
  (List.range diskIoBatchSize).map (slot b)

/-- The slots of `unbundle` in use. -/
def tailSlots (slot : ℕ → ℕ → Option ℕ) (unbundle : Option ℕ) (i : ℕ) : List (Option ℕ) :=
  unbundle.toList.flatMap fun u => (List.range' i (diskIoBatchSize - i)).map (slot u)

/-- The slots of `bundle` in use. -/
def headSlots (slot : ℕ → ℕ → Option ℕ) (bundle : Option ℕ) (i : ℕ) : List (Option ℕ) :=
  bundle.toList.flatMap fun b => (List.range i).map (slot b)

/-- The buffers that `dequeue` can still give. -/
def available (s : DiskBatcher) : ℕ :=
  (if s.unbundle = none then 0 else diskIoBatchSize - s.idxUnbundle) +
    s.poolFull.length * diskIoBatchSize

/-- Every batch is in one place and every buffer is in one slot in use or with one holder. -/
def InOnePlace (s : DiskBatcher) : Prop :=
  s.places = Multiset.range numBatches ∧ s.live = (Multiset.range numHostBufs).map some

/-- The invariant of the batcher and its queues. -/
structure Conserved (s : DiskBatcher) : Prop where
  places : s.places = Multiset.range numBatches
  live : s.live = (Multiset.range numHostBufs).map some
  unbundle_lt : ∀ u, s.unbundle = some u → s.idxUnbundle < diskIoBatchSize
  unbundle_none : s.unbundle = none → s.idxUnbundle = 0
  bundle_lt : ∀ b, s.bundle = some b → s.idxBundle < diskIoBatchSize
  bundle_none : s.bundle = none → s.idxBundle = 0
  granted : s.granted ≤ s.available
  dead : s.alive = false → s.unbundle = none ∧ s.bundle = none ∧ s.held = []

/-! ### Counting -/

lemma live_eq (s : DiskBatcher) : s.live = s.poolFull.flatMap (batchSlots s.slot) +
    s.toDisk.flatMap (batchSlots s.slot) + (s.writing.map Prod.snd).flatMap (batchSlots s.slot) +
    tailSlots s.slot s.unbundle s.idxUnbundle + headSlots s.slot s.bundle s.idxBundle +
    s.held.map fun p => some p.2 := by
  simp only [live, fullBatches, List.flatMap_append, Multiset.coe_add]
  rfl

lemma length_flatMap_batchSlots (slot : ℕ → ℕ → Option ℕ) (bs : List ℕ) :
    (bs.flatMap (batchSlots slot)).length = bs.length * diskIoBatchSize := by
  simp [List.length_flatMap, batchSlots]

/-- Writing to a batch changes no slot of another. -/
lemma flatMap_batchSlots_update (slot : ℕ → ℕ → Option ℕ) {b : ℕ} (f : ℕ → Option ℕ) {bs : List ℕ}
    (hb : b ∉ bs) :
    bs.flatMap (batchSlots (Function.update slot b f)) = bs.flatMap (batchSlots slot) := by
  apply List.flatMap_congr
  intro c hc
  have hne : c ≠ b := fun heq => hb (heq ▸ hc)
  simp only [batchSlots, Function.update_of_ne hne]

lemma tailSlots_update (slot : ℕ → ℕ → Option ℕ) {b : ℕ} (f : ℕ → Option ℕ) {unbundle : Option ℕ}
    (i : ℕ) (hb : unbundle ≠ some b) :
    tailSlots (Function.update slot b f) unbundle i = tailSlots slot unbundle i := by
  cases unbundle with
  | none => rfl
  | some u =>
    have hne : u ≠ b := by simpa using hb
    simp [tailSlots, Function.update_of_ne hne]

/-- A buffer stored at the end of `bundle`. -/
lemma headSlots_update (slot : ℕ → ℕ → Option ℕ) (b i : ℕ) (x : Option ℕ) :
    headSlots (Function.update slot b (Function.update (slot b) i x)) (some b) (i + 1) =
      headSlots slot (some b) i ++ [x] := by
  have hmap : (List.range i).map (Function.update (slot b) i x) = (List.range i).map (slot b) := by
    apply List.map_congr_left
    intro j hj
    rw [Function.update_of_ne (Nat.ne_of_lt (List.mem_range.mp hj))]
  simp [headSlots, List.range_succ, hmap]

lemma headSlots_none (slot : ℕ → ℕ → Option ℕ) (i : ℕ) : headSlots slot none i = [] := rfl

/-- All slots of `bundle` are in use once it is full. -/
lemma headSlots_full (slot : ℕ → ℕ → Option ℕ) (b : ℕ) :
    headSlots slot (some b) diskIoBatchSize = batchSlots slot b := by
  simp [headSlots, batchSlots]

namespace Conserved

lemma card_places (h : Conserved s) : s.poolFull.length + s.poolEmpty.length + s.toDisk.length +
    s.writing.length + s.unbundle.toList.length + s.bundle.toList.length = numBatches := by
  have hcard := congrArg Multiset.card h.places
  simp only [DiskBatcher.places, Multiset.card_add, Multiset.coe_card, List.length_map,
    Multiset.card_range] at hcard
  exact hcard

lemma card_live (h : Conserved s) : s.poolFull.length * diskIoBatchSize +
    s.toDisk.length * diskIoBatchSize + s.writing.length * diskIoBatchSize +
    (tailSlots s.slot s.unbundle s.idxUnbundle).length +
    (headSlots s.slot s.bundle s.idxBundle).length + s.held.length = numHostBufs := by
  have hcard := congrArg Multiset.card h.live
  rw [live_eq] at hcard
  simp only [Multiset.card_add, Multiset.coe_card, List.length_map, length_flatMap_batchSlots,
    Multiset.card_map, Multiset.card_range] at hcard
  exact hcard

lemma length_tailSlots (h : Conserved s) :
    (tailSlots s.slot s.unbundle s.idxUnbundle).length + s.idxUnbundle =
      s.unbundle.toList.length * diskIoBatchSize := by
  cases hu : s.unbundle with
  | none => simp [tailSlots, h.unbundle_none hu]
  | some u =>
    have := h.unbundle_lt u hu
    simp [tailSlots]
    omega

lemma length_headSlots (h : Conserved s) :
    (headSlots s.slot s.bundle s.idxBundle).length = s.idxBundle := by
  cases hb : s.bundle with
  | none => simp [headSlots, h.bundle_none hb]
  | some b => simp [headSlots]

/-- There is an empty batch for every buffer that is held. -/
lemma poolEmpty_ne_nil (h : Conserved s) (hheld : s.held ≠ []) : s.poolEmpty ≠ [] := by
  intro hnil
  have hplaces := h.card_places
  have hlive := h.card_live
  have hu := h.length_tailSlots
  have hb := h.length_headSlots
  have hh := List.length_pos_of_ne_nil hheld
  rw [hnil, List.length_nil] at hplaces
  have hnum : numBatches = 136 := rfl
  have hbufs : numHostBufs = 8192 := rfl
  simp only [diskIoBatchSize] at hlive hu
  have hubd : s.unbundle.toList.length ≤ 1 := by cases s.unbundle <;> simp
  have hbbd : s.bundle.toList.length ≤ 1 := by cases s.bundle <;> simp
  omega

/-- A queue has room for a batch that is not in it. -/
lemma push_eq {q : List ℕ} {b : ℕ} (hq : q.length < numBatches) : push q b = .ok (q ++ [b]) := by
  rw [push, if_neg (by omega)]

lemma slot_isSome (h : Conserved s) {x : Option ℕ} (hx : x ∈ s.live) : ∃ buf, x = some buf := by
  rw [h.live] at hx
  obtain ⟨buf, -, rfl⟩ := Multiset.mem_map.mp hx
  exact ⟨buf, rfl⟩

lemma nodup_places (h : Conserved s) : s.places.Nodup := by
  rw [h.places]
  exact Multiset.nodup_range numBatches

/-- `bundle` is in no other place. -/
lemma bundle_disjoint (h : Conserved s) {b : ℕ} (hb : s.bundle = some b) :
    b ∉ s.fullBatches ∧ s.unbundle ≠ some b := by
  have hnodup := h.nodup_places
  rw [DiskBatcher.places, hb, Option.toList_some, Multiset.coe_singleton, add_comm,
    Multiset.singleton_add, Multiset.nodup_cons] at hnodup
  have hb' := hnodup.1
  simp only [Multiset.mem_add, Multiset.mem_coe, not_or, Option.mem_toList] at hb'
  obtain ⟨⟨⟨⟨hfull, -⟩, hdisk⟩, hwriting⟩, hunbundle⟩ := hb'
  refine ⟨?_, hunbundle⟩
  simp only [fullBatches, List.mem_append, not_or]
  exact ⟨⟨hfull, hdisk⟩, hwriting⟩

/-! ### The operations keep the invariant -/

lemma refillUnbundle (h : Conserved s) (halive : s.alive = true) (hu : s.unbundle = none) {u : ℕ}
    {full : List ℕ} (hfull : s.poolFull = u :: full) :
    Conserved { s with unbundle := some u, poolFull := full } := by
  have hidx := h.unbundle_none hu
  refine ⟨?_, ?_, ?_, nofun, h.bundle_lt, h.bundle_none, ?_, ?_⟩
  · have hplaces := h.places
    simp only [DiskBatcher.places, hu, hfull, ← Multiset.cons_coe, ← Multiset.singleton_add,
      Option.toList_none, Option.toList_some, Multiset.coe_nil] at hplaces ⊢
    rw [← hplaces]
    abel
  · have hlive := h.live
    simp only [live_eq, hfull, tailSlots, hu, List.flatMap_cons, ← Multiset.coe_add,
      Option.toList_none, Option.toList_some, List.flatMap_nil, Multiset.coe_nil, hidx,
      batchSlots, List.range_eq_range', Nat.sub_zero] at hlive ⊢
    rw [← hlive]
    abel
  · intro u' _
    simp [hidx, diskIoBatchSize]
  · have hgranted := h.granted
    simp only [available, hu, hfull, List.length_cons, if_true, reduceCtorEq, if_false, hidx,
      diskIoBatchSize] at hgranted ⊢
    omega
  · intro hdead
    exact absurd (halive.symm.trans hdead) (by decide)

lemma refillBundle (h : Conserved s) (halive : s.alive = true) (hb : s.bundle = none) {b : ℕ}
    {empty : List ℕ} (hempty : s.poolEmpty = b :: empty) :
    Conserved { s with bundle := some b, poolEmpty := empty } := by
  have hidx := h.bundle_none hb
  refine ⟨?_, ?_, h.unbundle_lt, h.unbundle_none, ?_, nofun, h.granted, ?_⟩
  · have hplaces := h.places
    simp only [DiskBatcher.places, hb, hempty, ← Multiset.cons_coe, ← Multiset.singleton_add,
      Option.toList_none, Option.toList_some, Multiset.coe_nil] at hplaces ⊢
    rw [← hplaces]
    abel
  · have hlive := h.live
    simp only [live_eq, headSlots, hb, Option.toList_none, Option.toList_some, List.flatMap_nil,
      List.flatMap_cons, hidx, List.range_zero, List.map_nil, List.append_nil] at hlive ⊢
    exact hlive
  · intro b' _
    simp [hidx, diskIoBatchSize]
  · intro hdead
    exact absurd (halive.symm.trans hdead) (by decide)

/-- `takeBuffer` moves a buffer from `unbundle` to the one who asks for it. -/
lemma takeBuffer (h : Conserved s) (halive : s.alive = true) {u : ℕ} (hu : s.unbundle = some u) :
    ∃ buf s', s.takeBuffer u = .ok (some buf, s') ∧ ∀ resource,
      Conserved { s' with held := (resource, buf) :: s'.held, granted := s'.granted - 1 } := by
  have hlt := h.unbundle_lt u hu
  have hslots : tailSlots s.slot s.unbundle s.idxUnbundle =
      s.slot u s.idxUnbundle :: tailSlots s.slot (some u) (s.idxUnbundle + 1) := by
    have hrange : diskIoBatchSize - s.idxUnbundle =
      diskIoBatchSize - (s.idxUnbundle + 1) + 1 := by omega
    simp [tailSlots, hu, hrange, List.range'_succ]
  have hmem : s.slot u s.idxUnbundle ∈ s.live := by
    rw [live_eq, hslots]
    simp
  obtain ⟨buf, hbuf⟩ := h.slot_isSome hmem
  have hlive := h.live
  simp only [live_eq, hslots, hbuf, ← Multiset.cons_coe, ← Multiset.singleton_add] at hlive
  by_cases hlast : s.idxUnbundle + 1 = diskIoBatchSize
  · -- the batch is empty now and goes back to its pool
    have hcard := h.card_places
    rw [hu, Option.toList_some, List.length_singleton] at hcard
    refine ⟨buf, { s with idxUnbundle := 0, poolEmpty := s.poolEmpty ++ [u], unbundle := none },
      ?_, fun resource => ⟨?_, ?_, nofun, fun _ => rfl, h.bundle_lt, h.bundle_none, ?_, ?_⟩⟩
    · have hpush : push s.poolEmpty u = .ok (s.poolEmpty ++ [u]) := push_eq (by omega)
      simp only [DiskBatcher.takeBuffer, hlast, if_true, hpush, hbuf]
      rfl
    · have hplaces := h.places
      simp only [DiskBatcher.places, hu, ← Multiset.coe_add, Option.toList_none,
        Option.toList_some, Multiset.coe_nil] at hplaces ⊢
      rw [← hplaces]
      abel
    · simp only [live_eq, tailSlots, hlast, Nat.sub_self, List.range'_zero, List.map_nil,
        Option.toList_none, Option.toList_some, List.flatMap_nil, List.flatMap_cons,
        List.append_nil, List.map_cons, ← Multiset.cons_coe, ← Multiset.singleton_add,
        Multiset.coe_nil] at hlive ⊢
      rw [← hlive]
      abel
    · have hgranted := h.granted
      simp only [available, hu, if_true, reduceCtorEq, if_false, diskIoBatchSize] at hgranted hlast ⊢
      omega
    · intro hdead
      exact absurd (halive.symm.trans hdead) (by decide)
  · refine ⟨buf, { s with idxUnbundle := s.idxUnbundle + 1 }, ?_, fun resource => ⟨h.places, ?_, ?_,
      ?_, h.bundle_lt, h.bundle_none, ?_, ?_⟩⟩
    · simp only [DiskBatcher.takeBuffer, hlast, if_false, hbuf]
      rfl
    · simp only [live_eq, hu, List.map_cons, ← Multiset.cons_coe, ← Multiset.singleton_add]
      rw [← hlive]
      abel
    · intro u' _
      change s.idxUnbundle + 1 < diskIoBatchSize
      omega
    · intro hnone
      exact absurd (hu.symm.trans hnone) (by simp)
    · have hgranted := h.granted
      simp only [available, hu, reduceCtorEq, if_false, diskIoBatchSize] at hgranted hlast ⊢
      omega
    · intro hdead
      exact absurd (halive.symm.trans hdead) (by decide)

/-- `dequeue` after the main thread has asked for a buffer. -/
lemma dequeue (h : Conserved s) (halive : s.alive = true) (hgranted : 0 < s.granted) :
    ∃ buf s', s.dequeue = .ok (some buf, s') ∧ ∀ resource,
      Conserved { s' with held := (resource, buf) :: s'.held, granted := s'.granted - 1 } := by
  rw [DiskBatcher.dequeue]
  cases hu : s.unbundle with
  | some u => exact h.takeBuffer halive hu
  | none =>
    cases hfull : s.poolFull with
    | cons u full => exact (h.refillUnbundle halive hu hfull).takeBuffer halive rfl
    | nil =>
      have := h.granted
      simp [available, hu, hfull] at this
      omega

/-- `putBuffer` moves a buffer from its holder to `bundle`. -/
lemma putBuffer (h : Conserved s) (halive : s.alive = true) {b resource buf : ℕ}
    (hb : s.bundle = some b) (hheld : (resource, buf) ∈ s.held) :
    ∃ s', s.putBuffer b buf = .ok s' ∧
      Conserved { s' with held := s'.held.erase (resource, buf) } := by
  have hlt := h.bundle_lt b hb
  obtain ⟨hfull, hunbundle⟩ := h.bundle_disjoint hb
  simp only [fullBatches, List.mem_append, not_or] at hfull
  obtain ⟨⟨hpool, hdisk⟩, hwriting⟩ := hfull
  have hlive := h.live
  have herase : (s.held.map fun p => some p.2 : Multiset (Option ℕ)) =
      {some buf} + ((s.held.erase (resource, buf)).map fun p => some p.2 : List (Option ℕ)) := by
    have hperm := (List.perm_cons_erase hheld).map fun p => some p.2
    rw [Multiset.coe_eq_coe.mpr hperm, List.map_cons, ← Multiset.cons_coe, Multiset.singleton_add]
  simp only [live_eq, hb, herase] at hlive
  by_cases hlast : s.idxBundle + 1 = diskIoBatchSize
  · -- the batch is full now and goes to the writers
    have hcard := h.card_places
    rw [hb, Option.toList_some, List.length_singleton] at hcard
    refine ⟨{ s with
        slot := Function.update s.slot b (Function.update (s.slot b) s.idxBundle (some buf))
        toDisk := s.toDisk ++ [b], bundle := none, idxBundle := 0 }, ?_,
      ⟨?_, ?_, h.unbundle_lt, h.unbundle_none, nofun, fun _ => rfl, h.granted, ?_⟩⟩
    · have hpush : push s.toDisk b = .ok (s.toDisk ++ [b]) := push_eq (by omega)
      simp only [DiskBatcher.putBuffer, hlast, if_true, hpush]
      rfl
    · have hplaces := h.places
      simp only [DiskBatcher.places, hb, ← Multiset.coe_add, Option.toList_none,
        Option.toList_some, Multiset.coe_nil] at hplaces ⊢
      rw [← hplaces]
      abel
    · have hslots := headSlots_update s.slot b s.idxBundle (some buf)
      rw [hlast, headSlots_full] at hslots
      simp only [live_eq, List.flatMap_append, List.flatMap_cons, List.flatMap_nil, hslots,
        List.append_nil, flatMap_batchSlots_update _ _ hpool, flatMap_batchSlots_update _ _ hdisk,
        flatMap_batchSlots_update _ _ hwriting, tailSlots_update _ _ _ hunbundle,
        headSlots_none, ← Multiset.coe_add, Multiset.coe_singleton, Multiset.coe_nil]
      rw [← hlive]
      abel
    · intro hdead
      exact absurd (halive.symm.trans hdead) (by decide)
  · refine ⟨{ s with
        slot := Function.update s.slot b (Function.update (s.slot b) s.idxBundle (some buf))
        idxBundle := s.idxBundle + 1 }, ?_,
      ⟨h.places, ?_, h.unbundle_lt, h.unbundle_none, ?_, ?_, h.granted, ?_⟩⟩
    · simp only [DiskBatcher.putBuffer, hlast, if_false]
      rfl
    · simp only [live_eq, hb, headSlots_update, flatMap_batchSlots_update _ _ hpool,
        flatMap_batchSlots_update _ _ hdisk, flatMap_batchSlots_update _ _ hwriting,
        tailSlots_update _ _ _ hunbundle, ← Multiset.coe_add, Multiset.coe_singleton]
      rw [← hlive]
      abel
    · intro b' _
      change s.idxBundle + 1 < diskIoBatchSize
      omega
    · intro hnone
      exact absurd (hb.symm.trans hnone) (by simp)
    · intro hdead
      exact absurd (halive.symm.trans hdead) (by decide)

/-- `enqueue` of a buffer that is held. -/
lemma enqueue (h : Conserved s) (halive : s.alive = true) {resource buf : ℕ}
    (hheld : (resource, buf) ∈ s.held) :
    ∃ s', s.enqueue buf = .ok s' ∧ Conserved { s' with held := s'.held.erase (resource, buf) } := by
  rw [DiskBatcher.enqueue]
  cases hb : s.bundle with
  | some b => exact h.putBuffer halive hb hheld
  | none =>
    cases hempty : s.poolEmpty with
    | cons b empty => exact (h.refillBundle halive hb hempty).putBuffer halive rfl hheld
    | nil => exact absurd hempty (h.poolEmpty_ne_nil (List.ne_nil_of_mem hheld))

/-- With all batches back from the writers and no buffer held, the pools are as at the start. -/
lemma length_pools (h : Conserved s) (hu : s.unbundle = none) (hb : s.bundle = none)
    (hheld : s.held = []) (hdisk : s.toDisk = []) (hwriting : s.writing = []) :
    s.poolFull.length = numHostBatches ∧ s.poolEmpty.length = numHostEmptyBatches := by
  have hplaces := h.card_places
  have hlive := h.card_live
  have htail := h.length_tailSlots
  have hhead := h.length_headSlots
  have hidx := h.bundle_none hb
  simp only [hu, hb, hheld, hdisk, hwriting, Option.toList_none, List.length_nil, diskIoBatchSize]
    at hplaces hlive htail hhead
  have hnum : numBatches = 136 := rfl
  have hbufs : numHostBufs = 8192 := rfl
  have hfull : numHostBatches = 128 := rfl
  have hempty : numHostEmptyBatches = 8 := rfl
  omega

lemma construct (h : Conserved s) (halive : s.alive = false) (hdisk : s.toDisk = [])
    (hwriting : s.writing = []) : ∃ s', s.construct = .ok s' ∧ Conserved s' := by
  obtain ⟨hu, hb, hheld⟩ := h.dead halive
  obtain ⟨hlenFull, hlenEmpty⟩ := h.length_pools hu hb hheld hdisk hwriting
  obtain ⟨u, full, hfull⟩ : ∃ u full, s.poolFull = u :: full := by
    apply List.exists_cons_of_length_pos
    rw [hlenFull]
    decide
  obtain ⟨b, empty, hempty⟩ : ∃ b empty, s.poolEmpty = b :: empty := by
    apply List.exists_cons_of_length_pos
    rw [hlenEmpty]
    decide
  have hiu := h.unbundle_none hu
  have hib := h.bundle_none hb
  have halive' : Conserved { s with alive := true } :=
    ⟨h.places, h.live, h.unbundle_lt, h.unbundle_none, h.bundle_lt, h.bundle_none, h.granted, nofun⟩
  have hboth := (halive'.refillUnbundle rfl hu hfull).refillBundle rfl hb hempty
  refine ⟨_, ?_, hboth⟩
  simp only [DiskBatcher.construct, hfull, hempty, hiu, hib]

lemma writerDequeue (h : Conserved s) (writer : ℕ) {b : ℕ} {rest : List ℕ}
    (hdisk : s.toDisk = b :: rest) :
    Conserved { s with toDisk := rest, writing := (writer, b) :: s.writing } := by
  refine ⟨?_, ?_, h.unbundle_lt, h.unbundle_none, h.bundle_lt, h.bundle_none, h.granted, h.dead⟩
  · have hplaces := h.places
    simp only [DiskBatcher.places, hdisk, List.map_cons, ← Multiset.cons_coe,
      ← Multiset.singleton_add] at hplaces ⊢
    rw [← hplaces]
    abel
  · have hlive := h.live
    simp only [live_eq, hdisk, List.map_cons, List.flatMap_cons, ← Multiset.coe_add] at hlive ⊢
    rw [← hlive]
    abel

lemma writerEnqueue (h : Conserved s) {writer b : ℕ} (hwriting : (writer, b) ∈ s.writing) :
    ∃ full, push s.poolFull b = .ok full ∧
      Conserved { s with poolFull := full, writing := s.writing.erase (writer, b) } := by
  have hperm := List.perm_cons_erase hwriting
  have herase : (s.writing.map Prod.snd : Multiset ℕ) =
      {b} + ((s.writing.erase (writer, b)).map Prod.snd : List ℕ) := by
    rw [Multiset.coe_eq_coe.mpr (hperm.map Prod.snd), List.map_cons, ← Multiset.cons_coe,
      Multiset.singleton_add]
  have herase' : ((s.writing.map Prod.snd).flatMap (batchSlots s.slot) : Multiset (Option ℕ)) =
      batchSlots s.slot b +
        (((s.writing.erase (writer, b)).map Prod.snd).flatMap (batchSlots s.slot) :
          List (Option ℕ)) := by
    rw [Multiset.coe_eq_coe.mpr ((hperm.map Prod.snd).flatMap_right _), List.map_cons,
      List.flatMap_cons, Multiset.coe_add]
  have hcard := h.card_places
  have hpos := List.length_pos_of_mem hwriting
  refine ⟨s.poolFull ++ [b], push_eq (by omega), ?_, ?_, h.unbundle_lt, h.unbundle_none, h.bundle_lt,
    h.bundle_none, ?_, h.dead⟩
  · have hplaces := h.places
    simp only [DiskBatcher.places, herase, ← Multiset.coe_add] at hplaces ⊢
    rw [← hplaces, Multiset.coe_singleton]
    abel
  · have hlive := h.live
    simp only [live_eq, herase', List.flatMap_append, List.flatMap_cons, List.flatMap_nil,
      List.append_nil, ← Multiset.coe_add] at hlive ⊢
    rw [← hlive]
    abel
  · have hgranted := h.granted
    simp only [available, List.length_append] at hgranted ⊢
    refine hgranted.trans (Nat.add_le_add_left (Nat.mul_le_mul_right _ ?_) _)
    exact Nat.le_add_right _ _

lemma check (h : Conserved s) (n : ℕ) :
    Conserved { s with granted := if n ≤ s.size then n else 0 } := by
  refine ⟨h.places, h.live, h.unbundle_lt, h.unbundle_none, h.bundle_lt, h.bundle_none, ?_, h.dead⟩
  change (if n ≤ s.size then n else 0) ≤ s.available
  split_ifs with hn
  · exact hn.trans (min_le_left _ _)
  · exact Nat.zero_le _

end Conserved

/-! ### Runs -/

/-- Consecutive batches hold consecutive buffers. -/
lemma range_flatMap_range (f : ℕ → Option ℕ) (n k : ℕ) :
    (List.range n).flatMap (fun i => (List.range k).map fun j => f (i * k + j)) =
      (List.range (n * k)).map f := by
  induction n with
  | zero => simp
  | succ n ih =>
    rw [List.range_succ, List.flatMap_append, ih, Nat.succ_mul, List.range_add, List.map_append]
    simp [Function.comp_def]

lemma conserved_init : Conserved init := by
  refine ⟨?_, ?_, nofun, fun _ => rfl, nofun, fun _ => rfl, Nat.zero_le _, fun _ => ⟨rfl, rfl, rfl⟩⟩
  · rfl
  · have hslots : (List.range numHostBatches).flatMap (batchSlots init.slot) =
        (List.range numHostBufs).map some := by
      rw [show numHostBufs = numHostBatches * diskIoBatchSize from rfl, ← range_flatMap_range]
      apply List.flatMap_congr
      intro i hi
      simp [batchSlots, init, List.mem_range.mp hi]
    rw [live_eq]
    simp only [init] at hslots ⊢
    rw [hslots]
    simp [tailSlots, headSlots, Multiset.range]

/-- Every step but `flush` is without a fault and keeps the invariant. -/
lemma Conserved.run (h : Conserved s) {a : Action} (ha : a ≠ .flush) (hen : s.enabled a) :
    ∃ s', s.run a = .ok s' ∧ Conserved s' := by
  cases a with
  | construct => exact h.construct hen.1 hen.2.1 hen.2.2
  | check n => exact ⟨_, rfl, h.check n⟩
  | dequeue resource =>
    obtain ⟨buf, s', hs', hc⟩ := h.dequeue hen.1 hen.2
    refine ⟨_, ?_, hc resource⟩
    simp only [DiskBatcher.run, hs']
    rfl
  | enqueue resource buf size =>
    have hsize : Conserved { s with bufSize := Function.update s.bufSize buf size } :=
      ⟨h.places, h.live, h.unbundle_lt, h.unbundle_none, h.bundle_lt, h.bundle_none, h.granted,
        h.dead⟩
    obtain ⟨s', hs', hc⟩ := hsize.enqueue hen.1 hen.2
    refine ⟨_, ?_, hc⟩
    simp only [DiskBatcher.run, hs']
    rfl
  | writerDequeue writer =>
    cases hdisk : s.toDisk with
    | nil => exact ⟨s, by simp only [DiskBatcher.run, hdisk], h⟩
    | cons b rest => exact ⟨_, by simp only [DiskBatcher.run, hdisk], h.writerDequeue writer hdisk⟩
  | writerEnqueue writer b =>
    obtain ⟨full, hpush, hc⟩ := h.writerEnqueue hen
    refine ⟨_, ?_, hc⟩
    simp only [DiskBatcher.run, hpush]
    rfl
  | flush => exact absurd rfl ha

lemma step_eq_some {s' : DiskBatcher} {a : Action} :
    s.step a = some s' ↔ s.enabled a ∧ s.run a = .ok s' := by
  rw [step]
  split_ifs with hen
  · cases hrun : s.run a <;> simp [Except.toOption, hen]
  · simp [hen]

/-- The first batcher takes the first batch of each pool. -/
lemma step_construct_init : init.step .construct = some { init with
    alive := true, poolFull := (List.range 128).tail, poolEmpty := List.range' 129 7,
    unbundle := some 0, bundle := some 128 } :=
  step_eq_some.mpr ⟨⟨rfl, rfl, rfl⟩, rfl⟩

end DiskBatcher

end SupraSeal
