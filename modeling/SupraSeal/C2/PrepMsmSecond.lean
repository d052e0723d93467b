import SupraSeal.C2.PrepMsmFirst

/-!
# The second pass

A query that is split gets, at the place of each bit of its mask, a base and a scalar for the tail MSM,
and a bit for each variable that is one. The other queries get all their scalars.
-/

namespace SupraSeal.PrepMsm

open GridStride PackedBits

variable {F V : Type*}

def Query.all (q : Query F) : List F := q.inputs ++ q.aux

/-- The bits for the batch addition. -/
def Query.ones [DecidableEq F] [One F] (q : Query F) : List Bool :=
  List.replicate q.inputs.length false ++ q.aux.map fun scalar => decide (scalar = 1)

/-- The scalars for the tail MSM. -/
def Query.tail [DecidableEq F] [Zero F] [One F] (q : Query F) : List F :=
  q.inputs ++ q.aux.map fun scalar => if scalar = 1 then 0 else scalar

/-- One more auxiliary variable. -/
def Query.concat (q : Query F) (scalar : F) : Query F := ⟨q.inputs, q.aux ++ [scalar]⟩

@[simp]
lemma Query.length_concat (q : Query F) (scalar : F) : (q.concat scalar).length = q.length + 1 := by
  simp [concat, length, Nat.add_assoc]

@[simp]
lemma Query.length_ones [DecidableEq F] [One F] (q : Query F) : q.ones.length = q.length := by
  simp [ones, length]

@[simp]
lemma Query.length_all (q : Query F) : q.all.length = q.length := by simp [all, length]

lemma Query.tail_concat [DecidableEq F] [Zero F] [One F] (query : Query F) (scalar : F) :
    (query.concat scalar).tail = query.tail ++ [if scalar = 1 then 0 else scalar] := by
  simp [Query.tail, Query.concat]

lemma Query.length_tail [DecidableEq F] [Zero F] [One F] (query : Query F) :
    query.tail.length = query.length := by
  simp [Query.tail, Query.length]

lemma Query.ones_concat [DecidableEq F] [One F] (query : Query F) (scalar : F) :
    (query.concat scalar).ones = query.ones ++ [decide (scalar = 1)] := by
  simp [Query.ones, Query.concat]

/-- Position `pos` is in the tail MSM. -/
def Params.marked (q : Params V) (pos : ℕ) : Prop := bitAt q.tailMask pos = true

instance (q : Params V) : DecidablePred q.marked :=
  fun pos => inferInstanceAs (Decidable (bitAt q.tailMask pos = true))

variable [Zero F]

lemma getD_concat_of_ne {l : List F} {scalar : F} {pos : ℕ} (h : pos ≠ l.length) :
    (l ++ [scalar]).getD pos 0 = l.getD pos 0 := by
  rcases Nat.lt_or_gt_of_ne h with hlt | hlt
  · exact List.getD_append _ _ _ _ hlt
  · have hle : (l ++ [scalar]).length ≤ pos := by
      rw [List.length_append]
      exact hlt
    rw [List.getD_eq_default _ _ hle, List.getD_eq_default _ _ hlt.le]

lemma getD_concat_length (l : List F) (scalar : F) : (l ++ [scalar]).getD l.length 0 = scalar := by simp

/-! ### Marked variables -/

section TailMsm

variable [DecidableEq F] [One F] {q : Params V} {query : Query F} {t : TailMsm F V}

/-- Bases and scalars. -/
structure Collected (q : Params V) (query : Query F) (t : TailMsm F V) : Prop where
  cursor : t.cursor = Nat.count q.marked query.length
  scalars : ∀ pos < query.length, q.marked pos →
    t.scalars.data (Nat.count q.marked pos) = query.tail.getD pos 0
  scalarsRange : t.scalars.InRange (Nat.count q.marked query.length)
  bases : q.first = true → ∀ pos < query.length, q.marked pos →
    t.bases.data (Nat.count q.marked pos) = q.points pos
  basesRange : t.bases.InRange (Nat.count q.marked query.length)
  pointsReads : ∀ i, i ∈ t.pointsReads ↔ q.first = true ∧ i < query.length ∧ q.marked i

/-- A variable in the tail MSM. -/
lemma Collected.put (h : Collected q query t) (hmarked : q.marked query.length) (scalar : F) :
    Collected q (query.concat scalar) (t.put q query.length scalar) := by
  have hcount : Nat.count q.marked (query.length + 1) = Nat.count q.marked query.length + 1 := by
    rw [Nat.count_succ, if_pos hmarked]
  have hlt : Nat.count q.marked query.length < Nat.count q.marked query.length + 1 :=
    Nat.lt_succ_self _
  have hne : ∀ {pos}, pos < query.length → q.marked pos →
      Nat.count q.marked pos ≠ Nat.count q.marked query.length :=
    fun hpos hm => (Nat.count_strict_mono hm hpos).ne
  have hscalars : ∀ pos < query.length + 1, q.marked pos →
      Function.update t.scalars.data t.cursor (if scalar = 1 then 0 else scalar)
        (Nat.count q.marked pos) = (query.concat scalar).tail.getD pos 0 := by
    intro pos hpos hm
    rw [h.cursor, Query.tail_concat]
    rcases Nat.lt_succ_iff_lt_or_eq.mp hpos with hpos | rfl
    · rw [Function.update_of_ne (hne hpos hm), getD_concat_of_ne (by rw [Query.length_tail]; exact hpos.ne)]
      exact h.scalars pos hpos hm
    · rw [Function.update_self, ← Query.length_tail, getD_concat_length]
  have hrange := (h.scalarsRange.mono hlt.le).store (h.cursor.trans_lt hlt)
    (if scalar = 1 then 0 else scalar)
  rw [TailMsm.put]
  by_cases hfirst : q.first = true
  · rw [if_pos hfirst]
    refine ⟨?_, ?_, ?_, fun _ pos hpos hm => ?_, ?_, fun i => ?_⟩
    · rw [Query.length_concat, hcount, ← h.cursor]
      rfl
    · rwa [Query.length_concat]
    · rwa [Query.length_concat, hcount]
    · show Function.update t.bases.data t.cursor (q.points query.length) _ = _
      rw [Query.length_concat] at hpos
      rw [h.cursor]
      rcases Nat.lt_succ_iff_lt_or_eq.mp hpos with hpos | rfl
      · rw [Function.update_of_ne (hne hpos hm)]
        exact h.bases hfirst pos hpos hm
      · rw [Function.update_self]
    · rw [Query.length_concat, hcount]
      exact (h.basesRange.mono hlt.le).store (h.cursor ▸ hlt) _
    · show i ∈ query.length :: t.pointsReads ↔ _
      rw [List.mem_cons, h.pointsReads, Query.length_concat, Nat.lt_succ_iff_lt_or_eq]
      constructor
      · rintro (rfl | ⟨hf, hi, hm⟩)
        · exact ⟨hfirst, Or.inr rfl, hmarked⟩
        · exact ⟨hf, Or.inl hi, hm⟩
      · rintro ⟨hf, hi | hi, hm⟩
        · exact Or.inr ⟨hf, hi, hm⟩
        · exact Or.inl hi
  · rw [if_neg hfirst]
    refine ⟨?_, ?_, ?_, fun hf => absurd hf hfirst, ?_, fun i => ?_⟩
    · rw [Query.length_concat, hcount, ← h.cursor]
      rfl
    · rwa [Query.length_concat]
    · rwa [Query.length_concat, hcount]
    · rw [Query.length_concat, hcount]
      exact h.basesRange.mono hlt.le
    · show i ∈ t.pointsReads ↔ _
      rw [h.pointsReads]
      simp only [hfirst, Bool.false_eq_true, false_and]

lemma Collected.skip (h : Collected q query t) (hmarked : ¬q.marked query.length) (scalar : F) :
    Collected q (query.concat scalar) t := by
  have hcount : Nat.count q.marked (query.length + 1) = Nat.count q.marked query.length := by
    rw [Nat.count_succ, if_neg hmarked, Nat.add_zero]
  have hlt : ∀ {pos}, pos < query.length + 1 → q.marked pos → pos < query.length := by
    intro pos hpos hm
    rcases Nat.lt_succ_iff_lt_or_eq.mp hpos with hpos | rfl
    · exact hpos
    · exact absurd hm hmarked
  refine ⟨?_, fun pos hpos hm => ?_, ?_, fun hf pos hpos hm => ?_, ?_, fun i => ?_⟩
  · rw [Query.length_concat, hcount, h.cursor]
  · rw [Query.length_concat] at hpos
    have hpos := hlt hpos hm
    rw [h.scalars pos hpos hm, Query.tail_concat, getD_concat_of_ne (by rw [Query.length_tail]; exact hpos.ne)]
  · rw [Query.length_concat, hcount]
    exact h.scalarsRange
  · rw [Query.length_concat] at hpos
    exact h.bases hf pos (hlt hpos hm) hm
  · rw [Query.length_concat, hcount]
    exact h.basesRange
  · rw [h.pointsReads, Query.length_concat]
    constructor
    · rintro ⟨hf, hi, hm⟩
      exact ⟨hf, hi.trans (Nat.lt_succ_self _), hm⟩
    · rintro ⟨hf, hi, hm⟩
      exact ⟨hf, hlt hi hm, hm⟩

end TailMsm

namespace Tail

variable {q : Params V} {t : Tail F V} {inputs : List F} {query : Query F}

/-! ### Inputs -/

/-- Behind some inputs. -/
structure InpInv (q : Params V) (inputs : List F) (t : Tail F V) : Prop where
  cursor : t.cursor = inputs.length
  scalars : ∀ pos < inputs.length, t.scalars.data pos = inputs.getD pos 0
  scalarsRange : t.scalars.InRange inputs.length
  bases : (q.first && q.split) = true → ∀ pos < inputs.length, t.bases.data pos = q.points pos
  basesAccesses : (q.first && q.split) = false → t.bases.accesses = []
  basesRange : t.bases.InRange inputs.length
  pointsReads : ∀ i, i ∈ t.pointsReads ↔ (q.first && q.split) = true ∧ i < inputs.length
  maskReads : t.maskReads = []

/-- One more input. -/
lemma InpInv.putInp (h : InpInv q inputs t) (scalar : F) :
    InpInv q (inputs ++ [scalar]) (t.putInp q scalar) := by
  have hlen : (inputs ++ [scalar]).length = inputs.length + 1 := by simp
  have hlt : inputs.length < inputs.length + 1 := Nat.lt_succ_self _
  have hscalars : ∀ pos < inputs.length + 1,
      Function.update t.scalars.data t.cursor scalar pos = (inputs ++ [scalar]).getD pos 0 := by
    intro pos hpos
    rw [h.cursor]
    by_cases hne : pos = inputs.length
    · subst hne
      rw [Function.update_self, getD_concat_length]
    · rw [Function.update_of_ne hne, getD_concat_of_ne hne]
      exact h.scalars pos (by omega)
  have hrange : (t.scalars.store t.cursor scalar).InRange (inputs.length + 1) :=
    (h.scalarsRange.mono hlt.le).store (h.cursor ▸ hlt) _
  rw [Tail.putInp]
  by_cases hcopy : (q.first && q.split) = true
  · rw [if_pos hcopy]
    refine ⟨?_, ?_, ?_, fun _ pos hpos => ?_, fun hf => ?_, ?_, fun i => ?_, h.maskReads⟩
    · rw [hlen, ← h.cursor]
      rfl
    · rwa [hlen]
    · rwa [hlen]
    · rw [hlen] at hpos
      show Function.update t.bases.data t.cursor (q.points t.cursor) pos = _
      rw [h.cursor]
      by_cases hne : pos = inputs.length
      · subst hne
        rw [Function.update_self]
      · rw [Function.update_of_ne hne]
        exact h.bases hcopy pos (by omega)
    · rw [hcopy] at hf
      cases hf
    · rw [hlen]
      exact (h.basesRange.mono hlt.le).store (h.cursor ▸ hlt) _
    · rw [hlen]
      show i ∈ t.cursor :: t.pointsReads ↔ _
      rw [List.mem_cons, h.pointsReads, h.cursor]
      simp only [hcopy, true_and]
      omega
  · rw [if_neg hcopy]
    refine ⟨?_, ?_, ?_, fun hc => absurd hc hcopy, h.basesAccesses, ?_, fun i => ?_, h.maskReads⟩
    · rw [hlen, ← h.cursor]
      rfl
    · rwa [hlen]
    · rwa [hlen]
    · rw [hlen]
      exact h.basesRange.mono hlt.le
    · show i ∈ t.pointsReads ↔ _
      rw [h.pointsReads]
      simp only [hcopy, Bool.false_eq_true, false_and]

/-! ### Queries that are not split -/

/-- In a query that is not split. -/
structure FullInv (q : Params V) (query : Query F) (t : Tail F V) : Prop where
  writer : t.writer.Holds (List.replicate query.inputs.length false)
  maskReads : t.maskReads = [query.inputs.length / 64]
  cursor : t.cursor = query.length
  scalars : ∀ pos < query.length, t.scalars.data pos = query.all.getD pos 0
  scalarsRange : t.scalars.InRange query.length
  basesAccesses : t.bases.accesses = []
  pointsReads : t.pointsReads = []

lemma InpInv.startAux_full (h : InpInv q inputs t) (hsplit : q.split = false)
    (hwriter : BitWriter.Holds { t.writer with bits := 0#64 } (List.replicate inputs.length false)) :
    FullInv q ⟨inputs, []⟩ (t.startAux q) := by
  have hlen : (Query.mk inputs []).length = inputs.length := rfl
  have hcopy : (q.first && q.split) = false := by rw [hsplit, Bool.and_false]
  have hcursor : t.writer.cursor = inputs.length / 64 := by
    have hcur := hwriter.cursor
    rwa [List.length_replicate] at hcur
  refine ⟨hwriter, ?_, h.cursor, fun pos hpos => ?_, h.scalarsRange, h.basesAccesses hcopy, ?_⟩
  · show t.writer.cursor :: t.maskReads = _
    rw [h.maskReads, hcursor]
  · show t.scalars.data pos = _
    simpa [Query.all] using h.scalars pos hpos
  · refine List.eq_nil_iff_forall_not_mem.mpr fun i hi => ?_
    have hmem := ((h.pointsReads i).mp hi).1
    rw [hcopy] at hmem
    cases hmem

lemma FullInv.putAux [DecidableEq F] [One F] (h : FullInv q query t) (hsplit : q.split = false)
    (scalar : F) : FullInv q (query.concat scalar) (t.putAux q scalar) := by
  have hlt : query.length < query.length + 1 := Nat.lt_succ_self _
  have hall : (query.concat scalar).all = query.all ++ [scalar] := by simp [Query.all, Query.concat]
  rw [Tail.putAux, if_neg (by rw [hsplit]; exact Bool.false_ne_true)]
  refine ⟨h.writer, h.maskReads, ?_, fun pos hpos => ?_, ?_, h.basesAccesses, h.pointsReads⟩
  · rw [Query.length_concat, ← h.cursor]
    rfl
  · show Function.update t.scalars.data t.cursor scalar pos = _
    rw [Query.length_concat] at hpos
    rw [h.cursor, hall]
    by_cases hne : pos = query.length
    · rw [hne, Function.update_self, ← query.length_all, getD_concat_length]
    · rw [Function.update_of_ne hne, getD_concat_of_ne (by rwa [query.length_all])]
      exact h.scalars pos (by omega)
  · rw [Query.length_concat]
    exact (h.scalarsRange.mono hlt.le).store (h.cursor ▸ hlt) _

/-! ### Queries that are split -/

variable [DecidableEq F] [One F]

/-- Bits, and the word of the mask. -/
structure MaskInv (q : Params V) (query : Query F) (t : Tail F V) : Prop where
  writer : t.writer.Holds query.ones
  mask : t.mask = q.tailMask (query.length / 64)
  maskRead : query.length / 64 ∈ t.maskReads
  maskReads_le : ∀ i ∈ t.maskReads, i ≤ query.length / 64
  pointsCursor : t.pointsCursor = query.length

/-- In a query that is split. -/
structure SplitInv (q : Params V) (query : Query F) (t : Tail F V) : Prop where
  mask : MaskInv q query t
  data : Collected q query t.toTailMsm

/-- The first word of the mask. -/
lemma InpInv.startAux_split (h : InpInv q inputs t) (hsplit : q.split = true)
    (hwriter : BitWriter.Holds { t.writer with bits := 0#64 } (List.replicate inputs.length false))
    (hmarked : ∀ pos < inputs.length, q.marked pos) : SplitInv q ⟨inputs, []⟩ (t.startAux q) := by
  have hlen : (Query.mk inputs []).length = inputs.length := rfl
  have hcursor : t.writer.cursor = inputs.length / 64 := by
    have hcur := hwriter.cursor
    rwa [List.length_replicate] at hcur
  have hcount : ∀ pos ≤ inputs.length, Nat.count q.marked pos = pos := by
    intro pos hpos
    rw [Nat.count_iff_forall]
    exact fun i hi => hmarked i (hi.trans_le hpos)
  have hcopy : (q.first && q.split) = q.first := by rw [hsplit, Bool.and_true]
  refine ⟨⟨?_, ?_, ?_, fun i hi => ?_, h.cursor⟩, ⟨?_, fun pos hpos _ => ?_, ?_,
    fun hfirst pos hpos _ => ?_, ?_, fun i => ?_⟩⟩
  · show BitWriter.Holds { t.writer with bits := 0#64 } _
    simpa [Query.ones] using hwriter
  · rw [hlen, ← hcursor]
    rfl
  · rw [hlen, ← hcursor]
    exact List.mem_cons_self ..
  · obtain rfl := List.mem_singleton.mp (show i ∈ [t.writer.cursor] from h.maskReads ▸ hi)
    exact hcursor.le
  · rw [hlen, hcount _ le_rfl]
    exact h.cursor
  · rw [hlen] at hpos
    rw [hcount pos hpos.le]
    show t.scalars.data pos = _
    simpa [Query.tail] using h.scalars pos hpos
  · rw [hlen, hcount _ le_rfl]
    exact h.scalarsRange
  · rw [hlen] at hpos
    rw [hcount pos hpos.le]
    exact h.bases (hcopy.trans hfirst) pos hpos
  · rw [hlen, hcount _ le_rfl]
    exact h.basesRange
  · rw [hlen]
    show i ∈ t.pointsReads ↔ _
    rw [h.pointsReads, hcopy]
    exact ⟨fun ⟨hf, hi⟩ => ⟨hf, hi, hmarked i hi⟩, fun ⟨hf, hi, _⟩ => ⟨hf, hi⟩⟩

/-- One more dense variable. -/
lemma SplitInv.putAux (h : SplitInv q query t) (hsplit : q.split = true) (scalar : F) :
    SplitInv q (query.concat scalar) (t.putAux q scalar) := by
  have hoff : t.writer.bitOff = query.length % 64 := by
    rw [h.mask.writer.bitOff, Query.length_ones]
  have hmod : query.length % 64 < 64 := Nat.mod_lt _ (by decide)
  have htest : t.mask &&& 1#64 <<< t.writer.bitOff ≠ 0#64 ↔ q.marked query.length := by
    rw [hoff, and_ne_zero_iff _ hmod, h.mask.mask]
    rfl
  have hdata : Collected q (query.concat scalar)
      (if t.mask &&& 1#64 <<< t.writer.bitOff ≠ 0#64 then t.put q t.pointsCursor scalar
        else t.toTailMsm) := by
    by_cases hmarked : q.marked query.length
    · rw [if_pos (htest.mpr hmarked), h.mask.pointsCursor]
      exact h.data.put hmarked scalar
    · rw [if_neg (mt htest.mp hmarked)]
      exact h.data.skip hmarked scalar
  have hpush : (t.writer.push (scalar = 1)).Holds (query.concat scalar).ones := by
    rw [Query.ones_concat]
    exact h.mask.writer.push _
  have hcursor : (t.writer.push (scalar = 1)).cursor = (query.length + 1) / 64 := by
    rw [hpush.cursor, Query.length_ones, Query.length_concat]
  have hbits : chunkBits = 64 := rfl
  rw [Tail.putAux, if_pos hsplit]
  by_cases hfull : t.writer.bitOff + 1 = chunkBits
  · simp only [if_pos hfull]
    refine ⟨⟨hpush, ?_, ?_, fun i hi => ?_, ?_⟩, hdata⟩
    · rw [Query.length_concat, ← hcursor]
    · rw [Query.length_concat, ← hcursor]
      exact List.mem_cons_self ..
    · rw [Query.length_concat]
      rcases List.mem_cons.mp hi with rfl | hi
      · exact hcursor.le
      · exact (h.mask.maskReads_le i hi).trans (Nat.div_le_div_right (Nat.le_succ _))
    · rw [Query.length_concat, h.mask.pointsCursor]
  · simp only [if_neg hfull]
    have hdiv : (query.length + 1) / 64 = query.length / 64 := by omega
    refine ⟨⟨hpush, ?_, ?_, fun i hi => ?_, ?_⟩, hdata⟩
    · rw [Query.length_concat, hdiv, ← h.mask.mask]
    · rw [Query.length_concat, hdiv]
      exact h.mask.maskRead
    · rw [Query.length_concat, hdiv]
      exact h.mask.maskReads_le i hi
    · rw [Query.length_concat, h.mask.pointsCursor]

end Tail

end SupraSeal.PrepMsm
