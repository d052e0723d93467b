import SupraSeal.C2.PrepMsmMasks
import Mathlib.Data.BitVec

/-!
# Accesses of the preparation

All indices of both passes and of the merge are below the sizes of their arrays, except for the word of
the mask that is fetched behind the last one when the number of points is a multiple of 64.
-/

namespace SupraSeal.PrepMsm

open GridStride PackedBits

variable {F G₁ G₂ V : Type*}

/-! ### The merge -/

/-- The merge of a mask reads the words of the circuits. -/
def Prep.MergeInRange (r : Prep F G₁ G₂) (size : ℕ) : Prop :=
  ∀ read ∈ mergeReads r.numCircuits size, read.1 < r.numCircuits ∧ read.2 < size

lemma Prep.mergeInRange (r : Prep F G₁ G₂) (size : ℕ) : r.MergeInRange size := by
  intro read hread
  obtain ⟨i, hi, hread⟩ := List.mem_flatMap.mp hread
  have hi := List.mem_range.mp hi
  rcases List.mem_cons.mp hread with rfl | hread
  · exact ⟨r.numCircuits_pos, hi⟩
  · obtain ⟨c, hc, rfl⟩ := List.mem_map.mp hread
    have hc := List.mem_range'_1.mp hc
    exact ⟨by omega, hi⟩

variable [DecidableEq F] [Zero F] [One F]

/-! ### Sizes -/

/-- All indices of a list are below a bound. -/
def Below (l : List ℕ) (size : ℕ) : Prop := ∀ i ∈ l, i < size

/-- The accesses of the first pass to its vectors and densities. -/
structure Pass1.InRange (p : Assignment F) (lSize aSize bSize : ℕ) (s : Pass1) : Prop where
  l : s.l.InRange lSize
  a : s.a.flush.InRange aSize
  b : s.b.flush.InRange bSize
  bInp : Below s.bInpReads (numWords p.bInpBitLen)
  aAux : Below s.aAuxReads (numWords p.aAuxBitLen)
  bAux : Below s.bAuxReads (numWords p.bAuxBitLen)

/-- The accesses of the second pass to bases and scalars. -/
structure TailMsm.InRange (bases scalars points : ℕ) (t : TailMsm F V) : Prop where
  bases : t.bases.InRange bases
  scalars : t.scalars.InRange scalars
  points : Below t.pointsReads points

namespace Prep

variable (r : Prep F G₁ G₂) (c : ℕ)

/-- The lengths to which bases and scalars are resized. -/
def lResized : ℕ := if r.lSplitMsm then r.lPopcount else 0

def aResized : ℕ := if r.aSplitMsm then r.aPopcount else 0

def bResized : ℕ := if r.bSplitMsm then r.bPopcount else 0

def aScalars : ℕ := if r.aSplitMsm then r.aPopcount else r.points.a.size

def bScalars : ℕ := if r.bSplitMsm then r.bPopcount else r.points.bG1.size

/-- The accesses of the second pass in circuit `c`. -/
structure SecondInRange : Prop where
  l : (r.second c).l.toTailMsm.InRange r.lResized r.lResized r.points.l.size
  a : (r.second c).a.toTailMsm.InRange r.aResized r.aScalars r.points.a.size
  b : (r.second c).b.toTailMsm.InRange r.bResized r.bScalars r.points.bG1.size
  bG2 : Below (r.second c).b.pointsReads r.points.bG2.size
  lVector : (r.second c).l.vector.InRange r.lSize
  aVector : (r.second c).a.writer.flush.InRange r.aSize
  bVector : (r.second c).b.writer.flush.InRange r.bSize
  lMask : Below (r.second c).l.maskReads r.lSize
  aMask : Below (r.second c).a.maskReads r.aSize
  bMask : Below (r.second c).b.maskReads r.bSize
  bInp : Below (r.second c).bInpReads (numWords (r.provers c).bInpBitLen)
  aAux : Below (r.second c).aAuxReads (numWords (r.provers c).aAuxBitLen)
  bAux : Below (r.second c).bAuxReads (numWords (r.provers c).bAuxBitLen)

/-- The asserts of the second pass in circuit `c`. -/
structure ClosingAsserts : Prop where
  inputs : (r.inputs c).b.cursor = (r.provers c).bInpPopcount
  l : r.lSplitMsm = true → (r.second c).l.cursor = r.lPopcount
  a_split : r.aSplitMsm = true →
    (r.second c).a.pointsCursor = r.points.a.size ∧ (r.second c).a.cursor = r.aPopcount
  a_full : r.aSplitMsm = false → (r.second c).a.cursor = r.points.a.size
  b_split : r.bSplitMsm = true →
    (r.second c).b.pointsCursor = r.points.bG1.size ∧ (r.second c).b.cursor = r.bPopcount
  b_full : r.bSplitMsm = false → (r.second c).b.cursor = r.points.bG1.size

/-- Every access is in range, and the asserts hold. -/
structure Safe : Prop where
  first : ∀ c < r.numCircuits, (r.first c).InRange (r.provers c) r.lSize r.aSize r.bSize
  merge : r.MergeInRange r.lSize ∧ r.MergeInRange r.aSize ∧ r.MergeInRange r.bSize
  second : ∀ c < r.numCircuits, r.SecondInRange c
  asserts : ∀ c < r.numCircuits, r.ClosingAsserts c

end Prep

/-! ### One query -/

lemma Collected.inRange {q : Params V} {query : Query F} {t : TailMsm F V}
    (h : Collected q query t) :
    t.InRange (Nat.count q.marked query.length) (Nat.count q.marked query.length) query.length :=
  ⟨h.basesRange, h.scalarsRange, fun i hi => ((h.pointsReads i).mp hi).2.1⟩

lemma LTail.Inv.inRange {q : Params V} {query : Query F} {t : LTail F V} (h : Inv q query t) :
    t.toTailMsm.InRange (if q.split then Nat.count q.marked query.length else 0)
      (if q.split then Nat.count q.marked query.length else 0) query.length := by
  cases hs : q.split with
  | true => exact (h.split hs).inRange
  | false =>
    obtain ⟨hbases, hpoints, hscalars⟩ := h.full hs
    refine ⟨fun i hi => ?_, fun i hi => ?_, fun i hi => ?_⟩
    · rw [hbases] at hi
      cases hi
    · rw [hscalars] at hi
      cases hi
    · rw [hpoints] at hi
      cases hi

namespace Tail.AuxInv

variable {q : Params V} {query : Query F} {t : Tail F V}

lemma inRange (h : AuxInv q query t) :
    t.toTailMsm.InRange (if q.split then Nat.count q.marked query.length else 0)
      (if q.split then Nat.count q.marked query.length else query.length) query.length := by
  cases hs : q.split with
  | true => exact (h.split hs).data.inRange
  | false =>
    have hfull := h.full hs
    refine ⟨fun i hi => ?_, hfull.scalarsRange, fun i hi => ?_⟩
    · rw [hfull.basesAccesses] at hi
      cases hi
    · rw [hfull.pointsReads] at hi
      cases hi

lemma vector_inRange (h : AuxInv q query t) : t.writer.flush.InRange (numWords query.length) := by
  cases hs : q.split with
  | true =>
    have hrange := (h.split hs).mask.writer.inRange_flush
    rwa [Query.length_ones] at hrange
  | false =>
    have hrange := (h.full hs).writer.inRange_flush
    rw [List.length_replicate] at hrange
    refine hrange.mono ?_
    simp only [numWords, Query.length]
    omega

/-- The words of the mask that are read. -/
lemma below_maskReads_iff (h : AuxInv q query t) : Below t.maskReads (numWords query.length) ↔
    (64 ∣ query.length → q.split = false ∧ query.aux ≠ []) := by
  cases hs : q.split with
  | true =>
    have hmask := (h.split hs).mask
    simp only [Bool.true_eq_false, false_and, imp_false]
    rw [Nat.dvd_iff_mod_eq_zero, ← ne_eq, ← div_lt_numWords_iff]
    constructor
    · intro hbelow
      exact hbelow _ hmask.maskRead
    · intro hlt i hi
      exact (hmask.maskReads_le i hi).trans_lt hlt
  | false =>
    have hreads := (h.full hs).maskReads
    have hsum : query.length = query.inputs.length + query.aux.length := rfl
    rw [Below, hreads]
    simp only [List.mem_singleton, forall_eq, true_and]
    rw [numWords, ne_eq, ← List.length_eq_zero_iff]
    constructor
    · intro hlt hdvd hzero
      omega
    · intro haux
      by_cases hdvd : 64 ∣ query.length
      · have hpos := haux hdvd
        omega
      · omega

end Tail.AuxInv

/-! ### All queries -/

namespace Prep

variable (r : Prep F G₁ G₂)

/-- At most half of a query is in its tail MSM. -/
def aHalf : Prop := Nat.count r.aMarked r.points.a.size ≤ r.points.a.size / 2

def bHalf : Prop := Nat.count r.bMarked r.points.bG1.size ≤ r.points.bG1.size / 2

variable {r} {c : ℕ}

lemma aSplitMsm_iff (r : Prep F G₁ G₂) : r.aSplitMsm = true ↔ r.aHalf := by
  rw [aSplitMsm, aPopcount_eq, decide_eq_true_iff, aHalf]

lemma bSplitMsm_iff (r : Prep F G₁ G₂) : r.bSplitMsm = true ↔ r.bHalf := by
  rw [bSplitMsm, bPopcount_eq, decide_eq_true_iff, bHalf]

/-- The first pass is in range. -/
lemma first_inRange (hc : c < r.numCircuits) :
    (r.first c).InRange (r.provers c) r.lSize r.aSize r.bSize := by
  have hasserts := r.asserts c hc
  have hfirst := first_spec r c
  refine ⟨?_, ?_, ?_, ?_, ?_, ?_⟩
  · rw [lSize, hasserts.l_size]
    exact hfirst.lRange
  · have hrange := hfirst.a.inRange_flush
    rwa [Query.length_marks, ← Assignment.queryA, length_queryA hc] at hrange
  · have hrange := hfirst.b.inRange_flush
    rwa [Query.length_marks, ← Assignment.queryB, length_queryB hc] at hrange
  · rw [hasserts.bInp_len]
    exact hfirst.bInpReads
  · rw [hasserts.aAux_len]
    exact hfirst.aAuxReads
  · rw [hasserts.bAux_len]
    exact hfirst.bAuxReads

lemma closingAsserts (hc : c < r.numCircuits) : r.ClosingAsserts c := by
  have hasserts := r.asserts c hc
  have hsecond := (second_spec hc).base
  have ha : Tail.AuxInv (r.queries c).a (r.provers c).queryA (r.second c).a := hsecond.a
  have hb : Tail.AuxInv (r.queries c).b (r.provers c).queryB (r.second c).b := hsecond.b
  have hl : LTail.Inv (r.queries c).l (r.provers c).queryL (r.second c).l := hsecond.l
  refine ⟨?_, fun hs => ?_, fun hs => ⟨?_, ?_⟩, fun hs => ?_, fun hs => ⟨?_, ?_⟩, fun hs => ?_⟩
  · rw [(inputs_spec r c).base.b.cursor, length_dense, (r.counted c hc).bInp, hasserts.bInp_len]
  · rw [(hl.split hs).cursor, length_queryL hc, count_l]
  · rw [(ha.split hs).mask.pointsCursor, length_queryA hc]
  · rw [(ha.split hs).data.cursor, length_queryA hc, count_a]
  · rw [(ha.full hs).cursor, length_queryA hc]
  · rw [(hb.split hs).mask.pointsCursor, length_queryB hc]
  · rw [(hb.split hs).data.cursor, length_queryB hc, count_b]
  · rw [(hb.full hs).cursor, length_queryB hc]

/-- The points of G2 that circuit `c` reads. -/
lemma below_bG2_iff (hc : c < r.numCircuits) :
    Below (r.second c).b.pointsReads r.points.bG2.size ↔
      (c = 0 → r.bHalf → ∀ pos, r.bMarked pos → pos < r.points.bG2.size) := by
  have hb : Tail.AuxInv (r.queries c).b (r.provers c).queryB (r.second c).b :=
    (second_spec hc).base.b
  have hlt : ∀ {pos}, r.bMarked pos → pos < r.points.bG1.size :=
    fun hm => hm.lt fun c hc => length_queryB hc
  cases hs : r.bSplitMsm with
  | true =>
    have hreads := (hb.split hs).data.pointsReads
    rw [length_queryB hc] at hreads
    have hfirst : (r.queries c).b.first = true ↔ c = 0 := beq_iff_eq
    constructor
    · intro hbelow hzero _ pos hm
      refine hbelow pos ((hreads pos).mpr ⟨hfirst.mpr hzero, hlt hm, ?_⟩)
      exact (bMask_iff (div_lt_numWords (hlt hm))).mpr hm
    · intro h i hi
      obtain ⟨hf, hi, hm⟩ := (hreads i).mp hi
      exact h (hfirst.mp hf) ((bSplitMsm_iff r).mp hs) i
        ((bMask_iff (div_lt_numWords hi)).mp hm)
  | false =>
    have hhalf : ¬r.bHalf := by
      rw [← bSplitMsm_iff, hs]
      exact Bool.false_ne_true
    constructor
    · intro _ _ h
      exact absurd h hhalf
    · intro _ i hi
      rw [(hb.full hs).pointsReads] at hi
      cases hi

/-- The condition for circuit `c`. -/
lemma secondInRange_iff (hc : c < r.numCircuits) : r.SecondInRange c ↔
    (64 ∣ r.points.a.size → ¬r.aHalf ∧ (r.provers c).aAuxPopcount ≠ 0) ∧
      (64 ∣ r.points.bG1.size → ¬r.bHalf ∧ (r.provers c).bAuxPopcount ≠ 0) ∧
      (c = 0 → r.bHalf → ∀ pos, r.bMarked pos → pos < r.points.bG2.size) := by
  have hasserts := r.asserts c hc
  have hsecond := (second_spec hc).base
  have ha : Tail.AuxInv (r.queries c).a (r.provers c).queryA (r.second c).a := hsecond.a
  have hb : Tail.AuxInv (r.queries c).b (r.provers c).queryB (r.second c).b := hsecond.b
  have hl : LTail.Inv (r.queries c).l (r.provers c).queryL (r.second c).l := hsecond.l
  have haMask := ha.below_maskReads_iff
  have hbMask := hb.below_maskReads_iff
  rw [length_queryA hc, aux_queryA hc, show (r.queries c).a.split = r.aSplitMsm from rfl,
    ← Bool.not_eq_true, aSplitMsm_iff] at haMask
  rw [length_queryB hc, aux_queryB hc, show (r.queries c).b.split = r.bSplitMsm from rfl,
    ← Bool.not_eq_true, bSplitMsm_iff] at hbMask
  constructor
  · intro h
    exact ⟨haMask.mp h.aMask, hbMask.mp h.bMask, (below_bG2_iff hc).mp h.bG2⟩
  · rintro ⟨h1, h2, h3⟩
    refine ⟨?_, ?_, ?_, (below_bG2_iff hc).mpr h3, ?_, ?_, ?_, ?_, haMask.mpr h1, hbMask.mpr h2, ?_, ?_,
      ?_⟩
    · have hrange := hl.inRange
      rw [length_queryL hc, count_l] at hrange
      exact hrange
    · have hrange := ha.inRange
      rw [length_queryA hc, count_a] at hrange
      exact hrange
    · have hrange := hb.inRange
      rw [length_queryB hc, count_b] at hrange
      exact hrange
    · rw [lSize, hasserts.l_size]
      exact hsecond.lRange
    · have hrange := ha.vector_inRange
      rwa [length_queryA hc] at hrange
    · have hrange := hb.vector_inRange
      rwa [length_queryB hc] at hrange
    · rw [lSize, hasserts.l_size]
      exact hsecond.lMaskReads
    · rw [hasserts.bInp_len]
      exact hsecond.bInpReads
    · rw [hasserts.aAux_len]
      exact hsecond.aAuxReads
    · rw [hasserts.bAux_len]
      exact hsecond.bAuxReads

/-- The preparation is safe unless the number of points of A or B is a multiple of 64 and the query is
split or has no dense auxiliary variable in a circuit, or a point of the tail MSM of B is missing in G2. -/
theorem safe_iff (r : Prep F G₁ G₂) : r.Safe ↔
    (64 ∣ r.points.a.size → ¬r.aHalf ∧ ∀ c < r.numCircuits, (r.provers c).aAuxPopcount ≠ 0) ∧
      (64 ∣ r.points.bG1.size → ¬r.bHalf ∧ ∀ c < r.numCircuits, (r.provers c).bAuxPopcount ≠ 0) ∧
      (r.bHalf → ∀ pos, r.bMarked pos → pos < r.points.bG2.size) := by
  have hpos := r.numCircuits_pos
  constructor
  · intro h
    have hiff := fun c (hc : c < r.numCircuits) => (secondInRange_iff hc).mp (h.second c hc)
    refine ⟨fun hdvd => ⟨((hiff 0 hpos).1 hdvd).1, fun c hc => ((hiff c hc).1 hdvd).2⟩,
      fun hdvd => ⟨((hiff 0 hpos).2.1 hdvd).1, fun c hc => ((hiff c hc).2.1 hdvd).2⟩,
      (hiff 0 hpos).2.2 rfl⟩
  · rintro ⟨ha, hb, hg⟩
    refine ⟨fun c hc => first_inRange hc, ⟨mergeInRange r _, mergeInRange r _, mergeInRange r _⟩,
      fun c hc => (secondInRange_iff hc).mpr ?_, fun c hc => closingAsserts hc⟩
    exact ⟨fun hdvd => ⟨(ha hdvd).1, (ha hdvd).2 c hc⟩, fun hdvd => ⟨(hb hdvd).1, (hb hdvd).2 c hc⟩,
      fun _ => hg⟩

lemma bitAt_allOnes (i : ℕ) : bitAt (fun _ => BitVec.allOnes 64) i = true := by
  rw [bitAt, BitVec.getLsbD_allOnes]
  exact decide_eq_true (Nat.mod_lt i (by decide))

/-- One circuit with one input and 127 auxiliary variables, all zero and all dense in A. -/
def zeroAux : Prep ℕ Unit Unit where
  numCircuits := 1
  numCircuits_pos := Nat.one_pos
  provers := fun _ =>
    { aAuxDensity := fun _ => BitVec.allOnes 64, aAuxBitLen := 127, aAuxPopcount := 127
      bInpDensity := fun _ => BitVec.allOnes 64, bInpBitLen := 1, bInpPopcount := 1
      bAuxDensity := fun _ => 0#64, bAuxBitLen := 127, bAuxPopcount := 0
      inpAssignmentData := fun _ => 1, inpAssignmentSize := 1
      auxAssignmentData := fun _ => 0, auxAssignmentSize := 127 }
  points := ⟨⟨fun _ => (), 127⟩, ⟨fun _ => (), 128⟩, ⟨fun _ => (), 1⟩, ⟨fun _ => (), 1⟩⟩
  asserts := fun _ _ => ⟨rfl, rfl, rfl, rfl, rfl, rfl⟩
  counted := fun _ _ => by
    refine ⟨(Nat.count_iff_forall.mpr fun i _ => ?_).symm,
      (Nat.count_iff_forall.mpr fun i _ => ?_).symm,
      (Nat.count_iff_forall_not.mpr fun i _ => ?_).symm⟩
    · exact bitAt_allOnes i
    · exact bitAt_allOnes i
    · simp [bitAt]
  fresh := ⟨0, 0, 0, 0, 0, 0, fun _ => (), fun _ => (), fun _ => ((), ()), 0⟩

/-- Only the input is marked. -/
lemma aMarked_zeroAux {pos : ℕ} (h : zeroAux.aMarked pos) : pos = 0 := by
  obtain ⟨c, -, hbit⟩ := h
  have hinputs : (zeroAux.provers c).queryA.inputs.length = 1 := List.length_map _
  have haux : ∀ l : List ℕ, ((l.map fun _ => 0).map significant) = List.replicate l.length false := by
    intro l
    rw [List.map_map]
    exact List.map_const' ..
  have hmarks : (zeroAux.provers c).queryA.marks = true :: List.replicate
      ((List.range 127).filter fun i => bitAt (fun _ => BitVec.allOnes 64) i).length false := by
    rw [Query.marks, hinputs]
    exact congrArg (List.cons true) (haux _)
  rw [hmarks] at hbit
  cases pos with
  | zero => rfl
  | succ pos =>
    rw [List.getD_cons_succ, getD_replicate_false] at hbit
    cases hbit

/-- The third word of a mask of two words is fetched. -/
theorem not_safe_zeroAux : ¬zeroAux.Safe := by
  intro h
  have hcond := ((secondInRange_iff Nat.one_pos).mp (h.second 0 Nat.one_pos)).1
  refine (hcond ⟨2, rfl⟩).1 ?_
  have hle : Nat.count zeroAux.aMarked 128 ≤ Nat.count (· = 0) 128 :=
    Nat.count_mono_left fun pos _ => aMarked_zeroAux
  exact hle.trans (by decide)

end Prep

end SupraSeal.PrepMsm
