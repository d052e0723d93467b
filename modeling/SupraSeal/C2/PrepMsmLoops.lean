import SupraSeal.C2.PrepMsmSecond

/-!
# The loops of the second pass

The loops take the variables in chunks of 64, one word of each density after the other. What holds of
a query behind some of its variables holds behind the next one.
-/

namespace SupraSeal.PrepMsm

open GridStride PackedBits

variable {F G₁ G₂ V : Type*}

/-! ### Prefixes of queries -/

lemma dense_concat (inputs : List F) (density : ℕ → BitVec 64) (data : ℕ → F) (n : ℕ) :
    Query.mk inputs (dense density data (n + 1)) =
      if bitAt density n then (Query.mk inputs (dense density data n)).concat (data n)
      else Query.mk inputs (dense density data n) := by
  rw [dense_succ]
  split_ifs <;> rfl

lemma Assignment.lQuery_succ (p : Assignment F) (n : ℕ) :
    p.lQuery (n + 1) = (p.lQuery n).concat (p.auxAssignmentData n) := by
  simp [lQuery, Query.concat, List.range_succ]

lemma ushiftRight_and_one_ne_zero (word : BitVec 64) (j : ℕ) :
    word >>> j &&& 1#64 ≠ 0#64 ↔ word.getLsbD j := by
  have hone : (1#64 : BitVec 64) = 1#64 <<< 0 := by decide
  rw [hone, and_ne_zero_iff _ (by decide), BitVec.getLsbD_ushiftRight, Nat.add_zero]

lemma zeros_chunk {data : ℕ → BitVec 64} {w n : ℕ}
    (h : ∀ pos, pos / 64 < w → bitAt data pos = false) :
    Chunk data 0#64 w (List.replicate n false) where
  stored pos hpos := by rw [h pos hpos, getD_replicate_false]
  pending j := by simp

/-! ### Inputs -/

/-- Nothing has been put. -/
structure TailMsm.Starts (t : TailMsm F V) : Prop where
  cursor : t.cursor = 0
  scalars : t.scalars.accesses = []
  bases : t.bases.accesses = []
  pointsReads : t.pointsReads = []

structure LTail.Starts (t : LTail F V) : Prop where
  msm : t.toTailMsm.Starts
  vector : t.vector.accesses = []
  maskReads : t.maskReads = []

variable [Zero F]

lemma TailMsm.Starts.inpInv {q : Params V} {t : Tail F V} (h : t.toTailMsm.Starts)
    (hm : t.maskReads = []) : Tail.InpInv q [] t where
  cursor := h.cursor
  scalars pos hpos := absurd hpos (Nat.not_lt_zero _)
  scalarsRange i hi := by simp [h.scalars] at hi
  bases _ pos hpos := absurd hpos (Nat.not_lt_zero _)
  basesAccesses _ := h.bases
  basesRange i hi := by simp [h.bases] at hi
  pointsReads i := by simp [h.pointsReads]
  maskReads := hm

namespace Pass2

/-- The state of query A and of query B behind some inputs. -/
structure InpBase (q : Queries G₁ G₂) (p : Assignment F) (n : ℕ) (s : Pass2 F G₁ G₂) : Prop where
  a : Tail.InpInv q.a ((List.range n).map p.inpAssignmentData) s.a
  aRange : s.a.writer.vector.InRange (numWords p.inpAssignmentSize)
  b : Tail.InpInv q.b (dense p.bInpDensity p.inpAssignmentData n) s.b
  bWriter : s.b.writer.Holds (p.bInpBits n false)
  bInpReads : ∀ i ∈ s.bInpReads, i < numWords p.inpAssignmentSize
  aAuxReads : s.aAuxReads = []
  bAuxReads : s.bAuxReads = []

/-- Behind `n` inputs. -/
structure InpInv (q : Queries G₁ G₂) (p : Assignment F) (l : LTail F G₁) (n : ℕ)
    (s : Pass2 F G₁ G₂) : Prop where
  base : InpBase q p n s
  aVector : ∀ pos, pos / 64 < numWords n → bitAt s.a.writer.vector.data pos = false
  l : s.l = l

/-- In chunk `w` of the inputs. -/
structure InpStep (q : Queries G₁ G₂) (p : Assignment F) (l : LTail F G₁)
    (vector : Buffer (BitVec 64)) (w j : ℕ) (s : Pass2 F G₁ G₂) : Prop where
  base : InpBase q p (64 * w + j) s
  aVector : s.a.writer.vector = vector
  l : s.l = l

variable {q : Queries G₁ G₂} {p : Assignment F} {l : LTail F G₁} {s : Pass2 F G₁ G₂} {w j n : ℕ}

lemma InpBase.inpBit (h : InpBase q p (64 * w + j) s) (hj : j < 64) :
    InpBase q p (64 * w + (j + 1))
      (s.inpBit q (p.bInpDensity w) (fun j => p.inpAssignmentData (64 * w + j)) j) := by
  have ha := h.a.putInp (p.inpAssignmentData (64 * w + j))
  have hbit : bitAt p.bInpDensity (64 * w + j) = (p.bInpDensity w).getLsbD j := bitAt_mul_add _ _ hj
  have hb := p.bInpBits_succ (64 * w + j) false
  have hdense := dense_succ p.bInpDensity p.inpAssignmentData (64 * w + j)
  rw [hbit] at hb hdense
  rw [Pass2.inpBit]
  by_cases hset : (p.bInpDensity w).getLsbD j
  · rw [if_pos hset] at hb hdense
    simp only [if_pos ((ushiftRight_and_one_ne_zero _ _).mpr hset)]
    have hput := h.b.putInp (p.inpAssignmentData (64 * w + j))
    refine ⟨?_, h.aRange, ?_, ?_, h.bInpReads, h.aAuxReads, h.bAuxReads⟩
    · rwa [← Nat.add_assoc, List.range_succ, List.map_append]
    · rw [← Nat.add_assoc, hdense]
      exact ⟨hput.cursor, hput.scalars, hput.scalarsRange, hput.bases, hput.basesAccesses,
        hput.basesRange, hput.pointsReads, hput.maskReads⟩
    · rw [← Nat.add_assoc, hb]
      exact h.bWriter.push false
  · rw [if_neg hset] at hb hdense
    simp only [if_neg (mt (ushiftRight_and_one_ne_zero _ _).mp hset)]
    refine ⟨?_, h.aRange, ?_, ?_, h.bInpReads, h.aAuxReads, h.bAuxReads⟩
    · rwa [← Nat.add_assoc, List.range_succ, List.map_append]
    · rw [← Nat.add_assoc, hdense]
      exact h.b
    · rw [← Nat.add_assoc, hb]
      exact h.bWriter

lemma InpInv.inpChunk (h : InpInv q p l n s) (hn : n < p.inpAssignmentSize) (hdvd : chunkBits ∣ n) :
    InpInv q p l (min (n + chunkBits) p.inpAssignmentSize) (s.inpChunk q p n) := by
  obtain ⟨w, rfl⟩ := hdvd
  simp only [chunkBits] at h hn ⊢
  have hdiv : 64 * w / 64 = w := Nat.mul_div_cancel_left w (by decide)
  have hw : w < numWords p.inpAssignmentSize := lt_numWords_of_mul_lt hn
  rw [Pass2.inpChunk]
  simp only [chunkBits, hdiv]
  generalize hbits : min 64 (p.inpAssignmentSize - 64 * w) = bits
  have hle : bits ≤ 64 := by omega
  have hmin : min (64 * w + 64) p.inpAssignmentSize = 64 * w + bits := by omega
  have hstart : InpBase q p (64 * w + 0) { s with bInpReads := w :: s.bInpReads } := by
    exact ⟨h.base.a, h.base.aRange, h.base.b, h.base.bWriter,
      List.forall_mem_cons.mpr ⟨hw, h.base.bInpReads⟩, h.base.aAuxReads, h.base.bAuxReads⟩
  have hend : InpStep q p l s.a.writer.vector w bits _ :=
    foldl_range (fun j s' hj hs => ⟨hs.base.inpBit (hj.trans_le hle), hs.aVector, hs.l⟩)
      ⟨hstart, rfl, h.l⟩
  generalize (List.range bits).foldl _ _ = s' at hend ⊢
  obtain ⟨hbase, hvector, hl⟩ := hend
  rw [hmin]
  refine ⟨⟨?_, ?_, hbase.b, hbase.bWriter, hbase.bInpReads, hbase.aAuxReads, hbase.bAuxReads⟩,
    fun pos hpos => ?_, hl⟩
  · exact ⟨hbase.a.cursor, hbase.a.scalars, hbase.a.scalarsRange, hbase.a.bases,
      hbase.a.basesAccesses, hbase.a.basesRange, hbase.a.pointsReads, hbase.a.maskReads⟩
  · exact hbase.aRange.store hw _
  · show bitAt (Function.update s'.a.writer.vector.data w 0#64) pos = false
    rw [hvector, bitAt_update]
    split_ifs with hword
    · simp
    · refine h.aVector pos ?_
      rw [numWords] at hpos ⊢
      omega

/-- The vectors of a circuit at the start. -/
structure Starts (s : Pass2 F G₁ G₂) : Prop where
  l : s.l.Starts
  a : s.a.toTailMsm.Starts
  b : s.b.toTailMsm.Starts
  maskReads : s.a.maskReads = [] ∧ s.b.maskReads = []
  aVector : s.a.writer.vector.accesses = []
  bWriter : s.b.writer.Holds []
  reads : s.bInpReads = [] ∧ s.aAuxReads = [] ∧ s.bAuxReads = []

/-- The inputs. -/
lemma InpInv.runInp (h : Starts s) : InpInv q p s.l p.inpAssignmentSize (s.runInp q p) := by
  refine foldl_indices (fun n s hn hdvd hs => hs.inpChunk hn hdvd) (by decide) ?_
  refine ⟨⟨h.a.inpInv h.maskReads.1, fun i hi => ?_, h.b.inpInv h.maskReads.2, h.bWriter,
    fun i hi => ?_, h.reads.2.1, h.reads.2.2⟩, fun pos hpos => ?_, rfl⟩
  · rw [h.aVector] at hi
    cases hi
  · rw [h.reads.1] at hi
    cases hi
  · exact absurd hpos (Nat.not_lt_zero _)

end Pass2

/-! ### Auxiliary variables -/

variable [DecidableEq F] [One F]

/-- A query behind some of its variables. -/
structure Tail.AuxInv (q : Params V) (query : Query F) (t : Tail F V) : Prop where
  split : q.split = true → SplitInv q query t
  full : q.split = false → FullInv q query t

lemma Tail.AuxInv.putAux {q : Params V} {query : Query F} {t : Tail F V} (h : AuxInv q query t)
    (scalar : F) : AuxInv q (query.concat scalar) (t.putAux q scalar) where
  split hs := (h.split hs).putAux hs scalar
  full hs := (h.full hs).putAux hs scalar

/-- A dense variable is put. -/
lemma Tail.AuxInv.auxBit {q : Params V} {inputs : List F} {density : ℕ → BitVec 64}
    {data : ℕ → F} {w j : ℕ} {t : Tail F V}
    (h : AuxInv q ⟨inputs, dense density data (64 * w + j)⟩ t) (hj : j < 64) :
    AuxInv q ⟨inputs, dense density data (64 * w + (j + 1))⟩
      (if density w &&& 1#64 <<< j ≠ 0#64 then t.putAux q (data (64 * w + j)) else t) := by
  rw [← Nat.add_assoc, dense_concat, bitAt_mul_add _ _ hj]
  by_cases hdense : (density w).getLsbD j
  · rw [if_pos ((and_ne_zero_iff _ hj).mpr hdense), if_pos hdense]
    exact h.putAux _
  · rw [if_neg (mt (and_ne_zero_iff _ hj).mp hdense), if_neg hdense]
    exact h

/-- Query L behind some of its variables. -/
structure LTail.Inv (q : Params V) (query : Query F) (t : LTail F V) : Prop where
  split : q.split = true → Collected q query t.toTailMsm
  full : q.split = false → t.bases.accesses = [] ∧ t.pointsReads = [] ∧ t.scalars.accesses = []

/-- The variable of query L in chunk `w`. -/
lemma LTail.Inv.putAux {q : Params V} {p : Assignment F} {t : LTail F V} {w j : ℕ}
    (h : Inv q (p.lQuery (64 * w + j)) t) (hj : j < 64) :
    Inv q (p.lQuery (64 * w + (j + 1)))
      (t.putAux q (q.tailMask w) (64 * w) j (p.auxAssignmentData (64 * w + j))) where
  full hs := by
    rw [LTail.putAux, if_neg (by rw [hs]; exact Bool.false_ne_true)]
    exact h.full hs
  split hs := by
    have hlen : (p.lQuery (64 * w + j)).length = 64 * w + j := p.length_lQuery _
    have htest : q.tailMask w &&& 1#64 <<< j ≠ 0#64 ↔ q.marked (p.lQuery (64 * w + j)).length := by
      rw [and_ne_zero_iff _ hj, hlen, Params.marked, bitAt_mul_add _ _ hj]
    rw [← Nat.add_assoc, p.lQuery_succ, LTail.putAux, if_pos hs]
    by_cases hmarked : q.marked (p.lQuery (64 * w + j)).length
    · simp only [if_pos (htest.mpr hmarked)]
      have hput := (h.split hs).put hmarked (p.auxAssignmentData (64 * w + j))
      rwa [hlen] at hput
    · simp only [if_neg (mt htest.mp hmarked)]
      exact (h.split hs).skip hmarked _

namespace Pass2

/-- The state behind some auxiliary variables. -/
structure AuxBase (q : Queries G₁ G₂) (p : Assignment F) (n : ℕ) (s : Pass2 F G₁ G₂) : Prop where
  a : Tail.AuxInv q.a (p.aQuery n) s.a
  b : Tail.AuxInv q.b (p.bQuery n) s.b
  l : LTail.Inv q.l (p.lQuery n) s.l
  lRange : s.l.vector.InRange (numWords p.auxAssignmentSize)
  lMaskReads : ∀ i ∈ s.l.maskReads, i < numWords p.auxAssignmentSize
  bInpReads : ∀ i ∈ s.bInpReads, i < numWords p.inpAssignmentSize
  aAuxReads : ∀ i ∈ s.aAuxReads, i < numWords p.auxAssignmentSize
  bAuxReads : ∀ i ∈ s.bAuxReads, i < numWords p.auxAssignmentSize

/-- Behind `n` auxiliary variables. -/
structure AuxInv (q : Queries G₁ G₂) (p : Assignment F) (n : ℕ) (s : Pass2 F G₁ G₂) : Prop where
  base : AuxBase q p n s
  lVector : q.l.split = true → ∀ pos, pos / 64 < numWords n →
    bitAt s.l.vector.data pos = (p.lQuery n).ones.getD pos false

/-- In chunk `w` of the auxiliary variables. -/
structure AuxStep (q : Queries G₁ G₂) (p : Assignment F) (w j : ℕ) (s : Pass2 F G₁ G₂) : Prop where
  base : AuxBase q p (64 * w + j) s
  lVector : q.l.split = true →
    Chunk s.l.vector.data s.l.bits w (p.lQuery (64 * w + j)).ones

variable {q : Queries G₁ G₂} {p : Assignment F} {s : Pass2 F G₁ G₂} {w j n : ℕ}

lemma AuxStep.auxBit (h : AuxStep q p w j s) (hj : j < 64) :
    AuxStep q p w (j + 1)
      (s.auxBit q p (p.aAuxDensity w) (p.bAuxDensity w) (q.l.tailMask w) (64 * w) j) := by
  have hframe : ∀ scalar, (s.l.putAux q.l (q.l.tailMask w) (64 * w) j scalar).vector = s.l.vector ∧
      (s.l.putAux q.l (q.l.tailMask w) (64 * w) j scalar).maskReads = s.l.maskReads := by
    intro scalar
    rw [LTail.putAux]
    split_ifs <;> exact ⟨rfl, rfl⟩
  refine ⟨⟨h.base.a.auxBit hj, h.base.b.auxBit hj, h.base.l.putAux hj, ?_, ?_, h.base.bInpReads,
    h.base.aAuxReads, h.base.bAuxReads⟩, fun hs => ?_⟩
  · simp only [Pass2.auxBit, (hframe _).1]
    exact h.base.lRange
  · simp only [Pass2.auxBit, (hframe _).2]
    exact h.base.lMaskReads
  · have hset := (h.lVector hs).setBit (by simp) hj (p.auxAssignmentData (64 * w + j) = 1)
    rw [← Query.ones_concat, ← p.lQuery_succ] at hset
    simp only [Pass2.auxBit, (hframe _).1]
    rw [LTail.putAux, if_pos hs]
    simpa [Nat.add_assoc] using hset

lemma AuxInv.auxChunk (h : AuxInv q p n s) (hn : n < p.auxAssignmentSize) (hdvd : chunkBits ∣ n) :
    AuxInv q p (min (n + chunkBits) p.auxAssignmentSize) (s.auxChunk q p n) := by
  obtain ⟨w, rfl⟩ := hdvd
  simp only [chunkBits] at h hn ⊢
  have hdiv : 64 * w / 64 = w := Nat.mul_div_cancel_left w (by decide)
  have hw : w < numWords p.auxAssignmentSize := lt_numWords_of_mul_lt hn
  rw [Pass2.auxChunk]
  simp only [chunkBits, hdiv]
  generalize hbits : min 64 (p.auxAssignmentSize - 64 * w) = bits
  have hle : bits ≤ 64 := by omega
  have hmin : min (64 * w + 64) p.auxAssignmentSize = 64 * w + bits := by omega
  have hreads : ∀ {l : List ℕ}, (∀ i ∈ l, i < numWords p.auxAssignmentSize) →
      ∀ i ∈ w :: l, i < numWords p.auxAssignmentSize :=
    fun hl => List.forall_mem_cons.mpr ⟨hw, hl⟩
  have hstart : AuxStep q p w 0 { s with
      aAuxReads := w :: s.aAuxReads
      bAuxReads := w :: s.bAuxReads
      l := { s.l with bits := 0#64, maskReads := w :: s.l.maskReads } } := by
    refine ⟨⟨h.base.a, h.base.b, ⟨h.base.l.split, h.base.l.full⟩, h.base.lRange,
      hreads h.base.lMaskReads, h.base.bInpReads, hreads h.base.aAuxReads,
      hreads h.base.bAuxReads⟩, fun hs => ?_⟩
    refine Chunk.next (fun pos hpos => h.lVector hs pos ?_) (by simp)
    rw [numWords]
    omega
  have hend : AuxStep q p w bits _ :=
    foldl_range (fun j s hj hs => hs.auxBit (hj.trans_le hle)) hstart
  generalize (List.range bits).foldl _ _ = s' at hend ⊢
  rw [hmin]
  refine ⟨⟨hend.base.a, hend.base.b, ⟨hend.base.l.split, hend.base.l.full⟩,
    hend.base.lRange.store hw _, hend.base.lMaskReads, hend.base.bInpReads, hend.base.aAuxReads,
    hend.base.bAuxReads⟩, fun hs pos hpos => ?_⟩
  refine (hend.lVector hs).store ?_
  rw [numWords] at hpos
  omega

/-! ### Both loops -/

/-- The auxiliary variables behind the inputs. -/
theorem AuxInv.runAux {l : LTail F G₁} (h : InpInv q p l p.inpAssignmentSize s)
    (hl : l.Starts) (ha : q.a.split = true → ∀ pos < p.inpAssignmentSize, q.a.marked pos)
    (hb : q.b.split = true →
      ∀ pos < (dense p.bInpDensity p.inpAssignmentData p.inpAssignmentSize).length,
        q.b.marked pos) :
    AuxInv q p p.auxAssignmentSize (s.runAux q p) := by
  have hlen : ((List.range p.inpAssignmentSize).map p.inpAssignmentData).length =
      p.inpAssignmentSize := by simp
  refine foldl_indices (fun n s hn hdvd hs => hs.auxChunk hn hdvd) (by decide) ?_
  have hbase := h.base
  have haInp : Tail.InpInv q.a ((List.range p.inpAssignmentSize).map p.inpAssignmentData)
      { s.a with writer := { s.a.writer with
        cursor := p.inpAssignmentSize / chunkBits
        bitOff := p.inpAssignmentSize % chunkBits } } :=
    ⟨hbase.a.cursor, hbase.a.scalars, hbase.a.scalarsRange, hbase.a.bases, hbase.a.basesAccesses,
      hbase.a.basesRange, hbase.a.pointsReads, hbase.a.maskReads⟩
  have haWriter : BitWriter.Holds ⟨s.a.writer.vector, p.inpAssignmentSize / chunkBits, 0#64,
      p.inpAssignmentSize % chunkBits⟩
      (List.replicate ((List.range p.inpAssignmentSize).map p.inpAssignmentData).length false) := by
    rw [hlen]
    refine ⟨?_, ?_, zeros_chunk fun pos hpos => ?_, ?_⟩
    · rw [List.length_replicate]
      rfl
    · rw [List.length_replicate]
      rfl
    · rw [List.length_replicate] at hpos
      refine h.aVector pos (hpos.trans_le ?_)
      rw [numWords]
      omega
    · rw [List.length_replicate]
      exact hbase.aRange
  have hbWriter : BitWriter.Holds { s.b.writer with bits := 0#64 } (List.replicate
      (dense p.bInpDensity p.inpAssignmentData p.inpAssignmentSize).length false) := by
    refine ⟨hbase.bWriter.cursor, hbase.bWriter.bitOff, zeros_chunk fun pos hpos => ?_,
      hbase.bWriter.inRange⟩
    exact (hbase.bWriter.chunk.stored pos hpos).trans (getD_replicate_false ..)
  refine ⟨⟨⟨fun hs => haInp.startAux_split hs haWriter ?_, fun hs => haInp.startAux_full hs haWriter⟩,
    ⟨fun hs => hbase.b.startAux_split hs hbWriter (hb hs),
      fun hs => hbase.b.startAux_full hs hbWriter⟩, ⟨fun hs => ?_, fun hs => ?_⟩, ?_, ?_,
      hbase.bInpReads, ?_, ?_⟩, fun hs pos hpos => absurd hpos (Nat.not_lt_zero _)⟩
  · rw [hlen]
    exact ha hs
  · refine ⟨?_, fun pos hpos => absurd hpos (Nat.not_lt_zero _), ?_, fun _ pos hpos =>
      absurd hpos (Nat.not_lt_zero _), ?_, fun i => ?_⟩
    · show s.l.cursor = _
      rw [h.l, hl.msm.cursor]
      exact (Nat.count_zero _).symm
    · intro i hi
      have hi : i ∈ s.l.scalars.accesses := hi
      simp [h.l, hl.msm.scalars] at hi
    · intro i hi
      have hi : i ∈ s.l.bases.accesses := hi
      simp [h.l, hl.msm.bases] at hi
    · show i ∈ s.l.pointsReads ↔ _
      simp [h.l, hl.msm.pointsReads, Assignment.length_lQuery]
  · show s.l.bases.accesses = [] ∧ s.l.pointsReads = [] ∧ s.l.scalars.accesses = []
    rw [h.l]
    exact ⟨hl.msm.bases, hl.msm.pointsReads, hl.msm.scalars⟩
  · intro i hi
    have hi : i ∈ s.l.vector.accesses := hi
    simp [h.l, hl.vector] at hi
  · intro i hi
    have hi : i ∈ s.l.maskReads := hi
    simp [h.l, hl.maskReads] at hi
  · intro i hi
    have hi : i ∈ s.aAuxReads := hi
    simp [hbase.aAuxReads] at hi
  · intro i hi
    have hi : i ∈ s.bAuxReads := hi
    simp [hbase.bAuxReads] at hi

end Pass2

end SupraSeal.PrepMsm
