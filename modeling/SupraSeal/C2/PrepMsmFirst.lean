import SupraSeal.C2.PrepMsm

/-!
# The first pass

A query of a circuit is the list of its inputs followed by that of its dense auxiliary variables. The
first pass writes one bit for each: all inputs are marked, and the auxiliary variables that are neither
0 nor 1.
-/

namespace SupraSeal.PrepMsm

open GridStride PackedBits

variable {F : Type*}

/-! ### Queries -/

/-- The scalars of a query. -/
structure Query (F : Type*) where
  inputs : List F
  aux : List F

/-- The data at the set bits of a density below `n`. -/
def dense (density : ℕ → BitVec 64) (data : ℕ → F) (n : ℕ) : List F :=
  ((List.range n).filter fun i => bitAt density i).map data

lemma dense_succ (density : ℕ → BitVec 64) (data : ℕ → F) (n : ℕ) :
    dense density data (n + 1) =
      if bitAt density n then dense density data n ++ [data n] else dense density data n := by
  rw [dense, List.range_succ, List.filter_append, List.map_append, ← dense]
  cases h : bitAt density n with
  | true => simp [h]
  | false => simp [h]

lemma length_dense (density : ℕ → BitVec 64) (data : ℕ → F) (n : ℕ) :
    (dense density data n).length = Nat.count (fun i => bitAt density i) n := by
  induction n with
  | zero => rfl
  | succ n ih =>
    rw [dense_succ, Nat.count_succ]
    split_ifs <;> simp [ih]

/-- Query A with the first `n` auxiliary variables. -/
def Assignment.aQuery (p : Assignment F) (n : ℕ) : Query F where
  inputs := (List.range p.inpAssignmentSize).map p.inpAssignmentData
  aux := dense p.aAuxDensity p.auxAssignmentData n

def Assignment.bQuery (p : Assignment F) (n : ℕ) : Query F where
  inputs := dense p.bInpDensity p.inpAssignmentData p.inpAssignmentSize
  aux := dense p.bAuxDensity p.auxAssignmentData n

def Assignment.lQuery (p : Assignment F) (n : ℕ) : Query F where
  inputs := []
  aux := (List.range n).map p.auxAssignmentData

def Query.length (q : Query F) : ℕ := q.inputs.length + q.aux.length

@[simp]
lemma Assignment.length_lQuery (p : Assignment F) (n : ℕ) : (p.lQuery n).length = n := by
  simp [Query.length, lQuery]

/-! ### Inputs -/

lemma getD_replicate (n pos : ℕ) (bit : Bool) :
    (List.replicate n bit).getD pos false = (decide (pos < n) && bit) := by
  by_cases h : pos < n
  · rw [List.getD_eq_getElem _ _ (by simpa using h), List.getElem_replicate]
    simp [h]
  · rw [List.getD_eq_default _ _ (by simpa using h)]
    simp [h]

lemma getD_replicate_false (n pos : ℕ) : (List.replicate n false).getD pos false = false := by
  rw [getD_replicate, Bool.and_false]

/-- A chunk of the inputs of query A: all its bits are set in the register, which is stored. -/
lemma holds_store {vector : Buffer (BitVec 64)} {bits : BitVec 64} {w j : ℕ} {l : List Bool}
    (h : Chunk vector.data bits w l) (hrange : vector.InRange w) (hlen : l.length = 64 * w + j)
    (hj : 0 < j) (hj' : j ≤ 64) :
    BitWriter.Holds ⟨vector.store w bits, l.length / 64, if j = 64 then 0#64 else bits,
      l.length % 64⟩ l := by
  have hlt : w < numWords l.length := by
    rw [numWords]
    omega
  refine ⟨rfl, rfl, ?_, (hrange.mono hlt.le).store hlt _⟩
  rw [Buffer.store_data]
  by_cases hfull : j = 64
  · have hdiv : l.length / 64 = w + 1 := by omega
    rw [if_pos hfull, hdiv]
    refine Chunk.next (fun pos hpos => h.store (Nat.le_of_lt_succ hpos)) ?_
    omega
  · have hdiv : l.length / 64 = w := by omega
    rw [if_neg hfull, hdiv]
    exact ⟨fun pos hpos => h.store hpos.le, h.pending⟩

/-- The bits that query B has of the first `n` inputs. -/
def Assignment.bInpBits (p : Assignment F) (n : ℕ) (bit : Bool) : List Bool :=
  List.replicate (dense p.bInpDensity p.inpAssignmentData n).length bit

lemma Assignment.bInpBits_succ (p : Assignment F) (n : ℕ) (bit : Bool) :
    p.bInpBits (n + 1) bit =
      if bitAt p.bInpDensity n then p.bInpBits n bit ++ [bit] else p.bInpBits n bit := by
  rw [bInpBits, bInpBits, dense_succ]
  split_ifs
  · rw [List.length_append, List.length_singleton, List.replicate_succ']
  · rfl

/-- Behind `n` inputs. -/
structure Pass1.InpInv (p : Assignment F) (n : ℕ) (s : Pass1) : Prop where
  a : BitWriter.Holds ⟨s.a.vector, n / 64, s.a.bits, n % 64⟩ (List.replicate n true)
  b : s.b.Holds (p.bInpBits n true)
  bInpReads : ∀ r ∈ s.bInpReads, r < numWords p.inpAssignmentSize
  l : s.l.accesses = []
  aAuxReads : s.aAuxReads = []
  bAuxReads : s.bAuxReads = []

/-- In chunk `w` of the inputs. -/
structure Pass1.InpStep (p : Assignment F) (w j : ℕ) (s : Pass1) : Prop where
  a : Chunk s.a.vector.data s.a.bits w (List.replicate (64 * w + j) true)
  aRange : s.a.vector.InRange w
  b : s.b.Holds (p.bInpBits (64 * w + j) true)
  bInpReads : ∀ r ∈ s.bInpReads, r < numWords p.inpAssignmentSize
  l : s.l.accesses = []
  aAuxReads : s.aAuxReads = []
  bAuxReads : s.bAuxReads = []

namespace Pass1

variable {p : Assignment F} {s : Pass1} {w j n : ℕ}

lemma InpStep.inpBit (h : InpStep p w j s) (hj : j < 64) :
    InpStep p w (j + 1) (s.inpBit (p.bInpDensity w) j) := by
  have hset := h.a.setBit List.length_replicate hj true
  rw [if_pos rfl, ← List.replicate_succ'] at hset
  have hbit : bitAt p.bInpDensity (64 * w + j) = (p.bInpDensity w).getLsbD j := bitAt_mul_add _ _ hj
  have hb := p.bInpBits_succ (64 * w + j) true
  rw [Pass1.inpBit]
  by_cases hdense : (p.bInpDensity w).getLsbD j
  · simp only [if_pos ((and_ne_zero_iff _ hj).mpr hdense)]
    rw [hbit, if_pos hdense] at hb
    refine ⟨hset, h.aRange, ?_, h.bInpReads, h.l, h.aAuxReads, h.bAuxReads⟩
    rw [← Nat.add_assoc, hb]
    exact h.b.push true
  · simp only [if_neg (mt (and_ne_zero_iff _ hj).mp hdense)]
    rw [hbit, if_neg hdense] at hb
    refine ⟨hset, h.aRange, ?_, h.bInpReads, h.l, h.aAuxReads, h.bAuxReads⟩
    rw [← Nat.add_assoc, hb]
    exact h.b

lemma InpInv.inpChunk (h : InpInv p n s) (hn : n < p.inpAssignmentSize) (hdvd : chunkBits ∣ n) :
    InpInv p (min (n + chunkBits) p.inpAssignmentSize) (s.inpChunk p n) := by
  obtain ⟨w, rfl⟩ := hdvd
  simp only [chunkBits] at h hn ⊢
  have hdiv : 64 * w / 64 = w := Nat.mul_div_cancel_left w (by decide)
  rw [Pass1.inpChunk]
  simp only [chunkBits, hdiv]
  generalize hbits : min 64 (p.inpAssignmentSize - 64 * w) = bits
  have hpos : 0 < bits := by omega
  have hle : bits ≤ 64 := by omega
  have hmin : min (64 * w + 64) p.inpAssignmentSize = 64 * w + bits := by omega
  have hstart : InpStep p w 0 { s with bInpReads := w :: s.bInpReads } := by
    have hchunk := h.a.chunk
    have hrange := h.a.inRange
    rw [List.length_replicate] at hchunk hrange
    rw [hdiv] at hchunk
    refine ⟨hchunk, fun r hr => ?_, h.b,
      List.forall_mem_cons.mpr ⟨lt_numWords_of_mul_lt hn, h.bInpReads⟩, h.l, h.aAuxReads, h.bAuxReads⟩
    have hlt := hrange r hr
    rw [numWords] at hlt
    omega
  have hend : InpStep p w bits _ :=
    foldl_range (fun j s hj hs => hs.inpBit (hj.trans_le hle)) hstart
  generalize (List.range bits).foldl _ _ = s' at hend ⊢
  have hstore := holds_store hend.a hend.aRange List.length_replicate hpos hle
  rw [List.length_replicate] at hstore
  rw [hmin]
  by_cases hfull : bits = 64
  · simp only [if_pos hfull] at hstore ⊢
    exact ⟨hstore, hend.b, hend.bInpReads, hend.l, hend.aAuxReads, hend.bAuxReads⟩
  · simp only [if_neg hfull] at hstore ⊢
    exact ⟨hstore, hend.b, hend.bInpReads, hend.l, hend.aAuxReads, hend.bAuxReads⟩

end Pass1

/-! ### Auxiliary variables -/

variable [DecidableEq F] [Zero F] [One F]

/-- The marks of the first pass. -/
def Query.marks (q : Query F) : List Bool :=
  List.replicate q.inputs.length true ++ q.aux.map significant

@[simp]
lemma Query.length_marks (q : Query F) : q.marks.length = q.length := by simp [marks, length]

lemma marks_dense (inputs : List F) (density : ℕ → BitVec 64) (data : ℕ → F) (n : ℕ) :
    (Query.mk inputs (dense density data (n + 1))).marks =
      if bitAt density n then (Query.mk inputs (dense density data n)).marks ++ [significant (data n)]
      else (Query.mk inputs (dense density data n)).marks := by
  rw [Query.marks, Query.marks, dense_succ]
  split_ifs <;> simp

lemma Assignment.marks_lQuery (p : Assignment F) (n : ℕ) :
    (p.lQuery (n + 1)).marks = (p.lQuery n).marks ++ [significant (p.auxAssignmentData n)] := by
  simp [Query.marks, lQuery, List.range_succ]

namespace Pass1

/-- Behind `n` auxiliary variables. -/
structure AuxInv (p : Assignment F) (n : ℕ) (s : Pass1) : Prop where
  a : s.a.Holds (p.aQuery n).marks
  b : s.b.Holds (p.bQuery n).marks
  l : ∀ pos, pos / 64 < numWords n → bitAt s.l.data pos = (p.lQuery n).marks.getD pos false
  lRange : s.l.InRange (numWords p.auxAssignmentSize)
  bInpReads : ∀ r ∈ s.bInpReads, r < numWords p.inpAssignmentSize
  aAuxReads : ∀ r ∈ s.aAuxReads, r < numWords p.auxAssignmentSize
  bAuxReads : ∀ r ∈ s.bAuxReads, r < numWords p.auxAssignmentSize

/-- In chunk `w` of the auxiliary variables. -/
structure AuxStep (p : Assignment F) (w j : ℕ) (s : Pass1) : Prop where
  a : s.a.Holds (p.aQuery (64 * w + j)).marks
  b : s.b.Holds (p.bQuery (64 * w + j)).marks
  l : Chunk s.l.data s.lBits w (p.lQuery (64 * w + j)).marks
  lRange : s.l.InRange (numWords p.auxAssignmentSize)
  bInpReads : ∀ r ∈ s.bInpReads, r < numWords p.inpAssignmentSize
  aAuxReads : ∀ r ∈ s.aAuxReads, r < numWords p.auxAssignmentSize
  bAuxReads : ∀ r ∈ s.bAuxReads, r < numWords p.auxAssignmentSize

variable {p : Assignment F} {s : Pass1} {w j n : ℕ}

/-- A writer gets the mark of a dense variable. -/
lemma holds_aux {inputs : List F} {density : ℕ → BitVec 64} {data : ℕ → F} {writer : BitWriter}
    (h : writer.Holds (Query.mk inputs (dense density data (64 * w + j))).marks) (hj : j < 64) :
    (if density w &&& 1#64 <<< j ≠ 0#64 then writer.push (significant (data (64 * w + j)))
      else writer).Holds (Query.mk inputs (dense density data (64 * w + (j + 1)))).marks := by
  rw [← Nat.add_assoc, marks_dense, bitAt_mul_add _ _ hj]
  by_cases hdense : (density w).getLsbD j
  · rw [if_pos ((and_ne_zero_iff _ hj).mpr hdense), if_pos hdense]
    exact h.push _
  · rw [if_neg (mt (and_ne_zero_iff _ hj).mp hdense), if_neg hdense]
    exact h

lemma AuxStep.auxBit (h : AuxStep p w j s) (hj : j < 64) :
    AuxStep p w (j + 1) (s.auxBit (p.aAuxDensity w) (p.bAuxDensity w)
      (fun j => p.auxAssignmentData (64 * w + j)) j) where
  a := holds_aux h.a hj
  b := holds_aux h.b hj
  l := by
    rw [← Nat.add_assoc, p.marks_lQuery]
    exact h.l.setBit (by simp) hj _
  lRange := h.lRange
  bInpReads := h.bInpReads
  aAuxReads := h.aAuxReads
  bAuxReads := h.bAuxReads

lemma AuxInv.auxChunk (h : AuxInv p n s) (hn : n < p.auxAssignmentSize) (hdvd : chunkBits ∣ n) :
    AuxInv p (min (n + chunkBits) p.auxAssignmentSize) (s.auxChunk p n) := by
  obtain ⟨w, rfl⟩ := hdvd
  simp only [chunkBits] at h hn ⊢
  have hdiv : 64 * w / 64 = w := Nat.mul_div_cancel_left w (by decide)
  have hw : w < numWords p.auxAssignmentSize := lt_numWords_of_mul_lt hn
  rw [Pass1.auxChunk]
  simp only [chunkBits, hdiv]
  generalize hbits : min 64 (p.auxAssignmentSize - 64 * w) = bits
  have hle : bits ≤ 64 := by omega
  have hmin : min (64 * w + 64) p.auxAssignmentSize = 64 * w + bits := by omega
  have hreads : ∀ {l : List ℕ}, (∀ r ∈ l, r < numWords p.auxAssignmentSize) →
      ∀ r ∈ w :: l, r < numWords p.auxAssignmentSize :=
    fun hl => List.forall_mem_cons.mpr ⟨hw, hl⟩
  have hstart : AuxStep p w 0 { s with
      aAuxReads := w :: s.aAuxReads
      bAuxReads := w :: s.bAuxReads
      lBits := 0#64 } := by
    refine ⟨h.a, h.b, ?_, h.lRange, h.bInpReads, hreads h.aAuxReads, hreads h.bAuxReads⟩
    refine Chunk.next (fun pos hpos => h.l pos ?_) (by simp)
    rw [numWords]
    omega
  have hend : AuxStep p w bits _ :=
    foldl_range (fun j s hj hs => hs.auxBit (hj.trans_le hle)) hstart
  generalize (List.range bits).foldl _ _ = s' at hend ⊢
  rw [hmin]
  refine ⟨hend.a, hend.b, fun pos hpos => ?_, hend.lRange.store hw _, hend.bInpReads,
    hend.aAuxReads, hend.bAuxReads⟩
  refine hend.l.store ?_
  rw [numWords] at hpos
  omega

end Pass1

/-! ### Both loops -/

/-- The bit vectors of a circuit hold the marks of its queries. -/
theorem pass1_spec (p : Assignment F) (lVector aVector bVector : ℕ → BitVec 64) :
    Pass1.AuxInv p p.auxAssignmentSize (pass1 p lVector aVector bVector) := by
  have hinp : Pass1.InpInv p p.inpAssignmentSize
      ((indices chunkBits p.inpAssignmentSize 0).foldl (Pass1.inpChunk p) {
        l := .ofData lVector
        lBits := 0#64
        a := ⟨.ofData aVector, 0, 0#64, 0⟩
        b := ⟨.ofData bVector, 0, 0#64, 0⟩
        bInpReads := []
        aAuxReads := []
        bAuxReads := [] }) := by
    refine foldl_indices (fun n s hn hdvd hs => hs.inpChunk hn hdvd) (by decide) ?_
    refine ⟨BitWriter.Holds.nil _, BitWriter.Holds.nil _, fun r hr => ?_, rfl, rfl, rfl⟩
    cases hr
  rw [pass1]
  generalize (indices chunkBits p.inpAssignmentSize 0).foldl _ _ = s at hinp ⊢
  refine foldl_indices (fun n s hn hdvd hs => hs.auxChunk hn hdvd) (by decide) ?_
  refine ⟨?_, ?_, fun pos hpos => ?_, fun i hi => ?_, hinp.bInpReads, fun r hr => ?_,
    fun r hr => ?_⟩
  · have hmarks : (p.aQuery 0).marks = List.replicate p.inpAssignmentSize true := by
      simp [Query.marks, Assignment.aQuery, dense]
    rw [hmarks]
    exact hinp.a
  · have hmarks : (p.bQuery 0).marks = p.bInpBits p.inpAssignmentSize true := by
      simp [Query.marks, Assignment.bQuery, Assignment.bInpBits, dense]
    rw [hmarks]
    exact hinp.b
  · exact absurd hpos (Nat.not_lt_zero _)
  · simp only [hinp.l] at hi
    cases hi
  · simp only [hinp.aAuxReads] at hr
    cases hr
  · simp only [hinp.bAuxReads] at hr
    cases hr

end SupraSeal.PrepMsm
