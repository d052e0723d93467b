import SupraSeal.C2.PrepMsmLoops

/-!
# Masks

The merged mask of a query marks the positions that some circuit marks, so that its popcount is the
number of the marked positions. The second pass of every circuit finds its inputs marked.
-/

namespace SupraSeal.PrepMsm

open GridStride PackedBits

variable {F G₁ G₂ V : Type*}

/-! ### The queries of a call -/

namespace Assignment

variable (p : Assignment F)

/-- Query L, A or B of a circuit. -/
def queryL : Query F := p.lQuery p.auxAssignmentSize

def queryA : Query F := p.aQuery p.auxAssignmentSize

def queryB : Query F := p.bQuery p.auxAssignmentSize

end Assignment

namespace Prep

variable {r : Prep F G₁ G₂} {c : ℕ}

lemma length_queryL (hc : c < r.numCircuits) : (r.provers c).queryL.length = r.points.l.size := by
  rw [Assignment.queryL, Assignment.length_lQuery, (r.asserts c hc).l_size]

lemma length_queryA (hc : c < r.numCircuits) : (r.provers c).queryA.length = r.points.a.size := by
  have hasserts := r.asserts c hc
  simp only [Assignment.queryA, Assignment.aQuery, Query.length, length_dense, List.length_map,
    List.length_range]
  rw [hasserts.a_size, (r.counted c hc).aAux, hasserts.aAux_len]

lemma length_queryB (hc : c < r.numCircuits) : (r.provers c).queryB.length = r.points.bG1.size := by
  have hasserts := r.asserts c hc
  simp only [Assignment.queryB, Assignment.bQuery, Query.length, length_dense]
  rw [hasserts.b_size, (r.counted c hc).bAux, (r.counted c hc).bInp, hasserts.bAux_len,
    hasserts.bInp_len]

lemma aux_queryA (hc : c < r.numCircuits) :
    (r.provers c).queryA.aux ≠ [] ↔ (r.provers c).aAuxPopcount ≠ 0 := by
  rw [ne_eq, ← List.length_eq_zero_iff, (r.counted c hc).aAux, (r.asserts c hc).aAux_len,
    Assignment.queryA, Assignment.aQuery, length_dense]

lemma aux_queryB (hc : c < r.numCircuits) :
    (r.provers c).queryB.aux ≠ [] ↔ (r.provers c).bAuxPopcount ≠ 0 := by
  rw [ne_eq, ← List.length_eq_zero_iff, (r.counted c hc).bAux, (r.asserts c hc).bAux_len,
    Assignment.queryB, Assignment.bQuery, length_dense]

end Prep

/-! ### Merged masks -/

lemma foldl_or_getLsbD (words : ℕ → BitVec 64) (word : BitVec 64) (m j : ℕ) :
    ((List.range' 1 m).foldl (fun mask c => mask ||| words c) word).getLsbD j = true ↔
      word.getLsbD j = true ∨ ∃ c, 1 ≤ c ∧ c ≤ m ∧ (words c).getLsbD j = true := by
  induction m with
  | zero =>
    simp only [List.range'_zero, List.foldl_nil, iff_self_or, forall_exists_index, and_imp]
    intro c h1 h2
    omega
  | succ m ih =>
    rw [List.range'_1_concat, List.foldl_append, List.foldl_cons, List.foldl_nil, BitVec.getLsbD_or,
      Bool.or_eq_true, ih, Nat.add_comm 1 m]
    constructor
    · rintro ((h | ⟨c, h1, h2, h⟩) | h)
      · exact Or.inl h
      · exact Or.inr ⟨c, h1, h2.trans (Nat.le_succ m), h⟩
      · exact Or.inr ⟨m + 1, Nat.succ_pos m, le_rfl, h⟩
    · rintro (h | ⟨c, h1, h2, h⟩)
      · exact Or.inl (Or.inl h)
      · rcases Nat.le_succ_iff.mp h2 with h2 | rfl
        · exact Or.inl (Or.inr ⟨c, h1, h2, h⟩)
        · exact Or.inr h

/-- A word of the mask has the bits of all circuits. -/
lemma mergeMask_getLsbD {n : ℕ} (hn : 0 < n) (bitVector : ℕ → ℕ → BitVec 64) (i j : ℕ) :
    (mergeMask n bitVector i).getLsbD j = true ↔ ∃ c < n, (bitVector c i).getLsbD j = true := by
  rw [mergeMask, foldl_or_getLsbD (fun c => bitVector c i)]
  constructor
  · rintro (h | ⟨c, -, h2, h⟩)
    · exact ⟨0, hn, h⟩
    · exact ⟨c, by omega, h⟩
  · rintro ⟨c, hc, h⟩
    cases c with
    | zero => exact Or.inl h
    | succ c => exact Or.inr ⟨c + 1, Nat.succ_pos c, by omega, h⟩

lemma bitAt_tailMask {n size : ℕ} (hn : 0 < n) (bitVector : ℕ → ℕ → BitVec 64)
    (behind : ℕ → BitVec 64) {pos : ℕ} (hpos : pos / 64 < size) :
    bitAt (tailMask n size bitVector behind) pos = true ↔ ∃ c < n, bitAt (bitVector c) pos = true := by
  simp only [bitAt, tailMask, if_pos hpos, mergeMask_getLsbD hn]

lemma count_congr {p q : ℕ → Prop} [DecidablePred p] [DecidablePred q] {n : ℕ}
    (h : ∀ pos < n, p pos ↔ q pos) : Nat.count p n = Nat.count q n := by
  rw [Nat.count_eq_card_filter_range, Nat.count_eq_card_filter_range]
  congr 1
  exact Finset.filter_congr fun pos hpos => h pos (Finset.mem_range.mp hpos)

variable [DecidableEq F] [Zero F] [One F]

/-- In some circuit an input, or a scalar other than 0 and 1. -/
def Marked (n : ℕ) (queries : ℕ → Query F) (pos : ℕ) : Prop :=
  ∃ c < n, (queries c).marks.getD pos false = true

instance (n : ℕ) (queries : ℕ → Query F) : DecidablePred (Marked n queries) :=
  fun pos => inferInstanceAs (Decidable (∃ c < n, (queries c).marks.getD pos false = true))

section Mask

variable {n N : ℕ} {queries : ℕ → Query F} {bitVector : ℕ → ℕ → BitVec 64}

lemma bitAt_tailMask_iff (hn : 0 < n) (behind : ℕ → BitVec 64)
    (hbits : ∀ c < n, ∀ pos, pos / 64 < numWords N →
      bitAt (bitVector c) pos = (queries c).marks.getD pos false)
    {pos : ℕ} (hpos : pos / 64 < numWords N) :
    bitAt (tailMask n (numWords N) bitVector behind) pos = true ↔ Marked n queries pos := by
  rw [bitAt_tailMask hn _ _ hpos, Marked]
  refine exists_congr fun c => and_congr_right fun hc => ?_
  rw [hbits c hc pos hpos]

lemma Marked.lt (hlen : ∀ c < n, (queries c).length = N) {pos : ℕ} (h : Marked n queries pos) :
    pos < N := by
  obtain ⟨c, hc, hbit⟩ := h
  by_contra hle
  rw [List.getD_eq_default] at hbit
  · cases hbit
  · rw [Query.length_marks, hlen c hc]
    exact Nat.le_of_not_lt hle

/-- The popcount of the mask. -/
lemma maskPopcount_eq (hn : 0 < n) (behind : ℕ → BitVec 64)
    (hbits : ∀ c < n, ∀ pos, pos / 64 < numWords N →
      bitAt (bitVector c) pos = (queries c).marks.getD pos false)
    (hlen : ∀ c < n, (queries c).length = N) :
    maskPopcount (numWords N) (tailMask n (numWords N) bitVector behind) =
      Nat.count (Marked n queries) N := by
  rw [maskPopcount, sum_popcount, ← count_eq_of_not (le_numWords N) fun pos hle _ hm =>
    absurd (Marked.lt hlen hm) (Nat.not_lt.mpr hle)]
  refine count_congr fun pos hpos => bitAt_tailMask_iff hn behind hbits ?_
  exact (Nat.div_lt_iff_lt_mul (by decide)).mpr (by rwa [Nat.mul_comm])

/-- The inputs of a circuit are marked. -/
lemma marked_of_lt {c : ℕ} (hc : c < n) {pos : ℕ} (hpos : pos < (queries c).inputs.length) :
    Marked n queries pos := by
  refine ⟨c, hc, ?_⟩
  rw [Query.marks, List.getD_append _ _ _ _ (by simpa using hpos), getD_replicate, Bool.and_true]
  exact decide_eq_true hpos

end Mask

/-! ### The masks of a call -/

namespace Prep

variable (r : Prep F G₁ G₂)

/-- Positions of a query that are in its tail MSM. -/
def lMarked : ℕ → Prop := Marked r.numCircuits fun c => (r.provers c).queryL

def aMarked : ℕ → Prop := Marked r.numCircuits fun c => (r.provers c).queryA

def bMarked : ℕ → Prop := Marked r.numCircuits fun c => (r.provers c).queryB

instance : DecidablePred r.lMarked :=
  inferInstanceAs (DecidablePred (Marked r.numCircuits fun c => (r.provers c).queryL))

instance : DecidablePred r.aMarked :=
  inferInstanceAs (DecidablePred (Marked r.numCircuits fun c => (r.provers c).queryA))

instance : DecidablePred r.bMarked :=
  inferInstanceAs (DecidablePred (Marked r.numCircuits fun c => (r.provers c).queryB))

variable {r} {c : ℕ}

/-- The first pass of a circuit. -/
lemma first_spec (r : Prep F G₁ G₂) (c : ℕ) :
    Pass1.AuxInv (r.provers c) (r.provers c).auxAssignmentSize (r.first c) :=
  pass1_spec ..

lemma first_l (hc : c < r.numCircuits) {pos : ℕ} (hpos : pos / 64 < r.lSize) :
    bitAt (r.first c).l.data pos = (r.provers c).queryL.marks.getD pos false := by
  refine (first_spec r c).l pos ?_
  rwa [← (r.asserts c hc).l_size]

lemma first_a (hc : c < r.numCircuits) {pos : ℕ} (hpos : pos / 64 < r.aSize) :
    bitAt (r.first c).a.flush.data pos = (r.provers c).queryA.marks.getD pos false := by
  refine (first_spec r c).a.bitAt_flush ?_
  rwa [Query.length_marks, ← Assignment.queryA, length_queryA hc]

lemma first_b (hc : c < r.numCircuits) {pos : ℕ} (hpos : pos / 64 < r.bSize) :
    bitAt (r.first c).b.flush.data pos = (r.provers c).queryB.marks.getD pos false := by
  refine (first_spec r c).b.bitAt_flush ?_
  rwa [Query.length_marks, ← Assignment.queryB, length_queryB hc]

lemma lMask_iff {pos : ℕ} (hpos : pos / 64 < r.lSize) :
    bitAt r.lMask pos = true ↔ r.lMarked pos :=
  bitAt_tailMask_iff r.numCircuits_pos _ (fun _ hc _ hp => first_l hc hp) hpos

lemma aMask_iff {pos : ℕ} (hpos : pos / 64 < r.aSize) :
    bitAt r.aMask pos = true ↔ r.aMarked pos :=
  bitAt_tailMask_iff r.numCircuits_pos _ (fun _ hc _ hp => first_a hc hp) hpos

lemma bMask_iff {pos : ℕ} (hpos : pos / 64 < r.bSize) :
    bitAt r.bMask pos = true ↔ r.bMarked pos :=
  bitAt_tailMask_iff r.numCircuits_pos _ (fun _ hc _ hp => first_b hc hp) hpos

lemma lPopcount_eq (r : Prep F G₁ G₂) : r.lPopcount = Nat.count r.lMarked r.points.l.size :=
  maskPopcount_eq r.numCircuits_pos _ (fun _ hc _ hp => first_l hc hp) fun _ hc => length_queryL hc

lemma aPopcount_eq (r : Prep F G₁ G₂) : r.aPopcount = Nat.count r.aMarked r.points.a.size :=
  maskPopcount_eq r.numCircuits_pos _ (fun _ hc _ hp => first_a hc hp) fun _ hc => length_queryA hc

lemma bPopcount_eq (r : Prep F G₁ G₂) : r.bPopcount = Nat.count r.bMarked r.points.bG1.size :=
  maskPopcount_eq r.numCircuits_pos _ (fun _ hc _ hp => first_b hc hp) fun _ hc => length_queryB hc

/-! ### The second pass of a call -/

lemma starts (r : Prep F G₁ G₂) (c : ℕ) : (r.start c).Starts where
  l := ⟨⟨rfl, rfl, rfl, rfl⟩, rfl, rfl⟩
  a := ⟨rfl, rfl, rfl, rfl⟩
  b := ⟨rfl, rfl, rfl, rfl⟩
  maskReads := ⟨rfl, rfl⟩
  aVector := rfl
  bWriter := BitWriter.Holds.nil _
  reads := ⟨rfl, rfl, rfl⟩

lemma inputs_spec (r : Prep F G₁ G₂) (c : ℕ) :
    Pass2.InpInv (r.queries c) (r.provers c) (r.start c).l (r.provers c).inpAssignmentSize
      (r.inputs c) :=
  .runInp (starts r c)

/-- The second pass of a circuit. -/
lemma second_spec (hc : c < r.numCircuits) :
    Pass2.AuxInv (r.queries c) (r.provers c) (r.provers c).auxAssignmentSize (r.second c) := by
  refine Pass2.AuxInv.runAux (inputs_spec r c) (starts r c).l (fun _ pos hpos => ?_)
    fun _ pos hpos => ?_
  · have hle : (r.provers c).inpAssignmentSize ≤ r.points.a.size := by
      rw [(r.asserts c hc).a_size]
      exact Nat.le_add_right ..
    refine (aMask_iff (div_lt_numWords (hpos.trans_le hle))).mpr (marked_of_lt hc ?_)
    simpa [Assignment.queryA, Assignment.aQuery] using hpos
  · have hlt : pos < (r.provers c).queryB.length := hpos.trans_le (Nat.le_add_right ..)
    rw [length_queryB hc] at hlt
    exact (bMask_iff (div_lt_numWords hlt)).mpr (marked_of_lt hc hpos)

lemma count_l (r : Prep F G₁ G₂) (c : ℕ) :
    Nat.count (r.queries c).l.marked r.points.l.size = r.lPopcount := by
  rw [lPopcount_eq]
  exact count_congr fun pos hpos => lMask_iff (div_lt_numWords hpos)

lemma count_a (r : Prep F G₁ G₂) (c : ℕ) :
    Nat.count (r.queries c).a.marked r.points.a.size = r.aPopcount := by
  rw [aPopcount_eq]
  exact count_congr fun pos hpos => aMask_iff (div_lt_numWords hpos)

lemma count_b (r : Prep F G₁ G₂) (c : ℕ) :
    Nat.count (r.queries c).b.marked r.points.bG1.size = r.bPopcount := by
  rw [bPopcount_eq]
  exact count_congr fun pos hpos => bMask_iff (div_lt_numWords hpos)

/-- A position that is not in the mask is not marked by any circuit. -/
lemma marks_l (hc : c < r.numCircuits) {pos : ℕ} (hpos : pos < r.points.l.size)
    (h : ¬(r.queries c).l.marked pos) : (r.provers c).queryL.marks.getD pos false = false := by
  refine Bool.eq_false_iff.mpr fun hbit => h ?_
  exact (lMask_iff (div_lt_numWords hpos)).mpr ⟨c, hc, hbit⟩

lemma marks_a (hc : c < r.numCircuits) {pos : ℕ} (hpos : pos < r.points.a.size)
    (h : ¬(r.queries c).a.marked pos) : (r.provers c).queryA.marks.getD pos false = false := by
  refine Bool.eq_false_iff.mpr fun hbit => h ?_
  exact (aMask_iff (div_lt_numWords hpos)).mpr ⟨c, hc, hbit⟩

lemma marks_b (hc : c < r.numCircuits) {pos : ℕ} (hpos : pos < r.points.bG1.size)
    (h : ¬(r.queries c).b.marked pos) : (r.provers c).queryB.marks.getD pos false = false := by
  refine Bool.eq_false_iff.mpr fun hbit => h ?_
  exact (bMask_iff (div_lt_numWords hpos)).mpr ⟨c, hc, hbit⟩

end Prep

end SupraSeal.PrepMsm
