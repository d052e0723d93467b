import SupraSeal.C2.PrepMsmMasks
import Mathlib.Algebra.BigOperators.GroupWithZero.Action
import Mathlib.Algebra.Module.Basic
import Mathlib.Data.BitVec

/-!
# Split MSMs

`generate_groth16_proofs_c` adds the MSM over the tail of a split query to the batch addition of the
points whose scalar is one. The sum is the MSM over all dense variables.
-/

namespace SupraSeal.PrepMsm

open GridStride PackedBits

variable {F G G₁ G₂ V : Type*}

/-! ### The sums on the GPUs and the CPU -/

/-- `msm_t::invoke` or `mult_pippenger`, and `execute_batch_addition`. -/
structure Msm (F G : Type*) [Semiring F] [AddCommGroup G] [Module F G] where
  invoke : ℕ → (ℕ → G) → (ℕ → F) → G
  batchAddition : ℕ → (ℕ → G) → (ℕ → BitVec 64) → G
  invoke_eq : ∀ n bases scalars, invoke n bases scalars = ∑ k ∈ Finset.range n, scalars k • bases k
  batchAddition_eq : ∀ n points bits, batchAddition n points bits =
    ∑ pos ∈ Finset.range n, if bitAt bits pos then points pos else 0

variable [Field F] [AddCommGroup G] [Module F G]

/-- The MSM over all variables of a query. -/
def Query.msm (query : Query F) (points : ℕ → G) : G :=
  ∑ pos ∈ Finset.range query.length, query.all.getD pos 0 • points pos

/-! ### The sums of a query -/

/-- A sum over the marked positions. -/
lemma sum_count (p : ℕ → Prop) [DecidablePred p] (f : ℕ → G) (n : ℕ) :
    ∑ k ∈ Finset.range (Nat.count p n), f k =
      ∑ pos ∈ Finset.range n, if p pos then f (Nat.count p pos) else 0 := by
  induction n with
  | zero => simp
  | succ n ih =>
    rw [Finset.sum_range_succ, ← ih, Nat.count_succ]
    split_ifs
    · rw [Finset.sum_range_succ]
    · simp

lemma Tail.FullInv.sum_eq {q : Params V} {query : Query F} {t : Tail F V} (h : FullInv q query t)
    (points : ℕ → G) :
    ∑ k ∈ Finset.range query.length, t.scalars.data k • points k = query.msm points := by
  refine Finset.sum_congr rfl fun pos hpos => ?_
  rw [h.scalars pos (Finset.mem_range.mp hpos)]

variable [DecidableEq F]

/-- A variable is in the tail MSM with its scalar, or in the batch addition. -/
lemma Query.tail_add_ones (query : Query F) {pos : ℕ} (hpos : pos < query.length) (x : G) :
    query.tail.getD pos 0 • x + (if query.ones.getD pos false then x else 0) =
      query.all.getD pos 0 • x := by
  by_cases hinp : pos < query.inputs.length
  · have hones : query.ones.getD pos false = false := by
      rw [Query.ones, List.getD_append _ _ _ _ (by simpa using hinp), getD_replicate_false]
    rw [hones, Query.tail, Query.all, List.getD_append _ _ _ _ hinp, List.getD_append _ _ _ _ hinp]
    simp
  · obtain ⟨k, rfl⟩ := Nat.exists_eq_add_of_le (Nat.le_of_not_lt hinp)
    have hk : k < query.aux.length := Nat.lt_of_add_lt_add_left hpos
    have hones : query.ones.getD (query.inputs.length + k) false = decide (query.aux[k] = 1) := by
      simp [Query.ones, hk]
    have htail : query.tail.getD (query.inputs.length + k) 0 =
        if query.aux[k] = 1 then 0 else query.aux[k] := by
      simp [Query.tail, hk]
    have hall : query.all.getD (query.inputs.length + k) 0 = query.aux[k] := by
      simp [Query.all, hk]
    rw [hones, htail, hall]
    by_cases hone : query.aux[k] = 1
    · simp [hone]
    · simp [hone]

/-- A variable that is not marked is zero or one. -/
lemma Query.ones_of_not_marked (query : Query F) {pos : ℕ} (hpos : pos < query.length)
    (hmark : query.marks.getD pos false = false) (x : G) :
    (if query.ones.getD pos false then x else 0) = query.all.getD pos 0 • x := by
  by_cases hinp : pos < query.inputs.length
  · rw [Query.marks, List.getD_append _ _ _ _ (by simpa using hinp), getD_replicate] at hmark
    simp [hinp] at hmark
  · obtain ⟨k, rfl⟩ := Nat.exists_eq_add_of_le (Nat.le_of_not_lt hinp)
    have hk : k < query.aux.length := Nat.lt_of_add_lt_add_left hpos
    have hmark : significant query.aux[k] = false := by simpa [Query.marks, hk] using hmark
    have hones : query.ones.getD (query.inputs.length + k) false = decide (query.aux[k] = 1) := by
      simp [Query.ones, hk]
    have hall : query.all.getD (query.inputs.length + k) 0 = query.aux[k] := by
      simp [Query.all, hk]
    rw [hones, hall]
    by_cases hone : query.aux[k] = 1
    · simp [hone]
    · have hzero : query.aux[k] = 0 := by
        by_contra hne
        simp [significant, hone, hne] at hmark
      simp [hzero]

/-- The tail MSM and the batch addition of a query. -/
lemma Query.msm_split (query : Query F) (p : ℕ → Prop) [DecidablePred p] {points bases : ℕ → G}
    {scalars : ℕ → F} {bits : ℕ → BitVec 64}
    (hscalars : ∀ pos < query.length, p pos → scalars (Nat.count p pos) = query.tail.getD pos 0)
    (hbases : ∀ pos < query.length, p pos → bases (Nat.count p pos) = points pos)
    (hbits : ∀ pos < query.length, bitAt bits pos = query.ones.getD pos false)
    (hmarks : ∀ pos < query.length, ¬p pos → query.marks.getD pos false = false) :
    ∑ k ∈ Finset.range (Nat.count p query.length), scalars k • bases k +
      ∑ pos ∈ Finset.range query.length, (if bitAt bits pos then points pos else 0) =
      query.msm points := by
  rw [sum_count p fun k => scalars k • bases k, ← Finset.sum_add_distrib, Query.msm]
  refine Finset.sum_congr rfl fun pos hpos => ?_
  have hpos := Finset.mem_range.mp hpos
  rw [hbits pos hpos]
  by_cases hp : p pos
  · rw [if_pos hp, hscalars pos hpos hp, hbases pos hpos hp, query.tail_add_ones hpos]
  · rw [if_neg hp, zero_add, query.ones_of_not_marked hpos (hmarks pos hpos hp)]

/-- The tail MSM and the batch addition of query A or B. -/
lemma Tail.SplitInv.sum_eq {q : Params V} {query : Query F} {t : Tail F V} (h : SplitInv q query t)
    {points bases : ℕ → G} (hbases : ∀ pos < query.length, q.marked pos →
      bases (Nat.count q.marked pos) = points pos)
    (hmarks : ∀ pos < query.length, ¬q.marked pos → query.marks.getD pos false = false) :
    ∑ k ∈ Finset.range (Nat.count q.marked query.length), t.scalars.data k • bases k +
      ∑ pos ∈ Finset.range query.length,
        (if bitAt t.writer.flush.data pos then points pos else 0) = query.msm points := by
  refine Query.msm_split _ _ h.data.scalars hbases (fun pos hpos => ?_) hmarks
  refine h.mask.writer.bitAt_flush ?_
  rw [Query.length_ones]
  exact div_lt_numWords hpos

/-! ### The results -/

namespace Prep

/-- `results.l[c]`; circuit 0 has filled the bases. -/
def resultL (r : Prep F G V) (m : Msm F G) (c : ℕ) : G :=
  if r.lSplitMsm then
    m.invoke r.lPopcount (r.second 0).l.bases.data (r.second c).l.scalars.data +
      m.batchAddition r.points.l.size r.points.l.data (r.second c).l.vector.data
  else m.invoke r.points.l.size r.points.l.data (r.provers c).auxAssignmentData

def resultA (r : Prep F G V) (m : Msm F G) (c : ℕ) : G :=
  if r.aSplitMsm then
    m.invoke r.aPopcount (r.second 0).a.bases.data (r.second c).a.scalars.data +
      m.batchAddition r.points.a.size r.points.a.data (r.second c).a.writer.flush.data
  else m.invoke r.points.a.size r.points.a.data (r.second c).a.scalars.data

def resultBG1 (r : Prep F G V) (m : Msm F G) (c : ℕ) : G :=
  if r.bSplitMsm then
    m.invoke r.bPopcount (fun k => ((r.second 0).b.bases.data k).1) (r.second c).b.scalars.data +
      m.batchAddition r.points.bG1.size r.points.bG1.data (r.second c).b.writer.flush.data
  else m.invoke r.points.bG1.size r.points.bG1.data (r.second c).b.scalars.data

def resultBG2 (r : Prep F V G) (m : Msm F G) (c : ℕ) : G :=
  if r.bSplitMsm then
    m.invoke r.bPopcount (fun k => ((r.second 0).b.bases.data k).2) (r.second c).b.scalars.data +
      m.batchAddition r.points.bG2.size r.points.bG2.data (r.second c).b.writer.flush.data
  else m.invoke r.points.bG1.size r.points.bG2.data (r.second c).b.scalars.data

variable {c : ℕ}

lemma resultL_eq {r : Prep F G V} (m : Msm F G) (hc : c < r.numCircuits) :
    r.resultL m c = (r.provers c).queryL.msm r.points.l.data := by
  have hlen := length_queryL hc
  rw [resultL]
  cases hs : r.lSplitMsm with
  | true =>
    have hinv := second_spec hc
    have hdata : Collected (r.queries c).l (r.provers c).queryL (r.second c).l.toTailMsm :=
      hinv.base.l.split hs
    have hdata₀ : Collected (r.queries 0).l (r.provers 0).queryL (r.second 0).l.toTailMsm :=
      (second_spec r.numCircuits_pos).base.l.split hs
    rw [if_pos rfl, m.invoke_eq, m.batchAddition_eq, ← count_l r c, ← hlen]
    refine Query.msm_split _ _ hdata.scalars (fun pos hpos hm => ?_) (fun pos hpos => ?_)
      fun pos hpos hm => ?_
    · rw [hlen, ← length_queryL r.numCircuits_pos] at hpos
      exact hdata₀.bases rfl pos hpos hm
    · refine hinv.lVector hs pos ?_
      rw [hlen, (r.asserts c hc).l_size] at hpos
      exact div_lt_numWords hpos
    · rw [hlen] at hpos
      exact marks_l hc hpos hm
  | false =>
    rw [if_neg Bool.false_ne_true, m.invoke_eq, Query.msm, hlen]
    refine Finset.sum_congr rfl fun pos hpos => ?_
    have hpos := Finset.mem_range.mp hpos
    rw [(r.asserts c hc).l_size] at hpos
    congr 1
    simp [Query.all, Assignment.queryL, Assignment.lQuery, hpos]

lemma resultA_eq {r : Prep F G V} (m : Msm F G) (hc : c < r.numCircuits) :
    r.resultA m c = (r.provers c).queryA.msm r.points.a.data := by
  have hlen := length_queryA hc
  have hinv : Tail.AuxInv (r.queries c).a (r.provers c).queryA (r.second c).a :=
    (second_spec hc).base.a
  rw [resultA]
  cases hs : r.aSplitMsm with
  | true =>
    have hinv₀ : Tail.SplitInv (r.queries 0).a (r.provers 0).queryA (r.second 0).a :=
      (second_spec r.numCircuits_pos).base.a.split hs
    rw [if_pos rfl, m.invoke_eq, m.batchAddition_eq, ← count_a r c, ← hlen]
    refine (hinv.split hs).sum_eq (fun pos hpos hm => ?_) fun pos hpos hm => ?_
    · rw [hlen, ← length_queryA r.numCircuits_pos] at hpos
      exact hinv₀.data.bases rfl pos hpos hm
    · rw [hlen] at hpos
      exact marks_a hc hpos hm
  | false =>
    rw [if_neg Bool.false_ne_true, m.invoke_eq, ← hlen]
    exact (hinv.full hs).sum_eq _

/-- Query B in one of the groups. -/
lemma tailB_eq {r : Prep F G₁ G₂} (m : Msm F G) (hc : c < r.numCircuits) (f : G₁ × G₂ → G) :
    (if r.bSplitMsm then
      m.invoke r.bPopcount (fun k => f ((r.second 0).b.bases.data k)) (r.second c).b.scalars.data +
        m.batchAddition r.points.bG1.size (fun i => f (r.points.b i))
          (r.second c).b.writer.flush.data
    else m.invoke r.points.bG1.size (fun i => f (r.points.b i)) (r.second c).b.scalars.data) =
      (r.provers c).queryB.msm fun i => f (r.points.b i) := by
  have hlen := length_queryB hc
  have hinv : Tail.AuxInv (r.queries c).b (r.provers c).queryB (r.second c).b :=
    (second_spec hc).base.b
  cases hs : r.bSplitMsm with
  | true =>
    have hinv₀ : Tail.SplitInv (r.queries 0).b (r.provers 0).queryB (r.second 0).b :=
      (second_spec r.numCircuits_pos).base.b.split hs
    rw [if_pos rfl, m.invoke_eq, m.batchAddition_eq, ← count_b r c, ← hlen]
    refine (hinv.split hs).sum_eq (fun pos hpos hm => ?_) fun pos hpos hm => ?_
    · rw [hlen, ← length_queryB r.numCircuits_pos] at hpos
      exact congrArg f (hinv₀.data.bases rfl pos hpos hm)
    · rw [hlen] at hpos
      exact marks_b hc hpos hm
  | false =>
    rw [if_neg Bool.false_ne_true, m.invoke_eq, ← hlen]
    exact (hinv.full hs).sum_eq _

/-- The routines that add term by term. -/
def termwise : Msm F G :=
  ⟨_, _, fun _ _ _ => rfl, fun _ _ _ => rfl⟩

end Prep

end SupraSeal.PrepMsm
