import SupraSeal.Pc1.TreePasses

/-!
# Parts of a tree

What the loops over one part of a tree leave in memory, and what they read and write. The
single-threaded builder has one part, the whole tree.
-/

namespace SupraSeal

open MerkleTree Interleaving

namespace TreeBuilder

variable {α : Type*} {t : TreeBuilder α} {m : TreeMem α} {out scratch input : TreePtr} {cols : Bool}
  {kept k h c q q' r : ℕ}

/-- Part `c` of a tree with `k` rows above the leaves has `h` rows above its own, row `kept` is the
first one stored, and the input is neither in the scratch buffer nor after the output pointer. -/
structure IsPart (t : TreeBuilder α) (out scratch input : TreePtr) (cols : Bool)
    (kept k h c : ℕ) : Prop where
  le : h ≤ k
  lt : c < t.arity ^ (k - h)
  kept_le : kept ≤ h
  kept_eq_zero : kept = 0 ↔ cols = true
  out_scratch : out.buf ≠ scratch.buf
  input_scratch : input.buf ≠ scratch.buf
  input_out : input.buf = out.buf → input.idx + t.leafCount cols h ≤ out.idx

variable (t) in
/-- Where part `c` of row `q` is stored. -/
def rowPos (kept k h c q : ℕ) : ℕ :=
  rowStart t.arity (k - kept) (q - kept) + c * t.arity ^ (h - q)

namespace IsPart

/-- A part of a row ends before the row does. -/
lemma rowPos_end (P : t.IsPart out scratch input cols kept k h c) (hkq : kept ≤ q) (hq : q ≤ h) :
    t.rowPos kept k h c q + t.arity ^ (h - q) ≤ rowStart t.arity (k - kept) (q + 1 - kept) := by
  have hle : (c + 1) * t.arity ^ (h - q) ≤ t.arity ^ (k - kept - (q - kept)) := by
    refine (Nat.mul_le_mul_right _ P.lt).trans (le_of_eq ?_)
    rw [← pow_add]
    congr 1
    have := P.le
    omega
  rw [Nat.succ_sub hkq, rowStart_succ, rowPos, Nat.add_assoc, ← Nat.succ_mul]
  exact Nat.add_le_add_left hle _

lemma rowPos_lt (P : t.IsPart out scratch input cols kept k h c) (hkq : kept ≤ q) (hqq : q < q')
    (hq : q' ≤ h) : t.rowPos kept k h c q + t.arity ^ (h - q) ≤ t.rowPos kept k h c q' := by
  refine (P.rowPos_end hkq (by omega)).trans (le_trans ?_ (Nat.le_add_right _ _))
  exact rowStart_mono (by omega)

lemma place_eq (hr : kept ≤ r + 1) :
    t.rowPlace out scratch kept k h c r = out.add (t.rowPos kept k h c (r + 1)) := by
  rw [rowPlace_of_le hr, rowPos, Nat.sub_sub, Nat.add_comm 1 r]

variable (P : t.IsPart out scratch input cols kept k h c)

include P

lemma le_succ (r : ℕ) : cols = true → kept ≤ r := fun hcols => by
  rw [P.kept_eq_zero.mpr hcols]
  exact Nat.zero_le r

/-- The row that the loops over the rows start from. -/
lemma start_eq (hcols : cols = true) :
    out.add (c * t.arity ^ h) = out.add (t.rowPos kept k h c 0) := by
  rw [P.kept_eq_zero.mpr hcols, rowPos, rowStart_zero, Nat.zero_add, Nat.sub_zero]

/-- Every loop over a row of a part is safe: it reads another buffer, or nodes before those it
writes, or it hashes a row over itself. -/
lemma ahead_rowPass (hr : r < h) :
    t.Ahead (t.rowPass (t.rowPlace out scratch kept k h c)
      (if cols then out.add (c * t.arity ^ h) else input) h r) := by
  have hcount : (t.rowPass (t.rowPlace out scratch kept k h c)
      (if cols then out.add (c * t.arity ^ h) else input) h r).count = _ := count_rowPass hr
  by_cases hkept : kept ≤ r + 1
  · have hout : t.rowPlace out scratch kept k h c r = _ := place_eq hkept
    by_cases hsrc : kept ≤ r
    · -- the row below is stored
      refine .of_le hcount ?_
      have hpos : _ ≤ t.rowPos kept k h c (r + 1) := P.rowPos_lt hsrc (Nat.lt_succ_self r) hr
      have hin : (t.rowPass (t.rowPlace out scratch kept k h c)
          (if cols then out.add (c * t.arity ^ h) else input) h r).input =
          out.add (t.rowPos kept k h c r) := by
        cases r with
        | zero =>
          have hcols := P.kept_eq_zero.mp (Nat.le_zero.mp hsrc)
          rw [rowPass, source, if_pos hcols, P.start_eq hcols]
        | succ r => exact place_eq hsrc
      rw [hin]
      show out.idx + _ + t.arity ^ (h - r) ≤ (t.rowPlace out scratch kept k h c r).idx
      rw [hout, TreePtr.add_idx, Nat.add_assoc]
      exact Nat.add_le_add_left hpos _
    · cases r with
      | zero =>
        -- the row below is the input
        have hcols : cols = false := by
          by_contra hne
          exact hsrc (P.le_succ 0 (by simpa using hne))
        subst hcols
        have hpass : (t.rowPass (t.rowPlace out scratch kept k h c) input h 0).out =
            out.add (t.rowPos kept k h c (0 + 1)) := hout
        by_cases hbuf : input.buf = out.buf
        · refine .of_le hcount ?_
          have hin := P.input_out hbuf
          rw [leafCount] at hin
          show input.idx + t.arity ^ (h - 0) ≤ _
          simp only [Bool.false_eq_true, if_false] at hin ⊢
          rw [hpass, TreePtr.add_idx]
          exact hin.trans (Nat.le_add_right _ _)
        · refine .of_buf ?_
          simp only [Bool.false_eq_true, if_false]
          rw [hpass]
          exact hbuf
      | succ r =>
        -- the row below is in the scratch buffer
        refine .of_buf ?_
        show (t.rowPlace out scratch kept k h c r).buf ≠ (t.rowPlace out scratch kept k h c (r + 1)).buf
        rw [hout, rowPlace_of_lt (Nat.not_le.mp hsrc)]
        exact P.out_scratch.symm
  · have hout : t.rowPlace out scratch kept k h c r = _ := rowPlace_of_lt (Nat.not_le.mp hkept)
    cases r with
    | zero =>
      have hcols : cols = false := by
        by_contra hne
        exact hkept (P.le_succ 1 (by simpa using hne))
      subst hcols
      refine .of_buf ?_
      show input.buf ≠ (t.rowPlace out scratch kept k h c 0).buf
      rw [hout]
      exact P.input_scratch
    | succ r =>
      -- a row in the scratch buffer is hashed over itself
      refine .of_eq ?_
      show t.rowPlace out scratch kept k h c (r + 1) = t.rowPlace out scratch kept k h c r
      rw [hout, rowPlace_of_lt (by omega)]

lemma ahead_of_mem {p : RowPass} (hp : p ∈ t.partPasses out scratch input cols kept k h c) :
    t.Ahead p := by
  rcases List.mem_append.mp hp with hp | hp
  · split_ifs at hp with hcols
    · obtain rfl := List.mem_singleton.mp hp
      have hcount : t.colArity * t.arity ^ h = t.groupSize true * t.arity ^ h := rfl
      by_cases hbuf : input.buf = out.buf
      · refine .of_le hcount ?_
        have hin := P.input_out hbuf
        rw [leafCount, if_pos hcols] at hin
        exact hin.trans (Nat.le_add_right _ _)
      · exact .of_buf hbuf
    · exact absurd hp List.not_mem_nil
  · obtain ⟨r, hr, rfl⟩ := List.mem_map.mp hp
    exact P.ahead_rowPass (List.mem_range.mp hr)

/-- A row that is stored is not written to by the loops after it. -/
lemma rowPasses_row (hkept : kept ≤ r + 1) (hr : r < h) {j : ℕ} (hj : j < t.arity ^ (h - (r + 1))) :
    (runProg t.exec (((List.range h).map (t.rowPass (t.rowPlace out scratch kept k h c)
        (if cols then out.add (c * t.arity ^ h) else input) h)).flatMap t.calls) m).array
          (out.add (t.rowPos kept k h c (r + 1))) j =
      row t.hash t.arity (m.array (if cols then out.add (c * t.arity ^ h) else input)) (r + 1) j := by
  rw [Nat.add_comm r 1, Nat.sub_add_eq] at hj
  have hplace : t.rowPlace out scratch kept k h c r = _ := place_eq hkept
  rw [← hplace]
  refine runProg_rowPasses_kept (fun r hr => P.ahead_rowPass hr) hr le_rfl hj ?_
  intro r' hlt hr' i _ heq
  have hidx := congrArg TreePtr.idx heq
  rw [place_eq hkept, place_eq (by omega)] at hidx
  simp only [TreePtr.add_idx] at hidx
  have hpos := P.rowPos_lt hkept (by omega : r + 1 < r' + 1) hr'
  rw [Nat.add_comm r 1, Nat.sub_add_eq, Nat.add_comm 1 r] at hpos
  omega

/-- The rows of a part as its loops leave them. -/
theorem rows (hkept : kept ≤ q) (hq : q ≤ h) {j : ℕ} (hj : j < t.arity ^ (h - q)) :
    (runProg t.exec ((t.partPasses out scratch input cols kept k h c).flatMap t.calls) m).array
        (out.add (t.rowPos kept k h c q)) j =
      row t.hash t.arity (t.leaves cols (m.array input)) q j := by
  rw [partPasses, List.flatMap_append, runProg_append]
  cases cols with
  | false =>
    obtain ⟨r, rfl⟩ : ∃ r, q = r + 1 := by
      have hne : kept ≠ 0 := fun h0 => Bool.false_ne_true (P.kept_eq_zero.mp h0)
      exact ⟨q - 1, by omega⟩
    exact P.rowPasses_row hkept hq hj
  | true =>
    simp only [if_true, List.flatMap_singleton]
    set p : RowPass := ⟨true, t.colArity * t.arity ^ h, out.add (c * t.arity ^ h), input⟩ with hp
    have hahead : t.Ahead p := P.ahead_of_mem (List.mem_append_left _ (by simp [hp]))
    have hcols : ∀ j < t.arity ^ h, (runProg t.exec (t.calls p) m).array p.out j =
        t.columns (m.array input) j := fun j hj => runProg_calls_row hahead rfl hj
    cases q with
    | zero =>
      rw [← P.start_eq rfl]
      refine Eq.trans ?_ (hcols j hj)
      refine runProg_frame fun x hx heq => ?_
      obtain ⟨p', hp', hx⟩ := List.mem_flatMap.mp hx
      obtain ⟨r, hr, rfl⟩ := List.mem_map.mp hp'
      have hr := List.mem_range.mp hr
      have hmem := List.mem_map_of_mem (f := HashCall.out) hx
      rw [map_out_calls (count_rowPass hr)] at hmem
      obtain ⟨i, -, hxi⟩ := List.mem_map.mp hmem
      have hidx := congrArg TreePtr.idx (hxi.trans heq)
      rw [rowPass_out, place_eq (P.le_succ (r + 1) rfl)] at hidx
      have hpos := P.rowPos_lt (P.le_succ 0 rfl) (by omega : 0 < r + 1) hr
      have hstart := congrArg TreePtr.idx (P.start_eq rfl)
      simp only [TreePtr.add_idx] at hidx hstart
      rw [Nat.sub_zero] at hj hpos
      omega
    | succ r =>
      refine (P.rowPasses_row hkept hq hj).trans ?_
      exact row_congr (k := h) hcols hq j hj

/-- A part writes to the scratch buffer and to its own parts of the stored rows. -/
lemma out_of_mem {x : HashCall}
    (hx : x ∈ (t.partPasses out scratch input cols kept k h c).flatMap t.calls) :
    (1 < kept ∧ ∃ i < t.arity ^ (h - 1), x.out = scratch.add i) ∨
    ∃ q, kept ≤ q ∧ q ≤ h ∧ ∃ i < t.arity ^ (h - q),
      x.out = out.add (t.rowPos kept k h c q + i) := by
  obtain ⟨p, hp, hx⟩ := List.mem_flatMap.mp hx
  have hmem := List.mem_map_of_mem (f := HashCall.out) hx
  rcases List.mem_append.mp hp with hp | hp
  · split_ifs at hp with hcols
    · obtain rfl := List.mem_singleton.mp hp
      rw [map_out_calls (n := t.arity ^ h) rfl] at hmem
      obtain ⟨i, hi, hxi⟩ := List.mem_map.mp hmem
      refine .inr ⟨0, P.le_succ 0 hcols, Nat.zero_le h, i, List.mem_range.mp hi, ?_⟩
      rw [← hxi, P.start_eq hcols, TreePtr.add_add]
    · exact absurd hp List.not_mem_nil
  · obtain ⟨r, hr, rfl⟩ := List.mem_map.mp hp
    have hr := List.mem_range.mp hr
    rw [map_out_calls (count_rowPass hr)] at hmem
    obtain ⟨i, hi, hxi⟩ := List.mem_map.mp hmem
    have hi := List.mem_range.mp hi
    by_cases hkept : kept ≤ r + 1
    · rw [Nat.sub_sub, Nat.add_comm] at hi
      refine .inr ⟨r + 1, hkept, hr, i, hi, ?_⟩
      rw [← hxi, rowPass_out, place_eq hkept, TreePtr.add_add]
    · refine .inl ⟨by omega, i, hi.trans_le (Nat.pow_le_pow_right t.arity_pos (by omega)), ?_⟩
      rw [← hxi, rowPass_out, rowPlace_of_lt (Nat.not_le.mp hkept)]

/-- A part reads the input and what it has written. -/
lemma input_of_mem {x : HashCall}
    (hx : x ∈ (t.partPasses out scratch input cols kept k h c).flatMap t.calls) {a : ℕ}
    (ha : a < t.groupSize x.cols) :
    (∃ i < t.leafCount cols h, x.input.add a = input.add i) ∨
    ∃ y ∈ (t.partPasses out scratch input cols kept k h c).flatMap t.calls,
      x.input.add a = y.out := by
  obtain ⟨p, hp, hx⟩ := List.mem_flatMap.mp hx
  -- what a loop of the part writes is written by the part
  have hwritten : ∀ {p' : RowPass} {n : ℕ},
      p' ∈ t.partPasses out scratch input cols kept k h c →
      p'.count = t.groupSize p'.cols * n → ∀ i < n, ∃ y ∈
        (t.partPasses out scratch input cols kept k h c).flatMap t.calls, p'.out.add i = y.out := by
    intro p' n hp' hcount i hi
    obtain ⟨y, hy, hyi⟩ := exists_mem_calls hcount hi
    exact ⟨y, List.mem_flatMap.mpr ⟨p', hp', hy⟩, hyi.symm⟩
  rcases List.mem_append.mp hp with hcol | hrow
  · split_ifs at hcol with hcols
    · obtain rfl := List.mem_singleton.mp hcol
      left
      rw [leafCount, if_pos hcols]
      exact input_of_mem_calls (n := t.arity ^ h) rfl hx ha
    · exact absurd hcol List.not_mem_nil
  · obtain ⟨r, hr, rfl⟩ := List.mem_map.mp hrow
    have hr := List.mem_range.mp hr
    obtain ⟨i, hi, hxi⟩ := input_of_mem_calls (count_rowPass hr) hx ha
    rw [hxi]
    cases r with
    | zero =>
      cases cols with
      | false => exact .inl ⟨i, hi, rfl⟩
      | true =>
        refine .inr ?_
        exact hwritten (n := t.arity ^ h) (List.mem_append_left _ (List.mem_singleton.mpr rfl)) rfl i hi
    | succ r =>
      refine .inr ?_
      have hr' : r < h := Nat.lt_of_succ_lt hr
      have hi' : i < t.arity ^ (h - 1 - r) := by
        rw [Nat.sub_sub, Nat.add_comm]
        exact hi
      exact hwritten (List.mem_append_right _ (List.mem_map_of_mem (List.mem_range.mpr hr')))
        (count_rowPass hr') i hi'

/-- Every node of a stored row is written by its part. -/
lemma exists_mem_out (hkept : kept ≤ q) (hq : q ≤ h) {j : ℕ} (hj : j < t.arity ^ (h - q)) :
    ∃ x ∈ (t.partPasses out scratch input cols kept k h c).flatMap t.calls,
      x.out = out.add (t.rowPos kept k h c q + j) := by
  cases q with
  | zero =>
    have hcols := P.kept_eq_zero.mp (Nat.le_zero.mp hkept)
    obtain ⟨x, hx, hxj⟩ := exists_mem_calls (t := t) (n := t.arity ^ h)
      (p := ⟨true, t.colArity * t.arity ^ h, out.add (c * t.arity ^ h), input⟩) rfl hj
    refine ⟨x, List.mem_flatMap.mpr ⟨_, List.mem_append_left _ ?_, hx⟩, ?_⟩
    · rw [if_pos hcols]
      exact List.mem_singleton.mpr rfl
    · rw [hxj, P.start_eq hcols, TreePtr.add_add]
  | succ r =>
    rw [Nat.add_comm r 1, Nat.sub_add_eq] at hj
    obtain ⟨x, hx, hxj⟩ := exists_mem_calls (count_rowPass hq :
      (t.rowPass (t.rowPlace out scratch kept k h c)
        (if cols then out.add (c * t.arity ^ h) else input) h r).count = _) hj
    refine ⟨x, List.mem_flatMap.mpr ⟨_, List.mem_append_right _
      (List.mem_map_of_mem (List.mem_range.mpr hq)), hx⟩, ?_⟩
    rw [hxj, rowPass_out, place_eq hkept, TreePtr.add_add]

/-- The parts of the stored rows do not overlap. -/
lemma rowPos_inj {scratch' input' : TreePtr} {c' i j : ℕ}
    (P' : t.IsPart out scratch' input' cols kept k h c') (hkept : kept ≤ q) (hq : q ≤ h)
    (hkept' : kept ≤ q') (hq' : q' ≤ h) (hi : i < t.arity ^ (h - q)) (hj : j < t.arity ^ (h - q'))
    (heq : t.rowPos kept k h c q + i = t.rowPos kept k h c' q' + j) : c = c' := by
  have hend := P.rowPos_end hkept hq
  have hend' := P'.rowPos_end hkept' hq'
  have hstart : rowStart t.arity (k - kept) (q - kept) ≤ t.rowPos kept k h c q :=
    Nat.le_add_right _ _
  have hstart' : rowStart t.arity (k - kept) (q' - kept) ≤ t.rowPos kept k h c' q' :=
    Nat.le_add_right _ _
  rcases Nat.lt_trichotomy q q' with hlt | rfl | hlt
  · have hmono := (rowStart_mono (by omega) :
      rowStart t.arity (k - kept) (q + 1 - kept) ≤ rowStart t.arity (k - kept) (q' - kept))
    omega
  · have hdiv : ∀ c i, i < t.arity ^ (h - q) →
        (c * t.arity ^ (h - q) + i) / t.arity ^ (h - q) = c := fun c i hi => by
      rw [Nat.add_comm, Nat.add_mul_div_right _ _ (Nat.zero_lt_of_lt hi), Nat.div_eq_of_lt hi,
        Nat.zero_add]
    rw [rowPos, rowPos, Nat.add_assoc, Nat.add_assoc] at heq
    have hpart := congrArg (· / t.arity ^ (h - q)) (Nat.add_left_cancel heq)
    calc c = (c * t.arity ^ (h - q) + i) / t.arity ^ (h - q) := (hdiv c i hi).symm
      _ = (c' * t.arity ^ (h - q) + j) / t.arity ^ (h - q) := hpart
      _ = c' := hdiv c' j hj
  · have hmono := (rowStart_mono (by omega) :
      rowStart t.arity (k - kept) (q' + 1 - kept) ≤ rowStart t.arity (k - kept) (q - kept))
    omega

omit P

end IsPart

end TreeBuilder

end SupraSeal
