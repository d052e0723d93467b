import SupraSeal.Pc1.TreeParts

/-!
# The single-threaded builder

`BuildTree` stores the rows from the first kept one up to the root, one after another, in exactly
`size` nodes, and returns the root. The output pointer moves between the scratch buffer and the
output while rows are discarded; a row in the scratch buffer is hashed over itself.
-/

namespace SupraSeal

open MerkleTree Interleaving

namespace TreeBuilder

variable {α : Type*} {t : TreeBuilder α} {m : TreeMem α} {out input : TreePtr} {cols noDiscard : Bool}
  {kept k : ℕ}

/-! ### The size -/

lemma sizeRows_pow (k d : ℕ) :
    t.sizeRows (t.arity ^ k) d = rowStart t.arity (k - 1 - d) (k - d) := by
  induction k generalizing d with
  | zero =>
    rw [sizeRows, dif_neg (by simp), Nat.zero_sub, rowStart_zero]
  | succ k ih =>
    rw [sizeRows, dif_pos (Nat.one_lt_pow (by omega) t.one_lt_arity), pow_succ',
      Nat.mul_div_cancel_left _ t.arity_pos, ih, ih]
    cases d with
    | zero =>
      rw [if_neg (Nat.lt_irrefl 0), Nat.sub_zero, Nat.sub_zero, Nat.sub_zero]
      cases k with
      | zero => rfl
      | succ k => exact (rowStart_succ_succ k (k + 1)).symm
    | succ d =>
      rw [if_pos (Nat.succ_pos d), Nat.add_sub_cancel, Nat.add_sub_cancel, Nat.add_sub_add_right,
        Nat.sub_sub, Nat.add_comm 1 d]

/-- `size` counts the nodes of the rows from the first kept one up to the root. -/
lemma size_eq (hk : t.firstKept cols noDiscard ≤ k) (hpos : 0 < k) :
    t.size (t.leafCount cols k) cols noDiscard =
      rowStart t.arity (k - t.firstKept cols noDiscard) (k - t.firstKept cols noDiscard + 1) := by
  obtain ⟨k, rfl⟩ : ∃ k', k = k' + 1 := ⟨k - 1, by omega⟩
  cases cols with
  | true =>
    simp only [size, leafCount, firstKept, Bool.true_or, if_true, Nat.sub_zero,
      Nat.mul_div_cancel_left _ t.colArity_pos, sizeRows_pow, Nat.add_sub_cancel]
    exact (rowStart_succ_succ k (k + 1)).symm
  | false =>
    cases noDiscard with
    | true =>
      simp only [size, leafCount, firstKept, Bool.false_or, Bool.false_eq_true, if_false, if_true,
        sizeRows_pow, Nat.add_sub_cancel, Nat.sub_zero]
    | false =>
      have hk : t.discardRows + 1 ≤ k + 1 := hk
      simp only [size, leafCount, firstKept, Bool.or_self, Bool.false_eq_true, if_false,
        sizeRows_pow, Nat.add_sub_cancel, Nat.add_sub_add_right]
      rw [Nat.succ_sub (by omega)]

/-! ### The root -/

lemma buildRows_curHashOut (out : TreePtr) {d : ℤ} (hd : d ≤ 0) (c : TreeCursor α) :
    (t.buildRows out (t.arity ^ k) d c).curHashOut =
      c.curHashOut.add (rowStart t.arity (k - 1) k) := by
  induction k generalizing c d with
  | zero => rw [buildRows_zero]; rfl
  | succ k ih =>
    rw [buildRows_succ, if_neg (by omega), if_neg (by omega), ih (by omega)]
    show (c.curHashOut.add _).add _ = _
    rw [TreePtr.add_add, Nat.add_sub_cancel]
    cases k with
    | zero => rfl
    | succ k => rw [Nat.add_sub_cancel, rowStart_succ_succ]

/-- The output pointer ends after the rows that are stored. -/
lemma buildRows_discard_curHashOut {d : ℕ} (hd : d ≤ 2) (hk : d < k) (out : TreePtr)
    (c : TreeCursor α) (hc : c.curHashOut = if 0 < d then ⟨.discarded, 0⟩ else out) :
    (t.buildRows out (t.arity ^ k) d c).curHashOut =
      out.add (rowStart t.arity (k - (d + 1)) (k - d)) := by
  obtain rfl | rfl | rfl : d = 0 ∨ d = 1 ∨ d = 2 := by omega
  · rw [buildRows_curHashOut _ (by decide), hc]
    rfl
  · obtain ⟨k, rfl⟩ : ∃ k', k = k' + 1 := ⟨k - 1, by omega⟩
    rw [buildRows_succ, if_neg (by decide), if_pos (by decide), buildRows_curHashOut _ (by decide)]
    rfl
  · obtain ⟨k, rfl⟩ : ∃ k', k = k' + 1 + 1 := ⟨k - 2, by omega⟩
    rw [buildRows_succ, if_pos (by decide), buildRows_succ, if_neg (by decide), if_pos (by decide),
      buildRows_curHashOut _ (by decide)]
    rfl

/-- `BuildTree` returns the last node that it stores. -/
lemma fst_buildTree (hd : t.discardRows ≤ 2) (hk : t.firstKept cols noDiscard ≤ k) (hpos : 0 < k)
    (out input : TreePtr) (m : TreeMem α) :
    (t.buildTree (t.leafCount cols k) out input cols noDiscard m).1 =
      (t.buildTree (t.leafCount cols k) out input cols noDiscard m).2.array out
        (rowStart t.arity (k - t.firstKept cols noDiscard) (k - t.firstKept cols noDiscard)) := by
  have hroot : ∀ c : TreeCursor α, ∀ n, c.curHashOut = out.add (rowStart t.arity n (n + 1)) →
      c.mem c.curHashOut.buf (c.curHashOut.idx - 1) = c.mem.array out (rowStart t.arity n n) := by
    intro c n hc
    rw [hc, rowStart_succ, Nat.sub_self, pow_zero]
    rfl
  cases cols with
  | true =>
    obtain ⟨k, rfl⟩ : ∃ k', k = k' + 1 := ⟨k - 1, by omega⟩
    have hbuild : t.buildTree (t.leafCount true (k + 1)) out input true noDiscard m =
        let c := t.buildRows out (t.arity ^ (k + 1)) (-1)
          (TreeCursor.hashRow t.colHash t.colArity (t.leafCount true (k + 1)) ⟨out, input, m⟩)
        (c.mem c.curHashOut.buf (c.curHashOut.idx - 1), c.mem) := by
      simp only [buildTree, buildCols, leafCount, if_true, Bool.true_or,
        Nat.mul_div_cancel_left _ t.colArity_pos]
      rfl
    rw [hbuild]
    refine hroot _ _ ?_
    rw [buildRows_curHashOut _ (by decide), leafCount, if_pos rfl,
      TreeCursor.hashRow_eq _ t.colArity_pos]
    show (out.add _).add _ = _
    rw [TreePtr.add_add, Nat.add_sub_cancel, firstKept, if_pos rfl, Nat.sub_zero, rowStart_succ_succ]
  | false =>
    refine hroot _ _ ?_
    cases noDiscard with
    | true =>
      refine (buildRows_curHashOut (t := t) (k := k) out (d := -1) (by decide) ⟨out, input, m⟩).trans ?_
      obtain ⟨k, rfl⟩ : ∃ k', k = k' + 1 := ⟨k - 1, by omega⟩
      rfl
    | false =>
      have hk : t.discardRows < k := hk
      have h := buildRows_discard_curHashOut hd hk out (t := t)
        ⟨if 0 < t.discardRows then ⟨.discarded, 0⟩ else out, input, m⟩ rfl
      rw [show k - t.discardRows = k - (t.discardRows + 1) + 1 by omega] at h
      refine Eq.trans ?_ h
      simp only [← Int.natCast_pos (n := t.discardRows)]
      rfl

/-! ### The nodes that are written -/

/-- The whole tree as a part. -/
lemma isPart_whole (hk : t.firstKept cols noDiscard ≤ k) (hout : out.buf ≠ .discarded)
    (hin : input.buf ≠ .discarded)
    (hio : input.buf = out.buf → input.idx + t.leafCount cols k ≤ out.idx) :
    t.IsPart out ⟨.discarded, 0⟩ input cols (t.firstKept cols noDiscard) k k 0 where
  le := le_rfl
  lt := pow_pos t.arity_pos _
  kept_le := hk
  kept_eq_zero := by
    rw [firstKept]
    cases cols <;> cases noDiscard <;> simp
  out_scratch := hout
  input_scratch := hin
  input_out := hio

@[simp] lemma writesTo_nil (b : TreeBuffer) : writesTo b [] = [] := rfl

@[simp] lemma writesTo_append (b : TreeBuffer) (p q : List HashCall) :
    writesTo b (p ++ q) = writesTo b p ++ writesTo b q := by
  rw [writesTo, List.map_append, List.filter_append]
  rfl

lemma writesTo_calls {p : RowPass} {n : ℕ} (hcount : p.count = t.groupSize p.cols * n)
    (b : TreeBuffer) :
    writesTo b (t.calls p) = if p.out.buf = b then (List.range n).map p.out.add else [] := by
  rw [writesTo, map_out_calls hcount]
  split_ifs with hb
  · refine List.filter_eq_self.mpr fun x hx => ?_
    obtain ⟨i, -, rfl⟩ := List.mem_map.mp hx
    exact decide_eq_true hb
  · refine List.filter_eq_nil_iff.mpr fun x hx => ?_
    obtain ⟨i, -, rfl⟩ := List.mem_map.mp hx
    exact fun h => hb (of_decide_eq_true h)

/-- The stored nodes are written once each, in the order in which they are stored. -/
lemma writesTo_out (P : t.IsPart out ⟨.discarded, 0⟩ input cols kept k k 0) :
    writesTo out.buf
        ((t.partPasses out ⟨.discarded, 0⟩ input cols kept k k 0).flatMap t.calls) =
      (List.range (rowStart t.arity (k - kept) (k + 1 - kept))).map out.add := by
  rw [partPasses, List.flatMap_append, writesTo_append]
  have hrows : ∀ n ≤ k, (List.range (rowStart t.arity (k - kept) (1 - kept))).map out.add ++
      writesTo out.buf (((List.range n).map (t.rowPass (t.rowPlace out ⟨.discarded, 0⟩ kept k k 0)
        (if cols then out.add (0 * t.arity ^ k) else input) k)).flatMap t.calls) =
      (List.range (rowStart t.arity (k - kept) (n + 1 - kept))).map out.add := by
    intro n hn
    induction n with
    | zero => exact List.append_nil _
    | succ n ih =>
      rw [List.range_succ, List.map_append, List.flatMap_append, writesTo_append,
        ← List.append_assoc, ih (by omega), List.map_singleton, List.flatMap_singleton,
        writesTo_calls (count_rowPass hn)]
      by_cases hkept : kept ≤ n + 1
      · rw [rowPass_out, IsPart.place_eq hkept, if_pos (TreePtr.add_buf ..), Nat.succ_sub hkept,
          rowStart_succ, List.range_add, List.map_append, List.map_map]
        congr 1
        have hlen : k - 1 - n = k - kept - (n + 1 - kept) := by
          have := P.kept_le
          omega
        rw [hlen, rowPos, Nat.zero_mul, Nat.add_zero]
        exact List.map_congr_left fun i _ => TreePtr.add_add ..
      · rw [rowPass_out, rowPlace_of_lt (Nat.not_le.mp hkept), if_neg P.out_scratch.symm,
          List.append_nil, Nat.sub_eq_zero_of_le (by omega : n + 1 ≤ kept),
          Nat.sub_eq_zero_of_le (by omega : n + 1 + 1 ≤ kept)]
  rw [← hrows k le_rfl]
  congr 1
  by_cases hcols : cols = true
  · rw [if_pos hcols, List.flatMap_singleton, writesTo_calls (n := t.arity ^ k) rfl,
      if_pos (TreePtr.add_buf ..), P.kept_eq_zero.mpr hcols, rowStart_succ, rowStart_zero, Nat.zero_add, Nat.zero_mul]
    rfl
  · have hpos : 1 ≤ kept := Nat.pos_of_ne_zero fun h0 => hcols (P.kept_eq_zero.mp h0)
    rw [if_neg hcols, List.flatMap_nil, Nat.sub_eq_zero_of_le hpos]
    rfl

/-! ### The whole tree -/

/-- What the builder leaves in its output. -/
lemma buildTree_rows (hd : t.discardRows ≤ 2) (hk : t.firstKept cols noDiscard ≤ k)
    (out input : TreePtr) (m : TreeMem α) (hout : out.buf ≠ .discarded)
    (hin : input.buf ≠ .discarded)
    (hio : input.buf = out.buf → input.idx + t.leafCount cols k ≤ out.idx) {q : ℕ}
    (hkept : t.firstKept cols noDiscard ≤ q) (hq : q ≤ k) {j : ℕ} (hj : j < t.arity ^ (k - q)) :
    (t.buildTree (t.leafCount cols k) out input cols noDiscard m).2.array out
        (rowStart t.arity (k - t.firstKept cols noDiscard) (q - t.firstKept cols noDiscard) + j) =
      row t.hash t.arity (t.leaves cols (m.array input)) q j := by
  have h := (isPart_whole hk hout hin hio).rows (m := m) hkept hq hj
  rw [rowPos, Nat.zero_mul, Nat.add_zero, TreeMem.array_add, ← passes_eq hd hk, ← mem_buildTree] at h
  exact h

lemma buildTree_root (hd : t.discardRows ≤ 2) (hk : t.firstKept cols noDiscard ≤ k) (hpos : 0 < k)
    (out input : TreePtr) (m : TreeMem α) (hout : out.buf ≠ .discarded)
    (hin : input.buf ≠ .discarded)
    (hio : input.buf = out.buf → input.idx + t.leafCount cols k ≤ out.idx) :
    (t.buildTree (t.leafCount cols k) out input cols noDiscard m).1 =
      row t.hash t.arity (t.leaves cols (m.array input)) k 0 :=
  (fst_buildTree hd hk hpos out input m).trans
    (buildTree_rows (j := 0) hd hk out input m hout hin hio hk le_rfl (by simp))

/-- The single-threaded builder, for every hash function and arity: it stores the rows of the tree
from the first kept one up to the root and returns the root; it writes `size` nodes of the output,
each once, in the order in which they are stored, and nothing else but the scratch buffer; and no
loop reads a node that it has overwritten. -/
theorem buildTree_spec (t : TreeBuilder α) (hd : t.discardRows ≤ 2) (hk : t.discardRows < k)
    (cols noDiscard : Bool) (m : TreeMem α) (o i : ℕ) :
    let count := t.leafCount cols k
    let kept := t.firstKept cols noDiscard
    let leaves := t.leaves cols (m.array ⟨.input, i⟩)
    let result := t.buildTree count ⟨.out, o⟩ ⟨.input, i⟩ cols noDiscard m
    let passes := t.passes count ⟨.out, o⟩ ⟨.input, i⟩ cols noDiscard
    Stores t.hash t.arity (result.2.array ⟨.out, o⟩) (row t.hash t.arity leaves kept) (k - kept) ∧
    result.1 = row t.hash t.arity leaves k 0 ∧
    result.2 = runProg t.exec (passes.flatMap t.calls) m ∧
    writesTo .out (passes.flatMap t.calls) =
      (List.range (t.size count cols noDiscard)).map (TreePtr.add ⟨.out, o⟩) ∧
    (∀ b j, b ≠ .discarded → result.2 b j ≠ m b j →
      b = .out ∧ o ≤ j ∧ j < o + t.size count cols noDiscard) ∧
    ∀ p ∈ passes, t.Ahead p := by
  intro count kept leaves result passes
  have hpos : 0 < k := Nat.zero_lt_of_lt hk
  have hk : kept ≤ k := by
    show t.firstKept cols noDiscard ≤ k
    rw [firstKept]
    split_ifs <;> omega
  have P : t.IsPart ⟨.out, o⟩ ⟨.discarded, 0⟩ ⟨.input, i⟩ cols kept k k 0 :=
    isPart_whole hk (by simp) (by simp) (by simp)
  have hpasses : passes = t.partPasses ⟨.out, o⟩ ⟨.discarded, 0⟩ ⟨.input, i⟩ cols kept k k 0 :=
    passes_eq hd hk _ _
  have hmem : result.2 = runProg t.exec (passes.flatMap t.calls) m := mem_buildTree ..
  have hwrites : writesTo .out (passes.flatMap t.calls) =
      (List.range (t.size count cols noDiscard)).map (TreePtr.add ⟨.out, o⟩) := by
    have hsucc : k + 1 - kept = k - kept + 1 := Nat.succ_sub hk
    rw [hpasses, size_eq hk hpos]
    exact hsucc ▸ writesTo_out P
  refine ⟨?_, buildTree_root hd hk hpos _ _ m (by simp) (by simp) (by simp), hmem, hwrites, ?_, ?_⟩
  · intro l hl j hj
    have h := buildTree_rows (q := kept + l) (j := j) hd hk ⟨.out, o⟩ ⟨.input, i⟩ m (by simp) (by simp)
      (by simp)
      (Nat.le_add_right kept l) (by omega) (by rwa [Nat.sub_add_eq])
    rwa [Nat.add_sub_cancel_left, row_add] at h
  · intro b j hb hne
    by_contra hnot
    refine hne (hmem ▸ runProg_frame fun x hx hxj => hnot ?_)
    have hmem : x.out ∈ writesTo x.out.buf (passes.flatMap t.calls) :=
      List.mem_filter.mpr ⟨List.mem_map_of_mem hx, decide_eq_true rfl⟩
    have hout : b = .out := by
      rw [hpasses] at hx
      rcases P.out_of_mem hx with ⟨-, i, -, hxi⟩ | ⟨q, -, -, i, -, hxi⟩
      · rw [hxj] at hxi
        exact absurd (congrArg TreePtr.buf hxi) hb
      · rw [hxj] at hxi
        exact congrArg TreePtr.buf hxi
    subst hout
    rw [hxj] at hmem
    rw [hwrites] at hmem
    obtain ⟨n, hn, hxn⟩ := List.mem_map.mp hmem
    have hidx : o + n = j := congrArg TreePtr.idx hxn
    have hn := List.mem_range.mp hn
    exact ⟨rfl, by omega, by omega⟩
  · intro p hp
    rw [hpasses] at hp
    exact P.ahead_of_mem hp

/-- A builder that adds up pairs. -/
def sums (discardRows : ℕ) : TreeBuilder ℕ :=
  ⟨2, 2, discardRows, List.sum, List.sum, Nat.two_pos, Nat.one_lt_two⟩

/-- Two discarded rows over the leaves `0, …, 7`: only the root is stored. -/
theorem buildTree_spec_sums :
    ((sums 2).buildTree 8 ⟨.out, 0⟩ ⟨.input, 0⟩ false false fun _ j => j).1 = 28 ∧
    ((sums 2).buildTree 8 ⟨.out, 0⟩ ⟨.input, 0⟩ false false fun _ j => j).2 .out 0 = 28 := by
  obtain ⟨hstores, hroot, -⟩ := buildTree_spec (k := 3) (sums 2) (by decide) (by decide) false false
    (fun _ j => j) 0 0
  exact ⟨hroot, hstores 0 (by decide) 0 (by decide)⟩

end TreeBuilder

end SupraSeal
