import SupraSeal.Lib.Interleaving
import SupraSeal.Pc1.TreeRows

/-!
# Passes of the tree builder

The pointers of `BuildTree` do not depend on the nodes: a tree is built by a list of loops over
rows, and a loop is a list of hash calls. The calls say which nodes are read and written and in
which order.
-/

namespace SupraSeal

open MerkleTree Interleaving

/-- A loop over a row of `count` nodes, with the column hasher or the row hasher. -/
structure RowPass where
  cols : Bool
  count : ℕ
  out : TreePtr
  input : TreePtr

/-- `ColHashNode(out, input)` or `HashNode(out, input)`. -/
structure HashCall where
  cols : Bool
  out : TreePtr
  input : TreePtr

namespace TreeBuilder

variable {α : Type*} (t : TreeBuilder α)

def groupSize (cols : Bool) : ℕ := if cols then t.colArity else t.arity

def nodeHash (cols : Bool) : List α → α := if cols then t.colHash else t.hash

def exec (x : HashCall) (m : TreeMem α) : TreeMem α :=
  m.write x.out (t.nodeHash x.cols (group (t.groupSize x.cols) (m.array x.input) 0))

/-- The calls of a loop. -/
def calls (p : RowPass) : List HashCall :=
  (List.range ((p.count + t.groupSize p.cols - 1) / t.groupSize p.cols)).map fun i =>
    ⟨p.cols, p.out.add i, p.input.add (t.groupSize p.cols * i)⟩

/-- The loops of `buildRows`. -/
def rowPasses (out : TreePtr) (curCount : ℕ) (discards : ℤ) (curHashOut curHashIn : TreePtr) :
    List RowPass :=
  if _h : 1 < curCount then
    let discards := discards - 1
    ⟨false, curCount, curHashOut, curHashIn⟩ ::
      rowPasses out (curCount / t.arity) discards
        (if discards = 1 then ⟨.discarded, 0⟩ else if discards = 0 then out
          else curHashOut.add ((curCount + t.arity - 1) / t.arity)) curHashOut
  else []
termination_by curCount
decreasing_by exact Nat.div_lt_self (by omega) t.one_lt_arity

/-- The loops of `BuildTree`. -/
def passes (count : ℕ) (out input : TreePtr) (cols noDiscard : Bool) : List RowPass :=
  let discards : ℤ := if cols || noDiscard then -1 else t.discardRows
  if cols then
    ⟨true, count, out, input⟩ ::
      t.rowPasses out (count / t.colArity) discards
        (out.add ((count + t.colArity - 1) / t.colArity)) out
  else
    t.rowPasses out count discards (if 0 < discards then ⟨.discarded, 0⟩ else out) input

/-- The nodes of an array that are written, in the order of the calls. -/
def writesTo (b : TreeBuffer) (prog : List HashCall) : List TreePtr :=
  (prog.map HashCall.out).filter (·.buf = b)

/-- No call of a loop reads a node that an earlier call of it has overwritten. -/
def Ahead (p : RowPass) : Prop :=
  ∀ i j a, i < j → j < (t.calls p).length → a < t.groupSize p.cols →
    p.out.add i ≠ p.input.add (t.groupSize p.cols * j + a)

/-! ### The builder makes these calls -/

variable {t} {p : RowPass} {m : TreeMem α}

lemma groupSize_pos (cols : Bool) : 0 < t.groupSize cols := by
  cases cols
  · exact t.arity_pos
  · exact t.colArity_pos

lemma length_calls (p : RowPass) :
    (t.calls p).length = (p.count + t.groupSize p.cols - 1) / t.groupSize p.cols := by
  rw [calls, List.length_map, List.length_range]

lemma runProg_range_calls (cols : Bool) (c : TreeCursor α) (n : ℕ) :
    runProg t.exec ((List.range n).map fun i =>
        (⟨cols, c.curHashOut.add i, c.curHashIn.add (t.groupSize cols * i)⟩ : HashCall)) c.mem =
      ((TreeCursor.hashNode (t.nodeHash cols) (t.groupSize cols))^[n] c).mem := by
  induction n with
  | zero => rfl
  | succ n ih =>
    rw [List.range_succ, List.map_append, runProg_append, ih, Function.iterate_succ_apply']
    rw [List.map_singleton, runProg_cons, runProg_nil, exec, TreeCursor.hashNode,
      TreeCursor.hashNode_iterate_out, TreeCursor.hashNode_iterate_in]

/-- The memory after a loop. -/
lemma runProg_calls (p : RowPass) (m : TreeMem α) :
    runProg t.exec (t.calls p) m =
      (TreeCursor.hashRow (t.nodeHash p.cols) (t.groupSize p.cols) p.count ⟨p.out, p.input, m⟩).mem :=
  runProg_range_calls p.cols ⟨p.out, p.input, m⟩ _

lemma mem_buildRows (out : TreePtr) (curCount : ℕ) (discards : ℤ) (c : TreeCursor α) :
    (t.buildRows out curCount discards c).mem =
      runProg t.exec ((t.rowPasses out curCount discards c.curHashOut c.curHashIn).flatMap t.calls)
        c.mem := by
  induction curCount using Nat.strong_induction_on generalizing discards c with
  | _ curCount ih =>
    rw [buildRows, rowPasses]
    split_ifs with h
    · rw [ih (curCount / t.arity) (Nat.div_lt_self (by omega) t.one_lt_arity), List.flatMap_cons,
        runProg_append, runProg_calls]
      simp only [TreeCursor.hashRow, TreeCursor.hashNode_iterate_out]
      rfl
    · rfl

/-- `BuildTree` makes the calls of its loops. -/
theorem mem_buildTree (count : ℕ) (out input : TreePtr) (cols noDiscard : Bool) (m : TreeMem α) :
    (t.buildTree count out input cols noDiscard m).2 =
      runProg t.exec ((t.passes count out input cols noDiscard).flatMap t.calls) m := by
  cases cols
  · exact mem_buildRows ..
  · refine (mem_buildRows ..).trans ?_
    rw [passes, if_pos rfl, List.flatMap_cons, runProg_append, runProg_calls]
    simp only [TreeCursor.hashRow, TreeCursor.hashNode_iterate_out]
    rfl

/-! ### One loop -/

variable {n : ℕ}

lemma length_calls_of_count (hcount : p.count = t.groupSize p.cols * n) :
    (t.calls p).length = n := by
  have hpos : 0 < t.groupSize p.cols := groupSize_pos p.cols
  rw [length_calls, hcount, Nat.add_sub_assoc hpos, Nat.mul_add_div hpos,
    Nat.div_eq_of_lt (by omega), Nat.add_zero]

lemma Ahead.of_buf (h : p.input.buf ≠ p.out.buf) : t.Ahead p := by
  intro i j a _ _ _ heq
  exact h (congrArg TreePtr.buf heq).symm

lemma Ahead.of_le (hcount : p.count = t.groupSize p.cols * n)
    (h : p.input.idx + p.count ≤ p.out.idx) : t.Ahead p := by
  intro i j a _ hj ha heq
  rw [length_calls_of_count hcount] at hj
  have hidx : p.out.idx + i = p.input.idx + (t.groupSize p.cols * j + a) :=
    congrArg TreePtr.idx heq
  have hle : t.groupSize p.cols * j + t.groupSize p.cols ≤ p.count := by
    rw [hcount, ← Nat.mul_succ]
    exact Nat.mul_le_mul_left _ hj
  omega

/-- A row may be hashed over itself. -/
lemma Ahead.of_eq (h : p.out = p.input) : t.Ahead p := by
  intro i j a hij _ ha heq
  rw [h] at heq
  have hidx : i = t.groupSize p.cols * j + a := Nat.add_left_cancel (congrArg TreePtr.idx heq)
  have hle : j ≤ t.groupSize p.cols * j := Nat.le_mul_of_pos_left j (by omega)
  omega

lemma Ahead.cursor (h : t.Ahead p) (hcount : p.count = t.groupSize p.cols * n)
    (m : TreeMem α) : (TreeCursor.mk p.out p.input m).Ahead (t.groupSize p.cols) n := by
  intro i j a hij hj ha hb heq
  refine h i j a hij ?_ ha (TreePtr.mk.injEq .. ▸ ⟨hb.symm, heq⟩)
  rwa [length_calls_of_count hcount]

/-- A loop leaves the next row in its output. -/
lemma runProg_calls_row (h : t.Ahead p) (hcount : p.count = t.groupSize p.cols * n) {j : ℕ}
    (hj : j < n) : (runProg t.exec (t.calls p) m).array p.out j =
      row (t.nodeHash p.cols) (t.groupSize p.cols) (m.array p.input) 1 j := by
  rw [runProg_calls, hcount]
  exact TreeCursor.hashRow_row (groupSize_pos p.cols) (h.cursor hcount m) hj

/-- What no call writes stays. -/
lemma runProg_frame {prog : List HashCall} {b : TreeBuffer} {i : ℕ}
    (h : ∀ x ∈ prog, x.out ≠ ⟨b, i⟩) : runProg t.exec prog m b i = m b i := by
  refine runProg_invariant (p := fun m' : TreeMem α => m' b i = m b i) (fun x hx m' hm => ?_) rfl
  rw [exec, TreeMem.write_apply, if_neg, hm]
  rintro ⟨rfl, rfl⟩
  exact h x hx rfl

/-- The nodes that a loop writes. -/
lemma map_out_calls (hcount : p.count = t.groupSize p.cols * n) :
    (t.calls p).map HashCall.out = (List.range n).map p.out.add := by
  have hlen := length_calls_of_count hcount
  rw [length_calls] at hlen
  rw [calls, hlen, List.map_map]
  rfl

/-- The nodes that a loop reads. -/
lemma input_of_mem_calls (hcount : p.count = t.groupSize p.cols * n) {x : HashCall}
    (hx : x ∈ t.calls p) {a : ℕ} (ha : a < t.groupSize x.cols) :
    ∃ i < p.count, x.input.add a = p.input.add i := by
  obtain ⟨i, hi, rfl⟩ := List.mem_map.mp hx
  have hlen := length_calls_of_count hcount
  rw [length_calls] at hlen
  rw [hlen, List.mem_range] at hi
  refine ⟨t.groupSize p.cols * i + a, ?_, TreePtr.add_add ..⟩
  calc t.groupSize p.cols * i + a < t.groupSize p.cols * (i + 1) := Nat.add_lt_add_left ha _
    _ ≤ p.count := hcount ▸ Nat.mul_le_mul_left _ hi

lemma exists_mem_calls (hcount : p.count = t.groupSize p.cols * n) {i : ℕ} (hi : i < n) :
    ∃ x ∈ t.calls p, x.out = p.out.add i := by
  have hmem : p.out.add i ∈ (t.calls p).map HashCall.out := by
    rw [map_out_calls hcount]
    exact List.mem_map_of_mem (List.mem_range.mpr hi)
  exact List.mem_map.mp hmem

/-! ### The loops over the rows of a tree -/

/-- The row that loop `r` reads. -/
def source (place : ℕ → TreePtr) (input : TreePtr) : ℕ → TreePtr
  | 0 => input
  | r + 1 => place r

variable (t) in
/-- Loop `r` over a tree of `arity ^ h` nodes. -/
def rowPass (place : ℕ → TreePtr) (input : TreePtr) (h r : ℕ) : RowPass :=
  ⟨false, t.arity ^ (h - r), place r, source place input r⟩

variable {place : ℕ → TreePtr} {input : TreePtr} {h r : ℕ}

@[simp] lemma rowPass_out : (t.rowPass place input h r).out = place r := rfl

lemma count_rowPass (hr : r < h) :
    (t.rowPass place input h r).count =
      t.groupSize (t.rowPass place input h r).cols * t.arity ^ (h - 1 - r) := by
  show t.arity ^ (h - r) = t.arity * _
  rw [← pow_succ']
  congr 1
  omega

/-- The rows go through the loops. -/
lemma runProg_rowPasses_row (hahead : ∀ r < h, t.Ahead (t.rowPass place input h r)) (hn : n ≤ h) :
    ∀ j < t.arity ^ (h - n),
      (runProg t.exec (((List.range n).map (t.rowPass place input h)).flatMap t.calls) m).array
          (source place input n) j =
        row t.hash t.arity (m.array input) n j := by
  induction n with
  | zero => exact fun _ _ => rfl
  | succ n ih =>
    intro j hj
    have hcount : (t.rowPass place input h n).count = _ := count_rowPass hn
    rw [Nat.sub_add_eq, Nat.sub_right_comm] at hj
    rw [List.range_succ, List.map_append, List.flatMap_append, runProg_append, List.map_singleton,
      List.flatMap_singleton, source]
    refine (runProg_calls_row (hahead n hn) hcount hj).trans ?_
    rw [row_add]
    refine row_congr (k := h - n) (ih (by omega)) (by omega) j ?_
    rwa [Nat.sub_right_comm]

/-- A row that no later loop writes to stays. -/
lemma runProg_rowPasses_kept (hahead : ∀ r < h, t.Ahead (t.rowPass place input h r)) (hr : r < n)
    (hn : n ≤ h) {j : ℕ} (hj : j < t.arity ^ (h - 1 - r))
    (hkept : ∀ r', r < r' → r' < n → ∀ i < t.arity ^ (h - 1 - r'),
      (place r').add i ≠ (place r).add j) :
    (runProg t.exec (((List.range n).map (t.rowPass place input h)).flatMap t.calls) m).array
        (place r) j =
      row t.hash t.arity (m.array input) (r + 1) j := by
  induction n with
  | zero => exact absurd hr (Nat.not_lt_zero r)
  | succ n ih =>
    rcases Nat.lt_succ_iff_lt_or_eq.mp hr with hlt | rfl
    · rw [List.range_succ, List.map_append, List.flatMap_append, runProg_append, List.map_singleton,
        List.flatMap_singleton]
      rw [TreeMem.array, runProg_frame]
      · exact ih hlt (Nat.le_of_succ_le hn) fun r' hlt' hr' => hkept r' hlt' (Nat.lt_succ_of_lt hr')
      · intro x hx heq
        have hmem := List.mem_map_of_mem (f := HashCall.out) hx
        rw [map_out_calls (count_rowPass hn)] at hmem
        obtain ⟨i, hi, hxi⟩ := List.mem_map.mp hmem
        exact hkept n hlt (Nat.lt_succ_self n) i (List.mem_range.mp hi) (hxi.trans heq)
    · refine runProg_rowPasses_row (n := r + 1) hahead hn j ?_
      rwa [Nat.sub_add_eq, Nat.sub_right_comm]

/-! ### The parts of a tree

A tree is built whole, or in parts of `arity ^ h` nodes. Part `c` of a row is stored `c` parts from
the start of the row. -/

variable (t) in
/-- The first row that is stored. -/
def firstKept (cols noDiscard : Bool) : ℕ :=
  if cols then 0 else if noDiscard then 1 else t.discardRows + 1

variable (t) in
def leafCount (cols : Bool) (k : ℕ) : ℕ :=
  if cols then t.colArity * t.arity ^ k else t.arity ^ k

variable (t) in
/-- The leaves of the tree over the input. -/
def leaves (cols : Bool) (f : ℕ → α) : ℕ → α := if cols then t.columns f else f

variable (t) in
/-- Where loop `r` over part `c` writes, in a tree with `k` rows above the leaves. -/
def rowPlace (out scratch : TreePtr) (kept k h c r : ℕ) : TreePtr :=
  if r + 1 < kept then scratch
  else out.add (rowStart t.arity (k - kept) (r + 1 - kept) + c * t.arity ^ (h - 1 - r))

variable (t) in
/-- The loops over part `c`. -/
def partPasses (out scratch input : TreePtr) (cols : Bool) (kept k h c : ℕ) : List RowPass :=
  (if cols then [⟨true, t.colArity * t.arity ^ h, out.add (c * t.arity ^ h), input⟩] else []) ++
    (List.range h).map (t.rowPass (t.rowPlace out scratch kept k h c)
      (if cols then out.add (c * t.arity ^ h) else input) h)

variable {out scratch : TreePtr} {cols noDiscard : Bool} {kept k c : ℕ}

lemma rowPasses_succ (out : TreePtr) (k : ℕ) (d : ℤ) (o i : TreePtr) :
    t.rowPasses out (t.arity ^ (k + 1)) d o i =
      ⟨false, t.arity ^ (k + 1), o, i⟩ ::
        t.rowPasses out (t.arity ^ k) (d - 1)
          (if d - 1 = 1 then ⟨.discarded, 0⟩ else if d - 1 = 0 then out
            else o.add (t.arity ^ k)) o := by
  have hpos := t.arity_pos
  rw [rowPasses, dif_pos (Nat.one_lt_pow (by omega) t.one_lt_arity)]
  simp only [pow_succ' t.arity k, Nat.mul_div_cancel_left _ hpos, Nat.add_sub_assoc hpos,
    Nat.mul_add_div hpos, Nat.div_eq_of_lt (Nat.sub_lt hpos Nat.one_pos), Nat.add_zero]

lemma map_rowPass_succ (place : ℕ → TreePtr) (input : TreePtr) (h : ℕ) :
    (List.range (h + 1)).map (t.rowPass place input (h + 1)) =
      ⟨false, t.arity ^ (h + 1), place 0, input⟩ ::
        (List.range h).map (t.rowPass (fun r => place (r + 1)) (place 0) h) := by
  rw [List.range_succ_eq_map, List.map_cons, List.map_map]
  congr 1
  refine List.map_congr_left fun r _ => ?_
  rw [Function.comp_apply, rowPass, rowPass, Nat.succ_eq_add_one, Nat.add_sub_add_right]
  cases r <;> rfl

/-- The loops when nothing more is discarded. -/
lemma rowPasses_eq (out : TreePtr) (k : ℕ) {d : ℤ} (hd : d ≤ 0) (o i : TreePtr) :
    t.rowPasses out (t.arity ^ k) d o i =
      (List.range k).map (t.rowPass (fun r => o.add (rowStart t.arity (k - 1) r)) i k) := by
  induction k generalizing d o i with
  | zero => rw [rowPasses, dif_neg (by simp)]; rfl
  | succ k ih =>
    rw [rowPasses_succ, if_neg (by omega), if_neg (by omega), ih (by omega), map_rowPass_succ]
    congr 1
    refine List.map_congr_left fun r hr => ?_
    have hk : k - 1 + 1 = k := Nat.sub_add_cancel (Nat.zero_lt_of_lt (List.mem_range.mp hr))
    have hplace : (fun r => (o.add (t.arity ^ k)).add (rowStart t.arity (k - 1) r)) =
        fun r => o.add (rowStart t.arity (k + 1 - 1) (r + 1)) := by
      funext r
      rw [TreePtr.add_add, ← hk, Nat.add_sub_cancel, Nat.add_sub_cancel, rowStart_succ_succ]
    rw [hplace]
    rfl

lemma map_rowPass_congr {place place' : ℕ → TreePtr} (hplace : ∀ r < h, place r = place' r)
    (input : TreePtr) :
    (List.range h).map (t.rowPass place input h) = (List.range h).map (t.rowPass place' input h) := by
  refine List.map_congr_left fun r hr => ?_
  have hr := List.mem_range.mp hr
  rw [rowPass, rowPass, hplace r hr]
  cases r with
  | zero => rfl
  | succ r => rw [source, source, hplace r (Nat.lt_of_succ_lt hr)]

lemma rowPlace_of_lt (hr : r + 1 < kept) : t.rowPlace out scratch kept k h c r = scratch :=
  if_pos hr

lemma rowPlace_of_le (hr : kept ≤ r + 1) : t.rowPlace out scratch kept k h c r =
    out.add (rowStart t.arity (k - kept) (r + 1 - kept) + c * t.arity ^ (h - 1 - r)) :=
  if_neg (Nat.not_lt.mpr hr)

/-- The loops of a tree whose first rows are discarded. -/
lemma rowPasses_discard {d : ℕ} (hd : d ≤ 2) (hk : d < k) (out input : TreePtr) :
    t.rowPasses out (t.arity ^ k) d (if 0 < d then ⟨.discarded, 0⟩ else out) input =
      (List.range k).map (t.rowPass (t.rowPlace out ⟨.discarded, 0⟩ (d + 1) k k 0) input k) := by
  have hplace : ∀ r, d ≤ r → out.add (rowStart t.arity (k - (d + 1)) (r - d)) =
      t.rowPlace out ⟨.discarded, 0⟩ (d + 1) k k 0 r := by
    intro r hr
    rw [rowPlace_of_le (by omega), Nat.zero_mul, Nat.add_sub_add_right]
    rfl
  obtain rfl | rfl | rfl : d = 0 ∨ d = 1 ∨ d = 2 := by omega
  · rw [if_neg (by omega), rowPasses_eq _ _ (by decide)]
    exact map_rowPass_congr (fun r _ => hplace r (Nat.zero_le r)) _
  · obtain ⟨k, rfl⟩ : ∃ k', k = k' + 1 := ⟨k - 1, by omega⟩
    rw [if_pos (by omega), rowPasses_succ, if_neg (by decide), if_pos (by decide),
      rowPasses_eq _ _ (by decide), map_rowPass_succ, rowPlace_of_lt (by omega)]
    congr 1
    exact map_rowPass_congr (fun r _ => hplace (r + 1) (by omega)) _
  · obtain ⟨k, rfl⟩ : ∃ k', k = k' + 1 + 1 := ⟨k - 2, by omega⟩
    rw [if_pos (by omega), rowPasses_succ, if_pos (by decide), rowPasses_succ, if_neg (by decide),
      if_pos (by decide), rowPasses_eq _ _ (by decide), map_rowPass_succ, map_rowPass_succ,
      rowPlace_of_lt (by omega), rowPlace_of_lt (by omega)]
    congr 2
    exact map_rowPass_congr (fun r _ => hplace (r + 1 + 1) (by omega)) _

/-- The single-threaded builder builds the whole tree as one part. -/
lemma passes_eq (hd : t.discardRows ≤ 2) (hk : t.firstKept cols noDiscard ≤ k)
    (out input : TreePtr) :
    t.passes (t.leafCount cols k) out input cols noDiscard =
      t.partPasses out ⟨.discarded, 0⟩ input cols (t.firstKept cols noDiscard) k k 0 := by
  have hpos := t.colArity_pos
  cases cols
  · cases noDiscard
    · refine Eq.trans ?_ (rowPasses_discard hd hk out input)
      simp only [passes, leafCount, Bool.or_self, Bool.false_eq_true, if_false, Int.natCast_pos]
    · refine Eq.trans ?_ (rowPasses_discard (by decide : 0 ≤ 2) hk out input)
      simp only [passes, leafCount, Bool.or_true, Bool.false_eq_true, if_true, if_false,
        Nat.lt_irrefl, Nat.cast_zero]
      rw [if_neg (by decide), rowPasses_eq _ _ (by decide), rowPasses_eq _ _ (le_refl 0)]
  · have hdiv : (t.colArity * t.arity ^ k + t.colArity - 1) / t.colArity = t.arity ^ k := by
      rw [Nat.add_sub_assoc hpos, Nat.mul_add_div hpos,
        Nat.div_eq_of_lt (Nat.sub_lt hpos Nat.one_pos), Nat.add_zero]
    simp only [passes, partPasses, leafCount, firstKept, Bool.true_or, if_true, hdiv, Nat.zero_mul,
      Nat.mul_div_cancel_left _ hpos, List.singleton_append]
    rw [rowPasses_eq _ _ (by decide)]
    congr 1
    refine map_rowPass_congr (fun r hr => ?_) _
    rw [rowPlace_of_le (Nat.zero_le _), TreePtr.add_add, Nat.zero_mul, Nat.add_zero, Nat.sub_zero,
      Nat.sub_zero]
    obtain ⟨k, rfl⟩ : ∃ k', k = k' + 1 := ⟨k - 1, by omega⟩
    rw [Nat.add_sub_cancel, rowStart_succ_succ]

end TreeBuilder

end SupraSeal
