import SupraSeal.Pc1.TreeBuilder

/-!
# Rows of the built trees

What the builders leave in memory: every row that is kept holds the row of the Merkle tree over the
leaves, and the rows follow each other in the output. A row can be hashed over itself, since a node
is written only after the nodes that are hashed into it, and into those after it, were read.
-/

namespace SupraSeal

open MerkleTree

variable {α : Type*}

@[simp] lemma TreePtr.add_buf (p : TreePtr) (n : ℕ) : (p.add n).buf = p.buf := rfl

@[simp] lemma TreePtr.add_idx (p : TreePtr) (n : ℕ) : (p.add n).idx = p.idx + n := rfl

lemma TreePtr.add_add (p : TreePtr) (m n : ℕ) : (p.add m).add n = p.add (m + n) := by
  rw [TreePtr.add, TreePtr.add, TreePtr.add, Nat.add_assoc]

lemma TreeMem.array_add (m : TreeMem α) (p : TreePtr) (n j : ℕ) :
    m.array (p.add n) j = m.array p (n + j) := by
  rw [TreeMem.array, TreeMem.array, TreePtr.add_buf, TreePtr.add_idx, Nat.add_assoc]

lemma TreeMem.array_zero (m : TreeMem α) (b : TreeBuffer) : m.array ⟨b, 0⟩ = m b :=
  funext fun j => by rw [TreeMem.array, Nat.zero_add]

lemma TreeMem.write_apply (m : TreeMem α) (p : TreePtr) (x : α) (b : TreeBuffer) (i : ℕ) :
    m.write p x b i = if b = p.buf ∧ i = p.idx then x else m b i := by
  rw [TreeMem.write]
  by_cases hb : b = p.buf
  · subst hb
    rw [Function.update_self, Function.update_apply]
    simp
  · rw [Function.update_of_ne hb, if_neg (fun h => hb h.1)]

/-! ### One row -/

namespace TreeCursor

variable {hash : List α → α} {arity n : ℕ} {c : TreeCursor α}

/-- No node of the row is overwritten before it is read. -/
def Ahead (arity n : ℕ) (c : TreeCursor α) : Prop :=
  ∀ i j a, i < j → j < n → a < arity → c.curHashIn.buf = c.curHashOut.buf →
    c.curHashOut.idx + i ≠ c.curHashIn.idx + (arity * j + a)

lemma Ahead.of_buf (h : c.curHashIn.buf ≠ c.curHashOut.buf) : c.Ahead arity n :=
  fun _ _ _ _ _ _ hb => absurd hb h

lemma Ahead.of_le (h : c.curHashIn.idx + arity * n ≤ c.curHashOut.idx) : c.Ahead arity n := by
  intro i j a hij hj ha _
  have : arity * j + arity ≤ arity * n := Nat.mul_succ arity j ▸ Nat.mul_le_mul_left arity hj
  omega

/-- A row may be hashed over itself. -/
lemma Ahead.of_eq (h : c.curHashOut = c.curHashIn) : c.Ahead arity n := by
  intro i j a hij _ ha _
  rw [h]
  have : j ≤ arity * j := Nat.le_mul_of_pos_left j (by omega)
  omega

lemma hashNode_iterate_out (n : ℕ) :
    ((hashNode hash arity)^[n] c).curHashOut = c.curHashOut.add n := by
  induction n with
  | zero => rfl
  | succ n ih => rw [Function.iterate_succ_apply', hashNode, ih]; rfl

lemma hashNode_iterate_in (n : ℕ) :
    ((hashNode hash arity)^[n] c).curHashIn = c.curHashIn.add (arity * n) := by
  induction n with
  | zero => rfl
  | succ n ih =>
    rw [Function.iterate_succ_apply', hashNode, ih]
    exact TreePtr.add_add ..

/-- The memory after `n` hashes: the new nodes are hashes of the nodes as they were before. -/
lemma hashNode_iterate_mem (h : c.Ahead arity n) (b : TreeBuffer) (i : ℕ) :
    ((hashNode hash arity)^[n] c).mem b i =
      if b = c.curHashOut.buf ∧ c.curHashOut.idx ≤ i ∧ i < c.curHashOut.idx + n then
        hash (group arity (c.mem.array c.curHashIn) (arity * (i - c.curHashOut.idx)))
      else c.mem b i := by
  induction n generalizing b i with
  | zero => rw [if_neg (by omega)]; rfl
  | succ n ih =>
    have ih := ih fun i j a hij hj => h i j a hij (by omega)
    rw [Function.iterate_succ_apply']
    show TreeMem.write _ _ (hash (group arity _ 0)) b i = _
    rw [TreeMem.write_apply, hashNode_iterate_out, hashNode_iterate_in]
    -- the nodes that are read were not written yet
    have hread : group arity (((hashNode hash arity)^[n] c).mem.array (c.curHashIn.add (arity * n))) 0 =
        group arity (c.mem.array c.curHashIn) (arity * n) := by
      refine group_congr fun a ha => ?_
      rw [TreeMem.array, TreeMem.array, ih, if_neg, TreePtr.add_buf, TreePtr.add_idx]
      · congr 1
        omega
      · rintro ⟨hb, hle, hlt⟩
        simp only [TreePtr.add_buf, TreePtr.add_idx] at hb hle hlt
        refine h (c.curHashIn.idx + arity * n + (0 + a) - c.curHashOut.idx) n a (by omega) (by omega)
          ha hb (by omega)
    rw [hread, ih, TreePtr.add_buf, TreePtr.add_idx]
    by_cases hb : b = c.curHashOut.buf
    · rcases Nat.lt_trichotomy i (c.curHashOut.idx + n) with hi | rfl | hi
      · rw [if_neg (by omega)]
        refine if_congr (and_congr_right fun _ => and_congr_right fun _ => ?_) rfl rfl
        omega
      · rw [if_pos ⟨hb, rfl⟩, if_pos ⟨hb, by omega, by omega⟩, Nat.add_sub_cancel_left]
      · rw [if_neg (by omega), if_neg (by omega), if_neg (by omega)]
    · rw [if_neg (fun h => hb h.1), if_neg (fun h => hb h.1), if_neg (fun h => hb h.1)]

variable (hash) in
/-- The effect of hashing a row of `arity * n` nodes. -/
lemma hashRow_eq (hpos : 0 < arity) (n : ℕ) (c : TreeCursor α) :
    c.hashRow hash arity (arity * n) =
      ⟨c.curHashOut.add n, c.curHashOut, ((hashNode hash arity)^[n] c).mem⟩ := by
  have hn : (arity * n + arity - 1) / arity = n := by
    rw [Nat.add_sub_assoc hpos, Nat.mul_add_div hpos, Nat.div_eq_of_lt (by omega), Nat.add_zero]
  rw [hashRow, hn, hashNode_iterate_out]

/-- The new row. -/
lemma hashRow_row (hpos : 0 < arity) (h : c.Ahead arity n) {j : ℕ} (hj : j < n) :
    (c.hashRow hash arity (arity * n)).mem.array c.curHashOut j =
      row hash arity (c.mem.array c.curHashIn) 1 j := by
  rw [hashRow_eq hash hpos, TreeMem.array, hashNode_iterate_mem h,
    if_pos ⟨rfl, by omega, by omega⟩, Nat.add_sub_cancel_left]
  rfl

/-- A row of a tree is hashed into the next one. -/
lemma hashRow_succ (hpos : 0 < arity) {leaves : ℕ → α} {r : ℕ} (h : c.Ahead arity (arity ^ n))
    (hrow : ∀ j < arity ^ (n + 1), c.mem.array c.curHashIn j = row hash arity leaves r j) :
    ∀ j < arity ^ n, (c.hashRow hash arity (arity * arity ^ n)).mem.array c.curHashOut j =
      row hash arity leaves (r + 1) j := by
  intro j hj
  rw [hashRow_row hpos h hj, row_add]
  exact row_congr hrow (by omega) j (by rwa [Nat.add_sub_cancel])

/-- Nothing but the new row is written. -/
lemma hashRow_frame (hpos : 0 < arity) (h : c.Ahead arity n) {b : TreeBuffer} {i : ℕ}
    (hne : b = c.curHashOut.buf → i < c.curHashOut.idx ∨ c.curHashOut.idx + n ≤ i) :
    (c.hashRow hash arity (arity * n)).mem b i = c.mem b i := by
  rw [hashRow_eq hash hpos, hashNode_iterate_mem h, if_neg]
  rintro ⟨hb, hle, hlt⟩
  rcases hne hb with hi | hi <;> omega

end TreeCursor

/-! ### All rows -/

namespace TreeBuilder

variable {t : TreeBuilder α} {out : TreePtr} {c : TreeCursor α} {k : ℕ} {d : ℤ}

lemma arity_pos (t : TreeBuilder α) : 0 < t.arity := Nat.zero_lt_of_lt t.one_lt_arity

lemma buildRows_zero (out : TreePtr) (d : ℤ) (c : TreeCursor α) :
    t.buildRows out (t.arity ^ 0) d c = c := by
  rw [buildRows, dif_neg (by simp)]

/-- One round of the loop over the rows. -/
lemma buildRows_succ (out : TreePtr) (k : ℕ) (d : ℤ) (c : TreeCursor α) :
    t.buildRows out (t.arity ^ (k + 1)) d c =
      t.buildRows out (t.arity ^ k) (d - 1)
        { c.hashRow t.hash t.arity (t.arity * t.arity ^ k) with
          curHashOut :=
            if d - 1 = 1 then ⟨.discarded, 0⟩ else if d - 1 = 0 then out
            else c.curHashOut.add (t.arity ^ k) } := by
  rw [buildRows, dif_pos (Nat.one_lt_pow (by omega) t.one_lt_arity), pow_succ',
    Nat.mul_div_cancel_left _ t.arity_pos, TreeCursor.hashRow_eq _ t.arity_pos]

/-- With nothing more to discard, the rows follow each other from the output pointer on, and
nothing before it is changed. -/
structure Contiguous (t : TreeBuilder α) (k : ℕ) (c c' : TreeCursor α) : Prop where
  curHashOut : c'.curHashOut = c.curHashOut.add (rowStart t.arity (k - 1) k)
  curHashIn : 0 < k → c'.curHashIn.add 1 = c'.curHashOut
  rows : ∀ l < k, ∀ j < t.arity ^ (k - 1 - l),
    c'.mem.array c.curHashOut (rowStart t.arity (k - 1) l + j) =
      row t.hash t.arity (c.mem.array c.curHashIn) (l + 1) j
  frame : ∀ b i, (b = c.curHashOut.buf → i < c.curHashOut.idx) → c'.mem b i = c.mem b i

lemma buildRows_contiguous (out : TreePtr) (hd : d ≤ 0)
    (hin : c.curHashIn.buf = c.curHashOut.buf →
      c.curHashIn.idx + t.arity ^ k ≤ c.curHashOut.idx) :
    t.Contiguous k c (t.buildRows out (t.arity ^ k) d c) := by
  induction k generalizing c d with
  | zero =>
    rw [buildRows_zero]
    exact ⟨rfl, nofun, fun l hl => absurd hl (Nat.not_lt_zero l), fun _ _ _ => rfl⟩
  | succ k ih =>
    have hpos := t.arity_pos
    have hahead : c.Ahead t.arity (t.arity ^ k) := by
      by_cases hb : c.curHashIn.buf = c.curHashOut.buf
      · exact .of_le (pow_succ' t.arity k ▸ hin hb)
      · exact .of_buf hb
    rw [buildRows_succ, if_neg (by omega), if_neg (by omega)]
    set c₁ : TreeCursor α := { c.hashRow t.hash t.arity (t.arity * t.arity ^ k) with
      curHashOut := c.curHashOut.add (t.arity ^ k) } with hc₁
    have hin₁ : c₁.curHashIn = c.curHashOut := rfl
    have hout₁ : c₁.curHashOut = c.curHashOut.add (t.arity ^ k) := rfl
    have hrow₁ : ∀ j < t.arity ^ k, c₁.mem.array c₁.curHashIn j =
        row t.hash t.arity (c.mem.array c.curHashIn) 1 j :=
      fun j hj => TreeCursor.hashRow_row hpos hahead hj
    have ih := ih (c := c₁) (d := d - 1) (by omega) (fun _ => le_rfl)
    refine ⟨?_, fun _ => ?_, ?_, ?_⟩
    · rw [ih.curHashOut, hout₁]
      cases k with
      | zero => rfl
      | succ k => rw [TreePtr.add_add, Nat.add_sub_cancel, Nat.add_sub_cancel, rowStart_succ_succ]
    · cases k with
      | zero =>
        rw [buildRows_zero, hin₁, hout₁, pow_zero]
      | succ k => exact ih.curHashIn (Nat.succ_pos k)
    · intro l hl j hj
      cases l with
      | zero =>
        rw [rowStart_zero, Nat.zero_add, ← hrow₁ j hj]
        exact ih.frame _ _ fun _ => Nat.add_lt_add_left hj _
      | succ l =>
        obtain ⟨k, rfl⟩ : ∃ k', k = k' + 1 := ⟨k - 1, by omega⟩
        have hj' : j < t.arity ^ (k + 1 - (l + 1)) := hj
        have hrow := ih.rows l (by omega) j (by rwa [Nat.add_sub_add_right] at hj')
        rw [Nat.add_comm (l + 1) 1, row_add, ← row_congr hrow₁ (by omega) j hj', ← hrow, hout₁,
          TreeMem.array_add, Nat.add_sub_cancel, Nat.add_sub_cancel, rowStart_succ_succ,
          Nat.add_assoc]
    · intro b i hi
      rw [ih.frame b i fun hb => ?_]
      · exact TreeCursor.hashRow_frame hpos hahead fun hb => .inl (hi hb)
      · rw [hout₁, TreePtr.add_idx]
        have := hi hb
        omega

/-- The rows above the input row, in the order in which they are stored. -/
lemma Contiguous.stores {c' : TreeCursor α} (h : t.Contiguous (k + 1) c c') :
    Stores t.hash t.arity (c'.mem.array c.curHashOut)
      (row t.hash t.arity (c.mem.array c.curHashIn) 1) k := by
  intro l hl j hj
  rw [← row_add, Nat.add_comm 1 l]
  exact h.rows l (by omega) j hj

/-- The node before the output pointer is the root. -/
lemma Contiguous.root {c' : TreeCursor α} (h : t.Contiguous (k + 1) c c') :
    c'.mem c'.curHashOut.buf (c'.curHashOut.idx - 1) =
      row t.hash t.arity (c.mem.array c.curHashIn) (k + 1) 0 := by
  have hroot := h.rows k (Nat.lt_succ_self k) 0 (by simp)
  rw [← hroot, h.curHashOut, Nat.add_sub_cancel, rowStart_succ, Nat.sub_self, pow_zero]
  rfl

/-- With the output right after the input row, that row is the first one stored. -/
lemma Contiguous.stores_input {c' : TreeCursor α} (h : t.Contiguous k c c')
    (hin : c.curHashOut = c.curHashIn.add (t.arity ^ k)) :
    Stores t.hash t.arity (c'.mem.array c.curHashIn) (c.mem.array c.curHashIn) k := by
  intro l hl j hj
  cases l with
  | zero =>
    rw [rowStart_zero, Nat.zero_add]
    refine h.frame _ _ fun _ => ?_
    rw [hin, TreePtr.add_idx]
    exact Nat.add_lt_add_left hj _
  | succ l =>
    obtain ⟨k, rfl⟩ : ∃ k', k = k' + 1 := ⟨k - 1, by omega⟩
    have hrow := h.rows l hl j (by rwa [Nat.add_sub_add_right] at hj)
    rw [← hrow, hin, TreeMem.array_add, Nat.add_sub_cancel, rowStart_succ_succ, Nat.add_assoc]

lemma Contiguous.root_input {c' : TreeCursor α} (h : t.Contiguous k c c')
    (hin : c.curHashOut = c.curHashIn.add (t.arity ^ k)) :
    c'.mem c'.curHashOut.buf (c'.curHashOut.idx - 1) =
      row t.hash t.arity (c.mem.array c.curHashIn) k 0 := by
  cases k with
  | zero =>
    rw [← h.stores_input hin 0 le_rfl 0 (by simp), h.curHashOut, hin]
    rfl
  | succ k => exact h.root

/-! ### The whole tree -/

/-- The column hashes that are the leaves of a tree with `cols`. -/
def columns (t : TreeBuilder α) (input : ℕ → α) : ℕ → α := row t.colHash t.colArity input 1

/-- The columns of a part of the input are a part of the columns. -/
lemma columns_shift (t : TreeBuilder α) (input : ℕ → α) (i n : ℕ) :
    t.columns (fun j => input (i * (t.colArity * n) + j)) =
      fun j => t.columns input (i * n + j) := by
  funext j
  have h : row t.colHash t.colArity _ 1 j = _ := row_shift input (i * n) le_rfl j
  rw [pow_one, Nat.sub_self, pow_zero, Nat.mul_one, Nat.mul_assoc, Nat.mul_comm n] at h
  exact h

/-- What `BuildTree` leaves of a tree with columns: the columns, and all rows up to the root. -/
theorem buildTree_cols (t : TreeBuilder α) (mem : TreeMem α) (i k : ℕ) (noDiscard : Bool) :
    Stores t.hash t.arity
      ((t.buildTree (t.colArity * t.arity ^ k) ⟨.out, 0⟩ ⟨.input, i⟩ true noDiscard mem).2 .out)
      (t.columns (mem.array ⟨.input, i⟩)) k ∧
    (t.buildTree (t.colArity * t.arity ^ k) ⟨.out, 0⟩ ⟨.input, i⟩ true noDiscard mem).1 =
      row t.hash t.arity (t.columns (mem.array ⟨.input, i⟩)) k 0 := by
  have hahead : (TreeCursor.mk ⟨.out, 0⟩ ⟨.input, i⟩ mem).Ahead t.colArity (t.arity ^ k) :=
    .of_buf nofun
  set c : TreeCursor α := (TreeCursor.mk ⟨.out, 0⟩ ⟨.input, i⟩ mem).hashRow t.colHash t.colArity
    (t.colArity * t.arity ^ k) with hc
  have hin : c.curHashIn = ⟨.out, 0⟩ := rfl
  have hout : c.curHashOut = c.curHashIn.add (t.arity ^ k) := by
    rw [hc, TreeCursor.hashRow_eq _ t.colArity_pos]
  have hcols : ∀ j < t.arity ^ k, c.mem.array c.curHashIn j =
      t.columns (mem.array ⟨.input, i⟩) j :=
    fun j hj => TreeCursor.hashRow_row t.colArity_pos hahead hj
  have hbuild : t.buildTree (t.colArity * t.arity ^ k) ⟨.out, 0⟩ ⟨.input, i⟩ true noDiscard mem =
      let c := t.buildRows ⟨.out, 0⟩ (t.arity ^ k) (-1) c
      (c.mem c.curHashOut.buf (c.curHashOut.idx - 1), c.mem) := by
    simp only [buildTree, buildCols, if_true, Bool.true_or, Nat.mul_div_cancel_left _ t.colArity_pos]
    rfl
  have hcont := buildRows_contiguous (t := t) (c := c) (k := k) (d := -1) ⟨.out, 0⟩ (by omega)
    fun _ => by rw [hout]; rfl
  rw [hbuild]
  refine ⟨?_, (hcont.root_input hout).trans (row_congr hcols le_rfl 0 (by simp))⟩
  have hst := (hcont.stores_input hout).congr hcols
  rwa [hin, TreeMem.array_zero] at hst

/-- The rows after the discarded ones: when the row before the first kept one is the input, the
kept rows follow each other from the output pointer on. -/
lemma buildRows_kept (leaves : ℕ → α) (hd : d ≤ 0) {r : ℕ} (hout : c.curHashOut = ⟨.out, 0⟩)
    (hbuf : c.curHashIn.buf ≠ .out)
    (hrow : ∀ j < t.arity ^ (k + 1), c.mem.array c.curHashIn j = row t.hash t.arity leaves r j) :
    Stores t.hash t.arity ((t.buildRows ⟨.out, 0⟩ (t.arity ^ (k + 1)) d c).mem .out)
      (row t.hash t.arity leaves (r + 1)) k ∧
    let c' := t.buildRows ⟨.out, 0⟩ (t.arity ^ (k + 1)) d c
    c'.mem c'.curHashOut.buf (c'.curHashOut.idx - 1) = row t.hash t.arity leaves (r + 1 + k) 0 := by
  have hcont := buildRows_contiguous (t := t) (c := c) (k := k + 1) ⟨.out, 0⟩ hd
    (fun hb => absurd (hb.trans (congrArg TreePtr.buf hout)) hbuf)
  constructor
  · have hst := hcont.stores
    rw [hout, TreeMem.array_zero] at hst
    refine hst.congr fun j hj => ?_
    rw [row_add]
    exact row_congr hrow (by omega) j (by rwa [Nat.add_sub_cancel])
  · show _ = row t.hash t.arity leaves (r + 1 + k) 0
    rw [hcont.root, Nat.add_assoc, Nat.add_comm 1 k, row_add leaves r]
    exact row_congr hrow le_rfl 0 (by simp)

/-- What `BuildTree` leaves of a tree without columns: the rows above the discarded ones. -/
theorem buildTree_discard (t : TreeBuilder α) (hd : t.discardRows ≤ 2) (mem : TreeMem α) (i k : ℕ) :
    Stores t.hash t.arity
      ((t.buildTree (t.arity ^ (t.discardRows + 1 + k)) ⟨.out, 0⟩ ⟨.input, i⟩ false false mem).2 .out)
      (row t.hash t.arity (mem.array ⟨.input, i⟩) (t.discardRows + 1)) k ∧
    (t.buildTree (t.arity ^ (t.discardRows + 1 + k)) ⟨.out, 0⟩ ⟨.input, i⟩ false false mem).1 =
      row t.hash t.arity (mem.array ⟨.input, i⟩) (t.discardRows + 1 + k) 0 := by
  have hpos := t.arity_pos
  set f := mem.array ⟨.input, i⟩ with hf
  have hbuild : ∀ n, t.buildTree n ⟨.out, 0⟩ ⟨.input, i⟩ false false mem =
      let c := t.buildRows ⟨.out, 0⟩ n t.discardRows
        ⟨if (0 : ℤ) < t.discardRows then ⟨.discarded, 0⟩ else ⟨.out, 0⟩, ⟨.input, i⟩, mem⟩
      (c.mem c.curHashOut.buf (c.curHashOut.idx - 1), c.mem) := fun n => rfl
  rw [hbuild]
  obtain hd | hd | hd : t.discardRows = 0 ∨ t.discardRows = 1 ∨ t.discardRows = 2 := by omega
  · rw [hd, Nat.add_comm (0 + 1) k, Nat.zero_add]
    exact Nat.add_comm k 1 ▸ buildRows_kept f (t := t) (k := k) (d := 0) (r := 0)
      (c := ⟨⟨.out, 0⟩, ⟨.input, i⟩, mem⟩) le_rfl rfl nofun fun j _ => rfl
  · rw [hd, show 1 + 1 + k = k + 1 + 1 by omega, buildRows_succ]
    exact Nat.add_comm k 2 ▸ buildRows_kept f (t := t) (k := k) (d := 0) (r := 1)
      (c := { TreeCursor.hashRow t.hash t.arity (t.arity * t.arity ^ (k + 1))
        ⟨⟨.discarded, 0⟩, ⟨.input, i⟩, mem⟩ with curHashOut := ⟨.out, 0⟩ }) le_rfl rfl nofun
      (TreeCursor.hashRow_succ hpos (.of_buf nofun) fun j _ => rfl)
  · -- the second row is hashed over the first
    rw [hd, show 2 + 1 + k = k + 1 + 1 + 1 by omega, buildRows_succ, buildRows_succ]
    exact Nat.add_comm k 3 ▸ buildRows_kept f (t := t) (k := k) (d := 0) (r := 2)
      (c := { TreeCursor.hashRow t.hash t.arity (t.arity * t.arity ^ (k + 1))
        { TreeCursor.hashRow t.hash t.arity (t.arity * t.arity ^ (k + 1 + 1))
          ⟨⟨.discarded, 0⟩, ⟨.input, i⟩, mem⟩ with curHashOut := ⟨.discarded, 0⟩ }
        with curHashOut := ⟨.out, 0⟩ }) le_rfl rfl nofun
      (TreeCursor.hashRow_succ hpos (.of_eq rfl)
        (TreeCursor.hashRow_succ hpos (.of_buf nofun) fun j _ => rfl))

end TreeBuilder

/-! ### Tree D -/

namespace TreeD

variable {hash : List α → α} {c : TreeCursor α} {k : ℕ}

/-- The builder that hashes as `TreeD` does. -/
def builder (hash : List α → α) : TreeBuilder α :=
  ⟨1, arity, 0, hash, hash, Nat.one_pos, by decide⟩

lemma buildRows_eq (k : ℕ) {d : ℤ} (hd : d ≤ 0) (c : TreeCursor α) :
    buildRows hash (arity ^ k) c = (builder hash).buildRows ⟨.out, 0⟩ (arity ^ k) d c := by
  induction k generalizing c d with
  | zero =>
    rw [buildRows, dif_neg (by simp)]
    exact ((builder hash).buildRows_zero ..).symm
  | succ k ih =>
    have hstep := (builder hash).buildRows_succ ⟨.out, 0⟩ k d c
    rw [if_neg (by omega), if_neg (by omega),
      TreeCursor.hashRow_eq _ (builder hash).arity_pos] at hstep
    refine Eq.trans ?_ hstep.symm
    rw [buildRows, dif_pos (Nat.one_lt_pow (by omega) (by decide)), Nat.shiftRight_eq_div_pow,
      show 2 ^ Nat.log2 arity = arity from rfl, pow_succ', Nat.mul_div_cancel_left _ (by decide),
      ih (by omega : d - 1 ≤ 0), TreeCursor.hashRow_eq _ (by decide)]
    rfl

/-- What `TreeD::BuildTree` leaves with `copy`: the leaves, and all rows up to `comm_d`. -/
theorem buildTree_copy (hash : List α → α) (mem : TreeMem α) (k : ℕ) :
    Stores hash arity ((buildTree hash (arity ^ k) true mem).2 .out) (mem .input) k ∧
    (buildTree hash (arity ^ k) true mem).1 = row hash arity (mem .input) k 0 := by
  set m : TreeMem α := Function.update mem .out fun j =>
    if j < arity ^ k then mem .input j else mem .out j with hm
  have hbuild : buildTree hash (arity ^ k) true mem =
      let c := (builder hash).buildRows ⟨.out, 0⟩ (arity ^ k) 0 ⟨⟨.out, arity ^ k⟩, ⟨.out, 0⟩, m⟩
      (c.mem.array c.curHashIn 0, c.mem) := by
    rw [← buildRows_eq k le_rfl]
    rfl
  have hleaves : ∀ j < arity ^ k, m.array ⟨.out, 0⟩ j = mem .input j := by
    intro j hj
    rw [TreeMem.array_zero, hm, Function.update_self, if_pos hj]
  have hcont := TreeBuilder.buildRows_contiguous (t := builder hash) (k := k) (d := 0)
    (c := ⟨⟨.out, arity ^ k⟩, ⟨.out, 0⟩, m⟩) ⟨.out, 0⟩ le_rfl fun _ => by
      rw [Nat.zero_add]
      rfl
  have hout : (⟨.out, arity ^ k⟩ : TreePtr) = TreePtr.add ⟨.out, 0⟩ (arity ^ k) := by
    rw [TreePtr.add, Nat.zero_add]
  rw [hbuild]
  constructor
  · have hst := (hcont.stores_input hout).congr hleaves
    rwa [TreeMem.array_zero] at hst
  · refine Eq.trans ?_ ((hcont.root_input hout).trans (row_congr hleaves le_rfl 0 (by simp)))
    cases k with
    | zero =>
      have h := (builder hash).buildRows_zero ⟨.out, 0⟩ 0 ⟨⟨.out, 1⟩, ⟨.out, 0⟩, m⟩
      exact (congrArg (fun c => c.mem.array c.curHashIn 0) h).trans
        (congrArg (fun c => c.mem c.curHashOut.buf (c.curHashOut.idx - 1)) h).symm
    | succ k =>
      rw [← hcont.curHashIn (Nat.succ_pos k)]
      rfl

end TreeD

end SupraSeal
