import SupraSeal.C1.Challenge
import SupraSeal.C1.TreeInclusion
import SupraSeal.Pc1.TreeRows

/-!
# Tree D of a CC sector

A CC sector holds zeros, so that all nodes of a row of tree D are equal. `TreeD::BuildCCTree` of
`pc1/tree_d.hpp` hashes one node for each row and fills the file with copies, and `TreeDCCProof` of
`c1/tree_proof.hpp` takes the nodes of a path from a table with one node for each row. The hash is a
parameter here.
-/

namespace SupraSeal

open MerkleTree

namespace TreeD

section

variable {α : Type*} (hash : List α → α) (zero : α)

/-! ### `BuildCCTree` -/

/-- The locals of the loop that hashes. -/
structure CCNodes (α : Type*) where
  cc : ℕ → α
  buf : List α

/-- `HashNode` into `cc[i]`, which is then copied to both nodes of `buf`. -/
def ccStep (s : CCNodes α) (i : ℕ) : CCNodes α :=
  let node := hash s.buf
  ⟨Function.update s.cc i node, [node, node]⟩

/-- The array `cc`. -/
def ccNodes (treeDLevels : ℕ) : ℕ → α :=
  ((List.range' 1 treeDLevels).foldl (ccStep hash) ⟨fun _ => zero, [zero, zero]⟩).cc

variable {zero}

/-- The copies of a node, from `tree_ptr` on. -/
def copyNodes (node : α) : ℕ → TreePtr × TreeMem α → TreePtr × TreeMem α
  | 0, s => s
  | n + 1, s => copyNodes node n (s.1.add 1, s.2.write s.1 node)

/-- The loop that fills the file. -/
def writeRows (cc : ℕ → α) (curNodes curLevel : ℕ) (s : TreePtr × TreeMem α) :
    TreePtr × TreeMem α :=
  if _h : 0 < curNodes then
    writeRows cc (curNodes >>> Nat.log2 arity) (curLevel + 1) (copyNodes (cc curLevel) curNodes s)
  else s
termination_by curNodes
decreasing_by
  rw [show Nat.log2 arity = 1 from rfl, Nat.shiftRight_eq_div_pow]
  exact Nat.div_lt_self _h (by decide)

variable (zero)

/-- `TreeD::BuildCCTree`: `comm_d`, and the memory. -/
def buildCCTree (treeDLevels curNodes : ℕ) (mem : TreeMem α) : α × TreeMem α :=
  let cc := ccNodes hash zero treeDLevels
  (cc treeDLevels, (writeRows cc curNodes 0 (⟨.out, 0⟩, mem)).2)

/-! ### Rows of equal nodes -/

/-- The node of row `l` of the tree over zeros. -/
def zeroNode (l : ℕ) : α := (fun x => hash [x, x])^[l] zero

variable {hash zero}

lemma zeroNode_succ (hash : List α → α) (zero : α) (l : ℕ) :
    zeroNode hash zero (l + 1) = hash [zeroNode hash zero l, zeroNode hash zero l] :=
  Function.iterate_succ_apply' ..

lemma row_zeros (l j : ℕ) : row hash arity (fun _ => zero) l j = zeroNode hash zero l := by
  induction l generalizing j with
  | zero => rfl
  | succ l ih =>
    rw [row, zeroNode_succ]
    refine congrArg hash ?_
    simp only [group, ih]
    rfl

/-- The array after the first rounds of the loop. -/
lemma ccStep_foldl (n : ℕ) :
    let s := (List.range' 1 n).foldl (ccStep hash) ⟨fun _ => zero, [zero, zero]⟩
    s.buf = [zeroNode hash zero n, zeroNode hash zero n] ∧
      ∀ i ≤ n, s.cc i = zeroNode hash zero i := by
  induction n with
  | zero =>
    refine ⟨rfl, fun i hi => ?_⟩
    obtain rfl := Nat.le_zero.mp hi
    rfl
  | succ n ih =>
    obtain ⟨hbuf, hcc⟩ := ih
    rw [List.range'_concat, List.foldl_append, List.foldl_cons, List.foldl_nil, ccStep, hbuf,
      ← zeroNode_succ hash zero n, Nat.one_mul, Nat.add_comm 1 n]
    refine ⟨rfl, fun i hi => ?_⟩
    rcases Nat.le_succ_iff.mp hi with hi | rfl
    · exact (Function.update_of_ne (Nat.ne_of_lt (Nat.lt_succ_of_le hi)) ..).trans (hcc i hi)
    · exact Function.update_self ..

lemma ccNodes_apply {n i : ℕ} (hi : i ≤ n) : ccNodes hash zero n i = zeroNode hash zero i :=
  (ccStep_foldl n).2 i hi

/-! ### The file -/

lemma copyNodes_fst (node : α) (n : ℕ) (s : TreePtr × TreeMem α) :
    (copyNodes node n s).1 = s.1.add n := by
  induction n generalizing s with
  | zero => rfl
  | succ n ih => rw [copyNodes, ih, TreePtr.add_add, Nat.add_comm]

lemma copyNodes_snd (node : α) (n : ℕ) (p : TreePtr) (mem : TreeMem α) (j : ℕ) :
    (copyNodes node n (p, mem)).2 p.buf j =
      if p.idx ≤ j ∧ j < p.idx + n then node else mem p.buf j := by
  induction n generalizing p mem with
  | zero =>
    rw [if_neg (by omega)]
    rfl
  | succ n ih =>
    have hwrite : mem.write p node p.buf j = if j = p.idx then node else mem p.buf j := by
      rw [TreeMem.write, Function.update_self, Function.update_apply]
    refine (ih (p.add 1) (mem.write p node)).trans ?_
    show (if p.idx + 1 ≤ j ∧ j < p.idx + 1 + n then node else mem.write p node p.buf j) = _
    rw [hwrite]
    split_ifs <;> first | rfl | omega

/-- The rows follow each other in the file, and nothing before them is changed. -/
lemma writeRows_out (cc : ℕ → α) (k l i : ℕ) (mem : TreeMem α) :
    (∀ r ≤ k, ∀ j < arity ^ (k - r),
      (writeRows cc (arity ^ k) l (⟨.out, i⟩, mem)).2 .out (i + (rowStart arity k r + j)) =
        cc (l + r)) ∧
    ∀ j < i, (writeRows cc (arity ^ k) l (⟨.out, i⟩, mem)).2 .out j = mem .out j := by
  induction k generalizing l i mem with
  | zero =>
    have hstep : writeRows cc (arity ^ 0) l (⟨.out, i⟩, mem) = copyNodes (cc l) 1 (⟨.out, i⟩, mem) := by
      rw [pow_zero, writeRows, dif_pos Nat.one_pos, writeRows, dif_neg (by decide)]
    rw [hstep]
    refine ⟨fun r hr j hj => ?_, fun j hj => ?_⟩
    · obtain rfl := Nat.le_zero.mp hr
      obtain rfl := Nat.lt_one_iff.mp hj
      exact (copyNodes_snd (cc l) 1 ⟨.out, i⟩ mem i).trans (if_pos ⟨le_rfl, Nat.lt_succ_self i⟩)
    · exact (copyNodes_snd (cc l) 1 ⟨.out, i⟩ mem j).trans (if_neg (by simp only; omega))
  | succ k ih =>
    -- one row, and the rest of the file after it
    have hstep : writeRows cc (arity ^ (k + 1)) l (⟨.out, i⟩, mem) =
        writeRows cc (arity ^ k) (l + 1)
          (⟨.out, i + arity ^ (k + 1)⟩, (copyNodes (cc l) (arity ^ (k + 1)) (⟨.out, i⟩, mem)).2) := by
      have hshift : arity ^ (k + 1) >>> Nat.log2 arity = arity ^ k := by
        rw [Nat.shiftRight_eq_div_pow, show 2 ^ Nat.log2 arity = arity from rfl, pow_succ,
          Nat.mul_div_cancel _ (by decide)]
      rw [writeRows, dif_pos (Nat.pow_pos (by decide)), hshift]
      refine congrArg (writeRows cc (arity ^ k) (l + 1)) (Prod.ext ?_ rfl)
      exact copyNodes_fst ..
    obtain ⟨hrows, hframe⟩ := ih (l + 1) (i + arity ^ (k + 1))
      (copyNodes (cc l) (arity ^ (k + 1)) (⟨.out, i⟩, mem)).2
    rw [hstep]
    refine ⟨fun r hr j hj => ?_, fun j hj => ?_⟩
    · cases r with
      | zero =>
        have hj : j < arity ^ (k + 1) := hj
        rw [rowStart_zero, Nat.zero_add, hframe _ (Nat.add_lt_add_left hj i)]
        exact (copyNodes_snd (cc l) _ ⟨.out, i⟩ mem _).trans
          (if_pos ⟨Nat.le_add_right i j, Nat.add_lt_add_left hj i⟩)
      | succ r =>
        rw [rowStart_succ_succ, Nat.add_assoc (arity ^ (k + 1)), ← Nat.add_assoc i,
          hrows r (Nat.le_of_succ_le_succ hr) j (by rwa [Nat.add_sub_add_right] at hj),
          Nat.add_right_comm, Nat.add_assoc]
    · rw [hframe j (Nat.lt_add_right _ hj)]
      exact (copyNodes_snd (cc l) _ ⟨.out, i⟩ mem j).trans (if_neg (by simp only; omega))

/-- The file is that of the tree over zeros. -/
lemma buildCCTree_stores (hash : List α → α) (zero : α) (k : ℕ) (mem : TreeMem α) :
    Stores hash arity ((buildCCTree hash zero k (arity ^ k) mem).2 .out) (fun _ => zero) k := by
  intro l hl j hj
  have h := (writeRows_out (ccNodes hash zero k) k 0 0 mem).1 l hl j hj
  rw [Nat.zero_add, Nat.zero_add, ccNodes_apply hl] at h
  exact h.trans (row_zeros l j).symm

lemma buildCCTree_commD (hash : List α → α) (zero : α) (k : ℕ) (mem : TreeMem α) :
    (buildCCTree hash zero k (arity ^ k) mem).1 = zeroNode hash zero k :=
  ccNodes_apply le_rfl

/-- `BuildCCTree` does what `BuildTree` does with `copy` over data that is all zero. -/
lemma buildCCTree_eq_buildTree {k : ℕ} (mem : TreeMem α) {data : TreeMem α}
    (hdata : ∀ j < arity ^ k, data .input j = zero) :
    (∀ j < rowStart arity k (k + 1), (buildCCTree hash zero k (arity ^ k) mem).2 .out j =
      (buildTree hash (arity ^ k) true data).2 .out j) ∧
    (buildCCTree hash zero k (arity ^ k) mem).1 = (buildTree hash (arity ^ k) true data).1 := by
  obtain ⟨hst, hroot⟩ := buildTree_copy hash data k
  have hst : Stores hash arity _ (fun _ => zero) k := hst.congr hdata
  refine ⟨fun j hj => ?_, ?_⟩
  · obtain ⟨l, hl, x, hx, rfl⟩ := exists_row_of_lt hj
    have hl : l ≤ k := Nat.le_of_lt_succ hl
    rw [hst l hl x hx, buildCCTree_stores hash zero k mem l hl x hx]
  · rw [buildCCTree_commD, hroot, ← row_zeros k 0]
    exact (row_congr hdata le_rfl 0 (by simp)).symm

/-- Nodes in the file of the tree over `arity ^ k` leaves. -/
lemma rowStart_arity (k n : ℕ) (hn : n ≤ k + 1) :
    rowStart arity k n + arity ^ (k + 1 - n) = arity ^ (k + 1) := by
  induction n with
  | zero => rw [rowStart_zero, Nat.zero_add, Nat.sub_zero]
  | succ n ih =>
    rw [← ih (Nat.le_of_succ_le hn), rowStart_succ, Nat.add_sub_add_right, Nat.add_assoc,
      show k + 1 - n = k - n + 1 by omega, pow_succ, show arity = 2 from rfl, Nat.mul_two]

end

end TreeD

end SupraSeal
