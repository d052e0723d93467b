import SupraSeal.Nvme.NodeLayout

/-!
# Roots of trees in several files

Tree C and tree R are split into files, and the root is hashed from the roots of the files. Four
places do this: `pc2_t::write_roots` of `pc2/cuda/pc2.cu` for all sectors, the last lines of
`TreeC::BuildTreeC` and `TreeR::BuildTreeR` (`pc1/tree_c.hpp`, `pc1/tree_r.hpp`), and
`get_comm_from_tree` of `sealing/supra_seal.cpp`, which reads the last node of each file.

The code hashes arrays on the stack. An element that was not assigned is `none`; storing outside of
an array or hashing an element that is not there fails.
-/

namespace SupraSeal

/-! ### Arrays on the stack -/

/-- An array of nodes, some not yet assigned. -/
abbrev NodeArray : Type := List (Option Node)

namespace NodeArray

/-- `node_t nodes[n]`. -/
def declare (n : ℕ) : NodeArray := List.replicate n none

def store (a : NodeArray) (i : ℕ) (x : Node) : Option NodeArray :=
  if i < a.length then some (List.set a i (some x)) else none

/-- The `n` elements from `start` on. -/
def read (a : NodeArray) (start : ℕ) : ℕ → Option (List Node)
  | 0 => some []
  | n + 1 => do return (← a[start]?.join) :: (← read a (start + 1) n)

/-- The loop that assigns the first `n` elements. -/
def fill (a : NodeArray) (n : ℕ) (value : ℕ → Node) : Option NodeArray :=
  (List.range n).foldlM (fun a i => store a i (value i)) a

end NodeArray

variable (poseidon : ℕ → List Node → Node)

/-- `Poseidon(arity).Hash` of the elements from `start` on; the inputs are copied before the result
is written, so that hashing in place is fine. -/
def hashArray (arity : ℕ) (a : NodeArray) (start : ℕ) : Option Node := do
  return poseidon arity (← NodeArray.read a start arity)

/-! ### The four roots -/

/-- The array of `write_roots` for one sector and one tree. -/
def hashPartitionRoots (numFiles : ℕ) (input : NodeArray) (roots : ℕ → Node) :
    Option (NodeArray × Node) := do
  let input ← NodeArray.fill input numFiles roots
  if numFiles = 16 then
    let input ← NodeArray.store input 0 (← hashArray poseidon 8 input 0)
    let input ← NodeArray.store input 1 (← hashArray poseidon 8 input 8)
    return (input, ← hashArray poseidon 2 input 0)
  else return (input, ← hashArray poseidon numFiles input 0)

/-- What `write_roots` writes to the `p_aux` file of a sector: the roots of tree C and tree R. -/
def writeRoots (numFiles parallelSectors : ℕ) (treeROnly : Bool) (zero : Node)
    (rootsC rootsR : ℕ → Node) (sector : ℕ) : Option (Node × Node) :=
  if numFiles > 1 then do
    let input := NodeArray.declare numFiles
    let (input, outC) ←
      if treeROnly then some (input, zero)
      else hashPartitionRoots poseidon numFiles input fun i => rootsC (i * parallelSectors + sector)
    let (_, outR) ←
      hashPartitionRoots poseidon numFiles input fun i => rootsR (i * parallelSectors + sector)
    return (outC, outR)
  else some (if treeROnly then zero else rootsC sector, rootsR sector)

/-- The end of `BuildTreeC` and of `BuildTreeR`, with the roots of the files in `final_row`. -/
def hashFinalRow (numFiles : ℕ) (finalRow : NodeArray) : Option Node :=
  if numFiles = 16 then do
    let n2 := NodeArray.declare 2
    let n2 ← NodeArray.store n2 0 (← hashArray poseidon 8 finalRow 0)
    let n2 ← NodeArray.store n2 1 (← hashArray poseidon 8 finalRow 8)
    hashArray poseidon 2 n2 0
  else if numFiles > 1 then hashArray poseidon numFiles finalRow 0
  else finalRow[0]?.join

/-- The root that `BuildTreeC` or `BuildTreeR` returns when `BuildTree` returns `roots i` for file
`i`. -/
def buildTreeRoot (numFiles : ℕ) (roots : ℕ → Node) : Option Node := do
  hashFinalRow poseidon numFiles (← NodeArray.fill (NodeArray.declare numFiles) numFiles roots)

/-- `get_comm_from_tree`, with the last node of each file. The array has `GetNumTreeRCArity()`
elements, whatever the number of files. -/
def getCommFromTree (numFiles : ℕ) (lastNode : ℕ → Node) : Option Node :=
  if numFiles = 1 then some (lastNode 0)
  else do
    let arity := 8
    let nodes ← NodeArray.fill (NodeArray.declare arity) numFiles lastNode
    hashArray poseidon arity nodes 0

/-! ### Arrays -/

namespace NodeArray

variable {a : NodeArray} {n : ℕ} {value : ℕ → Node}

lemma fill_succ (a : NodeArray) (n : ℕ) (value : ℕ → Node) :
    fill a (n + 1) value = (fill a n value).bind fun a => store a n (value n) := by
  rw [fill, List.range_succ, List.foldlM_append, fill]
  exact congrArg _ (funext fun a => bind_pure _)

lemma fill_eq (h : n ≤ a.length) :
    fill a n value = some ((List.range n).map (fun i => some (value i)) ++ a.drop n) := by
  induction n with
  | zero => rfl
  | succ n ih =>
    have hlen : ((List.range n).map (fun i => some (value i))).length = n := by simp
    rw [fill_succ, ih (by omega), Option.bind_some, store, if_pos (by simp; omega),
      List.set_append_right _ _ hlen.le, hlen, Nat.sub_self, List.drop_eq_getElem_cons h,
      List.set_cons_zero, List.range_succ, List.map_append, List.append_assoc]
    rfl

/-- Assigning more elements than the array has. -/
lemma fill_eq_none (h : a.length < n) : fill a n value = none := by
  induction n with
  | zero => omega
  | succ n ih =>
    rw [fill_succ]
    rcases Nat.lt_succ_iff_lt_or_eq.mp h with h | rfl
    · rw [ih h, Option.bind_none]
    · rw [fill_eq le_rfl, Option.bind_some, store, if_neg (by simp)]

lemma read_eq {start : ℕ} (h : ∀ i < n, a[start + i]? = some (some (value i))) :
    read a start n = some ((List.range n).map value) := by
  induction n generalizing start value with
  | zero => rfl
  | succ n ih =>
    have h0 := h 0 (Nat.succ_pos n)
    rw [Nat.add_zero] at h0
    have hrest : read a (start + 1) n = some ((List.range n).map fun i => value (i + 1)) := by
      refine ih fun i hi => ?_
      rw [Nat.add_assoc, Nat.add_comm 1]
      exact h (i + 1) (Nat.succ_lt_succ hi)
    rw [read, h0, hrest, List.range_succ_eq_map, List.map_cons, List.map_map]
    rfl

/-- Reading an element that was not assigned. -/
lemma read_eq_none {start i : ℕ} (hi : i < n) (h : a[start + i]?.join = none) :
    read a start n = none := by
  induction n generalizing start i with
  | zero => omega
  | succ n ih =>
    rw [read]
    cases i with
    | zero =>
      rw [Nat.add_zero] at h
      rw [h]
      rfl
    | succ i =>
      have hrest : read a (start + 1) n = none :=
        ih (i := i) (by omega) (by rwa [Nat.add_assoc, Nat.add_comm 1])
      rw [hrest]
      cases a[start]?.join <;> rfl

end NodeArray

variable {poseidon}

/-- Hashing elements that are all assigned. -/
lemma hashArray_eq {arity start : ℕ} {a : NodeArray} {value : ℕ → Node}
    (h : ∀ i < arity, a[start + i]? = some (some (value i))) :
    hashArray poseidon arity a start = some (poseidon arity ((List.range arity).map value)) := by
  rw [hashArray, NodeArray.read_eq h]
  rfl

/-! ### Agreement -/

/-- The root of the tree over the roots of the files: the two levels of 16 files are hashed by
eight and by two. -/
def rootOfFiles (poseidon : ℕ → List Node → Node) (numFiles : ℕ) (roots : ℕ → Node) : Node :=
  if numFiles = 1 then roots 0
  else if numFiles = 16 then
    poseidon 2 [poseidon 8 ((List.range 8).map roots),
      poseidon 8 ((List.range 8).map fun i => roots (8 + i))]
  else poseidon numFiles ((List.range numFiles).map roots)

lemma getElem_roots {n i : ℕ} (roots : ℕ → Node) (h : i < n) :
    ((List.range n).map fun i => some (roots i))[i]? = some (some (roots i)) := by
  simp [h]

lemma fill_roots {n : ℕ} {a : NodeArray} (hlen : a.length = n) (roots : ℕ → Node) :
    NodeArray.fill a n roots = some ((List.range n).map fun i => some (roots i)) := by
  rw [NodeArray.fill_eq hlen.ge, ← hlen, List.drop_length, List.append_nil]

/-- Hashing a part of the roots in an array. -/
lemma hashArray_roots {n : ℕ} (roots : ℕ → Node) {start arity : ℕ} (h : start + arity ≤ n) :
    hashArray poseidon arity ((List.range n).map fun i => some (roots i)) start =
      some (poseidon arity ((List.range arity).map fun i => roots (start + i))) := by
  refine hashArray_eq fun i hi => ?_
  exact getElem_roots roots (by omega)

lemma hashArray_roots_zero {n : ℕ} (roots : ℕ → Node) {arity : ℕ} (h : arity ≤ n) :
    hashArray poseidon arity ((List.range n).map fun i => some (roots i)) 0 =
      some (poseidon arity ((List.range arity).map roots)) := by
  refine hashArray_eq fun i hi => ?_
  rw [Nat.zero_add]
  exact getElem_roots roots (by omega)

/-- `write_roots` hashes the array the same way whatever it held before. -/
lemma hashPartitionRoots_eq {numFiles : ℕ} (h1 : 1 < numFiles) {input : NodeArray}
    (hlen : input.length = numFiles) (roots : ℕ → Node) :
    ∃ input', hashPartitionRoots poseidon numFiles input roots =
      some (input', rootOfFiles poseidon numFiles roots) ∧ input'.length = numFiles := by
  rw [hashPartitionRoots, fill_roots hlen, rootOfFiles, if_neg h1.ne']
  by_cases h16 : numFiles = 16
  · subst h16
    have hlow : hashArray poseidon 8 _ 0 = _ := hashArray_roots_zero roots (by decide : 8 ≤ 16)
    set arr := (List.range 16).map fun i => some (roots i)
    have hlen' : arr.length = 16 := rfl
    -- the first half is hashed into element 0, which the second half does not contain
    have hhigh : ∀ x, hashArray poseidon 8 (List.set arr 0 x) 8 =
        some (poseidon 8 ((List.range 8).map fun i => roots (8 + i))) := by
      intro x
      refine hashArray_eq fun i hi => ?_
      rw [List.getElem?_set_ne (by omega)]
      exact getElem_roots roots (by omega)
    have hlast : ∀ x y, hashArray poseidon 2 (List.set (List.set arr 0 (some x)) 1 (some y)) 0 =
        some (poseidon 2 [x, y]) := fun _ _ => rfl
    refine ⟨List.set (List.set arr 0 (some (poseidon 8 ((List.range 8).map roots)))) 1
      (some (poseidon 8 ((List.range 8).map fun i => roots (8 + i)))), ?_, by simp [hlen']⟩
    simp only [Option.bind_eq_bind, Option.bind_some, if_true, hlow, NodeArray.store, hlen',
      List.length_set, hhigh, hlast, Nat.reduceLT, Option.pure_def]
  · refine ⟨(List.range numFiles).map fun i => some (roots i), ?_, by simp⟩
    simp only [Option.bind_eq_bind, Option.bind_some, if_neg h16, hashArray_roots_zero roots le_rfl,
      Option.pure_def]

lemma writeRoots_eq {numFiles : ℕ} (hpos : 0 < numFiles) (S : ℕ) (treeROnly : Bool) (zero : Node)
    (rootsC rootsR : ℕ → Node) (sector : ℕ) :
    writeRoots poseidon numFiles S treeROnly zero rootsC rootsR sector =
      some (if treeROnly then zero else
          rootOfFiles poseidon numFiles fun i => rootsC (i * S + sector),
        rootOfFiles poseidon numFiles fun i => rootsR (i * S + sector)) := by
  rcases Nat.lt_or_ge 1 numFiles with h1 | h1
  · have hlen : (NodeArray.declare numFiles).length = numFiles := List.length_replicate
    have hhash : ∀ input : NodeArray, input.length = numFiles → ∀ roots, ∃ input',
        hashPartitionRoots poseidon numFiles input roots =
          some (input', rootOfFiles poseidon numFiles roots) ∧ input'.length = numFiles :=
      fun _ hlen roots => hashPartitionRoots_eq h1 hlen roots
    cases treeROnly with
    | true =>
      obtain ⟨_, hR, -⟩ := hhash _ hlen fun i => rootsR (i * S + sector)
      simp [writeRoots, h1, hR]
    | false =>
      obtain ⟨input, hC, hlen'⟩ := hhash _ hlen fun i => rootsC (i * S + sector)
      obtain ⟨_, hR, -⟩ := hhash _ hlen' fun i => rootsR (i * S + sector)
      simp [writeRoots, h1, hC, hR]
  · obtain rfl : numFiles = 1 := by omega
    simp [writeRoots, rootOfFiles]

lemma buildTreeRoot_eq {numFiles : ℕ} (hpos : 0 < numFiles) (roots : ℕ → Node) :
    buildTreeRoot poseidon numFiles roots = some (rootOfFiles poseidon numFiles roots) := by
  have hlen : (NodeArray.declare numFiles).length = numFiles := List.length_replicate
  rw [buildTreeRoot, fill_roots hlen, rootOfFiles]
  simp only [Option.bind_eq_bind, Option.bind_some, hashFinalRow]
  by_cases h16 : numFiles = 16
  · subst h16
    have hpair : ∀ x y, hashArray poseidon 2 [some x, some y] 0 = some (poseidon 2 [x, y]) :=
      fun _ _ => rfl
    simp only [if_true, hashArray_roots_zero roots (by decide : 8 ≤ 16),
      hashArray_roots roots (by decide : 8 + 8 ≤ 16), Option.bind_some, NodeArray.store,
      NodeArray.declare, List.length_replicate, List.length_set, Nat.reduceLT]
    exact hpair _ _
  · rcases Nat.lt_or_ge 1 numFiles with h1 | h1
    · simp only [if_neg h16, if_pos h1, if_neg h1.ne', hashArray_roots_zero roots le_rfl]
    · obtain rfl : numFiles = 1 := by omega
      rfl

/-- The fixed array of `get_comm_from_tree` is right for one or eight files only: with fewer some
elements are not assigned, and more do not fit. -/
lemma getCommFromTree_eq {numFiles : ℕ} (lastNode : ℕ → Node) :
    getCommFromTree poseidon numFiles lastNode =
      if numFiles = 1 ∨ numFiles = 8 then some (rootOfFiles poseidon numFiles lastNode) else none := by
  have hlen : (NodeArray.declare 8).length = 8 := List.length_replicate
  rw [getCommFromTree]
  by_cases h1 : numFiles = 1
  · rw [if_pos h1, if_pos (.inl h1), rootOfFiles, if_pos h1]
  rw [if_neg h1]
  dsimp only
  rcases Nat.lt_trichotomy numFiles 8 with h8 | rfl | h8
  · rw [NodeArray.fill_eq (hlen.symm ▸ h8.le), if_neg (by omega)]
    -- the element after the last file was never assigned
    have hnone : NodeArray.read ((List.range numFiles).map (fun i => some (lastNode i)) ++
        (NodeArray.declare 8).drop numFiles) 0 8 = none := by
      refine NodeArray.read_eq_none h8 ?_
      rw [Nat.zero_add, List.getElem?_append_right (by simp), List.getElem?_drop, NodeArray.declare,
        List.getElem?_replicate]
      split_ifs <;> rfl
    simp only [Option.bind_eq_bind, Option.bind_some, hashArray, hnone, Option.bind_none]
  · rw [fill_roots hlen, if_pos (.inr rfl)]
    simp only [Option.bind_eq_bind, Option.bind_some, hashArray_roots_zero lastNode le_rfl]
    rfl
  · rw [NodeArray.fill_eq_none (hlen.symm ▸ h8), if_neg (by omega)]
    rfl

/-- All places give the same root of tree C and of tree R for a sector, when the roots of the files
are those in the arrays of `write_roots`, and no array is read where it was not assigned. -/
def RootsAgree (poseidon : ℕ → List Node → Node) (numFiles parallelSectors : ℕ) (zero : Node)
    (rootsC rootsR : ℕ → Node) (sector : ℕ) : Prop :=
  ∃ rootC rootR,
    writeRoots poseidon numFiles parallelSectors false zero rootsC rootsR sector =
      some (rootC, rootR) ∧
    buildTreeRoot poseidon numFiles (fun i => rootsC (i * parallelSectors + sector)) = some rootC ∧
    buildTreeRoot poseidon numFiles (fun i => rootsR (i * parallelSectors + sector)) = some rootR ∧
    getCommFromTree poseidon numFiles (fun i => rootsC (i * parallelSectors + sector)) = some rootC ∧
    getCommFromTree poseidon numFiles (fun i => rootsR (i * parallelSectors + sector)) = some rootR

/-- The roots agree exactly for the sector sizes with one or eight files. For the others
`write_roots` and the tree builders still agree, and `get_comm_from_tree` does not. -/
theorem rootsAgree_iff (poseidon : ℕ → List Node → Node) (s : SectorSize) (parallelSectors : ℕ)
    (zero : Node) (rootsC rootsR : ℕ → Node) (sector : ℕ) :
    RootsAgree poseidon s.treeRCFiles parallelSectors zero rootsC rootsR sector ↔
      s.treeRCFiles = 1 ∨ s.treeRCFiles = 8 := by
  constructor
  · rintro ⟨rootC, rootR, -, -, -, hC, -⟩
    by_contra hfiles
    rw [getCommFromTree_eq, if_neg hfiles] at hC
    exact nomatch hC
  · intro hfiles
    refine ⟨_, _, writeRoots_eq s.treeRCFiles_pos _ _ _ _ _ _, buildTreeRoot_eq s.treeRCFiles_pos _,
      buildTreeRoot_eq s.treeRCFiles_pos _, ?_, ?_⟩
    · rw [getCommFromTree_eq, if_pos hfiles]
      rfl
    · rw [getCommFromTree_eq, if_pos hfiles]

/-- A sector of 64GiB has 16 files, and `get_comm_from_tree` stores outside of its array. -/
theorem not_rootsAgree_sixteen_files :
    let n (x : ℕ) : Node := ⟨fun _ => BitVec.ofNat 32 x⟩
    let poseidon (_ : ℕ) (ns : List Node) : Node := ns.headD (n 0)
    buildTreeRoot poseidon SectorSize.sector64GB.treeRCFiles n = some (n 0) ∧
      getCommFromTree poseidon SectorSize.sector64GB.treeRCFiles n = none ∧
      ¬RootsAgree poseidon SectorSize.sector64GB.treeRCFiles 1 (n 0) n n 0 := by
  intro n poseidon
  have hfiles : ¬(SectorSize.sector64GB.treeRCFiles = 1 ∨ SectorSize.sector64GB.treeRCFiles = 8) := by
    decide
  have hcomm : ∀ roots, getCommFromTree poseidon SectorSize.sector64GB.treeRCFiles roots = none := by
    intro roots
    rw [getCommFromTree_eq, if_neg hfiles]
  refine ⟨?_, hcomm n, ?_⟩
  · rw [buildTreeRoot_eq SectorSize.sector64GB.treeRCFiles_pos, SectorSize.treeRCFiles_eq]
    rfl
  · rintro ⟨rootC, rootR, -, -, -, hC, -⟩
    rw [hcomm] at hC
    exact nomatch hC

end SupraSeal
