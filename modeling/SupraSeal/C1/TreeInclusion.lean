import SupraSeal.C1.TreeProof
import SupraSeal.Pc1.TreeRows

/-!
# Inclusion paths

The path that `GenInclusionPath` collects is the opening of the tree over all leaves, and so folding
the leaf with it gives the root. Level by level: the position of the siblings in a tree file, which
the code finds with masks and a running row offset, is their position in the stored rows.

`Files` says what the tree files hold, for one file with the whole tree or one file for each subtree
of the root. The rows in a file start with row `s` of the tree.
-/

namespace SupraSeal

open MerkleTree

variable {α : Type*} {hash : List α → α}

namespace TreeProof

variable {t : TreeProof α} {leaves : ℕ → α} {g K s c : ℕ}

/-! ### Masks and shifts -/

lemma log2_pow_mul (g n : ℕ) : Nat.log2 ((2 ^ g) ^ n) = g * n := by
  rw [← pow_mul, Nat.log2_two_pow]

lemma shiftRight_mul (x g n : ℕ) : x >>> (n * g) = x / (2 ^ g) ^ n := by
  rw [Nat.shiftRight_eq_div_pow, Nat.mul_comm, pow_mul]

lemma and_pow_sub_one (x g n : ℕ) : x &&& ((2 ^ g) ^ n - 1) = x % (2 ^ g) ^ n := by
  rw [← pow_mul, Nat.and_two_pow_sub_one_eq_mod]

lemma getTreePaths_getD (g : ℕ) {levels l : ℕ} (hl : l < levels) (c : ℕ) :
    (getTreePaths (2 ^ g) levels c).getD l 0 = c / (2 ^ g) ^ l % 2 ^ g := by
  induction levels generalizing l c with
  | zero => omega
  | succ levels ih =>
    cases l with
    | zero =>
      rw [getTreePaths, List.getD_cons_zero, pow_zero, Nat.div_one, Nat.and_two_pow_sub_one_eq_mod]
    | succ l =>
      rw [getTreePaths, List.getD_cons_succ, ih (by omega), Nat.log2_two_pow,
        Nat.shiftRight_eq_div_pow, Nat.div_div_eq_div_mul, pow_succ']

/-- The first of the siblings of a node, among the nodes of its row. -/
lemma leafStart_eq (x g l : ℕ) :
    Nat.ldiff (x >>> (l * g)) (2 ^ g - 1) = 2 ^ g * (x / (2 ^ g) ^ (l + 1)) := by
  rw [Wrap.ldiff_two_pow_sub_one, shiftRight_mul, Nat.div_div_eq_div_mul, ← pow_succ]

/-! ### The levels in the tree files -/

/-- What the tree files hold: the rows from row `s` on of one tree with `arity ^ K` leaves, or of
each of the `arity` subtrees of that size. -/
structure Files (hash : List α → α) (t : TreeProof α) (leaves : ℕ → α) (g K s : ℕ) : Prop where
  arity : t.arity = 2 ^ g
  arity_lg : 0 < g
  layout : t.treeBufsLen = 1 ∧ t.levels = K ∨ t.treeBufsLen = t.arity ∧ t.levels = K + 1
  start_le : s ≤ K
  stores : ∀ b < t.treeBufsLen, Stores hash t.arity (t.treeBufs b)
    (row hash t.arity (fun j => leaves (b * t.arity ^ K + j)) s) (K - s)

lemma Files.levels_ge (h : Files hash t leaves g K s) : K ≤ t.levels := by
  rcases h.layout with ⟨-, h⟩ | ⟨-, h⟩ <;> omega

lemma Files.arity_pos (h : Files hash t leaves g K s) : 0 < t.arity := h.arity ▸ Nat.two_pow_pos g

/-- A path element as the code finds it in file `bufIdx`. -/
def fileElement (t : TreeProof α) (c K s l : ℕ) : PathElement where
  index := c / t.arity ^ l % t.arity
  hashes := pathHashes t.arity (c / t.arity ^ l % t.arity) fun a =>
    .treeBuf (c / t.arity ^ K)
      (t.arity * (c % t.arity ^ K / t.arity ^ (l + 1)) + rowStart t.arity (K - s) (l - s) + a)

lemma levelStep_eq (h : Files hash t leaves g K s) (st : LevelState α) {l : ℕ} (hl : l < t.levels) :
    t.levelStep c (t.arity ^ K - 1) (c / t.arity ^ K) (getTreePaths t.arity t.levels c) st l =
    { addLevelSize := st.addLevelSize + st.curLevelSize
      curLevelSize := st.curLevelSize / t.arity
      proof :=
        { st.proof with
          leaf := if l = 0 then
              some (.treeBuf (c / t.arity ^ K)
                (t.arity * (c % t.arity ^ K / t.arity ^ (l + 1)) + st.addLevelSize +
                  c / t.arity ^ l % t.arity))
            else st.proof.leaf
          path := st.proof.path ++ [⟨c / t.arity ^ l % t.arity,
            pathHashes t.arity (c / t.arity ^ l % t.arity) fun a => .treeBuf (c / t.arity ^ K)
              (t.arity * (c % t.arity ^ K / t.arity ^ (l + 1)) + st.addLevelSize + a)⟩] } } := by
  rw [levelStep, h.arity, Nat.log2_two_pow, and_pow_sub_one, leafStart_eq, getTreePaths_getD g hl,
    Nat.shiftRight_eq_div_pow]

/-- The loop over the levels of one file. -/
lemma levelStep_foldl (h : Files hash t leaves g K s) (p : InclusionPath α) (n : ℕ)
    (hn : s + n ≤ K) :
    (List.range' s n).foldl
      (t.levelStep c (t.arity ^ K - 1) (c / t.arity ^ K) (getTreePaths t.arity t.levels c))
      ⟨0, t.arity ^ (K - s), p⟩ =
    { addLevelSize := rowStart t.arity (K - s) n
      curLevelSize := t.arity ^ (K - s - n)
      proof :=
        { p with
          leaf := if s = 0 ∧ 0 < n then
              some (.treeBuf (c / t.arity ^ K)
                (t.arity * (c % t.arity ^ K / t.arity) + c % t.arity))
            else p.leaf
          path := p.path ++ (List.range' s n).map (t.fileElement c K s) } } := by
  induction n with
  | zero => simp
  | succ n ih =>
    have hlev := h.levels_ge
    rw [List.range'_concat, Nat.one_mul, List.foldl_append, ih (by omega), List.foldl_cons,
      List.foldl_nil, levelStep_eq h _ (by omega), List.map_append, ← List.append_assoc]
    refine congr (congr (congrArg LevelState.mk (rowStart_succ _ n).symm) ?_) ?_
    · show t.arity ^ (K - s - n) / t.arity = _
      rw [show K - s - n = K - s - (n + 1) + 1 by omega, pow_succ,
        Nat.mul_div_cancel _ h.arity_pos]
    · refine congrArg₂ (fun leaf path => InclusionPath.mk leaf path p.pathBuf) ?_ ?_
      · -- only the first level of the leaves sets the leaf
        rcases Nat.eq_zero_or_pos (s + n) with h0 | h0
        · obtain ⟨rfl, rfl⟩ : s = 0 ∧ n = 0 := by omega
          simp
        · rw [if_neg (by omega)]
          refine if_congr ?_ rfl rfl
          omega
      · show _ ++ [_] = _ ++ [_]
        rw [fileElement, Nat.add_sub_cancel_left]

/-- An element found in a file is the opening of the tree over all leaves at its level. -/
lemma deref_fileElement (h : Files hash t leaves g K s) (hc : c / t.arity ^ K < t.treeBufsLen)
    {l : ℕ} (hs : s ≤ l) (hl : l < K) (p : InclusionPath α) (first : ℕ → α) :
    (⟨(t.fileElement c K s l).index, (t.fileElement c K s l).hashes.map (p.deref t first)⟩ : Step α) =
      opening hash t.arity leaves c l := by
  have hpos := h.arity_pos
  refine congrArg (Step.mk _) ?_
  rw [fileElement, pathHashes, List.map_map, siblings]
  refine List.map_congr_left fun a ha => ?_
  have ha : a < t.arity := List.mem_range.mp (List.mem_of_mem_filter ha)
  show t.treeBufs _ _ = _
  -- the position in the row of the file
  set q := c % t.arity ^ K / t.arity ^ (l + 1) with hq
  have hq' : q < t.arity ^ (K - l - 1) := by
    rw [hq, Nat.div_lt_iff_lt_mul (Nat.pow_pos hpos), ← pow_add, show K - l - 1 + (l + 1) = K by omega]
    exact Nat.mod_lt _ (Nat.pow_pos hpos)
  have hlt : t.arity * q + a < t.arity ^ (K - s - (l - s)) := by
    calc t.arity * q + a < t.arity * (q + 1) := by rw [Nat.mul_add, Nat.mul_one]; omega
      _ ≤ t.arity * t.arity ^ (K - l - 1) := Nat.mul_le_mul_left _ hq'
      _ = t.arity ^ (K - s - (l - s)) := by
        rw [← pow_succ', show K - l - 1 + 1 = K - s - (l - s) by omega]
  have hdiv : c / t.arity ^ (l + 1) = c / t.arity ^ K * t.arity ^ (K - l - 1) + q := by
    have hK : t.arity ^ K = t.arity ^ (l + 1) * t.arity ^ (K - l - 1) := by
      rw [← pow_add, show l + 1 + (K - l - 1) = K by omega]
    conv_lhs => rw [← Nat.div_add_mod c (t.arity ^ K)]
    rw [hq, hK, Nat.mul_assoc, Nat.mul_add_div (Nat.pow_pos hpos), Nat.mul_comm (t.arity ^ (K - l - 1))]
  rw [Nat.add_right_comm, Nat.add_comm _ (rowStart _ _ _), h.stores _ hc _ (by omega) _ hlt,
    ← row_add, Nat.add_sub_cancel' hs, row_shift _ _ hl.le, hdiv,
    show t.arity ^ (K - l) = t.arity * t.arity ^ (K - l - 1) by rw [← pow_succ']; congr 1; omega]
  congr 1
  ring

/-- The element of the last level takes one root from each file. -/
lemma deref_lastElement (h : Files hash t leaves g K s) (hlen : t.treeBufsLen = t.arity)
    (hc : c < t.arity ^ (K + 1)) (p : InclusionPath α) (first : ℕ → α) :
    (⟨c / t.arity ^ K % t.arity,
      (pathHashes t.arity (c / t.arity ^ K % t.arity) fun a =>
        .treeBuf a (rowStart t.arity (K - s) (K - s))).map (p.deref t first)⟩ : Step α) =
      opening hash t.arity leaves c K := by
  refine congrArg (Step.mk _) ?_
  rw [pathHashes, List.map_map, siblings]
  refine List.map_congr_left fun a ha => ?_
  have ha : a < t.arity := List.mem_range.mp (List.mem_of_mem_filter ha)
  have hroot := h.stores a (hlen ▸ ha) (K - s) le_rfl 0 (by simp)
  rw [Nat.add_zero] at hroot
  show t.treeBufs a _ = _
  rw [hroot, ← row_add, Nat.add_sub_cancel' h.start_le, row_shift _ _ le_rfl, Nat.sub_self, pow_zero,
    Nat.mul_one, Nat.add_zero, Nat.div_eq_of_lt hc, Nat.mul_zero, Nat.zero_add]

/-! ### The whole path -/

lemma Files.div_lt (h : Files hash t leaves g K s) (hc : c < t.arity ^ t.levels) :
    c / t.arity ^ K < t.treeBufsLen := by
  rw [Nat.div_lt_iff_lt_mul (Nat.pow_pos h.arity_pos)]
  rcases h.layout with ⟨hlen, hlev⟩ | ⟨hlen, hlev⟩ <;> rw [hlev] at hc <;> rw [hlen]
  · rwa [Nat.one_mul]
  · rwa [← pow_succ']

lemma Files.fileLeaves_eq (h : Files hash t leaves g K s) {n : ℕ} (hn : n ≤ K) :
    2 ^ ((t.levels - n) * Nat.log2 t.arity) / t.treeBufsLen = t.arity ^ (K - n) := by
  rw [h.arity, Nat.log2_two_pow, Nat.mul_comm, pow_mul, ← h.arity]
  rcases h.layout with ⟨hlen, hlev⟩ | ⟨hlen, hlev⟩ <;> rw [hlev, hlen]
  · rw [Nat.div_one]
  · rw [show K + 1 - n = K - n + 1 by omega, pow_succ, Nat.mul_div_cancel _ h.arity_pos]

/-- The part of `GenInclusionPath` that reads the tree files. -/
def filePath (t : TreeProof α) (c K s : ℕ) (p : InclusionPath α) : InclusionPath α :=
  { p with
    leaf := if s = 0 ∧ 0 < K - s then
        some (.treeBuf (c / t.arity ^ K) (t.arity * (c % t.arity ^ K / t.arity) + c % t.arity))
      else p.leaf
    path := p.path ++ (List.range' s (K - s)).map (t.fileElement c K s) ++
      if t.treeBufsLen = 1 then []
      else [⟨c / t.arity ^ K % t.arity, pathHashes t.arity (c / t.arity ^ K % t.arity) fun a =>
        .treeBuf a (rowStart t.arity (K - s) (K - s))⟩] }

/-- The files are read from row `s` on, after the levels that were rebuilt. -/
lemma readTreeBufs_eq (h : Files hash t leaves g K s) (discarded : Bool) (p : InclusionPath α)
    (hstart : (if discarded then t.discardRows + 1 else 0) = s) :
    t.readTreeBufs c discarded s p = t.filePath c K s p := by
  have hle := h.start_le
  have harity : 1 < t.arity := h.arity ▸ Nat.one_lt_two_pow h.arity_lg.ne'
  have hleaves : 2 ^ (t.levels * Nat.log2 t.arity) / t.treeBufsLen = t.arity ^ K :=
    h.fileLeaves_eq (Nat.zero_le K)
  have hsize : (if discarded then
      2 ^ ((t.levels - (t.discardRows + 1)) * Nat.log2 t.arity) / t.treeBufsLen
      else t.arity ^ K) = t.arity ^ (K - s) := by
    cases discarded with
    | true =>
      have hstart : t.discardRows + 1 = s := hstart
      rw [if_pos rfl, hstart]
      exact h.fileLeaves_eq hle
    | false =>
      obtain rfl : 0 = s := hstart
      rfl
  have hfinish : (if t.treeBufsLen = 1 then t.levels else t.levels - 1) = K := by
    rcases h.layout with ⟨hlen, hlev⟩ | ⟨hlen, hlev⟩ <;> split_ifs <;> omega
  have hshift : c >>> Nat.log2 (t.arity ^ K) = c / t.arity ^ K := by
    rw [h.arity, log2_pow_mul, Nat.mul_comm, shiftRight_mul]
  rw [readTreeBufs, hleaves, hsize, hfinish, hshift, levelStep_foldl h p _ (by omega), filePath]
  by_cases hlen : t.treeBufsLen = 1
  · rw [if_pos hlen, if_pos hlen, List.append_nil]
  · have hlev : t.levels = K + 1 := by
      rcases h.layout with h1 | h1
      · exact absurd h1.1 hlen
      · exact h1.2
    rw [if_neg hlen, if_neg hlen]
    have hidx : (getTreePaths t.arity t.levels c).getD (t.levels - 1) 0 =
        c / t.arity ^ K % t.arity := by
      rw [h.arity, getTreePaths_getD g (by omega), hlev, Nat.add_sub_cancel]
    rw [hidx]

/-- Reading the files completes the openings of the first `s` levels to those of all levels. -/
lemma steps_filePath (h : Files hash t leaves g K s) (hc : c < t.arity ^ t.levels)
    {p : InclusionPath α} {first : ℕ → α}
    (hp : p.steps t first = (List.range s).map (opening hash t.arity leaves c)) :
    (t.filePath c K s p).steps t first =
      (List.range t.levels).map (opening hash t.arity leaves c) := by
  have hle := h.start_le
  have harity : 1 < t.arity := h.arity ▸ Nat.one_lt_two_pow h.arity_lg.ne'
  have hfile : ((List.range' s (K - s)).map (t.fileElement c K s)).map
      (fun e => (⟨e.index, e.hashes.map ((t.filePath c K s p).deref t first)⟩ : Step α)) =
      (List.range' s (K - s)).map (opening hash t.arity leaves c) := by
    rw [List.map_map]
    refine List.map_congr_left fun l hl => ?_
    obtain ⟨hl, hl'⟩ := List.mem_range'_1.mp hl
    exact deref_fileElement h (h.div_lt hc) hl (by omega) _ first
  have hpre : p.path.map
      (fun e => (⟨e.index, e.hashes.map ((t.filePath c K s p).deref t first)⟩ : Step α)) =
      (List.range s).map (opening hash t.arity leaves c) := hp
  have hrange : List.range K = List.range s ++ List.range' s (K - s) := by
    rw [List.range_eq_range', List.range_eq_range']
    conv_lhs => rw [← Nat.add_sub_cancel' hle]
    exact (List.range'_append_1 ..).symm ▸ by rw [Nat.zero_add]
  show List.map (fun e => (⟨e.index, e.hashes.map ((t.filePath c K s p).deref t first)⟩ : Step α))
    (p.path ++ _ ++ _) = _
  rw [List.map_append, List.map_append, hpre, hfile, ← List.map_append, ← hrange]
  rcases h.layout with ⟨hlen, hlev⟩ | ⟨hlen, hlev⟩
  · rw [if_pos hlen, List.map_nil, List.append_nil, hlev]
  · rw [if_neg (by omega), hlev, List.range_succ, List.map_append]
    exact congrArg _ (congrArg (· :: []) (deref_lastElement h hlen (hlev ▸ hc) _ first))

/-- A path of openings folds the leaf to the root. -/
lemma fold_steps (h : Files hash t leaves g K s) (hc : c < t.arity ^ t.levels)
    {steps : List (Step α)}
    (hp : steps = (List.range t.levels).map (opening hash t.arity leaves c)) :
    fold hash (leaves c) steps = row hash t.arity leaves t.levels 0 := by
  rw [hp, fold_opening h.arity_pos, Nat.div_eq_of_lt hc]

/-! ### Trees without discarded rows -/

/-- The leaf that `GenInclusionPath` sets, and the steps of its path. -/
lemma genInclusionPath_none (h : Files hash t leaves g K 0) (hK : 0 < K)
    (hc : c < t.arity ^ t.levels) (first : ℕ → α) :
    (t.genInclusionPath hash c none).leaf.map ((t.genInclusionPath hash c none).deref t first) =
      some (leaves c) ∧
    (t.genInclusionPath hash c none).steps t first =
      (List.range t.levels).map (opening hash t.arity leaves c) := by
  have hpos := h.arity_pos
  rw [genInclusionPath, readTreeBufs_eq h false _ rfl]
  refine ⟨?_, steps_filePath h hc rfl⟩
  rw [filePath, if_pos ⟨rfl, hK⟩, Option.map_some]
  refine congrArg some ?_
  show t.treeBufs _ _ = _
  have hmod : t.arity * (c % t.arity ^ K / t.arity) + c % t.arity = c % t.arity ^ K := by
    have hdvd : t.arity ∣ t.arity ^ K := dvd_pow_self _ hK.ne'
    rw [← Nat.mod_mod_of_dvd c hdvd, Nat.div_add_mod]
  have hst := h.stores _ (h.div_lt hc) 0 (Nat.zero_le _) (c % t.arity ^ K)
    (by rw [Nat.sub_zero, Nat.sub_zero]; exact Nat.mod_lt _ (Nat.pow_pos hpos))
  rw [rowStart_zero, Nat.zero_add] at hst
  rw [hmod, hst]
  show leaves _ = leaves c
  rw [Nat.mul_comm, Nat.div_add_mod]

/-- The root of one file, or of eight files, is the root of the tree over all leaves. -/
lemma filesRoot_eq {numFiles levels K : ℕ} {roots : ℕ → α}
    (hK : numFiles = 1 ∧ levels = K ∨ numFiles = 8 ∧ levels = K + 1)
    (hroots : ∀ i, roots i = row hash 8 (fun j => leaves (i * 8 ^ K + j)) K 0) :
    (if numFiles = 1 then roots 0 else hash ((List.range 8).map roots)) =
      row hash 8 leaves levels 0 := by
  have hroots : ∀ i, roots i = row hash 8 leaves K i := by
    intro i
    rw [hroots, row_shift _ _ le_rfl, Nat.sub_self, pow_zero, Nat.mul_one, Nat.add_zero]
  rcases hK with ⟨rfl, rfl⟩ | ⟨rfl, rfl⟩
  · rw [if_pos rfl, hroots]
  · rw [if_neg (by decide), row]
    exact congrArg hash (List.map_congr_left fun i _ => by rw [hroots, Nat.mul_zero, Nat.zero_add])

/-- Inclusion paths of trees without discarded rows verify. For the columns in one or eight files,
and for tree D, the leaf of the path is the leaf of the challenge and folding it with the path gives
the root. -/
theorem path_verifies (pathBuf first : ℕ → α) (mem : TreeMem α) {levels c : ℕ} (hlevels : 2 ≤ levels) :
    (∀ (b : TreeBuilder α) (numFiles : ℕ), b.arity = 8 → numFiles = 1 ∨ numFiles = 8 →
      c < 8 ^ levels →
      let count := b.colArity * 8 ^ levels / numFiles
      let file i := b.buildTree count ⟨.out, 0⟩ ⟨.input, i * count⟩ true false mem
      let t : TreeProof α := ⟨8, levels, fun i => (file i).2 .out, numFiles, 0, pathBuf⟩
      let p := t.genInclusionPath b.hash c none
      p.leaf.map (p.deref t first) = some (b.columns (mem .input) c) ∧
        (p.steps t first).length = levels ∧
        fold b.hash (b.columns (mem .input) c) (p.steps t first) =
          if numFiles = 1 then (file 0).1 else b.hash ((List.range 8).map fun i => (file i).1)) ∧
    ∀ hash : List α → α, c < 2 ^ levels →
      let tree := TreeD.buildTree hash (2 ^ levels) true mem
      let t : TreeProof α := ⟨2, levels, fun _ => tree.2 .out, 1, 0, pathBuf⟩
      let p := t.genInclusionPath hash c none
      p.leaf.map (p.deref t first) = some (mem .input c) ∧
        (p.steps t first).length = levels ∧ fold hash (mem .input c) (p.steps t first) = tree.1 := by
  constructor
  · intro b numFiles harity hfiles hc count file t p
    obtain ⟨K, hK⟩ : ∃ K, numFiles = 1 ∧ levels = K ∨ numFiles = 8 ∧ levels = K + 1 := by
      rcases hfiles with h1 | h8
      · exact ⟨levels, .inl ⟨h1, rfl⟩⟩
      · exact ⟨levels - 1, .inr ⟨h8, by omega⟩⟩
    have hcount : count = b.colArity * b.arity ^ K := by
      rw [harity]
      rcases hK with ⟨h1, hlev⟩ | ⟨h8, hlev⟩
      · rw [← hlev, ← Nat.div_one (b.colArity * 8 ^ levels), ← h1]
      · show b.colArity * 8 ^ levels / numFiles = _
        rw [h8, hlev, pow_succ, ← Nat.mul_assoc, Nat.mul_div_cancel _ (by decide)]
    have hfile : ∀ i, Stores b.hash 8 ((file i).2 .out)
        (fun j => b.columns (mem .input) (i * 8 ^ K + j)) K ∧
        (file i).1 = row b.hash 8 (fun j => b.columns (mem .input) (i * 8 ^ K + j)) K 0 := by
      intro i
      have hbuild := b.buildTree_cols mem (i * count) K false
      rw [← hcount, harity] at hbuild
      have hcols : b.columns (mem.array ⟨.input, i * count⟩) =
          fun j => b.columns (mem .input) (i * 8 ^ K + j) := by
        rw [hcount, harity]
        exact b.columns_shift (mem .input) i (8 ^ K)
      rwa [hcols] at hbuild
    have h : Files b.hash t (b.columns (mem .input)) 3 K 0 :=
      { arity := rfl
        arity_lg := by decide
        layout := hK
        start_le := Nat.zero_le _
        stores := fun i _ => (hfile i).1 }
    obtain ⟨hleaf, hsteps⟩ := genInclusionPath_none h (by omega) hc first
    refine ⟨hleaf, ?_, ?_⟩
    · rw [hsteps, List.length_map, List.length_range]
    · rw [fold_steps h hc hsteps]
      exact (filesRoot_eq hK fun i => (hfile i).2).symm
  · intro hash hc tree t p
    have htree := TreeD.buildTree_copy hash mem levels
    have h : Files hash t (mem .input) 1 levels 0 :=
      { arity := rfl
        arity_lg := Nat.one_pos
        layout := .inl ⟨rfl, rfl⟩
        start_le := Nat.zero_le _
        stores := by
          intro i hi
          obtain rfl : i = 0 := Nat.lt_one_iff.mp hi
          show Stores hash 2 _ (fun j => mem .input (0 * 2 ^ levels + j)) levels
          simp only [Nat.zero_mul, Nat.zero_add]
          exact htree.1 }
    obtain ⟨hleaf, hsteps⟩ := genInclusionPath_none h (by omega) hc first
    refine ⟨hleaf, ?_, ?_⟩
    · rw [hsteps, List.length_map, List.length_range]
    · rw [fold_steps h hc hsteps]
      exact htree.2.symm

/-- The path of column 37 of a tree of two levels in eight files whose hash is the sum. -/
theorem path_verifies_sum :
    let b : TreeBuilder ℕ := ⟨2, 8, 2, List.sum, List.sum, by decide, by decide⟩
    let mem : TreeMem ℕ := fun _ j => j
    let count := b.colArity * 8 ^ 2 / 8
    let file i := b.buildTree count ⟨.out, 0⟩ ⟨.input, i * count⟩ true false mem
    let t : TreeProof ℕ := ⟨8, 2, fun i => (file i).2 .out, 8, 0, fun _ => 0⟩
    let p := t.genInclusionPath b.hash 37 none
    p.leaf.map (p.deref t fun _ => 0) = some (b.columns (mem .input) 37) ∧
      (p.steps t fun _ => 0).length = 2 ∧
      fold b.hash (b.columns (mem .input) 37) (p.steps t fun _ => 0) =
        b.hash ((List.range 8).map fun i => (file i).1) :=
  (path_verifies (fun _ => 0) (fun _ => 0) (fun _ j => j) (c := 37) le_rfl).1
    ⟨2, 8, 2, List.sum, List.sum, by decide, by decide⟩ 8 rfl (.inr rfl) (by decide)

/-! ### Trees with discarded rows -/

/-- The hashes rebuilt in `path_buf_` from `base` on, and their pointers. -/
structure Rebuilt (xs : List ℕ) (base : ℕ) (value pathBuf : ℕ → α) (r : (ℕ → α) × List PathPtr) :
    Prop where
  ptrs : r.2 = (List.range xs.length).map fun i => .pathBuf (base + i)
  hashes : (List.range xs.length).map (fun i => r.1 (base + i)) = xs.map value
  frame : ∀ j, j < base ∨ base + xs.length ≤ j → r.1 j = pathBuf j

lemma rebuilt_foldl (xs : List ℕ) (base : ℕ) (value pathBuf : ℕ → α) :
    Rebuilt xs base value pathBuf (xs.foldl
      (fun st a =>
        let hashIdx := st.2.length
        (Function.update st.1 (base + hashIdx) (value a), st.2 ++ [.pathBuf (base + hashIdx)]))
      (pathBuf, [])) := by
  induction xs using List.reverseRecOn with
  | nil => exact ⟨rfl, rfl, fun _ _ => rfl⟩
  | append_singleton xs a ih =>
    rw [List.foldl_append]
    generalize xs.foldl _ (pathBuf, ([] : List PathPtr)) = r at ih
    have hlen : r.2.length = xs.length := by rw [ih.ptrs, List.length_map, List.length_range]
    simp only [List.foldl_cons, List.foldl_nil, hlen]
    refine ⟨?_, ?_, fun j hj => ?_⟩
    · rw [ih.ptrs, List.length_append, List.length_singleton, List.range_succ, List.map_append]
      rfl
    · rw [List.length_append, List.length_singleton, List.range_succ, List.map_append,
        List.map_append, ← ih.hashes]
      congr 1
      · refine List.map_congr_left fun i hi => Function.update_of_ne ?_ _ _
        have := List.mem_range.mp hi
        omega
      · exact congrArg (· :: []) (Function.update_self (base + xs.length) (value a) r.1)
    · rw [List.length_append, List.length_singleton] at hj
      have hne : j ≠ base + xs.length := by omega
      exact (Function.update_of_ne hne (value a) r.1).trans (ih.frame j (by omega))

/-- Pointers to rebuilt hashes that are not overwritten. -/
lemma Rebuilt.map_deref {xs : List ℕ} {base : ℕ} {value pathBuf : ℕ → α}
    {r : (ℕ → α) × List PathPtr} (h : Rebuilt xs base value pathBuf r) {p : InclusionPath α}
    (hp : ∀ i < xs.length, p.pathBuf (base + i) = r.1 (base + i)) (first : ℕ → α) :
    r.2.map (p.deref t first) = xs.map value := by
  rw [h.ptrs, List.map_map, ← h.hashes]
  exact List.map_congr_left fun i hi => hp i (List.mem_range.mp hi)

lemma length_siblings {arity i : ℕ} (hi : i < arity) :
    ((List.range arity).filter (· ≠ i)).length = arity - 1 := by
  rw [filter_ne_range hi, List.length_eraseIdx_of_lt (by rwa [List.length_range]), List.length_range]

/-- The nodes around the challenge. -/
lemma getTreeRNodes_apply {labels : ℕ} (replica treeRNodes : ℕ → α) (c : ℕ) {k : ℕ}
    (hk : k < labels) :
    getTreeRNodes labels replica treeRNodes c k = replica (Nat.ldiff c (labels - 1) + k) := by
  have h : ∀ n, k < n → (List.range n).foldl
      (fun nodes k => Function.update nodes k (replica (Nat.ldiff c (labels - 1) + k)))
      treeRNodes k = replica (Nat.ldiff c (labels - 1) + k) := by
    intro n hn
    induction n with
    | zero => omega
    | succ n ih =>
      rw [List.range_succ, List.foldl_append, List.foldl_cons, List.foldl_nil]
      rcases Nat.lt_succ_iff_lt_or_eq.mp hn with h | rfl
      · rw [Function.update_of_ne h.ne, ih h]
      · rw [Function.update_self]
  exact h labels hk

/-- The positions that `PerformFirstLevels` computes, as digits of the challenge. -/
lemma firstLevels_positions (g c : ℕ) :
    Nat.ldiff c (2 ^ g - 1) &&& ((2 ^ g) ^ 3 - 1) = 2 ^ g * (c / 2 ^ g % (2 ^ g) ^ 2) ∧
    Nat.ldiff (2 ^ g * (c / 2 ^ g % (2 ^ g) ^ 2)) (2 ^ g * 2 ^ g - 1) =
      (2 ^ g) ^ 2 * (c / (2 ^ g) ^ 2 % 2 ^ g) ∧
    ((2 ^ g) ^ 2 * (c / (2 ^ g) ^ 2 % 2 ^ g)) >>> Nat.log2 (2 ^ g * 2 ^ g) =
      c / (2 ^ g) ^ 2 % 2 ^ g := by
  have hpos := Nat.two_pow_pos g
  refine ⟨?_, ?_, ?_⟩
  · rw [Wrap.ldiff_two_pow_sub_one, and_pow_sub_one, pow_succ' (2 ^ g) 2, Nat.mul_mod_mul_left]
  · rw [← pow_two, ← pow_mul, Wrap.ldiff_two_pow_sub_one, pow_mul]
    congr 1
    rw [pow_two, Nat.mul_div_mul_left _ _ hpos, Nat.mod_mul_right_div_self, Nat.div_div_eq_div_mul]
  · rw [← pow_two, log2_pow_mul, Nat.mul_comm g 2, shiftRight_mul,
      Nat.mul_div_cancel_left _ (Nat.pow_pos hpos)]

/-- A node of row `l`, hashed from the nodes around the challenge. -/
lemma row_window {n l : ℕ} {first : ℕ → α}
    (hfirst : ∀ k < n ^ 3, first k = leaves (n ^ 3 * (c / n ^ 3) + k)) (hl : l ≤ 3) {j : ℕ}
    (hj : j < n ^ (3 - l)) :
    row hash n first l j = row hash n leaves l (c / n ^ 3 * n ^ (3 - l) + j) := by
  rw [← row_shift leaves (c / n ^ 3) hl]
  exact row_congr (fun i hi => by rw [hfirst i hi, Nat.mul_comm]) hl j hj

/-- The first sibling of the node of row `l` above the challenge, within the window. -/
lemma sibling_window (n c : ℕ) {l : ℕ} (hl : l ≤ 2) :
    n * (c / n ^ (l + 1)) = c / n ^ 3 * n ^ (3 - l) + n * (c / n ^ (l + 1) % n ^ (2 - l)) := by
  conv_lhs => rw [← Nat.div_add_mod (c / n ^ (l + 1)) (n ^ (2 - l)), Nat.div_div_eq_div_mul, ← pow_add,
    show l + 1 + (2 - l) = 3 by omega]
  rw [show 3 - l = 2 - l + 1 by omega, pow_succ]
  ring

lemma row_window_sibling {n l a : ℕ} {first : ℕ → α}
    (hfirst : ∀ k < n ^ 3, first k = leaves (n ^ 3 * (c / n ^ 3) + k)) (hl : l ≤ 2) (ha : a < n) :
    row hash n first l (n * (c / n ^ (l + 1) % n ^ (2 - l)) + a) =
      row hash n leaves l (n * (c / n ^ (l + 1)) + a) := by
  have hlt : n * (c / n ^ (l + 1) % n ^ (2 - l)) + a < n ^ (3 - l) := by
    have hmod := Nat.mod_lt (c / n ^ (l + 1)) (Nat.pow_pos (Nat.zero_lt_of_lt ha) : 0 < n ^ (2 - l))
    calc n * (c / n ^ (l + 1) % n ^ (2 - l)) + a < n * (c / n ^ (l + 1) % n ^ (2 - l) + 1) := by
          rw [Nat.mul_add, Nat.mul_one]; omega
      _ ≤ n * n ^ (2 - l) := Nat.mul_le_mul_left _ hmod
      _ = n ^ (3 - l) := by rw [← pow_succ', show 2 - l + 1 = 3 - l by omega]
  rw [row_window hfirst (by omega) hlt, sibling_window n c hl, Nat.add_assoc]

/-- The siblings of row `l` in the window make the step of the opening. -/
lemma step_window {n l : ℕ} {first : ℕ → α}
    (hfirst : ∀ k < n ^ 3, first k = leaves (n ^ 3 * (c / n ^ 3) + k)) (hl : l ≤ 2)
    {hashes : List α}
    (hashes_eq : hashes = ((List.range n).filter (· ≠ c / n ^ l % n)).map fun a =>
      row hash n first l (n * (c / n ^ (l + 1) % n ^ (2 - l)) + a)) :
    (⟨c / n ^ l % n, hashes⟩ : Step α) = opening hash n leaves c l := by
  rw [hashes_eq, opening, siblings]
  refine congrArg (Step.mk _) (List.map_congr_left fun a ha => ?_)
  exact row_window_sibling hfirst hl (List.mem_range.mp (List.mem_of_mem_filter ha))

/-- `PerformFirstLevels` sets the leaf and rebuilds the first three levels of the path. -/
lemma performFirstLevels_steps (harity : t.arity = 2 ^ g) (hdisc : t.discardRows = 2)
    (hlev : 3 ≤ t.levels) {first : ℕ → α}
    (hfirst : ∀ k < t.arity ^ 3, first k = leaves (t.arity ^ 3 * (c / t.arity ^ 3) + k)) :
    ∃ p, t.performFirstLevels hash c first (getTreePaths t.arity t.levels c) = (t.levels == 3, p) ∧
      p.leaf.map (p.deref t first) = some (leaves c) ∧
      p.steps t first = (List.range 3).map (opening hash t.arity leaves c) := by
  obtain ⟨h0, h1, h2⟩ := firstLevels_positions g c
  have hpos : 0 < t.arity := harity ▸ Nat.two_pow_pos g
  rw [performFirstLevels, harity, hdisc, h0, h1, h2, getTreePaths_getD g (by omega),
    getTreePaths_getD g (by omega), getTreePaths_getD g (by omega), ← harity]
  set n := t.arity with hn
  -- the second level
  have hr₁ := rebuilt_foldl ((List.range n).filter (· ≠ c / n ^ 1 % n)) 0
    (fun a => hash (group n first (n ^ 2 * (c / n ^ 2 % n) + a * n))) t.pathBuf
  rw [← hashSiblings] at hr₁
  generalize hashSiblings n (c / n ^ 1 % n) 0 _ t.pathBuf = r₁ at hr₁ ⊢
  obtain ⟨buf₁, hashes₁⟩ := r₁
  simp only [if_neg (show ¬t.levels = 2 by omega)]
  -- the third level, rebuilt after the hashes of the second
  have hr₂ := rebuilt_foldl ((List.range n).filter (· ≠ c / n ^ 2 % n)) (n - 1)
    (fun ao => hash (group n (fun ai => hash (group n first (ao * n * n + ai * n))) 0)) buf₁
  rw [← hashSiblings] at hr₂
  generalize hashSiblings n (c / n ^ 2 % n) (n - 1) _ buf₁ = r₂ at hr₂ ⊢
  obtain ⟨buf₂, hashes₂⟩ := r₂
  have hlen₁ := length_siblings (Nat.mod_lt (c / n ^ 1) hpos)
  refine ⟨_, rfl, ?_, ?_⟩
  · refine congrArg some ?_
    show row hash n first 0 (n * (c / n % n ^ 2) + c / n ^ 0 % n) = _
    have h : row hash n first 0 _ = _ :=
      row_window_sibling hfirst (Nat.zero_le 2) (Nat.mod_lt (c / n ^ 0) hpos)
    rw [Nat.zero_add, pow_one, pow_zero, Nat.div_one] at h
    rw [pow_zero, Nat.div_one, h, Nat.div_add_mod]
    rfl
  · refine congrArg₂ List.cons ?_ (congrArg₂ List.cons ?_ (congrArg (· :: []) ?_))
    · refine step_window hfirst (Nat.zero_le 2) ?_
      rw [pathHashes, List.map_map, Nat.zero_add, pow_one]
      rfl
    · refine step_window hfirst (by omega) ?_
      rw [hr₁.map_deref (fun i hi => hr₂.frame _ (by omega)) first]
      refine List.map_congr_left fun a _ => congrArg hash (congrArg (group n first) ?_)
      show n ^ 2 * _ + a * n = n * (n * (_ % n ^ 1) + a)
      rw [pow_one]
      ring
    · refine step_window hfirst le_rfl ?_
      rw [hr₂.map_deref (fun i _ => rfl) first]
      refine List.map_congr_left fun a _ => congrArg hash ?_
      refine group_congr fun b _ => congrArg hash (congrArg (group n first) ?_)
      rw [show 2 - 2 = 0 from rfl, pow_zero, Nat.mod_one]
      ring

/-- The nodes around the challenge are an aligned window of the replica. -/
lemma getTreeRNodes_window (g n : ℕ) (replica treeRNodes : ℕ → α) (c : ℕ) :
    ∀ k < (2 ^ g) ^ n, getTreeRNodes ((2 ^ g) ^ n) replica treeRNodes c k =
      replica ((2 ^ g) ^ n * (c / (2 ^ g) ^ n) + k) := by
  intro k hk
  rw [getTreeRNodes_apply _ _ _ hk, ← pow_mul, Wrap.ldiff_two_pow_sub_one]

/-- With two discarded rows the rebuilt levels and those of the tree files are the opening of the
replica. -/
lemma genInclusionPath_discarded (b : TreeBuilder α) (pathBuf treeRNodes : ℕ → α) (mem : TreeMem α)
    {numFiles levels c : ℕ} (harity : b.arity = 8) (hdiscard : b.discardRows = 2)
    (hfiles : numFiles = 1 ∨ numFiles = 8) (hlevels : 4 ≤ levels) (hc : c < 8 ^ levels) :
    let count := 8 ^ levels / numFiles
    let file i := b.buildTree count ⟨.out, 0⟩ ⟨.input, i * count⟩ false false mem
    let t : TreeProof α := ⟨8, levels, fun i => (file i).2 .out, numFiles, b.discardRows, pathBuf⟩
    let nodes := getTreeRNodes (8 ^ (b.discardRows + 1)) (mem .input) treeRNodes c
    let p := t.genInclusionPath b.hash c (some nodes)
    p.leaf.map (p.deref t nodes) = some (mem .input c) ∧
      p.steps t nodes = (List.range levels).map (opening b.hash 8 (mem .input) c) ∧
      (if numFiles = 1 then (file 0).1 else b.hash ((List.range 8).map fun i => (file i).1)) =
        row b.hash 8 (mem .input) levels 0 := by
  intro count file t nodes p
  obtain ⟨K, hK⟩ : ∃ K, numFiles = 1 ∧ levels = K + 3 ∨ numFiles = 8 ∧ levels = K + 3 + 1 := by
    rcases hfiles with h1 | h8
    · exact ⟨levels - 3, .inl ⟨h1, by omega⟩⟩
    · exact ⟨levels - 4, .inr ⟨h8, by omega⟩⟩
  have hcount : count = 8 ^ (K + 3) := by
    rcases hK with ⟨h1, hlev⟩ | ⟨h8, hlev⟩
    · rw [← hlev, ← Nat.div_one (8 ^ levels), ← h1]
    · show 8 ^ levels / numFiles = _
      rw [h8, hlev, pow_succ, Nat.mul_div_cancel _ (by decide)]
  have hfile : ∀ i, Stores b.hash 8 ((file i).2 .out)
      (row b.hash 8 (fun j => mem .input (i * 8 ^ (K + 3) + j)) 3) K ∧
      (file i).1 = row b.hash 8 (fun j => mem .input (i * 8 ^ (K + 3) + j)) (K + 3) 0 := by
    intro i
    have hbuild := b.buildTree_discard (by omega) mem (i * count) K
    have harray : mem.array ⟨.input, i * count⟩ = fun j => mem .input (i * 8 ^ (K + 3) + j) := by
      rw [hcount]
      rfl
    rw [harray, harity, hdiscard, show 2 + 1 + K = K + 3 by omega, ← hcount] at hbuild
    rwa [← hcount]
  have h : Files b.hash t (mem .input) 3 (K + 3) 3 :=
    { arity := rfl
      arity_lg := by decide
      layout := hK
      start_le := Nat.le_add_left 3 K
      stores := fun i _ => (hfile i).1 }
  have hnodes : ∀ k < 8 ^ 3, nodes k = mem .input (8 ^ 3 * (c / 8 ^ 3) + k) := by
    show ∀ k < 8 ^ 3, getTreeRNodes (8 ^ (b.discardRows + 1)) _ _ c k = _
    rw [hdiscard]
    exact getTreeRNodes_window 3 3 (mem .input) treeRNodes c
  obtain ⟨q, hq, hleaf, hsteps⟩ :
      ∃ q, t.performFirstLevels b.hash c nodes (getTreePaths t.arity t.levels c) =
        (t.levels == 3, q) ∧ _ :=
    performFirstLevels_steps (t := t) (g := 3) rfl hdiscard (Nat.le_of_succ_le hlevels) hnodes
  have hmore : (t.levels == 3) = false := beq_eq_false_iff_ne.mpr (Nat.ne_of_gt hlevels)
  have hp : p = t.filePath c (K + 3) 3 q := by
    show t.genInclusionPath b.hash c (some nodes) = _
    have hstart : (if true then t.discardRows + 1 else 0) = 3 := congrArg (· + 1) hdiscard
    rw [genInclusionPath, hq, hmore, ← readTreeBufs_eq h true q hstart]
    rfl
  refine ⟨?_, hp ▸ steps_filePath h hc hsteps, filesRoot_eq hK fun i => (hfile i).2⟩
  rw [hp]
  exact hleaf

/-- Inclusion paths of tree R with two discarded rows verify. The nodes around the challenge are the
aligned window that contains it; the leaf of the path is the replica node of the challenge; and
folding it with the three rebuilt levels and the levels from the tree files gives the root. -/
theorem path_verifies_discarded (b : TreeBuilder α) (pathBuf treeRNodes : ℕ → α) (mem : TreeMem α)
    {numFiles levels c : ℕ} (harity : b.arity = 8) (hdiscard : b.discardRows = 2)
    (hfiles : numFiles = 1 ∨ numFiles = 8) (hlevels : 4 ≤ levels) (hc : c < 8 ^ levels) :
    let count := 8 ^ levels / numFiles
    let file i := b.buildTree count ⟨.out, 0⟩ ⟨.input, i * count⟩ false false mem
    let t : TreeProof α := ⟨8, levels, fun i => (file i).2 .out, numFiles, b.discardRows, pathBuf⟩
    let nodes := getTreeRNodes (8 ^ (b.discardRows + 1)) (mem .input) treeRNodes c
    let p := t.genInclusionPath b.hash c (some nodes)
    (∀ k < 512, nodes k = mem .input (512 * (c / 512) + k)) ∧
      p.leaf.map (p.deref t nodes) = some (mem .input c) ∧
      (p.steps t nodes).length = levels ∧
      fold b.hash (mem .input c) (p.steps t nodes) =
        if numFiles = 1 then (file 0).1 else b.hash ((List.range 8).map fun i => (file i).1) := by
  intro count file t nodes p
  obtain ⟨hleaf, hpath, hroot⟩ :=
    genInclusionPath_discarded b pathBuf treeRNodes mem harity hdiscard hfiles hlevels hc
  refine ⟨?_, hleaf, ?_, ?_⟩
  · show ∀ k < 8 ^ 3, getTreeRNodes (8 ^ (b.discardRows + 1)) _ _ c k = _
    rw [hdiscard]
    exact getTreeRNodes_window 3 3 (mem .input) treeRNodes c
  · rw [hpath, List.length_map, List.length_range]
  · refine Eq.trans ?_ hroot.symm
    rw [hpath, fold_opening (by decide), Nat.div_eq_of_lt hc]

/-- The path of node 4000 of a replica of four levels whose hash is the sum. -/
theorem path_verifies_discarded_sum :
    let b : TreeBuilder ℕ := ⟨2, 8, 2, List.sum, List.sum, by decide, by decide⟩
    let mem : TreeMem ℕ := fun _ j => j
    let count := 8 ^ 4 / 8
    let file i := b.buildTree count ⟨.out, 0⟩ ⟨.input, i * count⟩ false false mem
    let t : TreeProof ℕ := ⟨8, 4, fun i => (file i).2 .out, 8, b.discardRows, fun _ => 0⟩
    let nodes := getTreeRNodes (8 ^ (b.discardRows + 1)) (mem .input) (fun _ => 0) 4000
    let p := t.genInclusionPath b.hash 4000 (some nodes)
    p.leaf.map (p.deref t nodes) = some 4000 ∧
      fold b.hash 4000 (p.steps t nodes) = b.hash ((List.range 8).map fun i => (file i).1) :=
  have h := path_verifies_discarded ⟨2, 8, 2, List.sum, List.sum, by decide, by decide⟩ (fun _ => 0)
    (fun _ => 0) (fun _ j => j) (c := 4000) rfl rfl (.inr (rfl : 8 = 8)) le_rfl (by decide)
  ⟨h.2.1, h.2.2.2⟩

end TreeProof

end SupraSeal
