import SupraSeal.C1.TreeInclusion
import SupraSeal.Sealing.SectorParameters

/-!
# The buffers of the first levels

`PerformFirstLevels` reads the nodes around the challenge and writes hashes to `path_buf_`. Both
buffers are sized from the number of discarded rows, but the third level is rebuilt whenever the tree
has it.
-/

namespace SupraSeal

open MerkleTree

namespace TreeProof

/-! ### The accesses -/

/-- An access to `first_level` or to `path_buf_`. -/
inductive FirstLevelAccess
  | read (idx : ℕ)
  | write (idx : ℕ)
  deriving DecidableEq

/-- The reads of a call of `Hash` on `arity` neighbours. -/
def groupReads (arity start : ℕ) : List FirstLevelAccess :=
  (List.range arity).map fun i => .read (start + i)

/-- The accesses of a loop that hashes the siblings of `skip` into `path_buf_` from `base` on. -/
def siblingAccesses (arity skip base : ℕ) (reads : ℕ → List FirstLevelAccess) : List FirstLevelAccess :=
  ((List.range arity).filter (· ≠ skip)).zipIdx.flatMap fun (a, hashIdx) =>
    reads a ++ [.write (base + hashIdx)]

/-- The accesses of `PerformFirstLevels`, in order. The nodes of the first level are read through the
pointers of the path. -/
def firstLevelAccesses (arity levels discardRows challenge : ℕ) (indices : List ℕ) :
    List FirstLevelAccess :=
  let labels := arity ^ (discardRows + 1)
  let leafStart := Nat.ldiff challenge (arity - 1) &&& (labels - 1)
  let leafIdx := indices.getD 0 0
  let level0 := .read (leafStart + leafIdx) ::
    ((List.range arity).filter (· ≠ leafIdx)).map fun a => .read (leafStart + a)
  let leafStart := Nat.ldiff leafStart (arity * arity - 1)
  let level1 := siblingAccesses arity (indices.getD 1 0) 0 fun a => groupReads arity (leafStart + a * arity)
  if levels = 2 then level0 ++ level1
  else
    let leafStart := leafStart >>> Nat.log2 (arity * arity)
    let level2 := siblingAccesses arity leafStart (arity - 1) fun ao =>
      (List.range arity).flatMap fun ai => groupReads arity (ao * arity * arity + ai * arity)
    level0 ++ level1 ++ level2

/-- The indices of `path_buf_` that are written. -/
def writes (accesses : List FirstLevelAccess) : List ℕ :=
  accesses.filterMap fun
    | .read _ => none
    | .write idx => some idx

variable {α : Type*} {hash : List α → α} {t : TreeProof α} {arity skip base levels discardRows c : ℕ}
  {reads : ℕ → List FirstLevelAccess} {accesses accesses' : List FirstLevelAccess}

lemma writes_append : writes (accesses ++ accesses') = writes accesses ++ writes accesses' :=
  List.filterMap_append

lemma mem_writes {idx : ℕ} : idx ∈ writes accesses ↔ .write idx ∈ accesses := by
  rw [writes, List.mem_filterMap]
  constructor
  · rintro ⟨access, hmem, heq⟩
    cases access with
    | read i => cases heq
    | write i =>
      obtain rfl := Option.some.inj heq
      exact hmem
  · intro hmem
    exact ⟨_, hmem, rfl⟩

lemma mem_groupReads {start : ℕ} {access : FirstLevelAccess} :
    access ∈ groupReads arity start ↔ ∃ i < arity, access = .read (start + i) := by
  simp [groupReads, eq_comm]

/-- The loop writes the slots from `base` on, each once. -/
lemma writes_siblingAccesses (hreads : ∀ a, writes (reads a) = []) :
    writes (siblingAccesses arity skip base reads) =
      List.range' base ((List.range arity).filter (· ≠ skip)).length := by
  have h : ∀ (l : List ℕ) (n : ℕ), writes ((l.zipIdx n).flatMap fun (a, hashIdx) =>
      reads a ++ [.write (base + hashIdx)]) = List.range' (base + n) l.length := by
    intro l
    induction l with
    | nil => exact fun _ => rfl
    | cons a l ih =>
      intro n
      rw [List.zipIdx_cons, List.flatMap_cons, writes_append, writes_append, hreads, ih,
        List.length_cons, List.range'_succ, Nat.add_assoc]
      rfl
  exact h _ 0

lemma read_mem_siblingAccesses {idx : ℕ} (h : .read idx ∈ siblingAccesses arity skip base reads) :
    ∃ a < arity, a ≠ skip ∧ .read idx ∈ reads a := by
  obtain ⟨⟨a, hashIdx⟩, hmem, hread⟩ := List.mem_flatMap.mp h
  have ha := List.fst_mem_of_mem_zipIdx hmem
  rw [List.mem_filter, List.mem_range, decide_eq_true_eq] at ha
  rcases List.mem_append.mp hread with hread | hread
  · exact ⟨a, ha.1, ha.2, hread⟩
  · cases List.mem_singleton.mp hread

lemma mem_siblingAccesses {a : ℕ} (ha : a < arity) (hne : a ≠ skip) {access : FirstLevelAccess}
    (h : access ∈ reads a) : access ∈ siblingAccesses arity skip base reads := by
  have hmem : a ∈ (List.range arity).filter (· ≠ skip) := by
    rw [List.mem_filter, List.mem_range, decide_eq_true_eq]
    exact ⟨ha, hne⟩
  obtain ⟨n, hn⟩ := List.mem_iff_getElem?.mp hmem
  exact List.mem_flatMap.mpr ⟨(a, n), List.mk_mem_zipIdx_iff_getElem?.mpr hn, List.mem_append_left _ h⟩

/-! ### What the accesses are for -/

/-- The slots that are not written keep their values. -/
lemma hashSiblings_frame (value pathBuf : ℕ → α) {idx : ℕ}
    (hidx : idx ∉ List.range' base ((List.range arity).filter (· ≠ skip)).length) :
    (hashSiblings arity skip base value pathBuf).1 idx = pathBuf idx := by
  refine (rebuilt_foldl _ base value pathBuf).frame idx ?_
  rw [List.mem_range'_1] at hidx
  omega

lemma hashSiblings_congr {value value' : ℕ → α} (pathBuf : ℕ → α)
    (h : ∀ a < arity, a ≠ skip → value a = value' a) :
    hashSiblings arity skip base value pathBuf = hashSiblings arity skip base value' pathBuf := by
  refine List.foldl_ext _ _ _ ?_
  intro st a ha
  rw [List.mem_filter, List.mem_range, decide_eq_true_eq] at ha
  rw [h a ha.1 ha.2]

lemma group_congr_reads {first first' : ℕ → α} {start : ℕ}
    (h : ∀ idx, .read idx ∈ groupReads arity start → first idx = first' idx) :
    group arity first start = group arity first' start :=
  group_congr fun a ha => h _ (mem_groupReads.mpr ⟨a, ha, rfl⟩)

/-- Only the nodes that are read matter. -/
theorem performFirstLevels_congr (hash : List α → α) (t : TreeProof α) (c : ℕ) (indices : List ℕ)
    {first first' : ℕ → α}
    (h : ∀ idx, .read idx ∈ firstLevelAccesses t.arity t.levels t.discardRows c indices →
      first idx = first' idx) :
    t.performFirstLevels hash c first indices = t.performFirstLevels hash c first' indices := by
  simp only [firstLevelAccesses] at h
  simp only [performFirstLevels]
  set leafStart := Nat.ldiff (Nat.ldiff c (t.arity - 1) &&& (t.arity ^ (t.discardRows + 1) - 1))
    (t.arity * t.arity - 1) with hstart
  have hlevel1 : hashSiblings t.arity (indices.getD 1 0) 0
      (fun a => hash (group t.arity first (leafStart + a * t.arity))) t.pathBuf =
    hashSiblings t.arity (indices.getD 1 0) 0
      (fun a => hash (group t.arity first' (leafStart + a * t.arity))) t.pathBuf := by
    refine hashSiblings_congr _ ?_
    intro a ha hne
    refine congrArg hash (group_congr_reads ?_)
    intro idx hidx
    apply h
    have hmem : .read idx ∈ siblingAccesses t.arity (indices.getD 1 0) 0 fun a =>
        groupReads t.arity (leafStart + a * t.arity) := mem_siblingAccesses ha hne hidx
    split_ifs
    · exact List.mem_append_right _ hmem
    · exact List.mem_append_left _ (List.mem_append_right _ hmem)
  rw [hlevel1]
  by_cases hlev : t.levels = 2
  · rw [if_pos hlev, if_pos hlev]
  · rw [if_neg hlev, if_neg hlev]
    rw [if_neg hlev] at h
    have hlevel2 : ∀ pathBuf : ℕ → α, hashSiblings t.arity (leafStart >>> Nat.log2 (t.arity * t.arity))
        (t.arity - 1) (fun ao => hash (group t.arity (fun ai =>
          hash (group t.arity first (ao * t.arity * t.arity + ai * t.arity))) 0)) pathBuf =
      hashSiblings t.arity (leafStart >>> Nat.log2 (t.arity * t.arity))
        (t.arity - 1) (fun ao => hash (group t.arity (fun ai =>
          hash (group t.arity first' (ao * t.arity * t.arity + ai * t.arity))) 0)) pathBuf := by
      intro pathBuf
      refine hashSiblings_congr _ ?_
      intro ao hao hne
      refine congrArg hash (group_congr fun ai hai => congrArg hash (group_congr_reads ?_))
      intro idx hidx
      rw [Nat.zero_add] at hidx
      refine h idx (List.mem_append_right _ (mem_siblingAccesses hao hne ?_))
      exact List.mem_flatMap.mpr ⟨ai, List.mem_range.mpr hai, hidx⟩
    simp only [hlevel2]

lemma writes_groupReads (arity start : ℕ) : writes (groupReads arity start) = [] := by
  refine List.filterMap_eq_nil_iff.mpr ?_
  intro access hmem
  obtain ⟨i, -, rfl⟩ := mem_groupReads.mp hmem
  rfl

/-- The slots that are written: those of the second level and, behind them, those of the third. -/
lemma writes_firstLevelAccesses (arity levels discardRows c : ℕ) (indices : List ℕ) :
    writes (firstLevelAccesses arity levels discardRows c indices) =
      List.range' 0 ((List.range arity).filter (· ≠ indices.getD 1 0)).length ++
        if levels = 2 then [] else List.range' (arity - 1) ((List.range arity).filter
          (· ≠ (Nat.ldiff (Nat.ldiff c (arity - 1) &&& (arity ^ (discardRows + 1) - 1))
            (arity * arity - 1)) >>> Nat.log2 (arity * arity))).length := by
  have hlevel0 : ∀ (start : ℕ) (l : List ℕ),
      writes (l.map fun a => .read (start + a)) = [] := by
    intro start l
    refine List.filterMap_eq_nil_iff.mpr ?_
    intro access hmem
    obtain ⟨a, -, rfl⟩ := List.mem_map.mp hmem
    rfl
  have hgroups : ∀ ao, writes ((List.range arity).flatMap fun ai =>
      groupReads arity (ao * arity * arity + ai * arity)) = [] := by
    intro ao
    refine List.filterMap_eq_nil_iff.mpr ?_
    intro access hmem
    obtain ⟨ai, -, hread⟩ := List.mem_flatMap.mp hmem
    obtain ⟨i, -, rfl⟩ := mem_groupReads.mp hread
    rfl
  have hcons : ∀ idx accesses, writes (.read idx :: accesses) = writes accesses := fun _ _ => rfl
  simp only [firstLevelAccesses]
  split_ifs
  · rw [writes_append, hcons, hlevel0, writes_siblingAccesses fun a => writes_groupReads ..,
      List.nil_append, List.append_nil]
  · rw [writes_append, writes_append, hcons, hlevel0,
      writes_siblingAccesses fun a => writes_groupReads .., writes_siblingAccesses hgroups,
      List.nil_append]

/-- Only the slots that are written change. -/
theorem performFirstLevels_frame (hash : List α → α) (t : TreeProof α) (c : ℕ) (first : ℕ → α)
    (indices : List ℕ) {idx : ℕ}
    (hidx : idx ∉ writes (firstLevelAccesses t.arity t.levels t.discardRows c indices)) :
    (t.performFirstLevels hash c first indices).2.pathBuf idx = t.pathBuf idx := by
  rw [writes_firstLevelAccesses, List.mem_append, not_or] at hidx
  simp only [performFirstLevels]
  by_cases hlev : t.levels = 2
  · rw [if_pos hlev]
    exact hashSiblings_frame _ _ hidx.1
  · rw [if_neg hlev]
    rw [if_neg hlev] at hidx
    exact (hashSiblings_frame _ _ hidx.2).trans (hashSiblings_frame _ _ hidx.1)

/-! ### The positions -/

lemma leafStart_labels (c d : ℕ) :
    Nat.ldiff c (8 - 1) &&& (8 ^ (d + 1) - 1) = 8 * (c / 8 % 8 ^ d) := by
  calc Nat.ldiff c (2 ^ 3 - 1) &&& ((2 ^ 3) ^ (d + 1) - 1)
      = 2 ^ 3 * (c / 2 ^ 3) % (2 ^ 3) ^ (d + 1) := by
        rw [Wrap.ldiff_two_pow_sub_one, and_pow_sub_one]
    _ = 8 * (c / 8 % 8 ^ d) := by
        rw [pow_succ' (2 ^ 3) d, Nat.mul_mod_mul_left]
        rfl

lemma ldiff_secMask (q : ℕ) : Nat.ldiff (8 * q) (8 * 8 - 1) = 64 * (q / 8) := by
  have h : Nat.ldiff (8 * q) (8 * 8 - 1) = 64 * (8 * q / 64) := Wrap.ldiff_two_pow_sub_one (8 * q) 6
  rw [h]
  omega

/-! ### Trees with two levels -/

/-- The whole path of a tree with two levels is rebuilt. -/
lemma performFirstLevels_two {leaves first : ℕ → α} (harity : t.arity = 8) (hlev : t.levels = 2)
    (hdisc : t.discardRows = 1 ∨ t.discardRows = 2) (hc : c < 8 ^ 2)
    (hfirst : ∀ k < 8 ^ 2, first k = leaves k) :
    ∃ p, t.performFirstLevels hash c first (getTreePaths t.arity t.levels c) = (true, p) ∧
      p.leaf.map (p.deref t first) = some (leaves c) ∧
      p.steps t first = (List.range 2).map (opening hash 8 leaves c) := by
  have hstart : Nat.ldiff c (8 - 1) &&& (8 ^ (t.discardRows + 1) - 1) = 8 * (c / 8) := by
    rw [leafStart_labels, Nat.mod_eq_of_lt]
    rcases hdisc with hdisc | hdisc <;> rw [hdisc] <;> omega
  have hsec : Nat.ldiff (8 * (c / 8)) (8 * 8 - 1) = 0 := by
    rw [ldiff_secMask, Nat.div_eq_of_lt (by omega), Nat.mul_zero]
  have hidx : ∀ l < 2, (getTreePaths 8 2 c).getD l 0 = c / 8 ^ l % 8 :=
    fun l hl => getTreePaths_getD 3 hl c
  rw [performFirstLevels, harity, hlev, hstart, hsec, hidx 0 (by decide), hidx 1 (by decide)]
  have hr := rebuilt_foldl ((List.range 8).filter (· ≠ c / 8 ^ 1 % 8)) 0
    (fun a => hash (group 8 first (0 + a * 8))) t.pathBuf
  rw [← hashSiblings] at hr
  generalize hashSiblings 8 (c / 8 ^ 1 % 8) 0 _ t.pathBuf = r at hr ⊢
  obtain ⟨buf, hashes⟩ := r
  simp only [if_pos]
  have hgroup : ∀ {start : ℕ}, start + 8 ≤ 8 ^ 2 → group 8 first start = group 8 leaves start := by
    intro start hlt
    exact group_congr fun a ha => hfirst _ (by omega)
  refine ⟨_, rfl, ?_, ?_⟩
  · refine congrArg some ?_
    show first (8 * (c / 8) + c / 8 ^ 0 % 8) = leaves c
    rw [pow_zero, Nat.div_one, Nat.div_add_mod, hfirst c hc]
  · refine congrArg₂ List.cons ?_ (congrArg (· :: []) ?_)
    · rw [opening]
      refine congrArg (Step.mk _) ?_
      rw [pathHashes, List.map_map, siblings]
      refine List.map_congr_left ?_
      intro a ha
      have ha : a < 8 := List.mem_range.mp (List.mem_of_mem_filter ha)
      show first (8 * (c / 8) + a) = leaves (8 * (c / 8 ^ (0 + 1)) + a)
      rw [Nat.zero_add, pow_one, hfirst _ (by omega)]
    · rw [opening]
      refine congrArg (Step.mk _) ?_
      rw [hr.map_deref (fun i _ => rfl) first, siblings]
      refine List.map_congr_left ?_
      intro a ha
      have ha : a < 8 := List.mem_range.mp (List.mem_of_mem_filter ha)
      have hrow : c / 8 ^ (1 + 1) = 0 := Nat.div_eq_of_lt hc
      show hash (group 8 first (0 + a * 8)) = hash (group 8 leaves (8 * (8 * (c / 8 ^ (1 + 1)) + a)))
      rw [hrow, hgroup (by omega), Nat.mul_zero, Nat.zero_add, Nat.zero_add, Nat.mul_comm]

/-! ### The two buffers -/

/-- The accesses of `PerformFirstLevels` for a challenge. -/
def challengeAccesses (levels discardRows c : ℕ) : List FirstLevelAccess :=
  firstLevelAccesses 8 levels discardRows c (getTreePaths 8 levels c)

/-- The reads and writes stay in the buffers, no hash is overwritten, the levels that are rebuilt are
all levels or else those below the first row of the tree files, and the whole path is the opening of
the replica. -/
structure FirstLevelsSafe (α : Type*) (levels discardRows numFiles c : ℕ) : Prop where
  reads_lt : ∀ idx, .read idx ∈ challengeAccesses levels discardRows c → idx < 8 ^ (discardRows + 1)
  writes_lt : ∀ idx ∈ writes (challengeAccesses levels discardRows c), idx < discardRows * (8 - 1)
  fresh : (writes (challengeAccesses levels discardRows c)).Nodup
  rebuilt : ∀ (hash : List α → α) (t : TreeProof α) (first : ℕ → α),
    t.arity = 8 → t.levels = levels → t.discardRows = discardRows →
    let q := t.performFirstLevels hash c first (getTreePaths t.arity t.levels c)
    q.2.path.length = if q.1 then levels else discardRows + 1
  path : ∀ (b : TreeBuilder α) (pathBuf treeRNodes : ℕ → α) (mem : TreeMem α),
    b.arity = 8 → b.discardRows = discardRows →
    let count := 8 ^ levels / numFiles
    let file i := b.buildTree count ⟨.out, 0⟩ ⟨.input, i * count⟩ false false mem
    let t : TreeProof α := ⟨8, levels, fun i => (file i).2 .out, numFiles, b.discardRows, pathBuf⟩
    let nodes := getTreeRNodes (8 ^ (b.discardRows + 1)) (mem .input) treeRNodes c
    let p := t.genInclusionPath b.hash c (some nodes)
    p.leaf.map (p.deref t nodes) = some (mem .input c) ∧
      p.steps t nodes = (List.range levels).map (opening b.hash 8 (mem .input) c)

lemma digit_lt {levels l : ℕ} (hl : l < levels) (c : ℕ) : (getTreePaths 8 levels c).getD l 0 < 8 := by
  have h : (getTreePaths (2 ^ 3) levels c).getD l 0 = _ := getTreePaths_getD 3 hl c
  show (getTreePaths (2 ^ 3) levels c).getD l 0 < 8
  rw [h]
  exact Nat.mod_lt _ (by decide)

/-- The reads of the first two levels stay among the nodes around the challenge. -/
lemma reads_lt (hlevels : 2 ≤ levels) (hdisc : discardRows = 1 ∨ discardRows = 2)
    (hsize : discardRows = 2 ∨ levels = 2) {idx : ℕ}
    (hidx : .read idx ∈ challengeAccesses levels discardRows c) : idx < 8 ^ (discardRows + 1) := by
  have hdigit := digit_lt (Nat.lt_of_lt_of_le Nat.two_pos hlevels) c
  have hq := Nat.mod_lt (c / 8) (Nat.pow_pos (by decide) : 0 < 8 ^ discardRows)
  simp only [challengeAccesses, firstLevelAccesses, leafStart_labels, ldiff_secMask] at hidx
  generalize c / 8 % 8 ^ discardRows = q at hidx hq
  -- the window of the second level is in the nodes
  have hpow : 8 * q + 7 < 8 ^ (discardRows + 1) ∧ 64 * (q / 8) + 63 < 8 ^ (discardRows + 1) := by
    rcases hdisc with rfl | rfl
    · exact ⟨by omega, by omega⟩
    · exact ⟨by omega, by omega⟩
  have hlevel0 : ∀ {l : List FirstLevelAccess}, l = .read (8 * q + (getTreePaths 8 levels c).getD 0 0) ::
      ((List.range 8).filter (· ≠ (getTreePaths 8 levels c).getD 0 0)).map (fun a => .read (8 * q + a)) →
      .read idx ∈ l → idx < 8 ^ (discardRows + 1) := by
    rintro _ rfl hmem
    rcases List.mem_cons.mp hmem with heq | hmem
    · obtain rfl := FirstLevelAccess.read.inj heq
      omega
    · obtain ⟨a, ha, heq⟩ := List.mem_map.mp hmem
      obtain rfl := FirstLevelAccess.read.inj heq
      have ha : a < 8 := List.mem_range.mp (List.mem_of_mem_filter ha)
      omega
  have hlevel1 : ∀ {l : List FirstLevelAccess}, l = siblingAccesses 8 ((getTreePaths 8 levels c).getD 1 0) 0
      (fun a => groupReads 8 (64 * (q / 8) + a * 8)) → .read idx ∈ l → idx < 8 ^ (discardRows + 1) := by
    rintro _ rfl hmem
    obtain ⟨a, ha, -, hread⟩ := read_mem_siblingAccesses hmem
    obtain ⟨i, hi, heq⟩ := mem_groupReads.mp hread
    obtain rfl := FirstLevelAccess.read.inj heq
    omega
  split_ifs at hidx with hlev
  · rcases List.mem_append.mp hidx with hidx | hidx
    · exact hlevel0 rfl hidx
    · exact hlevel1 rfl hidx
  · obtain rfl := hsize.resolve_right hlev
    rcases List.mem_append.mp hidx with hidx | hidx
    · rcases List.mem_append.mp hidx with hidx | hidx
      · exact hlevel0 rfl hidx
      · exact hlevel1 rfl hidx
    · obtain ⟨ao, hao, -, hread⟩ := read_mem_siblingAccesses hidx
      obtain ⟨ai, hai, hread⟩ := List.mem_flatMap.mp hread
      obtain ⟨i, hi, heq⟩ := mem_groupReads.mp hread
      obtain rfl := FirstLevelAccess.read.inj heq
      have hai := List.mem_range.mp hai
      show ao * 8 * 8 + ai * 8 + i < 512
      omega

lemma third_skip (q : ℕ) : (64 * (q / 8)) >>> Nat.log2 (8 * 8) = q / 8 := by
  have hlog : Nat.log2 (8 * 8) = 6 := by decide
  rw [hlog, Nat.shiftRight_eq_div_pow, Nat.mul_div_cancel_left _ (by decide)]

/-- The slots that are written, for two or for more levels. -/
lemma writes_challengeAccesses (hlevels : 2 ≤ levels) (hdisc : discardRows = 1 ∨ discardRows = 2) (c : ℕ) :
    writes (challengeAccesses levels discardRows c) =
      List.range' 0 7 ++ if levels = 2 then [] else List.range' 7 7 := by
  have hskip : c / 8 % 8 ^ discardRows / 8 < 8 := by
    have hq := Nat.mod_lt (c / 8) (Nat.pow_pos (by decide) : 0 < 8 ^ discardRows)
    rcases hdisc with rfl | rfl
    · omega
    · omega
  rw [challengeAccesses, writes_firstLevelAccesses, leafStart_labels, ldiff_secMask, third_skip,
    length_siblings (digit_lt hlevels c), length_siblings hskip]

lemma mem_writes_lt (hlevels : 2 ≤ levels) (hdisc : discardRows = 1 ∨ discardRows = 2)
    (hsize : discardRows = 2 ∨ levels = 2) {idx : ℕ}
    (hidx : idx ∈ writes (challengeAccesses levels discardRows c)) : idx < discardRows * (8 - 1) := by
  rw [writes_challengeAccesses hlevels hdisc, List.mem_append, List.mem_range'_1] at hidx
  have hpos : 1 ≤ discardRows := by rcases hdisc with rfl | rfl <;> decide
  rcases hidx with hidx | hidx
  · omega
  · split_ifs at hidx with hlev
    · cases hidx
    · rw [List.mem_range'_1] at hidx
      obtain rfl := hsize.resolve_right hlev
      omega

lemma writes_nodup (hlevels : 2 ≤ levels) (hdisc : discardRows = 1 ∨ discardRows = 2) (c : ℕ) :
    (writes (challengeAccesses levels discardRows c)).Nodup := by
  rw [writes_challengeAccesses hlevels hdisc]
  split_ifs
  · decide
  · decide

/-- The length of the path that is rebuilt. -/
lemma performFirstLevels_length (hash : List α → α) (t : TreeProof α) (c : ℕ) (first : ℕ → α)
    (indices : List ℕ) :
    let q := t.performFirstLevels hash c first indices
    q.1 = (t.levels == 2 || t.levels == 3) ∧ q.2.path.length = if t.levels = 2 then 2 else 3 := by
  simp only [performFirstLevels]
  split_ifs with hlev
  · rw [hlev]
    exact ⟨rfl, rfl⟩
  · rw [beq_eq_false_iff_ne.mpr hlev, Bool.false_or]
    exact ⟨rfl, rfl⟩

/-- The levels that are rebuilt are enough. -/
lemma rebuilt_length (hsize : discardRows = 2 ∨ levels = 2)
    (hash : List α → α) (t : TreeProof α) (first : ℕ → α) (hlev : t.levels = levels) :
    let q := t.performFirstLevels hash c first (getTreePaths t.arity t.levels c)
    q.2.path.length = if q.1 then levels else discardRows + 1 := by
  intro q
  obtain ⟨hdone, hlen⟩ := performFirstLevels_length hash t c first (getTreePaths t.arity t.levels c)
  rw [hlen, show q.1 = _ from hdone, hlev]
  by_cases h2 : levels = 2
  · rw [if_pos h2, h2]
    rfl
  · obtain rfl := hsize.resolve_right h2
    rw [if_neg h2, beq_eq_false_iff_ne.mpr h2, Bool.false_or]
    split_ifs with h3
    · exact (beq_iff_eq.mp h3).symm
    · rfl

/-- The whole path, for two levels, three levels or more. -/
lemma path_eq {numFiles : ℕ} (hlevels : 2 ≤ levels) (hdisc : discardRows = 1 ∨ discardRows = 2)
    (hsize : discardRows = 2 ∨ levels = 2) (hfiles : numFiles = 1 ∨ numFiles = 8) (hc : c < 8 ^ levels)
    (b : TreeBuilder α) (pathBuf treeRNodes : ℕ → α) (mem : TreeMem α) (harity : b.arity = 8)
    (hdiscard : b.discardRows = discardRows) :
    let count := 8 ^ levels / numFiles
    let file i := b.buildTree count ⟨.out, 0⟩ ⟨.input, i * count⟩ false false mem
    let t : TreeProof α := ⟨8, levels, fun i => (file i).2 .out, numFiles, b.discardRows, pathBuf⟩
    let nodes := getTreeRNodes (8 ^ (b.discardRows + 1)) (mem .input) treeRNodes c
    let p := t.genInclusionPath b.hash c (some nodes)
    p.leaf.map (p.deref t nodes) = some (mem .input c) ∧
      p.steps t nodes = (List.range levels).map (opening b.hash 8 (mem .input) c) := by
  intro count file t nodes p
  have hwindow : ∀ k < 8 ^ (b.discardRows + 1), nodes k =
      mem .input (8 ^ (b.discardRows + 1) * (c / 8 ^ (b.discardRows + 1)) + k) :=
    getTreeRNodes_window 3 (b.discardRows + 1) (mem .input) treeRNodes c
  have hdone : ∀ q, t.performFirstLevels b.hash c nodes (getTreePaths t.arity t.levels c) = (true, q) →
      p = q := by
    intro q hq
    show t.genInclusionPath b.hash c (some nodes) = q
    rw [genInclusionPath, hq]
    rfl
  by_cases h2 : levels = 2
  · subst h2
    have hpow : 8 ^ 2 ≤ 8 ^ (b.discardRows + 1) := by
      rw [hdiscard]
      rcases hdisc with rfl | rfl <;> decide
    have hfirst : ∀ k < 8 ^ 2, nodes k = mem .input k := by
      intro k hk
      rw [hwindow k (hk.trans_le hpow), Nat.div_eq_of_lt (hc.trans_le hpow), Nat.mul_zero, Nat.zero_add]
    have hdisc' : t.discardRows = 1 ∨ t.discardRows = 2 := by
      show b.discardRows = 1 ∨ b.discardRows = 2
      rwa [hdiscard]
    obtain ⟨q, hq, hleaf, hsteps⟩ : ∃ q, t.performFirstLevels b.hash c nodes
        (getTreePaths t.arity t.levels c) = (true, q) ∧ _ :=
      performFirstLevels_two (t := t) rfl rfl hdisc' hc hfirst
    rw [hdone q hq]
    exact ⟨hleaf, hsteps⟩
  · obtain rfl := hsize.resolve_right h2
    by_cases h3 : levels = 3
    · subst h3
      have hfirst : ∀ k < 8 ^ 3, nodes k = mem .input (8 ^ 3 * (c / 8 ^ 3) + k) := by
        rw [hdiscard] at hwindow
        exact hwindow
      obtain ⟨q, hq, hleaf, hsteps⟩ : ∃ q, t.performFirstLevels b.hash c nodes
          (getTreePaths t.arity t.levels c) = (t.levels == 3, q) ∧ _ :=
        performFirstLevels_steps (t := t) (g := 3) rfl hdiscard le_rfl hfirst
      rw [hdone q hq]
      exact ⟨hleaf, hsteps⟩
    · obtain ⟨hleaf, hsteps, -⟩ := genInclusionPath_discarded b pathBuf treeRNodes mem harity hdiscard
        hfiles (by omega : 4 ≤ levels) hc
      exact ⟨hleaf, hsteps⟩

/-- With one discarded row and a third level, that level is hashed from nodes that were not read. -/
lemma not_reads_lt (hlev : levels ≠ 2) (c : ℕ) :
    .read (8 ^ (1 + 1)) ∈ challengeAccesses levels 1 c := by
  have hskip : c / 8 % 8 ^ 1 / 8 = 0 := Nat.div_eq_of_lt (Nat.mod_lt _ (by decide))
  simp only [challengeAccesses, firstLevelAccesses, leafStart_labels, ldiff_secMask, hskip]
  rw [if_neg hlev]
  refine List.mem_append_right _ (mem_siblingAccesses (by decide : 1 < 8) Nat.one_ne_zero ?_)
  exact List.mem_flatMap.mpr ⟨0, List.mem_range.mpr (by decide), mem_groupReads.mpr ⟨0, by decide, rfl⟩⟩

/-- Exactly the trees with two discarded rows or with two levels are safe, for any replica. Of the
sector sizes with uniform trees that leaves out one. -/
theorem firstLevelsSafe_iff (α : Type*) :
    (∀ levels discardRows numFiles c, 2 ≤ levels → discardRows = 1 ∨ discardRows = 2 →
      numFiles = 1 ∨ numFiles = 8 → c < 8 ^ levels →
      (FirstLevelsSafe α levels discardRows numFiles c ↔ discardRows = 2 ∨ levels = 2)) ∧
    ∀ s : SectorSize, s.TreeRCUniform → ∀ c < s.numLeaves,
      (FirstLevelsSafe α s.treeRCLevels s.treeRDiscardRows s.treeRCFiles c ↔ s ≠ .sector16KB) := by
  have hiff : ∀ levels discardRows numFiles c, 2 ≤ levels → discardRows = 1 ∨ discardRows = 2 →
      numFiles = 1 ∨ numFiles = 8 → c < 8 ^ levels →
      (FirstLevelsSafe α levels discardRows numFiles c ↔ discardRows = 2 ∨ levels = 2) := by
    intro levels discardRows numFiles c hlevels hdisc hfiles hc
    constructor
    · intro hsafe
      rcases hdisc with rfl | rfl
      · right
        by_contra hlev
        exact Nat.lt_irrefl _ (hsafe.reads_lt _ (not_reads_lt hlev c))
      · exact .inl rfl
    · intro hsize
      exact {
        reads_lt := fun idx => reads_lt hlevels hdisc hsize
        writes_lt := fun idx => mem_writes_lt hlevels hdisc hsize
        fresh := writes_nodup hlevels hdisc c
        rebuilt := fun hash t first _ hlev _ => rebuilt_length hsize hash t first hlev
        path := path_eq hlevels hdisc hsize hfiles hc }
  refine ⟨hiff, ?_⟩
  intro s huniform c hc
  rw [s.treeRCUniform_iff] at huniform
  have hsector : 2 ≤ s.treeRCLevels ∧ (s.treeRDiscardRows = 1 ∨ s.treeRDiscardRows = 2) ∧
      (s.treeRCFiles = 1 ∨ s.treeRCFiles = 8) ∧ s.numLeaves = 8 ^ s.treeRCLevels ∧
      ((s.treeRDiscardRows = 2 ∨ s.treeRCLevels = 2) ↔ s ≠ .sector16KB) := by
    rcases huniform with rfl | rfl | rfl | rfl | rfl <;> decide
  obtain ⟨hlevels, hdisc, hfiles, hleaves, hsize⟩ := hsector
  rw [hiff _ _ _ _ hlevels hdisc hfiles (hleaves ▸ hc), hsize]

/-- A challenge of a sector of 512 MiB. -/
theorem firstLevelsSafe_512MB : FirstLevelsSafe ℕ SectorSize.sector512MB.treeRCLevels
    SectorSize.sector512MB.treeRDiscardRows SectorSize.sector512MB.treeRCFiles 4000 :=
  ((firstLevelsSafe_iff ℕ).2 .sector512MB (by decide) 4000 (by decide)).mpr (by decide)

/-- The first challenge of a sector of 16 KiB. -/
theorem not_firstLevelsSafe_16KB : ¬ FirstLevelsSafe ℕ SectorSize.sector16KB.treeRCLevels
    SectorSize.sector16KB.treeRDiscardRows SectorSize.sector16KB.treeRCFiles 0 := by
  intro hsafe
  have hlev : SectorSize.sector16KB.treeRCLevels ≠ 2 := by decide
  exact Nat.lt_irrefl _ (hsafe.reads_lt _ (not_reads_lt hlev 0))

end TreeProof

end SupraSeal
