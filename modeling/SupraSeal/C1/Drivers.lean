import SupraSeal.C1.FirstLevels
import SupraSeal.C1.VanillaProofs

/-!
# The drivers of C1

`do_c1`, `do_c1_tree` and `do_c1_node` of `c1/c1.hpp` set the buffers that they need and call
`WriteProofs`. A driver ends early when an assertion fails, or when `GetRoots` finds no file. The state
is which of the fields of the class were set.
-/

namespace SupraSeal

namespace C1

/-! ### Files and fields -/

/-- A file of the cache directory: an empty file can be opened but not mapped. -/
inductive FileState
  | missing
  | empty
  | mapped
  deriving DecidableEq

structure InputFiles where
  treeR : ℕ → FileState
  treeC : ℕ → FileState
  treeD : FileState
  pAux : FileState
  replica : FileState
  parents : FileState

/-- The fields of `C1` that the drivers set. A tree buffer that is no mapping is a null pointer. -/
structure Fields where
  replicaId : Bool
  ticket : Bool
  seed : Bool
  challenges : Bool
  treeRBufs : List Bool
  treeCBufs : List Bool
  treeDBuf : Bool
  commD : Bool
  roots : Bool
  replicaBuf : Bool
  parentsBuf : Bool

namespace Fields

/-- After the constructor. -/
def init : Fields where
  replicaId := false
  ticket := false
  seed := false
  challenges := false
  treeRBufs := []
  treeCBufs := []
  treeDBuf := false
  commD := false
  roots := false
  replicaBuf := false
  parentsBuf := false

def setReplicaID (s : Fields) : Fields := { s with replicaId := true }

def setTicket (s : Fields) : Fields := { s with ticket := true }

/-- `DeriveChallenges` hashes the replica id. -/
def deriveChallenges (s : Fields) : Option Fields :=
  if s.replicaId then some { s with seed := true, challenges := true } else none

/-- The loop of `SetTreeBufs` from file `l` on: it stops at the first file that is missing. -/
def setTreeBufs (files : ℕ → FileState) : ℕ → ℕ → Option (List Bool)
  | 0, _ => some []
  | numFiles + 1, l =>
    match files l with
    | .missing => some (List.replicate (numFiles + 1) false)
    | .empty => none
    | .mapped => (setTreeBufs files numFiles (l + 1)).map (true :: ·)

def setTreeRBufs (numFiles : ℕ) (files : InputFiles) (s : Fields) : Option Fields :=
  (setTreeBufs files.treeR numFiles 0).map fun bufs => { s with treeRBufs := bufs }

def setTreeCBufs (numFiles : ℕ) (files : InputFiles) (s : Fields) : Option Fields :=
  (setTreeBufs files.treeC numFiles 0).map fun bufs => { s with treeCBufs := bufs }

/-- `SetTreeDBuf`: without a file the sector is a CC sector. -/
def setTreeDBuf (treeDLevels : ℕ) (files : InputFiles) (s : Fields) : Option Fields :=
  match files.treeD with
  | .missing => if treeDLevels ≤ 31 then some { s with commD := true } else none
  | .empty => none
  | .mapped => some { s with treeDBuf := true, commD := true }

def getRoots (files : InputFiles) (s : Fields) : Option Fields :=
  if files.pAux = .mapped then some { s with roots := true } else none

def setReplicaBuf (files : InputFiles) (s : Fields) : Option Fields :=
  if files.replica = .mapped then some { s with replicaBuf := true } else none

def setParentsBuf (files : InputFiles) (s : Fields) : Option Fields :=
  if files.parents = .mapped then some { s with parentsBuf := true } else none

end Fields

/-! ### The drivers -/

inductive Driver
  | c1
  | tree
  | node
  deriving DecidableEq

namespace Driver

def doTree : Driver → Bool
  | c1 => true
  | tree => true
  | node => false

def doNode : Driver → Bool
  | c1 => true
  | tree => false
  | node => true

end Driver

/-- `do_c1` up to the call of `WriteProofs`. -/
def doC1 (cfg : C1Config) (files : InputFiles) : Option Fields := do
  let s ← Fields.init.setReplicaID.setTicket.deriveChallenges
  let s ← s.setTreeRBufs cfg.treeRCFiles files
  let s ← s.setTreeCBufs cfg.treeRCFiles files
  let s ← s.setTreeDBuf cfg.treeDLevels files
  let s ← s.getRoots files
  let s ← s.setReplicaBuf files
  s.setParentsBuf files

/-- `do_c1_tree` up to the call of `WriteProofs`. -/
def doC1Tree (cfg : C1Config) (files : InputFiles) : Option Fields := do
  let s ← Fields.init.setReplicaID.deriveChallenges
  let s ← s.setTreeRBufs cfg.treeRCFiles files
  let s ← s.setTreeDBuf cfg.treeDLevels files
  let s ← s.getRoots files
  s.setReplicaBuf files

/-- `do_c1_node` up to the call of `WriteProofs`. -/
def doC1Node (cfg : C1Config) (files : InputFiles) : Option Fields := do
  let s ← Fields.init.setReplicaID.setTicket.deriveChallenges
  let s ← s.setTreeCBufs cfg.treeRCFiles files
  let s ← s.setParentsBuf files
  s.getRoots files

def Driver.setUp (cfg : C1Config) (files : InputFiles) : Driver → Option Fields
  | c1 => doC1 cfg files
  | tree => doC1Tree cfg files
  | node => doC1Node cfg files

/-! ### What `WriteProofs` accesses -/

/-- An access to a field, to an element of a vector of tree buffers, or through such a buffer. -/
inductive Access
  | challenges
  | replicaBuf
  | parentsBuf
  | treeRElem (i : ℕ)
  | treeCElem (i : ℕ)
  | treeR (i : ℕ)
  | treeC (i : ℕ)
  | treeD
  | commD
  | roots
  | replicaId
  | seed
  | ticket

def Fields.IsSet (s : Fields) : Access → Prop
  | .challenges => s.challenges = true
  | .replicaBuf => s.replicaBuf = true
  | .parentsBuf => s.parentsBuf = true
  | .treeRElem i => i < s.treeRBufs.length
  | .treeCElem i => i < s.treeCBufs.length
  | .treeR i => s.treeRBufs[i]? = some true
  | .treeC i => s.treeCBufs[i]? = some true
  | .treeD => s.treeDBuf = true
  | .commD => s.commD = true
  | .roots => s.roots = true
  | .replicaId => s.replicaId = true
  | .seed => s.seed = true
  | .ticket => s.ticket = true

/-- The tree files that pointers point into. -/
def ptrFiles (ptrs : List PathPtr) : List ℕ :=
  ptrs.filterMap fun
    | .treeBuf buf _ => some buf
    | .firstLevel _ => none
    | .pathBuf _ => none

/-- The tree files that a path points into. -/
def pathFiles {α : Type*} (p : InclusionPath α) : List ℕ :=
  ptrFiles (p.leaf.toList ++ p.path.flatMap MerkleTree.Step.hashes)

variable {cfg : C1Config} (c1 : C1 cfg) (heap : Heap) (challenge : ℕ)

/-- The files that the path of a node in tree R points into. -/
def treeRFiles : List ℕ :=
  let treeRNodes := getTreeRNodes cfg.treeRLabels c1.replicaBuf heap.treeRNodes challenge
  let t : TreeProof Node := ⟨treeRCArity, cfg.treeRCLevels, c1.treeRBufs, cfg.treeRCFiles,
    cfg.treeRDiscardRows, heap.pathBuf⟩
  pathFiles (t.genInclusionPath c1.poseidon challenge (some treeRNodes))

/-- The files that the path of a column in tree C points into. -/
def treeCFiles (column : ℕ) : List ℕ :=
  let t : TreeProof Node :=
    ⟨treeRCArity, cfg.treeRCLevels, c1.treeCBufs, cfg.treeRCFiles, 0, heap.pathBuf⟩
  pathFiles (t.genInclusionPath c1.poseidon column none)

/-- The challenge and its parents. -/
def columns : List ℕ :=
  let parents := getParents c1.parentsBuf challenge
  [challenge] ++ (List.range parentCountBase).map parents.drgParents ++
    (List.range parentCountExp).map parents.expParents

/-- The accesses of `GetTreeRNodes` and `WriteTreeProof`. -/
def treeProofAccesses (s : Fields) : List Access :=
  [.replicaBuf] ++ (if s.treeDBuf then [.treeD, .commD] else []) ++ [.roots] ++
    (c1.treeRFiles heap challenge).map .treeR

/-- The accesses of `GetParents` and `WriteNodeProof`. -/
def nodeProofAccesses : List Access :=
  [.parentsBuf, .roots] ++
    ((c1.columns challenge).flatMap fun column => c1.treeCFiles heap column).map .treeC

/-- The accesses of `WriteProofs`. The pointers to the tree files are gathered whatever the flags are. -/
def writeProofsAccesses (heap : ℕ → Heap) (s : Fields) (doTree doNode : Bool) : List Access :=
  (List.range cfg.treeRCFiles).flatMap (fun i => [.treeRElem i, .treeCElem i]) ++
    (List.range cfg.numPartitions).flatMap (fun i =>
      (List.range cfg.challengesCount).flatMap fun j =>
        let k := j + i * cfg.challengesCount
        [.challenges] ++
          (if doNode then
            c1.nodeProofAccesses (heap k) (c1.challenges k) ++
              if doTree then c1.treeProofAccesses (heap k) (c1.challenges k) s else []
          else c1.treeProofAccesses (heap k) (c1.challenges k) s)) ++
    (if doTree then [.roots, .commD] else []) ++
    if doNode then [.replicaId, .seed, .ticket] else []

/-! ### Where paths point -/

end C1

open C1

section Paths

variable {α : Type*} {hash : List α → α} {t : TreeProof α} {c : ℕ}

lemma mem_ptrFiles {ptrs : List PathPtr} {b : ℕ} :
    b ∈ ptrFiles ptrs ↔ ∃ i, PathPtr.treeBuf b i ∈ ptrs := by
  rw [ptrFiles, List.mem_filterMap]
  constructor
  · rintro ⟨ptr, hptr, h⟩
    cases ptr with
    | treeBuf buf i =>
      obtain rfl : buf = b := Option.some.inj h
      exact ⟨i, hptr⟩
    | firstLevel i => cases h
    | pathBuf i => cases h
  · rintro ⟨i, hi⟩
    exact ⟨_, hi, rfl⟩

lemma mem_pathFiles {p : InclusionPath α} {b : ℕ} :
    b ∈ pathFiles p ↔ (∃ i, p.leaf = some (.treeBuf b i)) ∨
      ∃ e ∈ p.path, ∃ i, PathPtr.treeBuf b i ∈ e.hashes := by
  simp only [pathFiles, mem_ptrFiles, List.mem_append, Option.mem_toList, List.mem_flatMap,
    exists_or]
  refine or_congr_right ?_
  constructor
  · rintro ⟨i, e, he, hi⟩
    exact ⟨e, he, i, hi⟩
  · rintro ⟨e, he, i, hi⟩
    exact ⟨i, e, he, hi⟩

/-- The pointers to the siblings in one file. -/
lemma treeBuf_mem_pathHashes {arity skip b buf : ℕ} (harity : 2 ≤ arity) (idx : ℕ → ℕ) :
    (∃ i, PathPtr.treeBuf b i ∈ TreeProof.pathHashes arity skip fun a => .treeBuf buf (idx a)) ↔
      b = buf := by
  constructor
  · rintro ⟨i, hi⟩
    obtain ⟨a, -, ha⟩ := List.mem_map.mp hi
    cases ha
    rfl
  · rintro rfl
    obtain ⟨a, ha, hne⟩ : ∃ a < arity, a ≠ skip := by
      by_cases h : skip = 0
      · exact ⟨1, harity, by rw [h]; exact one_ne_zero⟩
      · exact ⟨0, by omega, Ne.symm h⟩
    refine ⟨idx a, List.mem_map.mpr ⟨a, ?_, rfl⟩⟩
    exact List.mem_filter.mpr ⟨List.mem_range.mpr ha, decide_eq_true hne⟩

/-- The pointers to the roots of the files. -/
lemma treeBuf_mem_pathHashes_roots {arity skip b idx : ℕ} :
    (∃ i, PathPtr.treeBuf b i ∈ TreeProof.pathHashes arity skip fun a => .treeBuf a idx) ↔
      b < arity ∧ b ≠ skip := by
  constructor
  · rintro ⟨i, hi⟩
    obtain ⟨a, ha, heq⟩ := List.mem_map.mp hi
    cases heq
    obtain ⟨hlt, hne⟩ := List.mem_filter.mp ha
    exact ⟨List.mem_range.mp hlt, of_decide_eq_true hne⟩
  · rintro ⟨hlt, hne⟩
    refine ⟨idx, List.mem_map.mpr ⟨b, ?_, rfl⟩⟩
    exact List.mem_filter.mpr ⟨List.mem_range.mpr hlt, decide_eq_true hne⟩

/-- The path so far points into the challenge's file once it has a level that was read from it. -/
def PointsInto (bufIdx n : ℕ) (p : InclusionPath α) : Prop :=
  ∀ b, b ∈ pathFiles p ↔ 0 < n ∧ b = bufIdx

lemma levelStep_pointsInto (harity : 2 ≤ t.arity) (mask : ℕ) (indices : List ℕ) {bufIdx n : ℕ}
    {st : TreeProof.LevelState α} (h : PointsInto bufIdx n st.proof) (l : ℕ) :
    PointsInto bufIdx (n + 1) (t.levelStep c mask bufIdx indices st l).proof := by
  intro b
  rw [mem_pathFiles]
  simp only [TreeProof.levelStep, List.mem_append, List.mem_singleton, or_and_right, exists_or,
    exists_eq_left, treeBuf_mem_pathHashes harity]
  constructor
  · rintro (⟨i, hi⟩ | he | rfl)
    · refine ⟨n.succ_pos, ?_⟩
      split_ifs at hi with hl
      · cases hi
        rfl
      · exact ((h b).mp (mem_pathFiles.mpr (.inl ⟨i, hi⟩))).2
    · exact ⟨n.succ_pos, ((h b).mp (mem_pathFiles.mpr (.inr he))).2⟩
    · exact ⟨n.succ_pos, rfl⟩
  · rintro ⟨-, rfl⟩
    exact .inr (.inr rfl)

lemma levelSteps_pointsInto (harity : 2 ≤ t.arity) (mask : ℕ) (indices : List ℕ) {bufIdx n : ℕ}
    {st : TreeProof.LevelState α} (h : PointsInto bufIdx n st.proof) (ls : List ℕ) :
    PointsInto bufIdx (n + ls.length)
      (ls.foldl (t.levelStep c mask bufIdx indices) st).proof := by
  induction ls generalizing n st with
  | nil => exact h
  | cons l ls ih =>
    have hrest := ih (levelStep_pointsInto (c := c) harity mask indices h l)
    rwa [Nat.add_assoc, Nat.add_comm 1, ← List.length_cons] at hrest

/-- Reading from level `startingLevel` on: the levels below the last one come from the challenge's
file, and with several files the last one comes from the others. -/
lemma mem_pathFiles_readTreeBufs (harity : 2 ≤ t.arity) (discarded : Bool) {startingLevel : ℕ}
    {p : InclusionPath α} (hp : ∀ b, b ∉ pathFiles p) {b : ℕ} :
    b ∈ pathFiles (t.readTreeBufs c discarded startingLevel p) ↔
      startingLevel < (if t.treeBufsLen = 1 then t.levels else t.levels - 1) ∧
          b = c >>> Nat.log2 (2 ^ (t.levels * Nat.log2 t.arity) / t.treeBufsLen) ∨
        t.treeBufsLen ≠ 1 ∧ b < t.arity ∧
          b ≠ (TreeProof.getTreePaths t.arity t.levels c).getD (t.levels - 1) 0 := by
  have hloop : ∀ mask bufIdx indices size n, PointsInto bufIdx n
      ((List.range' startingLevel n).foldl (t.levelStep c mask bufIdx indices)
        ⟨0, size, p⟩).proof := by
    intro mask bufIdx indices size n
    have hzero : PointsInto bufIdx 0 (TreeProof.LevelState.mk 0 size p).proof := fun b =>
      ⟨fun h => absurd h (hp b), fun h => absurd h.1 (lt_irrefl 0)⟩
    have hsteps := levelSteps_pointsInto (c := c) harity mask indices hzero
      (List.range' startingLevel n)
    rwa [List.length_range', Nat.zero_add] at hsteps
  by_cases hlen : t.treeBufsLen = 1
  · simp only [TreeProof.readTreeBufs, hlen, if_true, ne_eq, not_true_eq_false, false_and,
      or_false]
    rw [hloop _ _ _ _ _ b, Nat.sub_pos_iff_lt]
  · simp only [TreeProof.readTreeBufs, hlen, if_false, ne_eq, not_false_eq_true, true_and]
    rw [mem_pathFiles]
    simp only [List.mem_append, List.mem_singleton, or_and_right, exists_or, exists_eq_left,
      treeBuf_mem_pathHashes_roots, ← or_assoc]
    rw [← mem_pathFiles, hloop _ _ _ _ _ b, Nat.sub_pos_iff_lt]

/-- The first levels do not come from the tree files. -/
lemma not_mem_pathFiles_firstLevels (first : ℕ → α) (indices : List ℕ) (b : ℕ) :
    b ∉ pathFiles (t.performFirstLevels hash c first indices).2 := by
  have hfirst : ∀ i skip (idx : ℕ → ℕ),
      PathPtr.treeBuf b i ∉ TreeProof.pathHashes t.arity skip fun a => .firstLevel (idx a) := by
    intro i skip idx h
    obtain ⟨a, -, ha⟩ := List.mem_map.mp h
    cases ha
  have hrebuilt : ∀ i skip base value pathBuf, PathPtr.treeBuf b i ∉
      (TreeProof.hashSiblings (α := α) t.arity skip base value pathBuf).2 := by
    intro i skip base value pathBuf h
    have hptrs := (TreeProof.rebuilt_foldl ((List.range t.arity).filter (· ≠ skip)) base value
      pathBuf).ptrs
    obtain ⟨a, -, ha⟩ := List.mem_map.mp (hptrs ▸ h)
    cases ha
  intro h
  simp only [TreeProof.performFirstLevels] at h
  split_ifs at h
  · simp [mem_pathFiles, hfirst, hrebuilt] at h
  · simp [mem_pathFiles, hfirst, hrebuilt] at h

end Paths

/-! ### Which tree files are needed -/

namespace C1Config

variable (cfg : C1Config)

/-- The path of `challenge` points into tree file `file` at `startingLevel` or above. -/
def PathFile (startingLevel challenge file : ℕ) : Prop :=
  startingLevel < (if cfg.treeRCFiles = 1 then cfg.treeRCLevels else cfg.treeRCLevels - 1) ∧
      file = challenge >>>
        Nat.log2 (2 ^ (cfg.treeRCLevels * Nat.log2 treeRCArity) / cfg.treeRCFiles) ∨
    cfg.treeRCFiles ≠ 1 ∧ file < treeRCArity ∧
      file ≠ (TreeProof.getTreePaths treeRCArity cfg.treeRCLevels challenge).getD
        (cfg.treeRCLevels - 1) 0

/-- In tree R the first three levels come from the replica. -/
def TreeRFile (challenge file : ℕ) : Prop :=
  3 < cfg.treeRCLevels ∧ cfg.PathFile 3 challenge file

def TreeCFile (challenge file : ℕ) : Prop := cfg.PathFile 0 challenge file

end C1Config

/-- `SetTreeBufs` maps this file: no file up to it is missing. -/
def Opened (files : ℕ → FileState) (numFiles file : ℕ) : Prop :=
  file < numFiles ∧ ∀ l ≤ file, files l ≠ .missing

namespace C1

variable {cfg : C1Config} (c1 : C1 cfg) (files : InputFiles)

def TreeROpened : Prop :=
  ∀ i < cfg.numPartitions, ∀ j < cfg.challengesCount, ∀ file,
    cfg.TreeRFile (c1.challenges (j + i * cfg.challengesCount)) file →
      Opened files.treeR cfg.treeRCFiles file

def TreeCOpened : Prop :=
  ∀ i < cfg.numPartitions, ∀ j < cfg.challengesCount,
    ∀ column ∈ c1.columns (c1.challenges (j + i * cfg.challengesCount)), ∀ file,
      cfg.TreeCFile column file → Opened files.treeC cfg.treeRCFiles file

variable {c1 files} {heap : Heap} {challenge file : ℕ}

lemma mem_treeRFiles : file ∈ c1.treeRFiles heap challenge ↔ cfg.TreeRFile challenge file := by
  have hlevels := cfg.two_le_treeRCLevels
  simp only [treeRFiles, TreeProof.genInclusionPath, C1Config.TreeRFile]
  rw [(TreeProof.performFirstLevels_length _ _ _ _ _).1]
  simp only [Bool.or_eq_true, beq_iff_eq]
  by_cases hdone : cfg.treeRCLevels = 2 ∨ cfg.treeRCLevels = 3
  · rw [if_pos hdone]
    refine iff_of_false (not_mem_pathFiles_firstLevels _ _ _) ?_
    rintro ⟨hlt, -⟩
    omega
  · rw [if_neg hdone, and_iff_right (by omega)]
    have harity : 2 ≤ treeRCArity := by decide
    exact mem_pathFiles_readTreeBufs harity true (not_mem_pathFiles_firstLevels _ _)

lemma mem_treeCFiles : file ∈ c1.treeCFiles heap challenge ↔ cfg.TreeCFile challenge file := by
  have hempty : ∀ b, b ∉ pathFiles (⟨none, [], heap.pathBuf⟩ : InclusionPath Node) := by
    intro b
    simp [mem_pathFiles]
  have harity : 2 ≤ treeRCArity := by decide
  exact mem_pathFiles_readTreeBufs harity false hempty

/-! ### What the drivers set -/

open Fields

lemma Fields.setTreeBufs_eq_some {files : ℕ → FileState} {n l : ℕ} {bufs : List Bool}
    (h : setTreeBufs files n l = some bufs) :
    bufs.length = n ∧ ∀ b, bufs[b]? = some true ↔ b < n ∧ ∀ k ≤ b, files (l + k) ≠ .missing := by
  induction n generalizing l bufs with
  | zero =>
    obtain rfl := Option.some.inj h
    simp
  | succ n ih =>
    cases hfile : files l with
    | missing =>
      obtain rfl : List.replicate (n + 1) false = bufs := by simpa [setTreeBufs, hfile] using h
      refine ⟨List.length_replicate, fun b => iff_of_false ?_ ?_⟩
      · intro hb
        exact absurd (List.eq_of_mem_replicate (List.mem_of_getElem? hb)) (by decide)
      · rintro ⟨-, hb⟩
        exact hb 0 (Nat.zero_le b) hfile
    | empty =>
      rw [setTreeBufs, hfile] at h
      cases h
    | mapped =>
      simp only [setTreeBufs, hfile, Option.map_eq_some_iff] at h
      obtain ⟨rest, hrest, rfl⟩ := h
      obtain ⟨hlen, hbufs⟩ := ih hrest
      refine ⟨congrArg Nat.succ hlen, fun b => ?_⟩
      cases b with
      | zero => simp [hfile]
      | succ b =>
        rw [List.getElem?_cons_succ, hbufs b, Nat.succ_lt_succ_iff]
        refine and_congr_right fun _ => ⟨fun hk k hkb => ?_, fun hk k hkb => ?_⟩
        · cases k with
          | zero => simp [hfile]
          | succ k =>
            have := hk k (Nat.succ_le_succ_iff.mp hkb)
            rwa [Nat.add_assoc, Nat.add_comm 1] at this
        · have := hk (k + 1) (Nat.succ_le_succ hkb)
          rwa [Nat.add_comm k, ← Nat.add_assoc] at this

/-- What `WriteTreeProof` and the commitments need, apart from the tree files. -/
structure Fields.TreeSet (s : Fields) : Prop where
  challenges : s.challenges = true
  replicaBuf : s.replicaBuf = true
  commD : s.commD = true
  roots : s.roots = true

/-- What `WriteNodeProof` and the ids need, apart from the tree files. -/
structure Fields.NodeSet (s : Fields) : Prop where
  challenges : s.challenges = true
  parentsBuf : s.parentsBuf = true
  roots : s.roots = true
  replicaId : s.replicaId = true
  seed : s.seed = true
  ticket : s.ticket = true

section SetUp

variable {cfg : C1Config} {files : InputFiles} {s s' : Fields} {n : ℕ}

lemma setTreeDBuf_eq_some (h : s.setTreeDBuf n files = some s') :
    ∃ d, s' = { s with treeDBuf := d, commD := true } := by
  unfold setTreeDBuf at h
  cases hfile : files.treeD with
  | missing =>
    simp only [hfile] at h
    split_ifs at h
    exact ⟨s.treeDBuf, (Option.some.inj h).symm⟩
  | empty => simp [hfile] at h
  | mapped =>
    simp only [hfile] at h
    exact ⟨true, (Option.some.inj h).symm⟩

lemma doC1_eq_some (h : doC1 cfg files = some s) :
    s.TreeSet ∧ s.NodeSet ∧ setTreeBufs files.treeR cfg.treeRCFiles 0 = some s.treeRBufs ∧
      setTreeBufs files.treeC cfg.treeRCFiles 0 = some s.treeCBufs := by
  simp only [doC1, Option.bind_eq_bind, Option.bind_eq_some_iff, deriveChallenges, setReplicaID,
    setTicket, setTreeRBufs, setTreeCBufs, Option.map_eq_some_iff, getRoots, setReplicaBuf,
    setParentsBuf, if_true, Option.some.injEq, Option.ite_none_right_eq_some, init] at h
  obtain ⟨_, rfl, _, ⟨r, hr, rfl⟩, _, ⟨c, hc, rfl⟩, _, hd, _, ⟨-, rfl⟩, _, ⟨-, rfl⟩, -, rfl⟩ := h
  obtain ⟨d, rfl⟩ := setTreeDBuf_eq_some hd
  exact ⟨⟨rfl, rfl, rfl, rfl⟩, ⟨rfl, rfl, rfl, rfl, rfl, rfl⟩, hr, hc⟩

lemma doC1Tree_eq_some (h : doC1Tree cfg files = some s) :
    s.TreeSet ∧ setTreeBufs files.treeR cfg.treeRCFiles 0 = some s.treeRBufs ∧
      s.treeCBufs = [] := by
  simp only [doC1Tree, Option.bind_eq_bind, Option.bind_eq_some_iff, deriveChallenges, setReplicaID,
    setTreeRBufs, Option.map_eq_some_iff, getRoots, setReplicaBuf, if_true, Option.some.injEq,
    Option.ite_none_right_eq_some, init] at h
  obtain ⟨_, rfl, _, ⟨r, hr, rfl⟩, _, hd, _, ⟨-, rfl⟩, -, rfl⟩ := h
  obtain ⟨d, rfl⟩ := setTreeDBuf_eq_some hd
  exact ⟨⟨rfl, rfl, rfl, rfl⟩, hr, rfl⟩

lemma doC1Node_eq_some (h : doC1Node cfg files = some s) :
    s.NodeSet ∧ setTreeBufs files.treeC cfg.treeRCFiles 0 = some s.treeCBufs ∧
      s.treeRBufs = [] := by
  simp only [doC1Node, Option.bind_eq_bind, Option.bind_eq_some_iff, deriveChallenges, setReplicaID,
    setTicket, setTreeCBufs, Option.map_eq_some_iff, getRoots, setParentsBuf, if_true,
    Option.some.injEq, Option.ite_none_right_eq_some, init] at h
  obtain ⟨_, rfl, _, ⟨c, hc, rfl⟩, _, ⟨-, rfl⟩, -, rfl⟩ := h
  exact ⟨⟨rfl, rfl, rfl, rfl, rfl, rfl⟩, hc, rfl⟩

end SetUp

/-! ### Every access is to what was set -/

section Accesses

variable {cfg : C1Config} {c1 : C1 cfg} {files : InputFiles} {s : Fields} {heap : Heap} {challenge : ℕ}

/-- A tree proof needs the files of its path. -/
lemma treeProofAccesses_isSet (hs : s.TreeSet) :
    (∀ a ∈ c1.treeProofAccesses heap challenge s, s.IsSet a) ↔
      ∀ file, cfg.TreeRFile challenge file → s.treeRBufs[file]? = some true := by
  simp only [treeProofAccesses, List.forall_mem_append, List.forall_mem_singleton,
    List.forall_mem_map, mem_treeRFiles]
  constructor
  · rintro ⟨-, hfiles⟩ file hfile
    exact hfiles file hfile
  · intro hfiles
    refine ⟨⟨⟨hs.replicaBuf, ?_⟩, hs.roots⟩, hfiles⟩
    split_ifs with htreeD
    · intro a ha
      rcases List.mem_pair.mp ha with rfl | rfl
      · exact htreeD
      · exact hs.commD
    · simp

/-- A node proof needs the files of the paths of all its columns. -/
lemma nodeProofAccesses_isSet (hs : s.NodeSet) :
    (∀ a ∈ c1.nodeProofAccesses heap challenge, s.IsSet a) ↔
      ∀ column ∈ c1.columns challenge, ∀ file, cfg.TreeCFile column file →
        s.treeCBufs[file]? = some true := by
  simp only [nodeProofAccesses, List.forall_mem_append, List.forall_mem_map, List.mem_flatMap,
    mem_treeCFiles]
  constructor
  · rintro ⟨-, hfiles⟩ column hcolumn file hfile
    exact hfiles file ⟨column, hcolumn, hfile⟩
  · intro hfiles
    refine ⟨fun a ha => ?_, ?_⟩
    · rcases List.mem_pair.mp ha with rfl | rfl
      · exact hs.parentsBuf
      · exact hs.roots
    · rintro file ⟨column, hcolumn, hfile⟩
      exact hfiles column hcolumn file hfile

/-- The pointers are gathered from both vectors, so both must have all their elements. -/
lemma gather_isSet {n : ℕ} :
    (∀ a ∈ (List.range n).flatMap fun i => [Access.treeRElem i, .treeCElem i], s.IsSet a) ↔
      n ≤ s.treeRBufs.length ∧ n ≤ s.treeCBufs.length := by
  constructor
  · intro h
    have helem : ∀ i < n, i < s.treeRBufs.length ∧ i < s.treeCBufs.length := by
      intro i hi
      have hmem : ∀ a ∈ [Access.treeRElem i, .treeCElem i], s.IsSet a := fun a ha =>
        h a (List.mem_flatMap.mpr ⟨i, List.mem_range.mpr hi, ha⟩)
      exact ⟨hmem _ (List.mem_cons_self ..), hmem _ (List.mem_cons_of_mem _ (List.mem_singleton_self _))⟩
    cases n with
    | zero => exact ⟨Nat.zero_le _, Nat.zero_le _⟩
    | succ n => exact helem n n.lt_succ_self
  · rintro ⟨hr, hc⟩ a ha
    obtain ⟨i, hi, ha⟩ := List.mem_flatMap.mp ha
    have hi := List.mem_range.mp hi
    rcases List.mem_pair.mp ha with rfl | rfl
    · exact hi.trans_le hr
    · exact hi.trans_le hc

/-- An element of `tree_r_bufs_` is a mapping if the file could be opened. -/
lemma opened_iff {files : ℕ → FileState} {n : ℕ} {bufs : List Bool}
    (h : setTreeBufs files n 0 = some bufs) (file : ℕ) :
    bufs[file]? = some true ↔ Opened files n file := by
  have hbufs := (setTreeBufs_eq_some h).2 file
  simp only [Nat.zero_add] at hbufs
  exact hbufs

lemma forall_mem_challenges {α : Type*} {m n : ℕ} {f : ℕ → ℕ → List α} {p : α → Prop} :
    (∀ a ∈ (List.range m).flatMap fun i => (List.range n).flatMap fun j => f i j, p a) ↔
      ∀ i < m, ∀ j < n, ∀ a ∈ f i j, p a := by
  constructor
  · intro h i hi j hj a ha
    exact h a (List.mem_flatMap.mpr ⟨i, List.mem_range.mpr hi,
      List.mem_flatMap.mpr ⟨j, List.mem_range.mpr hj, ha⟩⟩)
  · intro h a ha
    obtain ⟨i, hi, ha⟩ := List.mem_flatMap.mp ha
    obtain ⟨j, hj, ha⟩ := List.mem_flatMap.mp ha
    exact h i (List.mem_range.mp hi) j (List.mem_range.mp hj) a ha

/-- Whatever the flags are, the gather loop needs both vectors, which only `do_c1` sizes. The other
accesses are to what the driver has set if the tree files could be opened. -/
theorem writeProofs_isSet_iff {driver : Driver} (heap : ℕ → Heap)
    (h : driver.setUp cfg files = some s) :
    (∀ a ∈ c1.writeProofsAccesses heap s driver.doTree driver.doNode, s.IsSet a) ↔
      (driver = .c1 ∨ cfg.treeRCFiles = 0) ∧ (driver.doTree = true → c1.TreeROpened files) ∧
        (driver.doNode = true → c1.TreeCOpened files) := by
  simp only [writeProofsAccesses, List.forall_mem_append, gather_isSet, forall_mem_challenges]
  cases driver with
  | c1 =>
    obtain ⟨htree, hnode, hr, hc⟩ := doC1_eq_some h
    simp only [Driver.doTree, Driver.doNode, if_true, List.forall_mem_append,
      treeProofAccesses_isSet htree, nodeProofAccesses_isSet hnode, opened_iff hr, opened_iff hc,
      (setTreeBufs_eq_some hr).1, (setTreeBufs_eq_some hc).1]
    constructor
    · rintro ⟨⟨⟨-, hfiles⟩, -⟩, -⟩
      refine ⟨.inl trivial, fun _ i hi j hj => ?_, fun _ i hi j hj => ?_⟩
      · exact (hfiles i hi j hj).2.2
      · exact (hfiles i hi j hj).2.1
    · rintro ⟨-, hfilesR, hfilesC⟩
      refine ⟨⟨⟨⟨le_rfl, le_rfl⟩, fun i hi j hj => ?_⟩, ?_⟩, ?_⟩
      · exact ⟨List.forall_mem_singleton.mpr htree.challenges, hfilesC trivial i hi j hj,
          hfilesR trivial i hi j hj⟩
      · simpa using ⟨htree.roots, htree.commD⟩
      · simpa using ⟨hnode.replicaId, hnode.seed, hnode.ticket⟩
  | tree =>
    obtain ⟨htree, hr, hc⟩ := doC1Tree_eq_some h
    simp only [Driver.doTree, Driver.doNode, if_true, treeProofAccesses_isSet htree, opened_iff hr,
      hc, Bool.false_eq_true, if_false, (setTreeBufs_eq_some hr).1, List.length_nil]
    constructor
    · rintro ⟨⟨⟨⟨-, hzero⟩, hfiles⟩, -⟩, -⟩
      exact ⟨.inr (Nat.le_zero.mp hzero), fun _ i hi j hj => (hfiles i hi j hj).2, False.elim⟩
    · rintro ⟨hdriver, hfilesR, -⟩
      have hzero : cfg.treeRCFiles = 0 := hdriver.resolve_left (by decide)
      refine ⟨⟨⟨⟨le_rfl, hzero.le⟩, fun i hi j hj => ?_⟩, ?_⟩, List.forall_mem_nil _⟩
      · exact ⟨List.forall_mem_singleton.mpr htree.challenges, hfilesR trivial i hi j hj⟩
      · simpa using ⟨htree.roots, htree.commD⟩
  | node =>
    obtain ⟨hnode, hc, hr⟩ := doC1Node_eq_some h
    simp only [Driver.doTree, Driver.doNode, if_true, List.forall_mem_append,
      nodeProofAccesses_isSet hnode, opened_iff hc, hr, Bool.false_eq_true, if_false,
      (setTreeBufs_eq_some hc).1, List.length_nil]
    constructor
    · rintro ⟨⟨⟨⟨hzero, -⟩, hfiles⟩, -⟩, -⟩
      exact ⟨.inr (Nat.le_zero.mp hzero), False.elim, fun _ i hi j hj => (hfiles i hi j hj).2.1⟩
    · rintro ⟨hdriver, -, hfilesC⟩
      have hzero : cfg.treeRCFiles = 0 := hdriver.resolve_left (by decide)
      refine ⟨⟨⟨⟨hzero.le, le_rfl⟩, fun i hi j hj => ?_⟩, List.forall_mem_nil _⟩, ?_⟩
      · exact ⟨List.forall_mem_singleton.mpr hnode.challenges, hfilesC trivial i hi j hj,
          List.forall_mem_nil _⟩
      · simpa using ⟨hnode.replicaId, hnode.seed, hnode.ticket⟩

/-- `do_c1` on a sector of 2KiB whose files are all there. -/
theorem writeProofs_isSet_twoKiB :
    let cfg : C1Config := ⟨2, 1, 2, 6, 2, 0, 1, 1, by decide, by decide, by decide, by decide,
      by decide, by decide⟩
    let n (x : ℕ) : Node := ⟨fun _ => BitVec.ofNat 32 x⟩
    let c1 : C1 cfg := ⟨fun ns => ns.headD (n 0), n, fun k => k + 1, fun k => k % 64,
      fun nodes i => n (nodes.getD i (0, 0)).2, n, fun _ => n, fun _ => n, some n, n 0, n 1, n 2, n 3,
      n 4, n 5, n 6, fun h => nomatch h⟩
    let files : InputFiles :=
      ⟨fun _ => .mapped, fun _ => .mapped, .mapped, .mapped, .mapped, .mapped⟩
    ∃ s, Driver.setUp cfg files .c1 = some s ∧
      ∀ a ∈ c1.writeProofsAccesses (fun _ => ⟨n, n⟩) s true true, s.IsSet a := by
  intro cfg n c1 files
  have h : Driver.setUp cfg files .c1 =
      some ⟨true, true, true, true, [true], [true], true, true, true, true, true⟩ := rfl
  refine ⟨_, h, (writeProofs_isSet_iff (fun _ => ⟨n, n⟩) h).mpr
    ⟨.inl rfl, fun _ i hi j hj file hfile => ?_, fun _ i hi j hj column hcolumn file hfile => ?_⟩⟩
  · exact absurd hfile.1 (by decide)
  · have hcolumns : ∀ i < cfg.numPartitions, ∀ j < cfg.challengesCount,
        ∀ column ∈ c1.columns (c1.challenges (j + i * cfg.challengesCount)),
        column >>> Nat.log2 (2 ^ (cfg.treeRCLevels * Nat.log2 treeRCArity) / cfg.treeRCFiles) <
          cfg.treeRCFiles := by decide
    obtain ⟨-, rfl⟩ | ⟨hfiles, -⟩ := hfile
    · exact ⟨hcolumns i hi j hj column hcolumn, fun _ _ => FileState.noConfusion⟩
    · exact absurd rfl hfiles

/-- `do_c1_tree` never sizes `tree_c_bufs_`, and `WriteProofs` takes the address of what its first
element would map. -/
theorem not_writeProofs_isSet_tree :
    let cfg : C1Config := ⟨2, 1, 2, 6, 2, 0, 1, 1, by decide, by decide, by decide, by decide,
      by decide, by decide⟩
    let n (x : ℕ) : Node := ⟨fun _ => BitVec.ofNat 32 x⟩
    let c1 : C1 cfg := ⟨fun ns => ns.headD (n 0), n, fun k => k + 1, fun k => k % 64,
      fun nodes i => n (nodes.getD i (0, 0)).2, n, fun _ => n, fun _ => n, some n, n 0, n 1, n 2, n 3,
      n 4, n 5, n 6, fun h => nomatch h⟩
    let files : InputFiles :=
      ⟨fun _ => .mapped, fun _ => .mapped, .mapped, .mapped, .mapped, .mapped⟩
    ∃ s, Driver.setUp cfg files .tree = some s ∧
      ¬ ∀ a ∈ c1.writeProofsAccesses (fun _ => ⟨n, n⟩) s true false, s.IsSet a := by
  intro cfg n c1 files
  refine ⟨_, rfl, fun h => ?_⟩
  exact absurd (h (.treeCElem 0) (.tail _ (.head _))) (Nat.not_lt_zero 0)

end Accesses

end C1

end SupraSeal
