import SupraSeal.C2.SrsCache
import SupraSeal.C2.SrsFile

/-!
# Loads that fail

`create_SRS` in `c2/cuda/groth16_srs.cuh`, when the constructor of `SRS_internal` throws. With the state
of the handles goes what the process holds of the system: open files, mappings, pinned memory, reader
threads and the memory of `inner` objects.

## Main results

- `SrsInternal.construct_error`: wherever the constructor throws, it has given back all that it took.
- `leftAlone_iff`: the call leaves everything as it was if and only if it does not go through a cache with
  more than three entries. There `lookup` has dropped the last entry before it makes the `SRS`.
- `createSRS_steps`: the steps of a call that fails, with nothing from other calls in between.
-/

namespace SupraSeal

namespace Srs

/-! ### The constructor -/

structure SpparkError where
  code : ℕ
  message : String
  deriving DecidableEq

def ENODEV : ℕ := 19

def EINVAL : ℕ := 22

/-- What the constructor calls: `open`, with the descriptor and what is in the file, `mmap`, and what
`CUDA_OK` throws; an error is an `errno`. -/
structure System where
  host : Host
  openFile : String → Except ℕ (ℕ × List Byte)
  mmap : List Byte → Except ℕ ℕ
  cudaError : SpparkError
  /-- `TAKE_RESPONSIBILITY_FOR_ERROR_MESSAGE`. -/
  takeResponsibility : Bool

structure Resources where
  files : List ℕ
  mappings : List ℕ
  pinned : List ℕ
  /-- Threads that read, by what they read from. -/
  readers : List ℕ
  inners : List ℕ
  /-- What an object was read from, and its pinned memory. -/
  loaded : ℕ → ℕ × ℕ

namespace Resources

variable (r : Resources)

def openFile (srsFile : ℕ) : Resources := { r with files := srsFile :: r.files }

def closeFile (srsFile : ℕ) : Resources := { r with files := r.files.erase srsFile }

def mmap (srsPtr : ℕ) : Resources := { r with mappings := srsPtr :: r.mappings }

def munmap (srsPtr : ℕ) : Resources := { r with mappings := r.mappings.erase srsPtr }

def newInner (o : ℕ) : Resources := { r with inners := o :: r.inners }

def freeInner (o : ℕ) : Resources := { r with inners := r.inners.erase o }

/-- `cudaHostAlloc`, and the thread. -/
def startReader (pinned srsPtr : ℕ) : Resources :=
  { r with pinned := pinned :: r.pinned, readers := srsPtr :: r.readers }

/-- `~SRS_internal` waits for the thread, which unmaps the file at its end. -/
def freeSrs (o : ℕ) : Resources :=
  { r with
    readers := r.readers.erase (r.loaded o).1
    mappings := r.mappings.erase (r.loaded o).1
    pinned := r.pinned.erase (r.loaded o).2
    inners := r.inners.erase o }

variable {r}

lemma closeFile_openFile (n : ℕ) : (r.openFile n).closeFile n = r := by
  simp [openFile, closeFile]

lemma munmap_mmap (n : ℕ) : (r.mmap n).munmap n = r := by
  simp [mmap, munmap]

lemma closeFile_mmap (srsFile srsPtr : ℕ) :
    ((r.openFile srsFile).mmap srsPtr).closeFile srsFile = r.mmap srsPtr := by
  simp [openFile, mmap, closeFile]

lemma freeInner_newInner (o : ℕ) : (r.newInner o).freeInner o = r := by
  simp [newInner, freeInner]

end Resources

/-- `SRS_internal::SRS_internal`, with where the file is mapped. Every check of the layout unmaps the file
before it throws. -/
def SrsInternal.construct (sys : System) (srsPath : String) (r : Resources) :
    Except SpparkError (ℕ × SrsInternal) × Resources :=
  if sys.host.ngpus = 0 then (.error ⟨ENODEV, "No CUDA devices available"⟩, r)
  else
    match sys.openFile srsPath with
    | .error errno => (.error ⟨errno, "open(\"" ++ srsPath ++ "\") failed: "⟩, r)
    | .ok (srsFile, file) =>
      let r := r.openFile srsFile
      match sys.mmap file with
      | .error err => (.error ⟨err, "mmap(srs_file) failed: "⟩, r.closeFile srsFile)
      | .ok srsPtr =>
        let r := (r.mmap srsPtr).closeFile srsFile
        match readSections file with
        | .error _ => (.error ⟨EINVAL, "SRS file size/layout mismatch"⟩, r.munmap srsPtr)
        | .ok (data, reads) =>
          match SrsInternal.allocate sys.host data reads with
          | .error _ => (.error sys.cudaError, r.munmap srsPtr)
          | .ok srs => (.ok (srsPtr, srs), r.startReader srs.pinned srsPtr)

/-! ### The call -/

/-- `cudaSuccess` is zero. -/
structure RustError where
  code : ℕ
  message : Option String
  deriving DecidableEq

def System.rustError (sys : System) (e : SpparkError) : RustError :=
  ⟨e.code, if sys.takeResponsibility then some e.message else none⟩

structure Process (ι : Type*) where
  shared : State ι String
  resources : Resources

namespace Process

variable {ι : Type*} (sys : System) (p : Process ι)

/-- `SRS{srs_path}`; when the constructor throws, the memory of the object is given back. -/
def newSRS (srsPath : String) : Except SpparkError ℕ × Process ι :=
  let o := p.shared.next
  match SrsInternal.construct sys srsPath (p.resources.newInner o) with
  | (.error e, r) => (.error e, { p with resources := r.freeInner o })
  | (.ok (srsPtr, srs), r) =>
    (.ok o, ⟨p.shared.newInner srsPath,
      { r with loaded := Function.update r.loaded o (srsPtr, srs.pinned) }⟩)

/-- `~SRS`. -/
def destroy (o : ℕ) : Process ι :=
  if (p.shared.objs o).refCnt = 1 then ⟨(p.shared.subRef o).delete o, p.resources.freeSrs o⟩
  else { p with shared := p.shared.subRef o }

/-- `if (list.size() > 3) list.pop_back()`. -/
def popBack : Process ι :=
  match Srs.popBack p.shared.list with
  | some (o, l) => destroy { p with shared := { p.shared with list := l } } o
  | none => p

/-- `emplace_front(std::make_pair(key, SRS{key}))` after the construction. -/
def emplaceFront (key : String) (o : ℕ) : Process ι :=
  let shared := (p.shared.addRef o).addRef o
  destroy (destroy { p with shared := { shared with list := (key, o) :: shared.list } } o) o

/-- `SRS_cache::lookup`. -/
def lookup (key : String) : Except SpparkError ℕ × Process ι :=
  match takeEntry key p.shared.list with
  | some (o, l) =>
    (.ok o, { p with shared := State.addRef { p.shared with list := (key, o) :: l } o })
  | none =>
    match p.popBack.newSRS sys key with
    | (.error e, p) => (.error e, p)
    | (.ok o, p) =>
      let p := p.emplaceFront key o
      (.ok o, { p with shared := p.shared.addRef o })

/-- `create_SRS`; `ret` is what the caller's handle refers to. -/
def createSRS (ret : Option ℕ) (srsPath : String) (cache : Bool) : RustError × Option ℕ × Process ι :=
  match if cache then p.lookup sys srsPath else p.newSRS sys srsPath with
  | (.ok o, p) => (⟨0, none⟩, some o, p)
  | (.error e, p) => (sys.rustError e, ret, p)

end Process

/-! ### Errors of the constructor -/

section Errors

variable {sys : System} {srsPath : String} {r r' : Resources} {e : SpparkError}

/-- Wherever it throws, it has closed the file and has unmapped it. -/
theorem SrsInternal.construct_error (h : SrsInternal.construct sys srsPath r = (.error e, r')) :
    r' = r := by
  rw [SrsInternal.construct] at h
  split at h
  · -- no device
    cases h
    rfl
  · split at h
    · -- no file
      cases h
      rfl
    · simp only [Resources.closeFile_mmap, Resources.closeFile_openFile] at h
      split at h
      · -- no mapping
        cases h
        rfl
      · split at h
        · -- the layout
          cases h
          exact Resources.munmap_mmap _
        · split at h
          · -- no pinned memory
            cases h
            exact Resources.munmap_mmap _
          · cases h

/-- What it throws does not depend on what the process holds. -/
lemma SrsInternal.construct_fst (sys : System) (srsPath : String) (r r' : Resources) :
    (SrsInternal.construct sys srsPath r).1 = (SrsInternal.construct sys srsPath r').1 := by
  simp only [SrsInternal.construct]
  split
  · rfl
  · split
    · rfl
    · split
      · rfl
      · split
        · rfl
        · split <;> rfl

/-- The layout and the slices are those of the file. -/
theorem SrsInternal.construct_ok {srsPtr : ℕ} {srs : SrsInternal}
    (h : SrsInternal.construct sys srsPath r = (.ok (srsPtr, srs), r')) :
    ∃ srsFile file, sys.openFile srsPath = .ok (srsFile, file) ∧ sys.mmap file = .ok srsPtr ∧
      (file ≠ [] → SrsInternal.new sys.host file = .ok srs) := by
  rw [SrsInternal.construct] at h
  split at h
  · cases h
  · next hngpus =>
    split at h
    · cases h
    · next srsFile file hopen =>
      split at h
      · cases h
      · next srsPtr' hmmap =>
        split at h
        · cases h
        · next data reads hparse =>
          split at h
          · cases h
          · next srs' hallocate =>
            cases h
            refine ⟨srsFile, file, hopen, hmmap, fun hfile => ?_⟩
            have hlen : file.length ≠ 0 := fun hzero => hfile (List.length_eq_zero_iff.mp hzero)
            rw [SrsInternal.new, if_neg hngpus, if_neg hlen, hparse]
            exact hallocate

end Errors

/-! ### Calls that fail -/

section Failed

variable {ι : Type*} {sys : System} {p : Process ι} {srsPath : String} {e : SpparkError}

lemma newSRS_failed (h : (SrsInternal.construct sys srsPath p.resources).1 = .error e) :
    p.newSRS sys srsPath = (.error e, p) := by
  cases hconstruct : SrsInternal.construct sys srsPath (p.resources.newInner p.shared.next) with
  | mk result r =>
    have hresult : result = .error e := by
      rw [← h, SrsInternal.construct_fst sys srsPath _ (p.resources.newInner p.shared.next), hconstruct]
    subst hresult
    have hr := SrsInternal.construct_error hconstruct
    simp only [Process.newSRS, hconstruct, hr, Resources.freeInner_newInner]

lemma list_destroy (p : Process ι) (o : ℕ) : (p.destroy o).shared.list = p.shared.list := by
  unfold Process.destroy
  split <;> rfl

lemma list_popBack (p : Process ι) :
    p.popBack.shared.list = if 3 < p.shared.list.length then p.shared.list.dropLast else p.shared.list := by
  rw [Process.popBack, Srs.popBack]
  by_cases hlen : 3 < p.shared.list.length
  · obtain ⟨entry, hlast⟩ : ∃ entry, p.shared.list.getLast? = some entry := by
      rw [← Option.isSome_iff_exists, List.getLast?_isSome]
      rintro hnil
      simp [hnil] at hlen
    simp only [if_pos hlen, hlast, Option.map_some, list_destroy]
  · simp only [if_neg hlen]

lemma popBack_of_length_le (h : p.shared.list.length ≤ 3) : p.popBack = p := by
  rw [Process.popBack, Srs.popBack, if_neg (Nat.not_lt_of_le h)]

/-- What such a call does: the last entry may be gone. -/
lemma createSRS_failed (habsent : ∀ entry ∈ p.shared.list, entry.1 ≠ srsPath)
    (h : (SrsInternal.construct sys srsPath p.resources).1 = .error e) (ret : Option ℕ) (cache : Bool) :
    p.createSRS sys ret srsPath cache = (sys.rustError e, ret, if cache then p.popBack else p) := by
  cases cache with
  | false => simp only [Process.createSRS, newSRS_failed h, Bool.false_eq_true, if_false]
  | true =>
    have hpop : (SrsInternal.construct sys srsPath p.popBack.resources).1 = .error e := by
      rw [SrsInternal.construct_fst, h]
    simp only [Process.createSRS, Process.lookup, takeEntry_eq_none_iff.mpr habsent, newSRS_failed hpop,
      if_true]

/-- Eviction does not depend on the lock. -/
lemma popBack_lock (hmtx : p.shared.mtx = none) (m : Option ι) :
    ({ (Process.popBack { p with shared := { p.shared with mtx := m } }).shared with mtx := none }) =
      p.popBack.shared := by
  simp only [Process.popBack, Process.destroy]
  split
  · split <;> simp only [State.subRef, State.delete, hmtx]
  · simp only [← hmtx]

/-- The error is returned, and the handle and all that the process has are what they were: the entries of the
cache in their order, the objects with their counts, and the resources. -/
structure LeftAlone (sys : System) (e : SpparkError) (ret : Option ℕ) (p : Process ι)
    (result : RustError × Option ℕ × Process ι) : Prop where
  error : result.1 = sys.rustError e
  handle : result.2.1 = ret
  process : result.2.2 = p

lemma not_leftAlone (habsent : ∀ entry ∈ p.shared.list, entry.1 ≠ srsPath)
    (h : (SrsInternal.construct sys srsPath p.resources).1 = .error e) (ret : Option ℕ)
    (hlen : 3 < p.shared.list.length) :
    ¬LeftAlone sys e ret p (p.createSRS sys ret srsPath true) := by
  intro hleft
  have hlist := congrArg (fun p => p.shared.list.length) hleft.process
  simp only [createSRS_failed habsent h, if_true, list_popBack, if_pos hlen, List.length_dropLast] at hlist
  omega

theorem leftAlone_iff (habsent : ∀ entry ∈ p.shared.list, entry.1 ≠ srsPath)
    (h : (SrsInternal.construct sys srsPath p.resources).1 = .error e) (ret : Option ℕ) (cache : Bool) :
    LeftAlone sys e ret p (p.createSRS sys ret srsPath cache) ↔
      cache = false ∨ p.shared.list.length ≤ 3 := by
  constructor
  · intro hleft
    by_contra hnot
    rw [not_or, Bool.not_eq_false] at hnot
    obtain ⟨rfl, hlen⟩ := hnot
    exact not_leftAlone habsent h ret (Nat.lt_of_not_le hlen) hleft
  · intro hwhen
    rw [createSRS_failed habsent h]
    refine ⟨rfl, rfl, ?_⟩
    rcases hwhen with rfl | hlen
    · rfl
    · simp only [popBack_of_length_le hlen, ite_self]

/-- No file can be opened. -/
def noFiles : System where
  host := onePointHost
  openFile _ := .error 2
  mmap _ := .error EINVAL
  cudaError := ⟨1, ""⟩
  takeResponsibility := true

/-- A cache of some SRSs to which nothing else refers. -/
def cached (paths : List String) : Process Unit where
  shared := { (State.init fun _ => ⟨"", 1, false⟩) with list := paths.zipIdx, next := paths.length }
  resources := ⟨[], [], [], [], List.range paths.length, fun _ => (0, 0)⟩

theorem leftAlone_iff_three :
    LeftAlone noFiles ⟨2, "open(\"d\") failed: "⟩ none (cached ["a", "b", "c"])
      ((cached ["a", "b", "c"]).createSRS noFiles none "d" true) :=
  (leftAlone_iff (by decide) (by decide) none true).mpr (.inr (by decide))

theorem not_leftAlone_four :
    ¬LeftAlone noFiles ⟨2, "open(\"e\") failed: "⟩ none (cached ["a", "b", "c", "d"])
      ((cached ["a", "b", "c", "d"]).createSRS noFiles none "e" true) :=
  not_leftAlone (by decide) (by decide) none (by decide)

end Failed

/-! ### The steps of a call that fails -/

section Steps

variable {ι : Type*} [DecidableEq ι] {sys : System} {p : Process ι} {srsPath : String} {e : SpparkError}
  {t : ι}

/-- Steps of one call, with nothing from other calls in between. -/
def Steps (t : ι) : State ι String → State ι String → Prop :=
  Relation.ReflTransGen fun s s' => ∃ throws, runCall s t throws = some s'

lemma steps_of_alone {s s' : State ι String} (h : Alone t s s') : Steps t s s' := by
  induction h with
  | refl => exact .refl
  | tail _ hstep ih => exact ih.tail ⟨false, hstep⟩

/-- The constructor throws. -/
lemma steps_construct (s : State ι String) (key : String) (locked : Bool) (code : List (Instr String))
    (ts : List (Option ℕ)) (b : Option ℕ) :
    Steps t (s.setCall t ⟨.construct key locked :: code, ts, b, none⟩)
      (s.setCall t ⟨if locked then [.unlock] else [], ts, b, none⟩) := by
  refine Relation.ReflTransGen.single ⟨true, ?_⟩
  rw [runCall, State.setCall_self]
  simp only [exec, if_true, Option.map_some, setCall_setCall]

lemma alone_destroy_eq (p : Process ι) (code : List (Instr String)) (o : ℕ) (ts : List (Option ℕ))
    (b : Option ℕ) :
    Alone t (p.shared.setCall t ⟨.destroy :: code, some o :: ts, b, none⟩)
      ((p.destroy o).shared.setCall t ⟨code, ts, b, none⟩) := by
  have hstep : exec p.shared t ⟨code, some o :: ts, b, none⟩ false .destroy = some (p.shared.subRef o,
    ⟨code, ts, b, if (p.shared.objs o).refCnt = 1 then some o else none⟩) := rfl
  rw [Process.destroy]
  split at hstep
  next hone =>
    rw [if_pos hone]
    refine (alone_exec hstep).trans (.single ?_)
    rw [runCall, State.setCall_self]
    exact congrArg some (setCall_setCall ((p.shared.subRef o).delete o) t _ _)
  next hone =>
    rw [if_neg hone]
    exact alone_exec hstep

/-- The loop of `lookup` finds no entry, and an entry may be evicted. -/
lemma alone_lookup (habsent : ∀ entry ∈ p.shared.list, entry.1 ≠ srsPath) (code : List (Instr String)) :
    Alone t (p.shared.setCall t ⟨.lookup srsPath :: code, [], none, none⟩)
      (p.popBack.shared.setCall t ⟨[.construct srsPath true, .copyTop, .copyTop, .emplaceFront srsPath,
        .destroy, .destroy, .copyFront] ++ code, [], none, none⟩) := by
  have htake := takeEntry_eq_none_iff.mpr habsent
  rw [Process.popBack]
  cases hpop : Srs.popBack p.shared.list with
  | none =>
    refine alone_exec ?_
    simp only [exec, htake, hpop]
  | some entry =>
    have hlookup : exec p.shared t ⟨code, [], none, none⟩ false (.lookup srsPath) =
        some ({ p.shared with list := entry.2 }, ⟨.destroy :: ([.construct srsPath true, .copyTop,
          .copyTop, .emplaceFront srsPath, .destroy, .destroy, .copyFront] ++ code), [some entry.1],
          none, none⟩) := by
      simp only [exec, htake, hpop]
    exact (alone_exec hlookup).trans (alone_destroy_eq { p with shared := { p.shared with list := entry.2 } } ..)

theorem createSRS_steps (hmtx : p.shared.mtx = none)
    (habsent : ∀ entry ∈ p.shared.list, entry.1 ≠ srsPath)
    (h : (SrsInternal.construct sys srsPath p.resources).1 = .error e) (ret : Option ℕ) (cache : Bool) :
    Steps t (p.shared.setCall t (.start (Srs.createSRS srsPath cache) [] none))
      ((p.createSRS sys ret srsPath cache).2.2.shared.setCall t .idle) := by
  rw [createSRS_failed habsent h]
  cases cache with
  | false => exact steps_construct p.shared srsPath false _ _ _
  | true =>
    simp only [if_true]
    rw [← popBack_lock hmtx (some t)]
    set locked : Process ι := { p with shared := { p.shared with mtx := some t } } with hlocked
    have hlock : Alone t (p.shared.setCall t (.start (Srs.createSRS srsPath true) [] none))
        (locked.shared.setCall t ⟨[.lookup srsPath, .unlock, .moveRet, .destroy], [], none, none⟩) :=
      alone_exec (i := .lock) (if_pos hmtx)
    have hlookup := alone_lookup (p := locked) (t := t) habsent [.unlock, .moveRet, .destroy]
    refine (steps_of_alone (hlock.trans hlookup)).trans ((steps_construct _ _ true _ _ _).trans ?_)
    exact steps_of_alone (alone_exec (i := .unlock) rfl)

end Steps

end Srs

end SupraSeal
