import SupraSeal.Lib.Sections
import SupraSeal.Lib.Wrap
import Mathlib.Tactic.IntervalCases

/-!
# SRS files

The constructor of `SRS_internal` in `c2/cuda/groth16_srs.cuh`. It maps the file and moves a cursor
over the verification key and six counted sections, with a check of the file size before each count.
The points of five sections are read later, by another thread, into slices of one allocation.
-/

namespace SupraSeal

open Sections

namespace Srs

/-! ### The constructor -/

/-- A range of bytes, in the file or in memory. -/
structure ByteRange where
  off : ℕ
  len : ℕ
  deriving DecidableEq

namespace ByteRange

def stop (r : ByteRange) : ℕ := r.off + r.len

def Disjoint (r r' : ByteRange) : Prop := r.stop ≤ r'.off ∨ r'.stop ≤ r.off

end ByteRange

/-- `slice_t`. -/
structure Slice where
  ptr : ℕ
  size : ℕ
  deriving DecidableEq

def p1AffineSize : ℕ := 96

def p2AffineSize : ℕ := 192

def vkOffset : ℕ := p1AffineSize * 3 + p2AffineSize * 3

def sizeofUInt32 : ℕ := 4

/-- A result of `size_t` arithmetic. -/
def sizeT (x : ℕ) : ℕ := x % 2 ^ 64

/-- `(sz + 4095) & ~4095`. -/
def roundUp (sz : ℕ) : ℕ := Nat.ldiff (sizeT (sz + 4095)) 4095

/-- `from_big_endian<uint32_t>`. -/
def fromBigEndian (ptr : ℕ → Byte) : BitVec 32 :=
  (List.range' 1 (sizeofUInt32 - 1)).foldl (fun res i => (res <<< 8) ||| (ptr i).setWidth 32)
    ((ptr 0).setWidth 32)

inductive SrsError
  | noDevice
  | mmap
  | layout
  | cudaHostAlloc
  deriving DecidableEq

/-- What the constructor finds: the devices, the sizes of the points in memory, and where an allocation
of some size is put. -/
structure Host where
  ngpus : ℕ
  affineSize : ℕ
  affineFp2Size : ℕ
  affineSize_le : affineSize ≤ 4096
  affineFp2Size_le : affineFp2Size ≤ 4096
  cudaHostAlloc : ℕ → Option ℕ

/-- A section of the file: how many points it has and where they start. -/
structure Section where
  size : BitVec 32
  off : ℕ
  deriving DecidableEq

/-- The local `data` of the constructor. -/
structure SrsData where
  h : Section
  l : Section
  a : Section
  bG1 : Section
  bG2 : Section
  deriving DecidableEq

structure SrsInternal where
  data : SrsData
  /-- What the constructor has read. -/
  reads : List ByteRange
  h : Slice
  l : Slice
  a : Slice
  bG1 : Slice
  bG2 : Slice
  pinned : ℕ
  total : ℕ
  deriving DecidableEq

/-- The points of the verification key, with the cursor behind them. -/
def readVk : List ByteRange × ℕ :=
  [p1AffineSize, p1AffineSize, p2AffineSize, p2AffineSize, p1AffineSize, p2AffineSize].foldl
    (fun (reads, cursor) pointSize => (reads ++ [⟨cursor, pointSize⟩], cursor + pointSize)) ([], 0)

/-- The check before a count, the count, and the cursor behind its points. -/
def readSection (file : List Byte) (cursor : ℕ) : Except SrsError (Section × ℕ) :=
  if file.length ≤ sizeT (cursor + sizeofUInt32) then .error .layout
  else
    let size := fromBigEndian fun i => file.getD (cursor + i) 0
    let off := sizeT (cursor + sizeofUInt32)
    .ok (⟨size, off⟩, sizeT (off + size.toNat * p1AffineSize))

/-- The sections, and where their counts were read. The last section is passed like the others, by the
size of a `p1` point. -/
def readSections (file : List Byte) : Except SrsError (SrsData × List ByteRange) := do
  let (vk, c₀) := readVk
  let (_, c₁) ← readSection file c₀  -- ic
  let (h, c₂) ← readSection file c₁
  let (l, c₃) ← readSection file c₂
  let (a, c₄) ← readSection file c₃
  let (bG1, c₅) ← readSection file c₄
  let (bG2, c₆) ← readSection file c₅
  if file.length < c₆ then throw .layout
  return (⟨h, l, a, bG1, bG2⟩, vk ++ [c₀, c₁, c₂, c₃, c₄, c₅].map fun c => ⟨c, sizeofUInt32⟩)

/-- The allocation, and the slices carved out of it. -/
def SrsInternal.allocate (host : Host) (data : SrsData) (reads : List ByteRange) :
    Except SrsError SrsInternal :=
  let lSize := roundUp (sizeT (data.l.size.toNat * host.affineSize))
  let aSize := roundUp (sizeT (data.a.size.toNat * host.affineSize))
  let b1Size := roundUp (sizeT (data.bG1.size.toNat * host.affineSize))
  let b2Size := roundUp (sizeT (data.bG2.size.toNat * host.affineFp2Size))
  let total := sizeT (lSize + aSize + b1Size + b2Size)
  let total := sizeT (total + roundUp (sizeT (data.h.size.toNat * host.affineSize)))
  match host.cudaHostAlloc total with
  | none => .error .cudaHostAlloc
  | some pinned =>
    .ok {
      data, reads, pinned, total
      l := ⟨pinned, data.l.size.toNat⟩
      a := ⟨pinned + lSize, data.a.size.toNat⟩
      bG1 := ⟨pinned + lSize + aSize, data.bG1.size.toNat⟩
      bG2 := ⟨pinned + lSize + aSize + b1Size, data.bG2.size.toNat⟩
      h := ⟨pinned + lSize + aSize + b1Size + b2Size, data.h.size.toNat⟩ }

/-- `SRS_internal::SRS_internal`; an empty file cannot be mapped. -/
def SrsInternal.new (host : Host) (file : List Byte) : Except SrsError SrsInternal :=
  if host.ngpus = 0 then .error .noDevice
  else if file.length = 0 then .error .mmap
  else do
    let (data, reads) ← readSections file
    allocate host data reads

/-! ### The reader thread -/

/-- What `read_g1_points` reads, point by point. -/
def readG1Points (points : Slice) (srsPtr : ℕ) : List ByteRange :=
  (List.range points.size).map fun i => ⟨srsPtr + i * p1AffineSize, p1AffineSize⟩

def readG2Points (points : Slice) (srsPtr : ℕ) : List ByteRange :=
  (List.range points.size).map fun i => ⟨srsPtr + i * p2AffineSize, p2AffineSize⟩

namespace SrsInternal

variable (srs : SrsInternal)

def readThread : List ByteRange :=
  readG1Points srs.h srs.data.h.off ++ readG1Points srs.l srs.data.l.off ++
    readG1Points srs.a srs.data.a.off ++ readG1Points srs.bG1 srs.data.bG1.off ++
    readG2Points srs.bG2 srs.data.bG2.off

/-- The bytes of the five slices. -/
def slices (host : Host) : List ByteRange :=
  [⟨srs.l.ptr, srs.l.size * host.affineSize⟩, ⟨srs.a.ptr, srs.a.size * host.affineSize⟩,
    ⟨srs.bG1.ptr, srs.bG1.size * host.affineSize⟩, ⟨srs.bG2.ptr, srs.bG2.size * host.affineFp2Size⟩,
    ⟨srs.h.ptr, srs.h.size * host.affineSize⟩]

/-- All that is read lies in a file of this size. -/
def ReadsWithin (fileSize : ℕ) : Prop :=
  ∀ r ∈ srs.reads ++ srs.readThread, r.stop ≤ fileSize

instance (n : ℕ) : Decidable (srs.ReadsWithin n) := inferInstanceAs (Decidable (∀ r ∈ _, _))

/-- The slices are disjoint, and inside the allocation. -/
structure SlicesFit (host : Host) : Prop where
  disjoint : (srs.slices host).Pairwise ByteRange.Disjoint
  inside : ∀ r ∈ srs.slices host, srs.pinned ≤ r.off ∧ r.stop ≤ srs.pinned + srs.total

end SrsInternal

/-! ### The layout of the file -/

section Layout

variable (file : List Byte)

/-- The big-endian number at some position. -/
def countAt (pos : ℕ) : BitVec 32 := fromBigEndian fun i => file.getD (pos + i) 0

/-- Where the count of section `k` stands, if all sections before it have `p1` points. -/
def countPos : ℕ → ℕ
  | 0 => vkOffset
  | k + 1 => countPos k + sizeofUInt32 + (countAt file (countPos k)).toNat * p1AffineSize

/-- Where the file should end: the last section is the only one with `p2` points. -/
def layoutEnd : ℕ :=
  countPos file 5 + sizeofUInt32 + (countAt file (countPos file 5)).toNat * p2AffineSize

/-- A section, when all sections before it have `p1` points. -/
def sectionAt (k : ℕ) : Section :=
  ⟨countAt file (countPos file k), countPos file k + sizeofUInt32⟩

end Layout

/-! ### Parsing follows the layout -/

lemma bind_eq_ok {ε α β : Type} {x : Except ε α} {f : α → Except ε β} {b : β} :
    x >>= f = .ok b ↔ ∃ a, x = .ok a ∧ f a = .ok b := by
  cases x with
  | error e =>
    constructor
    · intro h
      cases h
    · rintro ⟨a, ha, -⟩
      cases ha
  | ok a =>
    constructor
    · intro h
      exact ⟨a, rfl, h⟩
    · rintro ⟨_, ha, h⟩
      cases ha
      exact h

lemma sizeT_eq {x : ℕ} (h : x < 2 ^ 64) : sizeT x = x := Nat.mod_eq_of_lt h

section Parse

variable {file : List Byte} {k : ℕ}

lemma countPos_le (file : List Byte) (k : ℕ) :
    countPos file k ≤ vkOffset + k * (sizeofUInt32 + 2 ^ 32 * p1AffineSize) := by
  induction k with
  | zero => simp [countPos]
  | succ k ih =>
    have hcount := (countAt file (countPos file k)).isLt
    rw [countPos, Nat.succ_mul, ← Nat.add_assoc, Nat.add_assoc (countPos file k)]
    refine Nat.add_le_add ih (Nat.add_le_add_left ?_ _)
    exact Nat.mul_le_mul_right _ hcount.le

/-- No count makes the cursor wrap. -/
lemma countPos_lt (file : List Byte) (hk : k ≤ 6) : countPos file k + sizeofUInt32 < 2 ^ 64 := by
  have hle := countPos_le file k
  have hmul := Nat.mul_le_mul_right (sizeofUInt32 + 2 ^ 32 * p1AffineSize) hk
  have hbound : vkOffset + 6 * (sizeofUInt32 + 2 ^ 32 * p1AffineSize) + sizeofUInt32 < 2 ^ 64 := by
    decide
  omega

lemma countPos_mono (file : List Byte) : Monotone (countPos file) := by
  refine monotone_nat_of_le_succ fun k => ?_
  rw [countPos, Nat.add_assoc]
  exact Nat.le_add_right _ _

/-- One section: the count is inside the file, and the cursor moves to the next one. -/
lemma readSection_eq_ok (hk : k < 6) {s : Section} {cursor : ℕ}
    (h : readSection file (countPos file k) = .ok (s, cursor)) :
    countPos file k + sizeofUInt32 < file.length ∧ s = sectionAt file k ∧
      cursor = countPos file (k + 1) := by
  have hpos := sizeT_eq (countPos_lt file hk.le)
  have hnext : sizeT (countPos file (k + 1)) = countPos file (k + 1) :=
    sizeT_eq (lt_of_le_of_lt (Nat.le_add_right _ _) (countPos_lt file (Nat.succ_le_of_lt hk)))
  rw [readSection, hpos] at h
  split_ifs at h with hlen
  obtain ⟨rfl, rfl⟩ := Prod.mk.inj (Except.ok.inj h)
  exact ⟨Nat.lt_of_not_le hlen, rfl, hnext⟩

/-- What is known when the constructor has passed all its checks. -/
structure Parsed (file : List Byte) (data : SrsData) (reads : List ByteRange) : Prop where
  counts : ∀ k < 6, countPos file k + sizeofUInt32 < file.length
  last : countPos file 6 ≤ file.length
  data_eq : data = ⟨sectionAt file 1, sectionAt file 2, sectionAt file 3, sectionAt file 4,
    sectionAt file 5⟩
  reads_eq : reads =
    readVk.1 ++ (List.range 6).map fun k => ⟨countPos file k, sizeofUInt32⟩

lemma readSections_eq_ok {data : SrsData} {reads : List ByteRange}
    (h : readSections file = .ok (data, reads)) : Parsed file data reads := by
  simp only [readSections, bind_eq_ok] at h
  obtain ⟨⟨ic, c₁⟩, h₀, ⟨s₁, c₂⟩, h₁, ⟨s₂, c₃⟩, h₂, ⟨s₃, c₄⟩, h₃, ⟨s₄, c₅⟩, h₄, ⟨s₅, c₆⟩, h₅, h⟩ := h
  obtain ⟨hlt₀, -, rfl⟩ := readSection_eq_ok (k := 0) (by decide) h₀
  obtain ⟨hlt₁, rfl, rfl⟩ := readSection_eq_ok (by decide) h₁
  obtain ⟨hlt₂, rfl, rfl⟩ := readSection_eq_ok (by decide) h₂
  obtain ⟨hlt₃, rfl, rfl⟩ := readSection_eq_ok (by decide) h₃
  obtain ⟨hlt₄, rfl, rfl⟩ := readSection_eq_ok (by decide) h₄
  obtain ⟨hlt₅, rfl, rfl⟩ := readSection_eq_ok (by decide) h₅
  split_ifs at h with hlen
  · cases h
  · obtain ⟨rfl, rfl⟩ := Prod.mk.inj (Except.ok.inj h)
    refine ⟨fun k hk => ?_, Nat.le_of_not_lt hlen, rfl, rfl⟩
    interval_cases k <;> assumption

end Parse

/-! ### The slices -/

lemma roundUp_bounds (sz : ℕ) (h : sz + 4095 < 2 ^ 64) : sz ≤ roundUp sz ∧ roundUp sz ≤ sz + 4095 := by
  have hldiff : roundUp sz = 2 ^ 12 * ((sz + 4095) / 2 ^ 12) := by
    rw [roundUp, sizeT_eq h]
    exact Wrap.ldiff_two_pow_sub_one (sz + 4095) 12
  rw [hldiff]
  omega

/-- The size of a slice in the allocation. -/
lemma roundUp_points (n : BitVec 32) {pointSize : ℕ} (hsize : pointSize ≤ 4096) :
    n.toNat * pointSize ≤ roundUp (sizeT (n.toNat * pointSize)) ∧
      roundUp (sizeT (n.toNat * pointSize)) ≤ 2 ^ 45 := by
  have hmul : n.toNat * pointSize ≤ 2 ^ 32 * 4096 := Nat.mul_le_mul n.isLt.le hsize
  rw [sizeT_eq (by omega)]
  obtain ⟨hle, hlt⟩ := roundUp_bounds (n.toNat * pointSize) (by omega)
  exact ⟨hle, by omega⟩

/-- The slices follow each other, each with room for its points. -/
structure Carved (host : Host) (srs : SrsInternal) (lSize aSize b1Size b2Size hSize : ℕ) : Prop where
  l : srs.l.ptr = srs.pinned ∧ srs.l.size * host.affineSize ≤ lSize
  a : srs.a.ptr = srs.pinned + lSize ∧ srs.a.size * host.affineSize ≤ aSize
  bG1 : srs.bG1.ptr = srs.pinned + lSize + aSize ∧ srs.bG1.size * host.affineSize ≤ b1Size
  bG2 : srs.bG2.ptr = srs.pinned + lSize + aSize + b1Size ∧
    srs.bG2.size * host.affineFp2Size ≤ b2Size
  h : srs.h.ptr = srs.pinned + lSize + aSize + b1Size + b2Size ∧
    srs.h.size * host.affineSize ≤ hSize
  total : srs.total = lSize + aSize + b1Size + b2Size + hSize

lemma Carved.slicesFit {host : Host} {srs : SrsInternal} {lSize aSize b1Size b2Size hSize : ℕ}
    (h : Carved host srs lSize aSize b1Size b2Size hSize) : srs.SlicesFit host := by
  obtain ⟨hl, hl'⟩ := h.l
  obtain ⟨ha, ha'⟩ := h.a
  obtain ⟨hb1, hb1'⟩ := h.bG1
  obtain ⟨hb2, hb2'⟩ := h.bG2
  obtain ⟨hh, hh'⟩ := h.h
  have htotal := h.total
  constructor
  · simp only [SrsInternal.slices, List.pairwise_cons, List.mem_cons, List.not_mem_nil, or_false,
      forall_eq_or_imp, forall_eq, ByteRange.Disjoint, ByteRange.stop, false_implies, implies_true,
      List.Pairwise.nil, and_true]
    omega
  · simp only [SrsInternal.slices, List.mem_cons, List.not_mem_nil, or_false, forall_eq_or_imp,
      forall_eq, ByteRange.stop]
    omega

/-- The allocation takes the sizes from the sections. -/
lemma allocate_eq_ok {host : Host} {data : SrsData} {reads : List ByteRange} {srs : SrsInternal}
    (h : SrsInternal.allocate host data reads = .ok srs) :
    srs.data = data ∧ srs.reads = reads ∧ srs.SlicesFit host ∧
      srs.h.size = data.h.size.toNat ∧ srs.l.size = data.l.size.toNat ∧
      srs.a.size = data.a.size.toNat ∧ srs.bG1.size = data.bG1.size.toNat ∧
      srs.bG2.size = data.bG2.size.toNat := by
  have hl := roundUp_points data.l.size host.affineSize_le
  have ha := roundUp_points data.a.size host.affineSize_le
  have hb1 := roundUp_points data.bG1.size host.affineSize_le
  have hb2 := roundUp_points data.bG2.size host.affineFp2Size_le
  have hh := roundUp_points data.h.size host.affineSize_le
  simp only [SrsInternal.allocate] at h
  generalize roundUp (sizeT (data.l.size.toNat * host.affineSize)) = lSize at h hl
  generalize roundUp (sizeT (data.a.size.toNat * host.affineSize)) = aSize at h ha
  generalize roundUp (sizeT (data.bG1.size.toNat * host.affineSize)) = b1Size at h hb1
  generalize roundUp (sizeT (data.bG2.size.toNat * host.affineFp2Size)) = b2Size at h hb2
  generalize roundUp (sizeT (data.h.size.toNat * host.affineSize)) = hSize at h hh
  have htotal : sizeT (sizeT (lSize + aSize + b1Size + b2Size) + hSize) =
      lSize + aSize + b1Size + b2Size + hSize := by
    rw [sizeT_eq (x := lSize + aSize + b1Size + b2Size) (by omega), sizeT_eq (by omega)]
  rw [htotal] at h
  split at h
  · cases h
  · have hsrs := Except.ok.inj h
    have hcarved : Carved host srs lSize aSize b1Size b2Size hSize := by
      subst hsrs
      exact ⟨⟨rfl, hl.1⟩, ⟨rfl, ha.1⟩, ⟨rfl, hb1.1⟩, ⟨rfl, hb2.1⟩, ⟨rfl, hh.1⟩, rfl⟩
    subst hsrs
    exact ⟨rfl, rfl, hcarved.slicesFit, rfl, rfl, rfl, rfl, rfl⟩

/-! ### What is read -/

/-- The points of a section are in the file if the section is. -/
lemma points_within {n start pointSize fileSize : ℕ} (hstart : start ≤ fileSize) :
    (∀ r ∈ (List.range n).map fun i => (⟨start + i * pointSize, pointSize⟩ : ByteRange),
      r.stop ≤ fileSize) ↔ start + n * pointSize ≤ fileSize := by
  constructor
  · intro h
    cases n with
    | zero => simpa using hstart
    | succ n =>
      have hlast := h _ (List.mem_map.mpr ⟨n, List.mem_range.mpr n.lt_succ_self, rfl⟩)
      rwa [ByteRange.stop, Nat.add_assoc, ← Nat.succ_mul] at hlast
  · intro h r hr
    obtain ⟨i, hi, rfl⟩ := List.mem_map.mp hr
    have hmul := Nat.mul_le_mul_right pointSize (Nat.succ_le_of_lt (List.mem_range.mp hi))
    rw [Nat.succ_mul] at hmul
    simp only [ByteRange.stop]
    omega

/-- The verification key ends where the first count stands. -/
lemma readVk_within {fileSize : ℕ} (h : vkOffset ≤ fileSize) :
    ∀ r ∈ readVk.1, r.stop ≤ fileSize := by
  have hstop : ∀ r ∈ readVk.1, r.stop ≤ vkOffset := by decide
  exact fun r hr => (hstop r hr).trans h

section Reads

variable {file : List Byte} {data : SrsData} {reads : List ByteRange}

lemma Parsed.reads_within (h : Parsed file data reads) : ∀ r ∈ reads, r.stop ≤ file.length := by
  rw [h.reads_eq, List.forall_mem_append]
  constructor
  · have hcount := h.counts 0 (by decide)
    exact readVk_within (Nat.le_of_add_right_le hcount.le)
  · intro r hr
    obtain ⟨k, hk, rfl⟩ := List.mem_map.mp hr
    exact (h.counts k (List.mem_range.mp hk)).le

/-- The points of the sections before the last one. -/
lemma Parsed.readG1Points_within (h : Parsed file data reads) {k : ℕ} (hk : k < 5) {points : Slice}
    (hpoints : points.size = (sectionAt file k).size.toNat) :
    ∀ r ∈ readG1Points points (sectionAt file k).off, r.stop ≤ file.length := by
  have hnext := h.counts (k + 1) (by omega)
  rw [countPos] at hnext
  have hoff : (sectionAt file k).off ≤ file.length := (h.counts k (by omega)).le
  rw [readG1Points, points_within hoff, hpoints]
  exact (Nat.le_add_right _ _).trans hnext.le

/-- The constructor has checked everything but the points of the last section, of which it passes half.
So all reads are in the file exactly if the file is as long as its layout says. -/
theorem new_safe_iff {host : Host} {srs : SrsInternal} (h : SrsInternal.new host file = .ok srs) :
    srs.ReadsWithin file.length ∧ srs.SlicesFit host ↔ layoutEnd file ≤ file.length := by
  rw [SrsInternal.new] at h
  split_ifs at h
  obtain ⟨⟨data, reads⟩, hparse, h⟩ := bind_eq_ok.mp h
  obtain ⟨hdata, hreads, hfit, hh, hl, ha, hb1, hb2⟩ := allocate_eq_ok h
  have hparsed := readSections_eq_ok hparse
  obtain rfl := hparsed.data_eq
  have hlast : (sectionAt file 5).off ≤ file.length := (hparsed.counts 5 (by decide)).le
  rw [and_iff_left hfit, SrsInternal.ReadsWithin, SrsInternal.readThread, hdata, hreads]
  simp only [List.forall_mem_append]
  have hb2' : (∀ r ∈ readG2Points srs.bG2 (sectionAt file 5).off, r.stop ≤ file.length) ↔
      layoutEnd file ≤ file.length := by
    rw [readG2Points, points_within hlast, hb2]
    rfl
  rw [hb2']
  constructor
  · rintro ⟨-, -, hend⟩
    exact hend
  · intro hend
    refine ⟨hparsed.reads_within, ⟨⟨⟨?_, ?_⟩, ?_⟩, ?_⟩, hend⟩
    · exact hparsed.readG1Points_within (by decide) hh
    · exact hparsed.readG1Points_within (by decide) hl
    · exact hparsed.readG1Points_within (by decide) ha
    · exact hparsed.readG1Points_within (by decide) hb1

/-- A file with a point in its last section only, and `len` bytes for it. -/
def onePointFile (len : ℕ) : List Byte :=
  List.replicate (vkOffset + 5 * sizeofUInt32 + 3) 0 ++ [1] ++ List.replicate len 0

def onePointHost : Host := ⟨1, 96, 192, by decide, by decide, fun _ => some 0⟩

def onePointSrs : SrsInternal where
  data := ⟨⟨0, 872⟩, ⟨0, 876⟩, ⟨0, 880⟩, ⟨0, 884⟩, ⟨1, 888⟩⟩
  reads := readVk.1 ++ [864, 868, 872, 876, 880, 884].map fun c => ⟨c, 4⟩
  h := ⟨4096, 0⟩
  l := ⟨0, 0⟩
  a := ⟨0, 0⟩
  bG1 := ⟨0, 0⟩
  bG2 := ⟨0, 1⟩
  pinned := 0
  total := 4096

/-- The whole point is there. -/
theorem new_safe_onePoint :
    SrsInternal.new onePointHost (onePointFile 192) = .ok onePointSrs ∧
      onePointSrs.ReadsWithin (onePointFile 192).length ∧ onePointSrs.SlicesFit onePointHost := by
  have h : SrsInternal.new onePointHost (onePointFile 192) = .ok onePointSrs := by decide +kernel
  exact ⟨h, (new_safe_iff h).mpr (by decide +kernel)⟩

/-- With half of the point the constructor does not throw, and the reader thread reads past the end. -/
theorem not_new_safe_half :
    SrsInternal.new onePointHost (onePointFile 96) = .ok onePointSrs ∧
      ¬ onePointSrs.ReadsWithin (onePointFile 96).length := by
  constructor
  · decide +kernel
  · decide +kernel

end Reads

end Srs

end SupraSeal
