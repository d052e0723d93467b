import SupraSeal.Lib.PackedBits
import SupraSeal.Lib.Reorder
import SupraSeal.Lib.Wrap
import Mathlib.Logic.Relation

/-!
# Batch addition

`split_vectors` and `execute_batch_addition` of `c2/cuda/groth16_split_msm.cu`. The points are sent to the
GPU in batches, by turns on two streams, and for each circuit a kernel adds the points of the batch whose
bit is set into the buckets of the circuit. All buffers lie in one allocation. Commands of one stream take
effect in order, and so do those on the buckets of one circuit.

The kernel is not part of the repository. Buckets that nothing was written to are `none`.

## Main results

- `correct_iff`: the batches are right, everything stays in its place, and what is downloaded are the sums
  of the marked points, if and only if there are points or there is no circuit. Without points no kernel
  writes the buckets, which are downloaded and summed up all the same.
-/

namespace SupraSeal.BatchAddition

open PackedBits Reorder

def warpSz : ℕ := 32

def numBatches : ℕ := 8

def gpuDiv : ℕ := 32 * warpSz

/-- `sizeof(mask_t)`. -/
def sizeofMask : ℕ := 8

def chunkBits : ℕ := sizeofMask * 8

/-- `split_vectors` without the tail scalars. -/
structure SplitVectors where
  bitVector : ℕ → ℕ → BitVec 64
  batchSize : ℕ
  bitVectorSize : ℕ

/-- The constructor; the bits are set later. -/
def SplitVectors.new (bitVector : ℕ → ℕ → BitVec 64) (numPoints : ℕ) : SplitVectors :=
  let batchSize := (numPoints + gpuDiv - 1) / gpuDiv
  let batchSize := (batchSize + numBatches - 1) / numBatches
  { bitVector := bitVector
    batchSize := batchSize * gpuDiv
    bitVectorSize := (numPoints + chunkBits - 1) / chunkBits }

/-- The points whose bit is set. -/
def markedSum {G : Type*} [AddCommMonoid G] (points : ℕ → G) (bits : ℕ → BitVec 64) (n : ℕ) : G :=
  ∑ pos ∈ Finset.range n, if bitAt bits pos then points pos else 0

/-- A GPU with the kernel `batch_addition`: it overwrites the buckets with the sum of the marked
points, or adds them with `accumulate`. -/
structure Gpu (G β : Type*) [AddCommMonoid G] where
  smCount : ℕ
  batchAddBlockSize : ℕ
  affineSize : ℕ
  bucketSize : ℕ
  batchAddition : Option β → (ℕ → G) → ℕ → (ℕ → BitVec 64) → Bool → Option β
  sumUp : β → G
  /-- The product is an `int`. -/
  smCount_mul_lt : smCount * batchAddBlockSize < 2 ^ 31
  overwrites : ∀ ret points n bits, ∃ b, batchAddition ret points n bits false = some b ∧
    sumUp b = markedSum points bits n
  accumulates : ∀ b points n bits, ∃ b', batchAddition (some b) points n bits true = some b' ∧
    sumUp b' = sumUp b + markedSum points bits n

/-! ### The loop over the points -/

/-- A round of the loop. -/
structure Batch where
  batch : ℕ
  cursor : ℕ
  amount : ℕ
  sid : ℕ

/-- The loop, with the stream after it; `none` when the fuel does not suffice. -/
def batchLoop (batchSize : ℕ) : (fuel npoints batch sid : ℕ) → Option (List Batch × ℕ)
  | 0, _, _, _ => none
  | fuel + 1, npoints, batch, sid =>
    if 0 < npoints then
      let amount := min npoints batchSize % 2 ^ 32
      (batchLoop batchSize fuel (npoints - amount) (batch + 1) (sid ^^^ 1)).map
        fun (bs, sid') => (⟨batch, batch * batchSize, amount, sid⟩ :: bs, sid')
    else some ([], sid)

/-! ### Commands -/

/-- A copy or a launch; `word` is where the bits of a batch start. -/
inductive Command
  | uploadBits (c : ℕ)
  | uploadPoints (sid cursor amount : ℕ)
  | launch (sid c amount word : ℕ) (accumulate : Bool)
  | download (sid : ℕ)

namespace Command

def stream : Command → ℕ
  | uploadBits _ => 0
  | uploadPoints sid _ _ => sid
  | launch sid _ _ _ _ => sid
  | download sid => sid

/-- The command is about the buckets of circuit `c`. -/
def Touches : Command → (c : ℕ) → Prop
  | uploadBits _, _ => False
  | uploadPoints _ _ _, _ => False
  | launch _ c' _ _ _, c => c' = c
  | download _, _ => True

/-- The commands take effect in the order of issue. -/
def Ordered (a b : Command) : Prop := a.stream = b.stream ∨ ∃ c, a.Touches c ∧ b.Touches c

end Command

/-- The arguments of `execute_batch_addition`. -/
structure Execution (G β : Type*) [AddCommMonoid G] where
  gpu : Gpu G β
  circuit0 : ℕ
  numCircuits : ℕ
  points : ℕ → G
  npoints : ℕ
  bitVector : ℕ → ℕ → BitVec 64

/-- What is in the allocation, row by row, and on the host. -/
structure Memory (G β : Type*) where
  points : ℕ → ℕ → G
  bits : ℕ → ℕ → BitVec 64
  buckets : ℕ → Option β
  /-- The buckets on the host. -/
  downloaded : ℕ → Option β

/-- The rows of `d_points`, `d_buckets` and `d_bit_vectors`. -/
inductive Row
  | points (sid : ℕ)
  | buckets (c : ℕ)
  | bits (c : ℕ)

/-- Bytes of the allocation. -/
structure Extent where
  off : ℕ
  len : ℕ

namespace Extent

def stop (e : Extent) : ℕ := e.off + e.len

def Within (e r : Extent) : Prop := r.off ≤ e.off ∧ e.stop ≤ r.stop

def Disjoint (e r : Extent) : Prop := e.stop ≤ r.off ∨ r.stop ≤ e.off

end Extent

namespace Execution

variable {G β : Type*} [AddCommMonoid G] (e : Execution G β)

def split : SplitVectors := .new e.bitVector e.npoints

/-! ### The allocation -/

def nbuckets : ℕ := e.gpu.smCount * e.gpu.batchAddBlockSize / warpSz % 2 ^ 32

/-- `(bit_vector_size + WARP_SZ - 1) & (0u - WARP_SZ)`: the mask has 32 bits. -/
def bitVectorSize : ℕ := Nat.ldiff ((e.split.bitVectorSize + warpSz - 1) % 2 ^ 32) (warpSz - 1)

def dPointsSize : ℕ := e.split.batchSize * 2 * e.gpu.affineSize

def dBucketsSize : ℕ := e.numCircuits * e.nbuckets * e.gpu.bucketSize

def dTempSize : ℕ :=
  e.dPointsSize + e.dBucketsSize + e.numCircuits * e.bitVectorSize * sizeofMask

/-- A row of a `vec2d_t`. -/
def row : Row → Extent
  | .points sid =>
    ⟨sid * (e.split.batchSize % 2 ^ 32) * e.gpu.affineSize,
      e.split.batchSize % 2 ^ 32 * e.gpu.affineSize⟩
  | .buckets c =>
    ⟨e.dPointsSize + c * e.nbuckets * e.gpu.bucketSize, e.nbuckets * e.gpu.bucketSize⟩
  | .bits c =>
    ⟨e.dPointsSize + e.dBucketsSize + c * e.bitVectorSize * sizeofMask, e.bitVectorSize * sizeofMask⟩

/-- The rows that there are. -/
def IsRow : Row → Prop
  | .points sid => sid < 2
  | .buckets c => c < e.numCircuits
  | .bits c => c < e.numCircuits

/-- What a command reads and writes of the rows. A kernel reads the bits in groups of `gpuDiv`. -/
def accesses : Command → List (Row × Extent)
  | .uploadBits c => [(.bits c, ⟨(e.row (.bits c)).off, e.split.bitVectorSize * sizeofMask⟩)]
  | .uploadPoints sid _ amount =>
    [(.points sid, ⟨(e.row (.points sid)).off, amount * e.gpu.affineSize⟩)]
  | .launch sid c amount word _ =>
    [(.buckets c, ⟨(e.row (.buckets c)).off,
        e.gpu.smCount * e.gpu.batchAddBlockSize / warpSz * e.gpu.bucketSize⟩),
      (.points sid, ⟨(e.row (.points sid)).off, amount * e.gpu.affineSize⟩),
      (.bits c, ⟨(e.row (.bits c)).off + word * sizeofMask,
        (amount + gpuDiv - 1) / gpuDiv * (gpuDiv / 8)⟩)]
  | .download _ => (List.range e.numCircuits).map fun c => (.buckets c, e.row (.buckets c))

/-! ### What is executed -/

def batchCommands (b : Batch) : List Command :=
  .uploadPoints b.sid b.cursor b.amount ::
    (List.range e.numCircuits).map fun c =>
      .launch b.sid c b.amount (b.cursor / chunkBits) (decide (b.batch > 0))

/-- The loop, with the stream after it. -/
def batches : Option (List Batch × ℕ) := batchLoop e.split.batchSize (e.npoints + 1) e.npoints 0 0

def issued (bs : List Batch) (sid : ℕ) : List Command :=
  (List.range e.numCircuits).map .uploadBits ++ (bs.flatMap e.batchCommands ++ [.download (sid ^^^ 1)])

/-- The commands in the order of issue; `none` when the assertion fails. -/
def commands : Option (List Command) :=
  if e.split.batchSize = e.split.batchSize % 2 ^ 32 then
    e.batches.map fun (bs, sid) => e.issued bs sid
  else none

def exec (m : Memory G β) : Command → Memory G β
  | .uploadBits c =>
    { m with
      bits := Function.update m.bits c fun w =>
        if w < e.split.bitVectorSize then e.split.bitVector (e.circuit0 + c) w else m.bits c w }
  | .uploadPoints sid cursor amount =>
    { m with
      points := Function.update m.points sid fun j =>
        if j < amount then e.points (cursor + j) else m.points sid j }
  | .launch sid c amount word accumulate =>
    { m with
      buckets := Function.update m.buckets c
        (e.gpu.batchAddition (m.buckets c) (m.points sid) amount (fun w => m.bits c (word + w))
          accumulate) }
  | .download _ =>
    { m with downloaded := fun c => if c < e.numCircuits then m.buckets c else m.downloaded c }

/-- Command `k`. -/
def execAt (cmds : List Command) (k : ℕ) (m : Memory G β) : Memory G β :=
  match cmds[k]? with
  | some cmd => e.exec m cmd
  | none => m

/-- `batch_add_res[c]`; `none` when buckets were downloaded that nothing was written to. -/
def batchAddRes (m : Memory G β) (c : ℕ) : Option G := (m.downloaded c).map e.gpu.sumUp

end Execution

/-- Command `k` is issued after command `i`, on its stream or for the buckets of its circuit. -/
def Waits (cmds : List Command) (i k : ℕ) : Prop :=
  i < k ∧ ∃ a b, cmds[i]? = some a ∧ cmds[k]? = some b ∧ a.Ordered b

def Before (cmds : List Command) : ℕ → ℕ → Prop := Relation.TransGen (Waits cmds)

/-! ### Sizes -/

section Sizes

variable {G β : Type*} [AddCommMonoid G] {e : Execution G β}

lemma npoints_le (e : Execution G β) : e.npoints ≤ numBatches * e.split.batchSize := by
  simp only [Execution.split, SplitVectors.new, numBatches, gpuDiv, warpSz]
  omega

lemma gpuDiv_dvd_batchSize (e : Execution G β) : gpuDiv ∣ e.split.batchSize := Nat.dvd_mul_left ..

/-- Every batch starts at a word of the bit vector. -/
lemma chunkBits_dvd_cursor {b : Batch} (hbatch : b.batch * e.split.batchSize = b.cursor) :
    chunkBits ∣ b.cursor := by
  have hdiv : chunkBits ∣ gpuDiv := by decide
  rw [← hbatch]
  exact Dvd.dvd.mul_left (hdiv.trans (gpuDiv_dvd_batchSize e)) _

lemma batchSize_pos (h : 0 < e.npoints) : 0 < e.split.batchSize := by
  have := npoints_le e
  rw [numBatches] at this
  omega

lemma split_bitVectorSize (e : Execution G β) : e.split.bitVectorSize = numWords e.npoints := rfl

/-- Rows of bits have room for whole groups of bits. -/
lemma bitVectorSize_eq (h : e.split.batchSize < 2 ^ 32) :
    e.bitVectorSize = 32 * ((numWords e.npoints + 31) / 32) := by
  have hn := npoints_le e
  have hlt : numWords e.npoints + 31 < 2 ^ 32 := by
    rw [numBatches] at hn
    rw [numWords]
    omega
  rw [Execution.bitVectorSize, split_bitVectorSize]
  show Nat.ldiff ((numWords e.npoints + 31) % 2 ^ 32) (2 ^ 5 - 1) = _
  rw [Nat.mod_eq_of_lt hlt, Wrap.ldiff_two_pow_sub_one]
  rfl

end Sizes

/-! ### Batches -/

/-- The batches cover the points from `x` up to `y`, in order; `B` is their size. -/
inductive Tiles (B : ℕ) : (x : ℕ) → List Batch → (y : ℕ) → Prop
  | nil {x : ℕ} : Tiles B x [] x
  | cons {x y : ℕ} {b : Batch} {bs : List Batch} :
      b.cursor = x → b.batch * B = x → 0 < b.amount → b.amount ≤ B → b.sid < 2 →
      Tiles B (x + b.amount) bs y → Tiles B x (b :: bs) y

namespace Tiles

variable {B x y : ℕ} {bs : List Batch}

lemma le (h : Tiles B x bs y) : x ≤ y := by
  induction h with
  | nil => exact le_rfl
  | cons _ _ _ _ _ _ ih => exact (Nat.le_add_right ..).trans ih

/-- Every point is in one batch. -/
lemma flatMap_range (h : Tiles B x bs y) :
    bs.flatMap (fun b => List.range' b.cursor b.amount) = List.range' x (y - x) := by
  induction h with
  | nil => simp
  | @cons x y b bs hcursor _ _ _ _ hbs ih =>
    have hle := hbs.le
    have happend : List.range' x b.amount ++ List.range' (x + b.amount) (y - (x + b.amount)) =
        List.range' x (b.amount + (y - (x + b.amount))) := List.range'_append_1
    rw [List.flatMap_cons, hcursor, ih, happend, show b.amount + (y - (x + b.amount)) = y - x by omega]

/-- Where a batch lies. -/
lemma of_mem (h : Tiles B x bs y) {b : Batch} (hb : b ∈ bs) :
    b.batch * B = b.cursor ∧ b.cursor + b.amount ≤ y ∧ b.amount ≤ B ∧ b.sid < 2 := by
  induction h with
  | nil => cases hb
  | @cons x y b' bs hcursor hbatch _ hle hsid hbs ih =>
    rcases List.mem_cons.mp hb with rfl | hb
    · exact ⟨hbatch.trans hcursor.symm, hcursor ▸ hbs.le, hle, hsid⟩
    · exact ih hb

end Tiles

/-- The loop returns, and its batches cover the points. -/
lemma batchLoop_tiles {B : ℕ} (hpos : 0 < B) (hlt : B < 2 ^ 32) :
    ∀ {fuel npoints : ℕ} (batch : ℕ) {sid : ℕ}, npoints < fuel → sid < 2 →
      ∃ bs sid', batchLoop B fuel npoints batch sid = some (bs, sid') ∧
        Tiles B (batch * B) bs (batch * B + npoints) ∧ bs.length * B < npoints + B ∧
        ∀ b ∈ bs.head?, b.sid = sid := by
  intro fuel
  induction fuel with
  | zero => exact fun _ _ h => absurd h (Nat.not_lt_zero _)
  | succ fuel ih =>
    intro npoints batch sid hfuel hsid
    rw [batchLoop]
    by_cases hn : 0 < npoints
    · have hamount : min npoints B % 2 ^ 32 = min npoints B :=
        Nat.mod_eq_of_lt ((Nat.min_le_right ..).trans_lt hlt)
      have hxor : sid ^^^ 1 < 2 := Nat.xor_lt_two_pow (n := 1) hsid (by decide)
      obtain ⟨bs, sid', hloop, htiles, hlen, -⟩ :=
        @ih (npoints - min npoints B) (batch + 1) (sid ^^^ 1) (by omega) hxor
      simp only [if_pos hn, hamount, hloop, Option.map_some]
      refine ⟨_, sid', rfl, .cons rfl rfl (by simp only; omega) (Nat.min_le_right ..) hsid ?_, ?_, ?_⟩
      · -- only the last batch is smaller than the others
        rcases Nat.le_total B npoints with hB | hB
        · rw [Nat.min_eq_right hB] at htiles ⊢
          rw [Nat.succ_mul, Nat.add_assoc, Nat.add_sub_cancel' hB] at htiles
          exact htiles
        · rw [Nat.min_eq_left hB] at htiles ⊢
          rw [Nat.sub_self, Nat.add_zero] at htiles
          cases htiles with
          | nil => exact .nil
          | cons _ _ h _ _ hbs =>
            have := hbs.le
            omega
      · rw [List.length_cons, Nat.succ_mul]
        rcases Nat.le_total B npoints with hB | hB
        · rw [Nat.min_eq_right hB] at hlen
          omega
        · rw [Nat.min_eq_left hB, Nat.sub_self, Nat.zero_add] at hlen
          have hzero : bs.length = 0 := by
            by_contra hne
            have := Nat.le_mul_of_pos_left B (Nat.pos_of_ne_zero hne)
            omega
          rw [hzero]
          omega
      · intro b hb
        cases hb
        rfl
    · obtain rfl : npoints = 0 := Nat.eq_zero_of_not_pos hn
      rw [if_neg hn]
      exact ⟨[], sid, rfl, .nil, by simpa using hpos, by simp⟩

/-! ### Commands that commute -/

section Commute

variable {G β : Type*} [AddCommMonoid G] (e : Execution G β)

def Commutes (a b : Command) : Prop := ∀ m, e.exec (e.exec m b) a = e.exec (e.exec m a) b

variable {e}

lemma Commutes.symm {a b : Command} (h : Commutes e a b) : Commutes e b a := fun m => (h m).symm

lemma uploadBits_launch_commutes {c c' : ℕ} (hne : c' ≠ c) {sid amount word : ℕ} {accumulate : Bool} :
    Commutes e (.uploadBits c) (.launch sid c' amount word accumulate) := by
  intro m
  simp only [Execution.exec, Function.update_of_ne hne]

lemma uploadPoints_commutes {sid sid' : ℕ} (hne : sid ≠ sid') {cursor amount cursor' amount' : ℕ} :
    Commutes e (.uploadPoints sid cursor amount) (.uploadPoints sid' cursor' amount') := by
  intro m
  simp only [Execution.exec, Function.update_of_ne hne, Function.update_of_ne hne.symm]
  rw [Function.update_comm hne]

lemma uploadPoints_launch_commutes {sid sid' : ℕ} (hne : sid ≠ sid') {cursor amount c amount' word : ℕ}
    {accumulate : Bool} :
    Commutes e (.uploadPoints sid cursor amount) (.launch sid' c amount' word accumulate) := by
  intro m
  simp only [Execution.exec, Function.update_of_ne hne.symm]

lemma launch_commutes {c c' : ℕ} (hne : c ≠ c') {sid amount word sid' amount' word' : ℕ}
    {accumulate accumulate' : Bool} :
    Commutes e (.launch sid c amount word accumulate) (.launch sid' c' amount' word' accumulate') := by
  intro m
  simp only [Execution.exec, Function.update_of_ne hne, Function.update_of_ne hne.symm]
  rw [Function.update_comm hne]

/-- Only the bits that a kernel reads are not ordered by themselves. -/
lemma commutes_of_not_ordered {a b : Command} (h : ¬a.Ordered b)
    (hab : ∀ c sid amount word acc, ¬(a = .uploadBits c ∧ b = .launch sid c amount word acc))
    (hba : ∀ c sid amount word acc, ¬(b = .uploadBits c ∧ a = .launch sid c amount word acc)) :
    Commutes e a b := by
  have hstream : a.stream ≠ b.stream := fun heq => h (.inl heq)
  have htouch : ∀ c, a.Touches c → ¬b.Touches c := fun c ha hb => h (.inr ⟨c, ha, hb⟩)
  cases a with
  | uploadBits c =>
    cases b with
    | uploadBits c' => exact absurd rfl hstream
    | uploadPoints sid cursor amount => exact fun _ => rfl
    | launch sid c' amount word acc =>
      refine uploadBits_launch_commutes ?_
      rintro rfl
      exact hab _ _ _ _ _ ⟨rfl, rfl⟩
    | download sid => exact fun _ => rfl
  | uploadPoints sid cursor amount =>
    cases b with
    | uploadBits c' => exact fun _ => rfl
    | uploadPoints sid' cursor' amount' => exact uploadPoints_commutes hstream
    | launch sid' c amount' word acc => exact uploadPoints_launch_commutes hstream
    | download sid' => exact fun _ => rfl
  | launch sid c amount word acc =>
    cases b with
    | uploadBits c' =>
      refine (uploadBits_launch_commutes ?_).symm
      rintro rfl
      exact hba _ _ _ _ _ ⟨rfl, rfl⟩
    | uploadPoints sid' cursor' amount' => exact (uploadPoints_launch_commutes hstream.symm).symm
    | launch sid' c' amount' word' acc' => exact launch_commutes fun heq => htouch c rfl heq.symm
    | download sid' => exact absurd trivial (htouch c rfl)
  | download sid =>
    cases b with
    | uploadBits c' => exact fun _ => rfl
    | uploadPoints sid' cursor' amount' => exact fun _ => rfl
    | launch sid' c amount word acc => exact absurd rfl (htouch c trivial)
    | download sid' => exact absurd trivial (htouch 0 trivial)

end Commute

/-! ### Orders in which commands take effect -/

section Order

variable {G β : Type*} [AddCommMonoid G] {e : Execution G β} {bs : List Batch} {sid i k : ℕ}

lemma issued_of_lt (hk : k < e.numCircuits) : (e.issued bs sid)[k]? = some (.uploadBits k) := by
  rw [Execution.issued, List.getElem?_append_left (by simpa using hk)]
  simp [hk]

lemma lt_of_uploadBits {c : ℕ} (h : (e.issued bs sid)[k]? = some (.uploadBits c)) :
    k < e.numCircuits := by
  by_contra hk
  rw [Execution.issued, List.getElem?_append_right (by simpa using hk)] at h
  simpa [Execution.batchCommands] using List.mem_of_getElem? h

/-- The bits are uploaded before the first launch. -/
lemma lt_of_launch {s c amount word : ℕ} {acc : Bool} (hi : i < e.numCircuits)
    (hk : (e.issued bs sid)[k]? = some (.launch s c amount word acc)) : i < k := by
  by_contra hle
  have hbits : (e.issued bs sid)[k]? = _ := issued_of_lt ((Nat.le_of_not_lt hle).trans_lt hi)
  rw [hk] at hbits
  cases hbits

/-- The first batch uses the stream on which the bits are uploaded. -/
lemma before_launch (hbs : ∀ b ∈ bs.head?, b.sid = 0) {s c amount word : ℕ} {acc : Bool}
    (hi : (e.issued bs sid)[i]? = some (.uploadBits c))
    (hk : (e.issued bs sid)[k]? = some (.launch s c amount word acc)) :
    Before (e.issued bs sid) i k := by
  have hlt := lt_of_uploadBits hi
  have hik := lt_of_launch hlt hk
  have hbits : (e.issued bs sid)[i]? = _ := issued_of_lt hlt
  obtain rfl : i = c := by simpa using hbits.symm.trans hi
  cases bs with
  | nil =>
    have hmem := List.mem_of_getElem? hk
    simp [Execution.issued] at hmem
  | cons b bs =>
    have hb : b.sid = 0 := hbs b rfl
    set first := (List.range e.numCircuits).map Command.uploadBits ++ e.batchCommands b with hfirst
    have heq : e.issued (b :: bs) sid =
        first ++ (bs.flatMap e.batchCommands ++ [.download (sid ^^^ 1)]) := by
      rw [Execution.issued, List.flatMap_cons, hfirst, List.append_assoc, List.append_assoc]
    have hstream : ∀ a ∈ first, a.stream = 0 := by
      simp [hfirst, Execution.batchCommands, Command.stream, or_imp, forall_and, hb]
    have hmem : Command.launch b.sid i b.amount (b.cursor / chunkBits) (decide (b.batch > 0)) ∈ first := by
      simp [hfirst, Execution.batchCommands, hlt]
    obtain ⟨j, hjlt, hj⟩ := List.mem_iff_getElem.mp hmem
    have hj' : (e.issued (b :: bs) sid)[j]? =
        some (.launch b.sid i b.amount (b.cursor / chunkBits) (decide (b.batch > 0))) := by
      rw [heq, List.getElem?_append_left hjlt, List.getElem?_eq_getElem hjlt, hj]
    by_cases hkfirst : k < first.length
    · have hk' := hk
      rw [heq, List.getElem?_append_left hkfirst] at hk'
      exact .single ⟨hik, _, _, hi, hk, .inl (hstream _ (List.mem_of_getElem? hk')).symm⟩
    · -- another batch, after the first one added to the buckets
      refine .tail (.single ⟨lt_of_launch hlt hj', _, _, hi, hj', .inl hb.symm⟩) ?_
      exact ⟨hjlt.trans_le (Nat.le_of_not_lt hkfirst), _, _, hj', hk, .inr ⟨i, rfl, rfl⟩⟩

lemma execAt_of_getElem? {cmds : List Command} {a : Command} (h : cmds[k]? = some a)
    (m : Memory G β) : e.execAt cmds k m = e.exec m a := by
  rw [Execution.execAt, h]

/-- The order of issue. -/
lemma run_range (cmds : List Command) (m : Memory G β) :
    run (e.execAt cmds) (List.range cmds.length) m = cmds.foldl e.exec m := by
  induction cmds using List.reverseRecOn generalizing m with
  | nil => rfl
  | append_singleton cmds a ih =>
    have hinit : run (e.execAt (cmds ++ [a])) (List.range cmds.length) m =
        run (e.execAt cmds) (List.range cmds.length) m := by
      refine List.foldl_ext _ _ _ fun s k hk => ?_
      rw [Execution.execAt, Execution.execAt, List.getElem?_append_left (List.mem_range.mp hk)]
    rw [List.length_append, List.length_singleton, List.range_succ, run_append, hinit, ih,
      List.foldl_append]
    exact execAt_of_getElem? (by simp) _

theorem run_issued (hbs : ∀ b ∈ bs.head?, b.sid = 0) {order : List ℕ}
    (h : IsOrder (Before (e.issued bs sid)) (e.issued bs sid).length order) (m : Memory G β) :
    run (e.execAt (e.issued bs sid)) order m = (e.issued bs sid).foldl e.exec m := by
  rw [← run_range]
  refine run_eq (fun k hk i hik hbefore m => ?_) h m
  have hi := List.getElem?_eq_getElem (hik.trans hk)
  have hk := List.getElem?_eq_getElem hk
  rw [execAt_of_getElem? hk, execAt_of_getElem? hi, execAt_of_getElem? hi, execAt_of_getElem? hk]
  refine commutes_of_not_ordered (fun hord => ?_) ?_ ?_ m
  · exact hbefore (.single ⟨hik, _, _, hi, hk, hord⟩)
  · rintro c s amount word acc ⟨ha, hb⟩
    rw [ha] at hi
    rw [hb] at hk
    exact hbefore (before_launch hbs hi hk)
  · rintro c s amount word acc ⟨hb, ha⟩
    rw [ha] at hi
    rw [hb] at hk
    exact Nat.lt_asymm hik (lt_of_launch (lt_of_uploadBits hk) hi)

end Order

/-! ### Sums -/

section Sums

variable {G β : Type*} [AddCommMonoid G] {e : Execution G β}

lemma markedSum_congr {points points' : ℕ → G} {bits bits' : ℕ → BitVec 64} {n : ℕ}
    (hpoints : ∀ pos < n, points pos = points' pos) (hbits : ∀ pos < n, bitAt bits pos = bitAt bits' pos) :
    markedSum points bits n = markedSum points' bits' n := by
  refine Finset.sum_congr rfl fun pos hpos => ?_
  have hlt := Finset.mem_range.mp hpos
  rw [hpoints pos hlt, hbits pos hlt]

/-- The bits from a word on. -/
lemma bitAt_shift (bits : ℕ → BitVec 64) {cursor : ℕ} (h : chunkBits ∣ cursor) (pos : ℕ) :
    bitAt (fun w => bits (cursor / chunkBits + w)) pos = bitAt bits (cursor + pos) := by
  obtain ⟨w, rfl⟩ := h
  have hpos : 0 < chunkBits := by decide
  rw [bitAt, bitAt, Nat.mul_div_cancel_left w hpos]
  show _ = (bits ((chunkBits * w + pos) / chunkBits)).getLsbD ((chunkBits * w + pos) % chunkBits)
  rw [Nat.mul_add_div hpos, Nat.mul_add_mod]
  rfl

lemma markedSum_add (points : ℕ → G) (bits : ℕ → BitVec 64) {x : ℕ} (hx : chunkBits ∣ x) (n : ℕ) :
    markedSum points bits (x + n) = markedSum points bits x +
      markedSum (fun j => points (x + j)) (fun w => bits (x / chunkBits + w)) n := by
  rw [markedSum, Finset.sum_range_add]
  refine congrArg₂ (· + ·) rfl (Finset.sum_congr rfl fun pos _ => ?_)
  rw [bitAt_shift bits hx]

/-- The launches of a batch, one circuit after the other. -/
lemma foldl_launch (s amount word : ℕ) (acc : Bool) (n : ℕ) (m : Memory G β) :
    ((List.range n).map fun c => .launch s c amount word acc).foldl e.exec m =
      { m with
        buckets := fun c =>
          if c < n then
            e.gpu.batchAddition (m.buckets c) (m.points s) amount (fun w => m.bits c (word + w)) acc
          else m.buckets c } := by
  induction n with
  | zero => simp
  | succ n ih =>
    rw [List.range_succ, List.map_append, List.foldl_append, ih, List.map_singleton, List.foldl_cons,
      List.foldl_nil, Execution.exec]
    congr 1
    funext c
    by_cases hc : c = n
    · subst hc
      simp
    · simp only [Function.update_of_ne hc, Nat.lt_succ_iff_lt_or_eq, hc, or_false]

/-- The bits of every circuit are on the device. -/
def Uploaded (e : Execution G β) (m : Memory G β) : Prop :=
  ∀ c < e.numCircuits, ∀ w < e.split.bitVectorSize, m.bits c w = e.bitVector (e.circuit0 + c) w

/-- The points below `x` are in the buckets, which nothing needs to be written to before. -/
def Added (e : Execution G β) (x : ℕ) (m : Memory G β) : Prop :=
  ∀ c < e.numCircuits, x = 0 ∨ ∃ b, m.buckets c = some b ∧
    e.gpu.sumUp b = markedSum e.points (e.bitVector (e.circuit0 + c)) x

lemma uploaded_foldl (m : Memory G β) :
    Uploaded e (((List.range e.numCircuits).map .uploadBits).foldl e.exec m) := by
  suffices h : ∀ n, ∀ c < n, ∀ w < e.split.bitVectorSize,
      (((List.range n).map .uploadBits).foldl e.exec m).bits c w = e.bitVector (e.circuit0 + c) w from
    h e.numCircuits
  intro n
  induction n with
  | zero => exact fun _ h => absurd h (Nat.not_lt_zero _)
  | succ n ih =>
    intro c hc w hw
    rw [List.range_succ, List.map_append, List.foldl_append, List.map_singleton, List.foldl_cons,
      List.foldl_nil, Execution.exec]
    by_cases hcn : c = n
    · subst hcn
      simp only [Function.update_self, if_pos hw]
      rfl
    · simp only [Function.update_of_ne hcn]
      exact ih c (by omega) w hw

/-- A batch. -/
lemma added_batch {b : Batch} (hpos : 0 < e.split.batchSize) (hbatch : b.batch * e.split.batchSize = b.cursor)
    (hle : b.cursor + b.amount ≤ e.npoints) {m : Memory G β} (hbits : Uploaded e m)
    (h : Added e b.cursor m) :
    Uploaded e ((e.batchCommands b).foldl e.exec m) ∧
      Added e (b.cursor + b.amount) ((e.batchCommands b).foldl e.exec m) := by
  have hdvd : chunkBits ∣ b.cursor := chunkBits_dvd_cursor hbatch
  rw [Execution.batchCommands, List.foldl_cons, foldl_launch, Execution.exec]
  refine ⟨hbits, fun c hc => .inr ?_⟩
  simp only [if_pos hc, Function.update_self]
  -- what the kernel finds
  have hsum : markedSum (fun j => if j < b.amount then e.points (b.cursor + j) else m.points b.sid j)
      (fun w => m.bits c (b.cursor / chunkBits + w)) b.amount =
      markedSum (fun j => e.points (b.cursor + j))
        (fun w => e.bitVector (e.circuit0 + c) (b.cursor / chunkBits + w)) b.amount := by
    refine markedSum_congr (fun pos hpos => if_pos hpos) fun pos hpos => ?_
    rw [bitAt_shift _ hdvd, bitAt_shift _ hdvd, bitAt, bitAt]
    have hw : (b.cursor + pos) / 64 < e.split.bitVectorSize :=
      div_lt_numWords ((Nat.add_lt_add_left hpos _).trans_le hle)
    rw [hbits c hc _ hw]
  rw [markedSum_add _ _ hdvd, ← hsum]
  rcases Nat.eq_zero_or_pos b.batch with hzero | hbatchPos
  · have hcursor : b.cursor = 0 := by rw [← hbatch, hzero, Nat.zero_mul]
    have hfirst : decide (b.batch > 0) = false := by simp [hzero]
    obtain ⟨b', hb', hsumUp⟩ := e.gpu.overwrites (m.buckets c) _ b.amount
      (fun w => m.bits c (b.cursor / chunkBits + w))
    refine ⟨b', by rw [hfirst]; exact hb', hsumUp.trans ?_⟩
    simp only [hcursor, markedSum, Finset.sum_range_zero, zero_add]
  · have hcursor : b.cursor ≠ 0 := hbatch ▸ (Nat.mul_pos hbatchPos hpos).ne'
    have hlater : decide (b.batch > 0) = true := by simp [hbatchPos]
    obtain ⟨b₀, hb₀, hsum₀⟩ := (h c hc).resolve_left hcursor
    obtain ⟨b', hb', hsumUp⟩ := e.gpu.accumulates b₀ _ b.amount
      (fun w => m.bits c (b.cursor / chunkBits + w))
    refine ⟨b', by rw [hlater, hb₀]; exact hb', ?_⟩
    rw [hsumUp, hsum₀]

/-- All batches. -/
lemma added_foldl {x y : ℕ} {bs : List Batch} (hpos : 0 < e.split.batchSize)
    (h : Tiles e.split.batchSize x bs y) (hy : y ≤ e.npoints) {m : Memory G β} (hbits : Uploaded e m)
    (hadded : Added e x m) : Added e y ((bs.flatMap e.batchCommands).foldl e.exec m) := by
  induction h generalizing m with
  | nil => exact hadded
  | @cons x y b bs hcursor hbatch _ _ _ hbs ih =>
    subst hcursor
    rw [List.flatMap_cons, List.foldl_append]
    have hstep := added_batch hpos hbatch (hbs.le.trans hy) hbits hadded
    exact ih hy hstep.1 hstep.2

end Sums

/-! ### Regions -/

namespace Extent

lemma Within.trans {e r t : Extent} (h : e.Within r) (h' : r.Within t) : e.Within t :=
  ⟨h'.1.trans h.1, h.2.trans h'.2⟩

lemma Disjoint.mono {e r e' r' : Extent} (h : e.Disjoint r) (he : e'.Within e) (hr : r'.Within r) :
    e'.Disjoint r' :=
  h.imp (fun hle => he.2.trans (hle.trans hr.1)) fun hle => hr.2.trans (hle.trans he.1)

/-- Row `k` of rows of one length. -/
def slice (base width k : ℕ) : Extent := ⟨base + k * width, width⟩

lemma slice_within (base width : ℕ) {k n : ℕ} (hk : k < n) :
    (slice base width k).Within ⟨base, n * width⟩ := by
  refine ⟨Nat.le_add_right .., ?_⟩
  have hmul := Nat.mul_le_mul_right width (Nat.succ_le_of_lt hk)
  rw [Nat.succ_mul] at hmul
  simp only [stop, slice, Nat.add_assoc]
  exact Nat.add_le_add_left hmul base

lemma slice_disjoint (base width : ℕ) {k k' : ℕ} (hne : k ≠ k') :
    (slice base width k).Disjoint (slice base width k') := by
  rcases Nat.lt_or_gt_of_ne hne with h | h
  · exact .inl (slice_within base width h).2
  · exact .inr (slice_within base width h).2

end Extent

section Regions

variable {G β : Type*} [AddCommMonoid G] (e : Execution G β)

/-- Where the rows of one kind lie. -/
def region : Row → Extent
  | .points _ => ⟨0, 2 * (e.split.batchSize * e.gpu.affineSize)⟩
  | .buckets _ => ⟨e.dPointsSize, e.numCircuits * (e.nbuckets * e.gpu.bucketSize)⟩
  | .bits _ => ⟨e.dPointsSize + e.dBucketsSize, e.numCircuits * (e.bitVectorSize * sizeofMask)⟩

variable {e}

lemma row_points (hlt : e.split.batchSize < 2 ^ 32) (sid : ℕ) :
    e.row (.points sid) = .slice 0 (e.split.batchSize * e.gpu.affineSize) sid := by
  rw [Execution.row, Extent.slice, Nat.mod_eq_of_lt hlt, Nat.mul_assoc, Nat.zero_add]

lemma row_buckets (c : ℕ) :
    e.row (.buckets c) = .slice e.dPointsSize (e.nbuckets * e.gpu.bucketSize) c := by
  rw [Execution.row, Extent.slice, Nat.mul_assoc]

lemma row_bits (c : ℕ) :
    e.row (.bits c) = .slice (e.dPointsSize + e.dBucketsSize) (e.bitVectorSize * sizeofMask) c := by
  rw [Execution.row, Extent.slice, Nat.mul_assoc]

lemma row_within_region (hlt : e.split.batchSize < 2 ^ 32) {r : Row} (hr : e.IsRow r) :
    (e.row r).Within (region e r) := by
  cases r with
  | points sid =>
    rw [row_points hlt]
    exact Extent.slice_within _ _ hr
  | buckets c =>
    rw [row_buckets]
    exact Extent.slice_within _ _ hr
  | bits c =>
    rw [row_bits]
    exact Extent.slice_within _ _ hr

lemma dPointsSize_eq : e.dPointsSize = 2 * (e.split.batchSize * e.gpu.affineSize) := by
  rw [Execution.dPointsSize, Nat.mul_comm e.split.batchSize, Nat.mul_assoc]

lemma dBucketsSize_eq : e.dBucketsSize = e.numCircuits * (e.nbuckets * e.gpu.bucketSize) :=
  Nat.mul_assoc ..

lemma dTempSize_eq : e.dTempSize =
    e.dPointsSize + e.dBucketsSize + e.numCircuits * (e.bitVectorSize * sizeofMask) := by
  rw [Execution.dTempSize, Nat.mul_assoc]

lemma region_within (r : Row) : (region e r).Within ⟨0, e.dTempSize⟩ := by
  refine ⟨Nat.zero_le _, ?_⟩
  rw [dTempSize_eq]
  cases r <;> simp only [region, Extent.stop, ← dPointsSize_eq, ← dBucketsSize_eq] <;> omega

lemma row_disjoint (hlt : e.split.batchSize < 2 ^ 32) {r r' : Row} (hr : e.IsRow r)
    (hr' : e.IsRow r') (hne : r ≠ r') : (e.row r).Disjoint (e.row r') := by
  have hregion : (region e r).Disjoint (region e r') → (e.row r).Disjoint (e.row r') := fun h =>
    h.mono (row_within_region hlt hr) (row_within_region hlt hr')
  cases r with
  | points sid =>
    cases r' with
    | points sid' =>
      rw [row_points hlt, row_points hlt]
      exact Extent.slice_disjoint _ _ fun heq => hne (congrArg _ heq)
    | buckets c' => exact hregion (.inl (by simp [region, Extent.stop, dPointsSize_eq]))
    | bits c' => exact hregion (.inl (by simp [region, Extent.stop, dPointsSize_eq]))
  | buckets c =>
    cases r' with
    | points sid' => exact hregion (.inr (by simp [region, Extent.stop, dPointsSize_eq]))
    | buckets c' =>
      rw [row_buckets, row_buckets]
      exact Extent.slice_disjoint _ _ fun heq => hne (congrArg _ heq)
    | bits c' => exact hregion (.inl (by simp [region, Extent.stop, dBucketsSize_eq]))
  | bits c =>
    cases r' with
    | points sid' => exact hregion (.inr (by simp [region, Extent.stop, dPointsSize_eq]))
    | buckets c' => exact hregion (.inr (by simp [region, Extent.stop, dBucketsSize_eq]))
    | bits c' =>
      rw [row_bits, row_bits]
      exact Extent.slice_disjoint _ _ fun heq => hne (congrArg _ heq)

lemma nbuckets_eq : e.nbuckets = e.gpu.smCount * e.gpu.batchAddBlockSize / warpSz := by
  refine Nat.mod_eq_of_lt ((Nat.div_le_self _ _).trans_lt (e.gpu.smCount_mul_lt.trans ?_))
  decide

lemma bitVectorSize_le (hlt : e.split.batchSize < 2 ^ 32) : e.split.bitVectorSize ≤ e.bitVectorSize := by
  rw [bitVectorSize_eq hlt, split_bitVectorSize]
  omega

/-- The last group of bits may be a part of one. -/
lemma groups_le (hlt : e.split.batchSize < 2 ^ 32) {cursor amount : ℕ} (hdvd : gpuDiv ∣ cursor)
    (hle : cursor + amount ≤ e.npoints) :
    cursor / chunkBits * sizeofMask + (amount + gpuDiv - 1) / gpuDiv * (gpuDiv / 8) ≤
      e.bitVectorSize * sizeofMask := by
  obtain ⟨q, rfl⟩ := hdvd
  rw [bitVectorSize_eq hlt, numWords]
  simp only [gpuDiv, warpSz, chunkBits, sizeofMask] at hle ⊢
  omega

/-- A command stays in its rows. -/
def StaysIn (e : Execution G β) (a : Command) : Prop :=
  ∀ p ∈ e.accesses a, e.IsRow p.1 ∧ p.2.Within (e.row p.1)

lemma staysIn_uploadBits (hlt : e.split.batchSize < 2 ^ 32) {c : ℕ} (hc : c < e.numCircuits) :
    StaysIn e (.uploadBits c) := by
  intro p hp
  obtain rfl := List.mem_singleton.mp hp
  refine ⟨hc, le_rfl, Nat.add_le_add_left ?_ _⟩
  exact Nat.mul_le_mul_right _ (bitVectorSize_le hlt)

lemma staysIn_download (sid : ℕ) : StaysIn e (.download sid) := by
  intro p hp
  obtain ⟨c, hc, rfl⟩ := List.mem_map.mp hp
  exact ⟨List.mem_range.mp hc, le_rfl, le_rfl⟩

lemma points_within (hlt : e.split.batchSize < 2 ^ 32) {sid amount : ℕ}
    (hamount : amount ≤ e.split.batchSize) :
    (⟨(e.row (.points sid)).off, amount * e.gpu.affineSize⟩ : Extent).Within (e.row (.points sid)) := by
  refine ⟨le_rfl, Nat.add_le_add_left ?_ _⟩
  rw [row_points hlt]
  exact Nat.mul_le_mul_right _ hamount

lemma staysIn_batch (hlt : e.split.batchSize < 2 ^ 32) {b : Batch}
    (hbatch : b.batch * e.split.batchSize = b.cursor) (hy : b.cursor + b.amount ≤ e.npoints)
    (hamount : b.amount ≤ e.split.batchSize) (hsid : b.sid < 2) {a : Command}
    (ha : a ∈ e.batchCommands b) : StaysIn e a := by
  have hdvd : gpuDiv ∣ b.cursor := hbatch ▸ Dvd.dvd.mul_left (gpuDiv_dvd_batchSize e) _
  rcases List.mem_cons.mp ha with rfl | ha
  · intro p hp
    obtain rfl := List.mem_singleton.mp hp
    exact ⟨hsid, points_within hlt hamount⟩
  · obtain ⟨c, hc, rfl⟩ := List.mem_map.mp ha
    have hc := List.mem_range.mp hc
    intro p hp
    simp only [Execution.accesses, List.mem_cons, List.not_mem_nil, or_false] at hp
    rcases hp with rfl | rfl | rfl
    · refine ⟨hc, le_rfl, Nat.add_le_add_left ?_ _⟩
      rw [← nbuckets_eq]
      exact le_rfl
    · exact ⟨hsid, points_within hlt hamount⟩
    · refine ⟨hc, Nat.le_add_right .., ?_⟩
      rw [Extent.stop, Nat.add_assoc]
      exact Nat.add_le_add_left (groups_le hlt hdvd hy) _

end Regions

/-! ### Correctness -/

section Correct

variable {G β : Type*} [AddCommMonoid G] (e : Execution G β)

/-- The batches have each point once, and the bits of a batch start at those of its first point. -/
structure Tiled (bs : List Batch) : Prop where
  length_le : bs.length ≤ numBatches
  points : bs.flatMap (fun b => List.range' b.cursor b.amount) = List.range e.npoints
  bits : ∀ b ∈ bs, chunkBits ∣ b.cursor ∧ ∀ (bits : ℕ → BitVec 64) (pos : ℕ),
    bitAt (fun w => bits (b.cursor / chunkBits + w)) pos = bitAt bits (b.cursor + pos)

/-- The rows do not overlap, and no command leaves its rows. -/
structure InPlace (cmds : List Command) : Prop where
  rows : ∀ r, e.IsRow r → (e.row r).Within ⟨0, e.dTempSize⟩
  disjoint : ∀ r r', e.IsRow r → e.IsRow r' → r ≠ r' → (e.row r).Disjoint (e.row r')
  staysIn : ∀ a ∈ cmds, StaysIn e a

/-- Whatever was in the memory and in whatever order the commands take effect. -/
def Sums (cmds : List Command) : Prop :=
  ∀ order, IsOrder (Before cmds) cmds.length order → ∀ m, ∀ c < e.numCircuits,
    e.batchAddRes (run (e.execAt cmds) order m) c =
      some (markedSum e.points (e.bitVector (e.circuit0 + c)) e.npoints)

def Correct : Prop :=
  ∃ bs sid, e.batches = some (bs, sid) ∧ e.commands = some (e.issued bs sid) ∧
    Tiled e bs ∧ InPlace e (e.issued bs sid) ∧ Sums e (e.issued bs sid)

variable {e}

lemma commands_eq {bs : List Batch} {sid : ℕ} (hlt : e.split.batchSize < 2 ^ 32)
    (h : e.batches = some (bs, sid)) : e.commands = some (e.issued bs sid) := by
  rw [Execution.commands, if_pos (Nat.mod_eq_of_lt hlt).symm, h]
  rfl

lemma before_lt {cmds : List Command} {i k : ℕ} (h : Before cmds i k) : i < k := by
  induction h with
  | single h => exact h.1
  | tail _ h ih => exact ih.trans h.1

/-- The batches of at least one point. -/
lemma batches_tiles (hlt : e.split.batchSize < 2 ^ 32) (hpos : 0 < e.npoints) :
    ∃ bs sid, e.batches = some (bs, sid) ∧ Tiles e.split.batchSize 0 bs e.npoints ∧
      bs.length ≤ numBatches ∧ ∀ b ∈ bs.head?, b.sid = 0 := by
  have hsize := batchSize_pos hpos
  obtain ⟨bs, sid, hbs, htiles, hlen, hhead⟩ :=
    batchLoop_tiles hsize hlt 0 (Nat.lt_succ_self e.npoints) (by decide : 0 < 2)
  rw [Nat.zero_mul, Nat.zero_add] at htiles
  refine ⟨bs, sid, hbs, htiles, ?_, hhead⟩
  have hle : bs.length * e.split.batchSize < (numBatches + 1) * e.split.batchSize := by
    rw [Nat.succ_mul]
    exact hlen.trans_le (Nat.add_le_add_right (npoints_le e) _)
  exact Nat.le_of_lt_succ (Nat.lt_of_mul_lt_mul_right hle)

lemma inPlace_issued (hlt : e.split.batchSize < 2 ^ 32) {bs : List Batch} {sid : ℕ}
    (h : ∀ b ∈ bs, b.batch * e.split.batchSize = b.cursor ∧ b.cursor + b.amount ≤ e.npoints ∧
      b.amount ≤ e.split.batchSize ∧ b.sid < 2) : InPlace e (e.issued bs sid) where
  rows r hr := (row_within_region hlt hr).trans (region_within r)
  disjoint _ _ hr hr' hne := row_disjoint hlt hr hr' hne
  staysIn a ha := by
    simp only [Execution.issued, List.mem_append, List.mem_map, List.mem_range, List.mem_flatMap,
      List.mem_singleton] at ha
    rcases ha with ⟨c, hc, rfl⟩ | ⟨b, hb, ha⟩ | rfl
    · exact staysIn_uploadBits hlt hc
    · obtain ⟨hbatch, hy, hamount, hsid⟩ := h b hb
      exact staysIn_batch hlt hbatch hy hamount hsid ha
    · exact staysIn_download _

lemma sums_issued (hpos : 0 < e.npoints) {bs : List Batch} {sid : ℕ}
    (htiles : Tiles e.split.batchSize 0 bs e.npoints) (hhead : ∀ b ∈ bs.head?, b.sid = 0) :
    Sums e (e.issued bs sid) := by
  intro order horder m c hc
  rw [run_issued hhead horder, Execution.issued, List.foldl_append, List.foldl_append]
  have hadded : Added e e.npoints _ := added_foldl (batchSize_pos hpos) htiles le_rfl
    (uploaded_foldl m) fun _ _ => .inl rfl
  obtain ⟨b, hb, hsum⟩ := (hadded c hc).resolve_left hpos.ne'
  rw [List.foldl_cons, List.foldl_nil, Execution.exec, Execution.batchAddRes]
  simp only [if_pos hc, hb, Option.map_some, hsum]

lemma batches_zero (h : e.npoints = 0) : e.batches = some ([], 0) := by
  rw [Execution.batches, h]
  rfl

/-- Without points, buckets are downloaded that no kernel wrote to. -/
lemma not_sums_of_npoints_eq_zero (hc : 0 < e.numCircuits) : ¬Sums e (e.issued [] 0) := by
  intro h
  have hres := h _ (isOrder_range (fun _ _ => before_lt) _)
    ⟨fun _ _ => 0, fun _ _ => 0, fun _ => none, fun _ => none⟩ 0 hc
  rw [run_range, Execution.issued, List.foldl_append] at hres
  have hbuckets : ∀ (l : List ℕ) (m : Memory G β),
      ((l.map .uploadBits).foldl e.exec m).buckets = m.buckets := by
    intro l
    induction l with
    | nil => exact fun _ => rfl
    | cons c l ih => exact fun m => ih _
  simp [Execution.exec, Execution.batchAddRes, hc, hbuckets] at hres

lemma not_correct_of_npoints_eq_zero (h : e.npoints = 0) (hc : 0 < e.numCircuits) : ¬Correct e := by
  rintro ⟨bs, sid, hbs, -, -, -, hsums⟩
  rw [batches_zero h] at hbs
  cases hbs
  exact not_sums_of_npoints_eq_zero hc hsums

theorem correct_iff (e : Execution G β) (hlt : e.split.batchSize < 2 ^ 32) :
    Correct e ↔ 0 < e.npoints ∨ e.numCircuits = 0 := by
  constructor
  · intro h
    by_contra hnot
    rw [not_or] at hnot
    exact not_correct_of_npoints_eq_zero (Nat.eq_zero_of_not_pos hnot.1) (Nat.pos_of_ne_zero hnot.2) h
  · intro h
    rcases Nat.eq_zero_or_pos e.npoints with hzero | hpos
    · have hc : e.numCircuits = 0 := h.resolve_left (by simp [hzero])
      refine ⟨[], 0, batches_zero hzero, commands_eq hlt (batches_zero hzero), ?_,
        inPlace_issued hlt (by simp), fun _ _ _ c hlt => absurd hlt (by simp [hc])⟩
      exact ⟨Nat.zero_le _, by simp [hzero], by simp⟩
    · obtain ⟨bs, sid, hbs, htiles, hlen, hhead⟩ := batches_tiles hlt hpos
      refine ⟨bs, sid, hbs, commands_eq hlt hbs, ⟨hlen, ?_, fun b hb => ?_⟩,
        inPlace_issued hlt fun b hb => htiles.of_mem hb, sums_issued hpos htiles hhead⟩
      · rw [htiles.flatMap_range, Nat.sub_zero, List.range_eq_range']
      · have hdvd : chunkBits ∣ b.cursor := chunkBits_dvd_cursor (htiles.of_mem hb).1
        exact ⟨hdvd, fun bits pos => bitAt_shift bits hdvd pos⟩

end Correct

/-- Buckets that are integers. -/
def intGpu : Gpu ℤ ℤ where
  smCount := 2
  batchAddBlockSize := 256
  affineSize := 96
  bucketSize := 192
  batchAddition ret points n bits accumulate :=
    some ((if accumulate then ret.getD 0 else 0) + markedSum points bits n)
  sumUp b := b
  smCount_mul_lt := by decide
  overwrites _ _ _ _ := ⟨_, rfl, by simp⟩
  accumulates _ _ _ _ := ⟨_, rfl, by simp⟩

/-- One circuit. -/
def intExecution (npoints : ℕ) : Execution ℤ ℤ :=
  ⟨intGpu, 0, 1, fun pos => pos, npoints, fun _ _ => 1⟩

theorem correct_iff_one : Correct (intExecution 1) :=
  (correct_iff (intExecution 1) (by decide)).mpr (.inl (by decide))

theorem not_correct_empty : ¬Correct (intExecution 0) :=
  not_correct_of_npoints_eq_zero rfl (by decide)

end SupraSeal.BatchAddition
