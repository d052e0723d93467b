import SupraSeal.Lib.PackedBits

/-!
# Preparation of the split MSMs

`prep_msm_thread` of `c2/cuda/groth16_cuda.cu`. Scalars that are 0 or 1 need no multiplication. The
first pass marks the other scalars of each circuit in bit vectors, one for each of the queries L, A and
B; the masks of all circuits are merged; the second pass collects bases and scalars for the tail MSMs,
and marks the ones for the batch additions. A query of which more than half is marked is not split.

The circuits write to vectors of their own, only circuit 0 fills the bases. The two arrays of B are
accessed together: a point of B is a pair. Exceptions on the GPUs are left out.
-/

namespace SupraSeal.PrepMsm

open GridStride PackedBits

/-- `CHUNK_BITS`. -/
def chunkBits : ℕ := 64

/-- `Assignment`, without the evaluations of the polynomials. -/
structure Assignment (F : Type*) where
  aAuxDensity : ℕ → BitVec 64
  aAuxBitLen : ℕ
  aAuxPopcount : ℕ
  bInpDensity : ℕ → BitVec 64
  bInpBitLen : ℕ
  bInpPopcount : ℕ
  bAuxDensity : ℕ → BitVec 64
  bAuxBitLen : ℕ
  bAuxPopcount : ℕ
  inpAssignmentData : ℕ → F
  inpAssignmentSize : ℕ
  auxAssignmentData : ℕ → F
  auxAssignmentSize : ℕ

/-- `slice_t`. -/
structure Slice (V : Type*) where
  data : ℕ → V
  size : ℕ

/-- The slices of the SRS that the pass takes. -/
structure Points (G₁ G₂ : Type*) where
  l : Slice G₁
  a : Slice G₁
  bG1 : Slice G₁
  bG2 : Slice G₂

variable {F G₁ G₂ V : Type*}

/-- A point of B. -/
def Points.b (points : Points G₁ G₂) (i : ℕ) : G₁ × G₂ := (points.bG1.data i, points.bG2.data i)

/-- The asserts on entry. -/
structure Assignment.Asserts (p : Assignment F) (points : Points G₁ G₂) : Prop where
  l_size : points.l.size = p.auxAssignmentSize
  a_size : points.a.size = p.inpAssignmentSize + p.aAuxPopcount
  b_size : points.bG1.size = p.bInpPopcount + p.bAuxPopcount
  aAux_len : p.aAuxBitLen = p.auxAssignmentSize
  bAux_len : p.bAuxBitLen = p.auxAssignmentSize
  bInp_len : p.bInpBitLen = p.inpAssignmentSize

/-- The popcounts are the numbers of set bits. -/
structure Assignment.Counted (p : Assignment F) : Prop where
  aAux : p.aAuxPopcount = Nat.count (fun i => bitAt p.aAuxDensity i) p.aAuxBitLen
  bInp : p.bInpPopcount = Nat.count (fun i => bitAt p.bInpDensity i) p.bInpBitLen
  bAux : p.bAuxPopcount = Nat.count (fun i => bitAt p.bAuxDensity i) p.bAuxBitLen

variable [DecidableEq F] [Zero F] [One F]

/-- Neither `is_zero` nor `is_one`. -/
def significant (scalar : F) : Bool := scalar ≠ 0 && scalar ≠ 1

/-! ### First pass -/

/-- The bit vectors of a circuit, with the indices of the density words that have been read. -/
structure Pass1 where
  l : Buffer (BitVec 64)
  lBits : BitVec 64
  a : BitWriter
  b : BitWriter
  bInpReads : List ℕ
  aAuxReads : List ℕ
  bAuxReads : List ℕ

/-- The input `i + j`. -/
def Pass1.inpBit (bMap : BitVec 64) (s : Pass1) (j : ℕ) : Pass1 :=
  let mapMask := 1#64 <<< j
  let s := { s with a := { s.a with bits := s.a.bits ||| mapMask } }
  if bMap &&& mapMask ≠ 0#64 then { s with b := s.b.push true } else s

def Pass1.inpChunk (p : Assignment F) (s : Pass1) (i : ℕ) : Pass1 :=
  let bMap := p.bInpDensity (i / chunkBits)
  let bits := min chunkBits (p.inpAssignmentSize - i)
  let s := { s with bInpReads := i / chunkBits :: s.bInpReads }
  let s := (List.range bits).foldl (Pass1.inpBit bMap) s
  let a := { s.a with vector := s.a.vector.store (i / chunkBits) s.a.bits }
  { s with a := if bits = chunkBits then { a with bits := 0#64 } else a }

/-- The auxiliary variable `i + j`. -/
def Pass1.auxBit (aMap bMap : BitVec 64) (scalars : ℕ → F) (s : Pass1) (j : ℕ) : Pass1 :=
  let mapMask := 1#64 <<< j
  let marked := significant (scalars j)
  { s with
    lBits := if marked then s.lBits ||| mapMask else s.lBits
    a := if aMap &&& mapMask ≠ 0#64 then s.a.push marked else s.a
    b := if bMap &&& mapMask ≠ 0#64 then s.b.push marked else s.b }

def Pass1.auxChunk (p : Assignment F) (s : Pass1) (i : ℕ) : Pass1 :=
  let s := { s with
    aAuxReads := i / chunkBits :: s.aAuxReads
    bAuxReads := i / chunkBits :: s.bAuxReads
    lBits := 0#64 }
  let s := (List.range (min chunkBits (p.auxAssignmentSize - i))).foldl
    (Pass1.auxBit (p.aAuxDensity (i / chunkBits)) (p.bAuxDensity (i / chunkBits))
      fun j => p.auxAssignmentData (i + j)) s
  { s with l := s.l.store (i / chunkBits) s.lBits }

/-- The pass over one circuit; its vectors hold anything before. -/
def pass1 (p : Assignment F) (lVector aVector bVector : ℕ → BitVec 64) : Pass1 :=
  let s : Pass1 := {
    l := .ofData lVector
    lBits := 0#64
    a := ⟨.ofData aVector, 0, 0#64, 0⟩
    b := ⟨.ofData bVector, 0, 0#64, 0⟩
    bInpReads := []
    aAuxReads := []
    bAuxReads := [] }
  let s := (indices chunkBits p.inpAssignmentSize 0).foldl (Pass1.inpChunk p) s
  let s := { s with a := { s.a with
    cursor := p.inpAssignmentSize / chunkBits
    bitOff := p.inpAssignmentSize % chunkBits } }
  (indices chunkBits p.auxAssignmentSize 0).foldl (Pass1.auxChunk p) s

/-! ### Masks -/

/-- A word of the merged mask of a query. -/
def mergeMask (numCircuits : ℕ) (bitVector : ℕ → ℕ → BitVec 64) (i : ℕ) : BitVec 64 :=
  (List.range' 1 (numCircuits - 1)).foldl (fun mask c => mask ||| bitVector c i) (bitVector 0 i)

/-- Circuits and words that the merge reads. -/
def mergeReads (numCircuits size : ℕ) : List (ℕ × ℕ) :=
  (List.range size).flatMap fun i =>
    (0, i) :: (List.range' 1 (numCircuits - 1)).map fun c => (c, i)

/-- The merged mask; what lies behind it is not known. -/
def tailMask (numCircuits size : ℕ) (bitVector : ℕ → ℕ → BitVec 64) (behind : ℕ → BitVec 64)
    (i : ℕ) : BitVec 64 :=
  if i < size then mergeMask numCircuits bitVector i else behind i

def maskPopcount (size : ℕ) (mask : ℕ → BitVec 64) : ℕ :=
  ∑ i ∈ Finset.range size, popcount (mask i)

/-! ### Second pass -/

/-- What a pass over a query depends on. `first` is `c == 0`. -/
structure Params (V : Type*) where
  first : Bool
  split : Bool
  points : ℕ → V
  tailMask : ℕ → BitVec 64

/-- Bases and scalars of a query, with the indices of the points that have been read. -/
structure TailMsm (F V : Type*) where
  cursor : ℕ
  bases : Buffer V
  pointsReads : List ℕ
  scalars : Buffer F

namespace TailMsm

variable (q : Params V) (t : TailMsm F V)

/-- The next base. -/
def copyBase (src : ℕ) : TailMsm F V :=
  { t with
    bases := t.bases.store t.cursor (q.points src)
    pointsReads := src :: t.pointsReads }

def putScalar (scalar : F) : TailMsm F V :=
  { t with scalars := t.scalars.store t.cursor scalar, cursor := t.cursor + 1 }

/-- A variable of the tail MSM; `czero` leaves the ones to the batch addition. -/
def put (src : ℕ) (scalar : F) : TailMsm F V :=
  (if q.first then t.copyBase q src else t).putScalar (if scalar = 1 then 0 else scalar)

end TailMsm

/-- One of the queries A and B in a circuit: its bit vector, and the words of the mask that have
been read. -/
structure Tail (F V : Type*) extends TailMsm F V where
  writer : BitWriter
  mask : BitVec 64
  maskReads : List ℕ
  pointsCursor : ℕ

namespace Tail

variable (q : Params V) (t : Tail F V)

/-- An input. -/
def putInp (scalar : F) : Tail F V :=
  { t with toTailMsm :=
      (if q.first && q.split then t.copyBase q t.cursor else t.toTailMsm).putScalar scalar }

/-- Between the inputs and the auxiliary variables. -/
def startAux : Tail F V :=
  { t with
    mask := q.tailMask t.writer.cursor
    maskReads := t.writer.cursor :: t.maskReads
    pointsCursor := t.cursor
    writer := { t.writer with bits := 0#64 } }

/-- A dense auxiliary variable. -/
def putAux (scalar : F) : Tail F V :=
  if q.split then
    let bitOff := t.writer.bitOff
    let msm := if t.mask &&& 1#64 <<< bitOff ≠ 0#64 then t.put q t.pointsCursor scalar else t.toTailMsm
    let writer := t.writer.push (scalar = 1)
    let t := { t with toTailMsm := msm, pointsCursor := t.pointsCursor + 1, writer := writer }
    -- the next word of the mask, as soon as a word is full
    if bitOff + 1 = chunkBits then
      { t with mask := q.tailMask writer.cursor, maskReads := writer.cursor :: t.maskReads }
    else t
  else { t with toTailMsm := t.putScalar scalar }

end Tail

/-- Query L in a circuit. -/
structure LTail (F V : Type*) extends TailMsm F V where
  vector : Buffer (BitVec 64)
  bits : BitVec 64
  maskReads : List ℕ

/-- The auxiliary variable `i + j` in query L. -/
def LTail.putAux (q : Params V) (lMap : BitVec 64) (i j : ℕ) (scalar : F) (t : LTail F V) :
    LTail F V :=
  if q.split then
    let mapMask := 1#64 <<< j
    { t with
      bits := if scalar = 1 then t.bits ||| mapMask else t.bits
      toTailMsm := if lMap &&& mapMask ≠ 0#64 then t.put q (i + j) scalar else t.toTailMsm }
  else t

/-- The second pass over a circuit. -/
structure Pass2 (F G₁ G₂ : Type*) where
  l : LTail F G₁
  a : Tail F G₁
  b : Tail F (G₁ × G₂)
  bInpReads : List ℕ
  aAuxReads : List ℕ
  bAuxReads : List ℕ

/-- The three queries of a pass. -/
structure Queries (G₁ G₂ : Type*) where
  l : Params G₁
  a : Params G₁
  b : Params (G₁ × G₂)

namespace Pass2

variable (q : Queries G₁ G₂) (p : Assignment F)

/-- The input `i + j`. -/
def inpBit (bMap : BitVec 64) (scalars : ℕ → F) (s : Pass2 F G₁ G₂) (j : ℕ) : Pass2 F G₁ G₂ :=
  let b :=
    if (bMap >>> j) &&& 1#64 ≠ 0#64 then
      let b := s.b.putInp q.b (scalars j)
      -- the bits of the inputs are all zero
      { b with writer := b.writer.push false }
    else s.b
  { s with b := b, a := s.a.putInp q.a (scalars j) }

def inpChunk (s : Pass2 F G₁ G₂) (i : ℕ) : Pass2 F G₁ G₂ :=
  let s := { s with bInpReads := i / chunkBits :: s.bInpReads }
  let s := (List.range (min chunkBits (p.inpAssignmentSize - i))).foldl
    (inpBit q (p.bInpDensity (i / chunkBits)) fun j => p.inpAssignmentData (i + j)) s
  let writer := { s.a.writer with vector := s.a.writer.vector.store (i / chunkBits) 0#64 }
  { s with a := { s.a with writer := writer } }

/-- The auxiliary variable `i + j`. -/
def auxBit (aMap bMap lMap : BitVec 64) (i : ℕ) (s : Pass2 F G₁ G₂) (j : ℕ) : Pass2 F G₁ G₂ :=
  let mapMask := 1#64 <<< j
  let scalar := p.auxAssignmentData (i + j)
  { s with
    l := s.l.putAux q.l lMap i j scalar
    a := if aMap &&& mapMask ≠ 0#64 then s.a.putAux q.a scalar else s.a
    b := if bMap &&& mapMask ≠ 0#64 then s.b.putAux q.b scalar else s.b }

def auxChunk (s : Pass2 F G₁ G₂) (i : ℕ) : Pass2 F G₁ G₂ :=
  let w := i / chunkBits
  let s := { s with
    aAuxReads := w :: s.aAuxReads
    bAuxReads := w :: s.bAuxReads
    l := { s.l with bits := 0#64, maskReads := w :: s.l.maskReads } }
  let s := (List.range (min chunkBits (p.auxAssignmentSize - i))).foldl
    (auxBit q p (p.aAuxDensity w) (p.bAuxDensity w) (q.l.tailMask w) i) s
  { s with l := { s.l with vector := s.l.vector.store w s.l.bits } }

/-- The inputs. -/
def runInp (s : Pass2 F G₁ G₂) : Pass2 F G₁ G₂ :=
  (indices chunkBits p.inpAssignmentSize 0).foldl (inpChunk q p) s

/-- The auxiliary variables. -/
def runAux (s : Pass2 F G₁ G₂) : Pass2 F G₁ G₂ :=
  let writer := { s.a.writer with
    cursor := p.inpAssignmentSize / chunkBits
    bitOff := p.inpAssignmentSize % chunkBits }
  let s := { s with a := { s.a with writer := writer }.startAux q.a, b := s.b.startAux q.b }
  (indices chunkBits p.auxAssignmentSize 0).foldl (auxChunk q p) s

end Pass2

/-! ### Both passes -/

/-- What the vectors hold before, and what lies behind the masks. -/
structure Fresh (F G₁ G₂ : Type*) where
  lVector : ℕ → ℕ → BitVec 64
  aVector : ℕ → ℕ → BitVec 64
  bVector : ℕ → ℕ → BitVec 64
  lBehind : ℕ → BitVec 64
  aBehind : ℕ → BitVec 64
  bBehind : ℕ → BitVec 64
  lBases : ℕ → G₁
  aBases : ℕ → G₁
  bBases : ℕ → G₁ × G₂
  scalars : ℕ → F

/-- A call: the circuits, at least one, with their assignments. -/
structure Prep (F G₁ G₂ : Type*) where
  numCircuits : ℕ
  numCircuits_pos : 0 < numCircuits
  provers : ℕ → Assignment F
  points : Points G₁ G₂
  asserts : ∀ c < numCircuits, (provers c).Asserts points
  counted : ∀ c < numCircuits, (provers c).Counted
  fresh : Fresh F G₁ G₂

namespace Prep

variable (r : Prep F G₁ G₂)

/-- `bit_vector_size` of the queries. -/
def lSize : ℕ := numWords r.points.l.size

def aSize : ℕ := numWords r.points.a.size

def bSize : ℕ := numWords r.points.bG1.size

def first (c : ℕ) : Pass1 :=
  pass1 (r.provers c) (r.fresh.lVector c) (r.fresh.aVector c) (r.fresh.bVector c)

def lMask : ℕ → BitVec 64 :=
  tailMask r.numCircuits r.lSize (fun c => (r.first c).l.data) r.fresh.lBehind

def aMask : ℕ → BitVec 64 :=
  tailMask r.numCircuits r.aSize (fun c => (r.first c).a.flush.data) r.fresh.aBehind

def bMask : ℕ → BitVec 64 :=
  tailMask r.numCircuits r.bSize (fun c => (r.first c).b.flush.data) r.fresh.bBehind

def lPopcount : ℕ := maskPopcount r.lSize r.lMask

def aPopcount : ℕ := maskPopcount r.aSize r.aMask

def bPopcount : ℕ := maskPopcount r.bSize r.bMask

def lSplitMsm : Bool := r.lPopcount ≤ r.points.l.size / 2

def aSplitMsm : Bool := r.aPopcount ≤ r.points.a.size / 2

def bSplitMsm : Bool := r.bPopcount ≤ r.points.bG1.size / 2

/-- The queries of circuit `c`. -/
def queries (c : ℕ) : Queries G₁ G₂ where
  l := ⟨c == 0, r.lSplitMsm, r.points.l.data, r.lMask⟩
  a := ⟨c == 0, r.aSplitMsm, r.points.a.data, r.aMask⟩
  b := ⟨c == 0, r.bSplitMsm, r.points.b, r.bMask⟩

/-- The vectors of circuit `c` before the second pass. -/
def start (c : ℕ) : Pass2 F G₁ G₂ where
  l := {
    cursor := 0, bases := .ofData r.fresh.lBases, pointsReads := [], scalars := .ofData r.fresh.scalars
    vector := .ofData (r.first c).l.data, bits := 0#64, maskReads := [] }
  a := {
    cursor := 0, bases := .ofData r.fresh.aBases, pointsReads := [], scalars := .ofData r.fresh.scalars
    writer := ⟨.ofData (r.first c).a.flush.data, 0, 0#64, 0⟩
    mask := 0#64, maskReads := [], pointsCursor := 0 }
  b := {
    cursor := 0, bases := .ofData r.fresh.bBases, pointsReads := [], scalars := .ofData r.fresh.scalars
    writer := ⟨.ofData (r.first c).b.flush.data, 0, 0#64, 0⟩
    mask := 0#64, maskReads := [], pointsCursor := 0 }
  bInpReads := []
  aAuxReads := []
  bAuxReads := []

/-- Circuit `c` behind the inputs. -/
def inputs (c : ℕ) : Pass2 F G₁ G₂ :=
  (r.start c).runInp (r.queries c) (r.provers c)

def second (c : ℕ) : Pass2 F G₁ G₂ :=
  (r.inputs c).runAux (r.queries c) (r.provers c)

end Prep

end SupraSeal.PrepMsm
