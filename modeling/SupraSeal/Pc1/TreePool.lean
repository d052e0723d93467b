import SupraSeal.Pc1.TreeSpec

/-!
# The multi-threaded builder

`BuildTree` with a thread pool cuts the input into chunks, builds the rows over each chunk in
parallel, and merges the roots of the chunks with the single-threaded builder. The pool runs the
calls of the chunks in some interleaving.

The number of chunks grows with the pool and is not compared with the size of the tree: the chunks
must reach the first row that is kept.
-/

namespace SupraSeal

open MerkleTree Interleaving

/-- Pointer arithmetic: a pointer before the start of its array is none. -/
def TreePtr.offset (p : TreePtr) (d : ℤ) : Option TreePtr :=
  if 0 ≤ p.idx + d then some ⟨p.buf, (p.idx + d).toNat⟩ else none

namespace TreeBuilder

variable {α : Type*} (t : TreeBuilder α)

/-- The loop that multiplies `num_chunks`. -/
def createChunks (minChunks numChunks : ℕ) (hpos : 0 < numChunks) : ℕ :=
  if _h : numChunks < minChunks then
    createChunks minChunks (numChunks * t.arity) (Nat.mul_pos hpos t.arity_pos)
  else numChunks
termination_by minChunks - numChunks
decreasing_by
  have hlt := (Nat.lt_mul_iff_one_lt_right hpos).mpr t.one_lt_arity
  omega

/-- The number of chunks for a pool. -/
def numChunks (poolSize : ℕ) : ℕ := t.createChunks (poolSize * 4) t.arity t.arity_pos

/-- The loops over the rows of a chunk. -/
def chunkRowPasses (out discardedRows : TreePtr) (chunk curCount layerSize : ℕ) (discards : ℤ)
    (layerOutStart curHashOut curHashIn : TreePtr) : List RowPass :=
  if _h : 1 < curCount then
    let curCount' := curCount / t.arity
    let layerSize := layerSize / t.arity
    let discards := discards - 1
    ⟨false, curCount, curHashOut, curHashIn⟩ ::
      if discards = 1 then
        chunkRowPasses out discardedRows chunk curCount' layerSize discards layerOutStart
          discardedRows curHashOut
      else if discards = 0 then
        chunkRowPasses out discardedRows chunk curCount' layerSize discards layerOutStart
          (out.add (chunk * curCount' / t.arity)) curHashOut
      else
        let layerOutStart := layerOutStart.add layerSize
        chunkRowPasses out discardedRows chunk curCount' layerSize discards layerOutStart
          (layerOutStart.add (chunk * curCount' / t.arity)) curHashOut
  else []
termination_by curCount
decreasing_by all_goals exact Nat.div_lt_self (by omega) t.one_lt_arity

/-- The scratch buffer of a chunk, `count / arity` nodes. The buffers of the chunks are stretches
of one array here. -/
def discardedRows (count chunk : ℕ) : TreePtr := ⟨.discarded, chunk * (count / t.arity)⟩

/-- The loops over a chunk. -/
def chunkPasses (count chunkSize : ℕ) (out input : TreePtr) (cols noDiscard : Bool) (chunk : ℕ) :
    List RowPass :=
  let curHashOut := out.add (chunk * chunkSize / if cols then t.colArity else t.arity)
  let curHashIn := input.add (chunk * chunkSize)
  let discards : ℤ := if cols || noDiscard then -1 else t.discardRows
  let discardedRows := t.discardedRows count chunk
  if cols then
    let curCount := chunkSize / t.colArity
    let layerSize := count / t.colArity
    let layerOutStart := out.add layerSize
    ⟨true, chunkSize, curHashOut, curHashIn⟩ ::
      t.chunkRowPasses out discardedRows chunk curCount layerSize discards layerOutStart
        (if 0 < discards then discardedRows else layerOutStart.add (chunk * curCount / t.arity))
        curHashOut
  else
    t.chunkRowPasses out discardedRows chunk chunkSize count discards out
      (if 0 < discards then discardedRows else curHashOut) curHashIn

/-- The calls of every chunk. -/
def chunkProgs (count poolSize : ℕ) (out input : TreePtr) (cols noDiscard : Bool) (chunk : ℕ) :
    List HashCall :=
  let numChunks := t.numChunks poolSize
  if chunk < numChunks then
    (t.chunkPasses count (count / numChunks) out input cols noDiscard chunk).flatMap t.calls
  else []

/-- Where the merge starts. The difference of the sizes can be negative; as `size_t` it wraps, and
the address is that many nodes before `out`. -/
def topTreeStart (count poolSize : ℕ) (out : TreePtr) (cols : Bool) : Option TreePtr :=
  let topTreeSize := t.size (t.numChunks poolSize * t.arity) false true
  out.offset (t.size count cols false - topTreeSize)

/-- `BuildTree` with a pool that runs the calls of the chunks as in the trace: the root, and the
memory, unless the merge starts before all memory. -/
def buildTreePool (count poolSize : ℕ) (out : TreePtr) (cols : Bool) (trace : List (ℕ × HashCall))
    (mem : TreeMem α) : Option (α × TreeMem α) :=
  let mem := run t.exec trace mem
  (t.topTreeStart count poolSize out cols).map fun topTreeStart =>
    let numChunks := t.numChunks poolSize
    t.buildTree numChunks (topTreeStart.add numChunks) topTreeStart false true mem

/-- The calls of the merge. -/
def mergeCalls (poolSize : ℕ) (topTreeStart : TreePtr) : List HashCall :=
  let numChunks := t.numChunks poolSize
  (t.passes numChunks (topTreeStart.add numChunks) topTreeStart false true).flatMap t.calls

/-- A node of the arrays: of the `count` nodes of the input, the `size` nodes of the output, or the
scratch buffer of a chunk. -/
def InBounds (count : ℕ) (out input : TreePtr) (cols : Bool) (chunk : ℕ) (p : TreePtr) : Prop :=
  (∃ i < count, p = input.add i) ∨ (∃ i < t.size count cols false, p = out.add i) ∨
    ∃ i < count / t.arity, p = (t.discardedRows count chunk).add i

/-- Multi-threaded building agrees with single-threaded building: for every interleaving of the
chunks the output and the root are the same; all nodes that are read and written are in the arrays;
no two chunks write the same node of the output. -/
structure PoolAgrees (count poolSize : ℕ) (out input : TreePtr) (cols : Bool) (mem : TreeMem α) :
    Prop where
  result : ∀ trace, IsInterleaving (t.chunkProgs count poolSize out input cols false) trace →
    ∃ res, t.buildTreePool count poolSize out cols trace mem = some res ∧
      (∀ j < t.size count cols false,
        res.2.array out j = (t.buildTree count out input cols false mem).2.array out j) ∧
      res.1 = (t.buildTree count out input cols false mem).1
  chunkBounds : ∀ chunk < t.numChunks poolSize,
    ∀ x ∈ t.chunkProgs count poolSize out input cols false chunk,
      t.InBounds count out input cols chunk x.out ∧
      ∀ a < t.groupSize x.cols, t.InBounds count out input cols chunk (x.input.add a)
  mergeBounds : ∃ p, t.topTreeStart count poolSize out cols = some p ∧
    ∀ x ∈ t.mergeCalls poolSize p,
      (∃ i < t.size count cols false, x.out = out.add i) ∧
      ∀ a < t.groupSize x.cols, ∃ i < t.size count cols false, x.input.add a = out.add i
  disjoint : ∀ chunk < t.numChunks poolSize, ∀ chunk' < t.numChunks poolSize, chunk ≠ chunk' →
    ∀ x ∈ t.chunkProgs count poolSize out input cols false chunk,
      ∀ y ∈ t.chunkProgs count poolSize out input cols false chunk',
        x.out.buf = out.buf → x.out ≠ y.out

/-! ### The chunks -/

variable {t} {out scratch input : TreePtr} {cols : Bool} {k h c : ℕ} {m : TreeMem α}

lemma createChunks_pow (minChunks n : ℕ) (hpos : 0 < t.arity ^ n) :
    ∃ n', n ≤ n' ∧ t.createChunks minChunks (t.arity ^ n) hpos = t.arity ^ n' := by
  induction hd : minChunks - t.arity ^ n using Nat.strong_induction_on generalizing n with
  | _ d ih =>
    rw [createChunks]
    split_ifs with h
    · have hlt : t.arity ^ n < t.arity ^ (n + 1) :=
        Nat.pow_lt_pow_right t.one_lt_arity (Nat.lt_succ_self n)
      obtain ⟨n', hn', heq⟩ := ih (minChunks - t.arity ^ (n + 1)) (by omega) (n + 1)
        (pow_pos t.arity_pos _) rfl
      refine ⟨n', by omega, ?_⟩
      simp only [← pow_succ]
      exact heq
    · exact ⟨n, le_rfl, rfl⟩

/-- The number of chunks is a power of the arity. -/
lemma exists_numChunks (t : TreeBuilder α) (poolSize : ℕ) :
    ∃ n, 0 < n ∧ t.numChunks poolSize = t.arity ^ n := by
  have hpos : 0 < t.arity ^ 1 := pow_pos t.arity_pos 1
  obtain ⟨n, hn, heq⟩ := createChunks_pow (t := t) (poolSize * 4) 1 hpos
  refine ⟨n, hn, ?_⟩
  simp only [pow_one] at heq
  exact heq

lemma chunkRowPasses_succ (out scratch : TreePtr) (c e n : ℕ) (d : ℤ) (l o i : TreePtr) :
    t.chunkRowPasses out scratch c (t.arity ^ (e + 1)) (t.arity ^ (n + 1)) d l o i =
      ⟨false, t.arity ^ (e + 1), o, i⟩ ::
        if d - 1 = 1 then
          t.chunkRowPasses out scratch c (t.arity ^ e) (t.arity ^ n) (d - 1) l scratch o
        else if d - 1 = 0 then
          t.chunkRowPasses out scratch c (t.arity ^ e) (t.arity ^ n) (d - 1) l
            (out.add (c * t.arity ^ e / t.arity)) o
        else
          t.chunkRowPasses out scratch c (t.arity ^ e) (t.arity ^ n) (d - 1) (l.add (t.arity ^ n))
            ((l.add (t.arity ^ n)).add (c * t.arity ^ e / t.arity)) o := by
  rw [chunkRowPasses, dif_pos (Nat.one_lt_pow (by omega) t.one_lt_arity)]
  simp only [pow_succ' t.arity e, pow_succ' t.arity n, Nat.mul_div_cancel_left _ t.arity_pos]

/-- The part of a chunk in the row above one with `arity ^ e` nodes a chunk. -/
lemma mul_pow_div (c e : ℕ) (he : 0 < e) : c * t.arity ^ e / t.arity = c * t.arity ^ (e - 1) := by
  obtain ⟨e, rfl⟩ : ∃ e', e = e' + 1 := ⟨e - 1, by omega⟩
  rw [pow_succ, ← Nat.mul_assoc, Nat.mul_div_cancel _ t.arity_pos, Nat.add_sub_cancel]

/-- The loops of a chunk when nothing more is discarded; the tree has `n` rows more than the
chunk. -/
lemma chunkRowPasses_eq (out scratch : TreePtr) (c e n : ℕ) {d : ℤ} (hd : d ≤ 0) (l i : TreePtr) :
    t.chunkRowPasses out scratch c (t.arity ^ e) (t.arity ^ (e + n)) d l
        (l.add (c * t.arity ^ e / t.arity)) i =
      (List.range e).map (t.rowPass
        (fun r => l.add (rowStart t.arity (e + n - 1) r + c * t.arity ^ (e - 1 - r))) i e) := by
  induction e generalizing d l i with
  | zero => rw [chunkRowPasses, dif_neg (by simp)]; rfl
  | succ e ih =>
    rw [Nat.add_right_comm, chunkRowPasses_succ, if_neg (by omega), if_neg (by omega),
      ih (by omega), map_rowPass_succ]
    rw [mul_pow_div c (e + 1) (Nat.succ_pos e), Nat.add_sub_cancel]
    have hfirst : l.add (rowStart t.arity (e + n + 1 - 1) 0 + c * t.arity ^ (e - 0)) =
        l.add (c * t.arity ^ e) := by
      rw [rowStart_zero, Nat.zero_add, Nat.sub_zero]
    rw [hfirst]
    congr 1
    refine map_rowPass_congr (fun r hr => ?_) _
    have hn : e + n = e + n - 1 + 1 := by omega
    rw [TreePtr.add_add, Nat.add_sub_cancel, ← Nat.add_assoc, Nat.sub_sub e 1, Nat.add_comm 1 r]
    congr 2
    rw [hn, rowStart_succ_succ, Nat.add_sub_cancel]

/-- The loops of a chunk whose first rows are discarded. -/
lemma chunkRowPasses_discard {d : ℕ} (hd : d ≤ 2) (hh : d < h) (hhk : h ≤ k)
    (out scratch input : TreePtr) :
    t.chunkRowPasses out scratch c (t.arity ^ h) (t.arity ^ k) d out
        (if 0 < d then scratch else out.add (c * t.arity ^ h / t.arity)) input =
      (List.range h).map (t.rowPass (t.rowPlace out scratch (d + 1) k h c) input h) := by
  obtain ⟨n, rfl⟩ : ∃ n, k = h + n := ⟨k - h, by omega⟩
  have hplace : ∀ r, d ≤ r → out.add (rowStart t.arity (h + n - (d + 1)) (r - d) +
      c * t.arity ^ (h - 1 - r)) = t.rowPlace out scratch (d + 1) (h + n) h c r := by
    intro r hr
    rw [rowPlace_of_le (by omega), Nat.add_sub_add_right]
  obtain rfl | rfl | rfl : d = 0 ∨ d = 1 ∨ d = 2 := by omega
  · rw [if_neg (by omega), chunkRowPasses_eq _ _ _ _ _ (by decide)]
    exact map_rowPass_congr (fun r _ => hplace r (Nat.zero_le r)) _
  · obtain ⟨h, rfl⟩ : ∃ h', h = h' + 1 := ⟨h - 1, by omega⟩
    rw [if_pos (by omega), map_rowPass_succ, rowPlace_of_lt (by omega)]
    have hsub : h + 1 + n = h + n + 1 := by omega
    rw [hsub, chunkRowPasses_succ, if_neg (by decide), if_pos (by decide),
      chunkRowPasses_eq _ _ _ _ _ (by decide)]
    congr 1
    refine map_rowPass_congr (fun r _ => ?_) _
    have hexp : h + 1 - 1 - (r + 1) = h - 1 - r := by omega
    have hrow : h + 1 + n - (1 + 1) = h + n - 1 := by omega
    rw [← hsub, ← hplace (r + 1) (by omega), hexp, hrow, Nat.add_sub_cancel]
  · obtain ⟨h, rfl⟩ : ∃ h', h = h' + 1 + 1 := ⟨h - 2, by omega⟩
    rw [if_pos (by omega), map_rowPass_succ, map_rowPass_succ, rowPlace_of_lt (by omega),
      rowPlace_of_lt (by omega)]
    have hsub : h + 1 + 1 + n = h + n + 1 + 1 := by omega
    rw [hsub, chunkRowPasses_succ, if_pos (by decide), chunkRowPasses_succ, if_neg (by decide),
      if_pos (by decide), chunkRowPasses_eq _ _ _ _ _ (by decide)]
    congr 2
    refine map_rowPass_congr (fun r _ => ?_) _
    have hexp : h + 1 + 1 - 1 - (r + 1 + 1) = h - 1 - r := by omega
    have hrow : h + 1 + 1 + n - (2 + 1) = h + n - 1 := by omega
    have hidx : r + 1 + 1 - 2 = r := by omega
    rw [← hsub, ← hplace (r + 1 + 1) (by omega), hexp, hrow, hidx]

/-- The loops over a chunk are those over a part. -/
lemma chunkPasses_eq (hd : t.discardRows ≤ 2) (hh : t.firstKept cols false ≤ h) (hhk : h ≤ k)
    (out input : TreePtr) (c : ℕ) :
    t.chunkPasses (t.leafCount cols k) (t.leafCount cols h) out input cols false c =
      t.partPasses out (t.discardedRows (t.leafCount cols k) c)
        (input.add (c * t.leafCount cols h)) cols (t.firstKept cols false) k h c := by
  cases cols with
  | false =>
    refine Eq.trans ?_ (chunkRowPasses_discard hd hh hhk out _ _)
    simp only [chunkPasses, leafCount, Bool.or_self, Bool.false_eq_true, if_false, Int.natCast_pos]
  | true =>
    have hpos := t.colArity_pos
    have hpart : c * (t.colArity * t.arity ^ h) / t.colArity = c * t.arity ^ h := by
      rw [Nat.mul_left_comm, Nat.mul_div_cancel_left _ hpos]
    simp only [chunkPasses, partPasses, leafCount, firstKept, Bool.or_false, if_true, hpart,
      Nat.mul_div_cancel_left _ hpos, List.singleton_append]
    obtain ⟨n, rfl⟩ : ∃ n, k = h + n := ⟨k - h, by omega⟩
    rw [if_neg (by decide), chunkRowPasses_eq _ _ _ _ _ (by decide)]
    congr 1
    refine map_rowPass_congr (fun r hr => ?_) _
    rw [rowPlace_of_le (Nat.zero_le _), TreePtr.add_add, Nat.sub_zero, Nat.sub_zero,
      ← Nat.add_assoc]
    have hn : h + n = h + n - 1 + 1 := by omega
    rw [hn, rowStart_succ_succ, Nat.add_sub_cancel]

/-! ### Running the chunks -/

variable {n o i poolSize : ℕ}

lemma leafCount_div (hn : n ≤ k) : t.leafCount cols k / t.arity ^ n = t.leafCount cols (k - n) := by
  have hpow : t.arity ^ k = t.arity ^ (k - n) * t.arity ^ n := by
    rw [← pow_add, Nat.sub_add_cancel hn]
  rw [leafCount, leafCount, hpow]
  split_ifs
  · rw [← Nat.mul_assoc, Nat.mul_div_cancel _ (pow_pos t.arity_pos n)]
  · rw [Nat.mul_div_cancel _ (pow_pos t.arity_pos n)]

variable (t k n cols o i) in
/-- The loops of a chunk. -/
def chunkPart (c : ℕ) : List RowPass :=
  t.partPasses ⟨.out, o⟩ (t.discardedRows (t.leafCount cols k) c)
    (TreePtr.add ⟨.input, i⟩ (c * t.leafCount cols (k - n))) cols (t.firstKept cols false) k (k - n) c

lemma chunkProgs_eq (hd : t.discardRows ≤ 2) (hpool : t.numChunks poolSize = t.arity ^ n)
    (hn : n + t.firstKept cols false ≤ k) (hc : c < t.arity ^ n) :
    t.chunkProgs (t.leafCount cols k) poolSize ⟨.out, o⟩ ⟨.input, i⟩ cols false c =
      (t.chunkPart cols k n o i c).flatMap t.calls := by
  simp only [chunkProgs, hpool, if_pos hc, leafCount_div (by omega : n ≤ k)]
  rw [chunkPasses_eq hd (by omega) (Nat.sub_le k n)]
  rfl

lemma chunkProgs_of_le (hc : t.numChunks poolSize ≤ c) (count : ℕ) (out input : TreePtr) :
    t.chunkProgs count poolSize out input cols false c = [] :=
  if_neg (Nat.not_lt.mpr hc)

lemma isPart_chunk (hn : n + t.firstKept cols false ≤ k) (hc : c < t.arity ^ n) :
    t.IsPart ⟨.out, o⟩ (t.discardedRows (t.leafCount cols k) c)
      (TreePtr.add ⟨.input, i⟩ (c * t.leafCount cols (k - n))) cols (t.firstKept cols false) k
      (k - n) c where
  le := Nat.sub_le k n
  lt := by rwa [Nat.sub_sub_self (by omega : n ≤ k)]
  kept_le := by omega
  kept_eq_zero := by
    rw [firstKept]
    cases cols <;> simp
  out_scratch := nofun
  input_scratch := nofun
  input_out := nofun

/-- The scratch buffer of a chunk is large enough. -/
lemma scratch_lt (hn : n + t.firstKept cols false ≤ k) (hkept : 1 < t.firstKept cols false) {j : ℕ}
    (hj : j < t.arity ^ (k - n - 1)) : j < t.leafCount cols k / t.arity := by
  cases cols with
  | true => exact absurd hkept (Nat.not_lt_zero 1)
  | false =>
    obtain ⟨k, rfl⟩ : ∃ k', k = k' + 1 := ⟨k - 1, by omega⟩
    refine hj.trans_le ?_
    rw [leafCount, if_neg Bool.false_ne_true, pow_succ, Nat.mul_div_cancel _ t.arity_pos]
    exact Nat.pow_le_pow_right t.arity_pos (by omega)

lemma eq_of_mul_add_eq {w x y j j' : ℕ} (hj : j < w) (hj' : j' < w)
    (h : x * w + j = y * w + j') : x = y := by
  have hdiv : ∀ x j, j < w → (x * w + j) / w = x := fun x j hj => by
    rw [Nat.add_comm, Nat.add_mul_div_right _ _ (Nat.zero_lt_of_lt hj), Nat.div_eq_of_lt hj,
      Nat.zero_add]
  rw [← hdiv x j hj, h, hdiv y j' hj']

/-- No two chunks write the same node, in the output or in the scratch buffers. -/
lemma chunkPart_disjoint (hn : n + t.firstKept cols false ≤ k) {c' : ℕ} (hc : c < t.arity ^ n)
    (hc' : c' < t.arity ^ n) (hne : c ≠ c') {x y : HashCall}
    (hx : x ∈ (t.chunkPart cols k n o i c).flatMap t.calls)
    (hy : y ∈ (t.chunkPart cols k n o i c').flatMap t.calls) : x.out ≠ y.out := by
  intro heq
  have P := isPart_chunk (t := t) (o := o) (i := i) hn hc
  have P' := isPart_chunk (t := t) (o := o) (i := i) hn hc'
  rcases P.out_of_mem hx with ⟨hkept, j, hj, hxj⟩ | ⟨q, hkept, hq, j, hj, hxj⟩
  · rcases P'.out_of_mem hy with ⟨-, j', hj', hyj⟩ | ⟨q', -, -, j', -, hyj⟩
    · rw [hxj, hyj] at heq
      exact hne (eq_of_mul_add_eq (scratch_lt hn hkept hj) (scratch_lt hn hkept hj')
        (congrArg TreePtr.idx heq))
    · rw [hxj, hyj] at heq
      exact absurd (congrArg TreePtr.buf heq) nofun
  · rcases P'.out_of_mem hy with ⟨-, j', -, hyj⟩ | ⟨q', hkept', hq', j', hj', hyj⟩
    · rw [hxj, hyj] at heq
      exact absurd (congrArg TreePtr.buf heq) nofun
    · rw [hxj, hyj] at heq
      have hidx := Nat.add_left_cancel (congrArg TreePtr.idx heq)
      exact hne (P.rowPos_inj P' hkept hq hkept' hq' hj hj' hidx)

/-- What a chunk sees: the input, and what it has written itself. -/
def Sees (prog : List HashCall) (p : TreePtr) : Prop :=
  p.buf = .input ∨ ∃ x ∈ prog, x.out = p

def SameView (progs : ℕ → List HashCall) (c : ℕ) (m m' : TreeMem α) : Prop :=
  ∀ p, Sees (progs c) p → m p.buf p.idx = m' p.buf p.idx

/-- The chunks do not interfere: after every interleaving a chunk sees what it sees when it runs
alone. -/
lemma run_sees (hd : t.discardRows ≤ 2) (hpool : t.numChunks poolSize = t.arity ^ n)
    (hn : n + t.firstKept cols false ≤ k) {trace : List (ℕ × HashCall)}
    (htrace : IsInterleaving
      (t.chunkProgs (t.leafCount cols k) poolSize ⟨.out, o⟩ ⟨.input, i⟩ cols false) trace)
    (hc : c < t.arity ^ n) {p : TreePtr}
    (hp : Sees ((t.chunkPart cols k n o i c).flatMap t.calls) p) :
    run t.exec trace m p.buf p.idx =
      runProg t.exec ((t.chunkPart cols k n o i c).flatMap t.calls) m p.buf p.idx := by
  have hprogs : ∀ {c : ℕ}, c < t.arity ^ n →
      t.chunkProgs (t.leafCount cols k) poolSize ⟨.out, o⟩ ⟨.input, i⟩ cols false c =
        (t.chunkPart cols k n o i c).flatMap t.calls := fun hc => chunkProgs_eq hd hpool hn hc
  set progs := t.chunkProgs (t.leafCount cols k) poolSize ⟨.out, o⟩ ⟨.input, i⟩ cols false with hdef
  have hlt : ∀ {c x}, x ∈ progs c → c < t.arity ^ n := fun {c x} hx => by
    by_contra hge
    rw [hdef, chunkProgs_of_le (hpool ▸ Nat.not_lt.mp hge)] at hx
    exact absurd hx List.not_mem_nil
  rw [← hprogs hc] at hp ⊢
  have hown : ∀ c, ∀ x ∈ progs c, ∀ s s' : TreeMem α, SameView progs c s s' →
      SameView progs c (t.exec x s) (t.exec x s') := by
    -- a call reads only what its chunk sees
    intro c x hx s s' hs p hp
    rw [exec, exec, TreeMem.write_apply, TreeMem.write_apply, hs p hp]
    have hread : group (t.groupSize x.cols) (s.array x.input) 0 =
        group (t.groupSize x.cols) (s'.array x.input) 0 := by
      refine group_congr fun a ha => ?_
      have hmem := hprogs (hlt hx) ▸ hx
      rw [Nat.zero_add]
      refine hs (x.input.add a) ?_
      rcases (isPart_chunk hn (hlt hx)).input_of_mem hmem ha with ⟨j, -, hj⟩ | ⟨y, hy, hj⟩
      · exact .inl (congrArg TreePtr.buf hj)
      · exact .inr ⟨y, (hprogs (hlt hx)).symm ▸ hy, hj.symm⟩
    rw [hread]
  have hother : ∀ c c', c ≠ c' → ∀ x ∈ progs c', ∀ s s' : TreeMem α, SameView progs c s s' →
      SameView progs c (t.exec x s) s' := by
    -- a call writes nothing that another chunk sees
    intro c c' hne x hx s s' hs p hp
    rw [exec, TreeMem.write_apply, if_neg, hs p hp]
    rintro ⟨hb, hidx⟩
    have hmem := hprogs (hlt hx) ▸ hx
    rcases hp with hin | ⟨y, hy, rfl⟩
    · rw [hin] at hb
      rcases (isPart_chunk hn (hlt hx)).out_of_mem hmem with ⟨-, j, -, hj⟩ | ⟨q, -, -, j, -, hj⟩
      · exact absurd (hb.trans (congrArg TreePtr.buf hj)) (by simp [discardedRows])
      · exact absurd (hb.trans (congrArg TreePtr.buf hj)) (by simp)
    · have hmem' := hprogs (hlt hy) ▸ hy
      exact chunkPart_disjoint hn (hlt hy) (hlt hx) hne hmem' hmem
        (TreePtr.mk.injEq .. ▸ ⟨hb, hidx⟩)
  have hsame : SameView progs c (run t.exec trace m) (runProg t.exec (progs c) m) :=
    htrace.same_view hown hother fun _ _ => rfl
  exact hsame p hp

/-- The rows over a chunk are parts of the rows over the input. -/
lemma row_chunk (f : ℕ → α) (c : ℕ) {q : ℕ} (hq : q ≤ h) (j : ℕ) :
    row t.hash t.arity (t.leaves cols fun j => f (c * t.leafCount cols h + j)) q j =
      row t.hash t.arity (t.leaves cols f) q (c * t.arity ^ (h - q) + j) := by
  cases cols with
  | false => exact row_shift f c hq j
  | true =>
    have hcols : t.leaves true (fun j => f (c * t.leafCount true h + j)) =
        fun j => t.leaves true f (c * t.arity ^ h + j) := t.columns_shift f c (t.arity ^ h)
    rw [hcols]
    exact row_shift _ c hq j

/-- The stored rows up to the roots of the chunks, after every interleaving. -/
lemma run_rows (hd : t.discardRows ≤ 2) (hpool : t.numChunks poolSize = t.arity ^ n)
    (hn : n + t.firstKept cols false ≤ k) {trace : List (ℕ × HashCall)}
    (htrace : IsInterleaving
      (t.chunkProgs (t.leafCount cols k) poolSize ⟨.out, o⟩ ⟨.input, i⟩ cols false) trace)
    {q : ℕ} (hkept : t.firstKept cols false ≤ q) (hq : q ≤ k - n) {x : ℕ}
    (hx : x < t.arity ^ (k - q)) :
    (run t.exec trace m).array ⟨.out, o⟩
        (rowStart t.arity (k - t.firstKept cols false) (q - t.firstKept cols false) + x) =
      row t.hash t.arity (t.leaves cols (m.array ⟨.input, i⟩)) q x := by
  -- the chunk of node `x`, and its position in the chunk
  set w := t.arity ^ (k - n - q) with hw
  have hwpos : 0 < w := pow_pos t.arity_pos _
  have hc : x / w < t.arity ^ n := by
    refine Nat.div_lt_of_lt_mul ?_
    rw [hw, ← pow_add]
    exact hx.trans_le (Nat.pow_le_pow_right t.arity_pos (by omega))
  have hj : x % w < t.arity ^ (k - n - q) := Nat.mod_lt x hwpos
  have hxw : x / w * w + x % w = x := Nat.div_add_mod' x w
  have P := isPart_chunk (t := t) (o := o) (i := i) hn hc
  obtain ⟨y, hy, hyx⟩ := P.exists_mem_out hkept hq hj
  have hpos : t.rowPos (t.firstKept cols false) k (k - n) (x / w) q + x % w =
      rowStart t.arity (k - t.firstKept cols false) (q - t.firstKept cols false) + x := by
    rw [rowPos, ← hw, Nat.add_assoc, hxw]
  have hsees := run_sees (m := m) hd hpool hn htrace hc (.inr ⟨y, hy, rfl⟩)
  rw [hyx, hpos] at hsees
  refine hsees.trans ?_
  have hrow := P.rows (m := m) hkept hq hj
  rw [TreeMem.array_add, hpos] at hrow
  refine hrow.trans ?_
  have hleaves : m.array (TreePtr.add ⟨.input, i⟩ (x / w * t.leafCount cols (k - n))) =
      fun j => m.array ⟨.input, i⟩ (x / w * t.leafCount cols (k - n) + j) :=
    funext fun j => TreeMem.array_add ..
  rw [hleaves, row_chunk _ _ hq, ← hw, hxw]

/-! ### The merge -/

/-- The tree over the roots of the chunks, with those roots. -/
lemma size_merge (hpool : t.numChunks poolSize = t.arity ^ n) :
    t.size (t.numChunks poolSize * t.arity) false true = rowStart t.arity n (n + 1) := by
  have hcount : t.numChunks poolSize * t.arity = t.leafCount false (n + 1) := by
    rw [hpool, ← pow_succ]
    rfl
  rw [hcount, size_eq (by simp [firstKept]) (Nat.succ_pos n)]
  rfl

/-- Where the chunks reach the first row that is kept, the merge starts at their roots. -/
lemma topTreeStart_eq (hpool : t.numChunks poolSize = t.arity ^ n)
    (hn : n + t.firstKept cols false ≤ k) (hpos : 0 < n) :
    t.topTreeStart (t.leafCount cols k) poolSize ⟨.out, o⟩ cols =
      some (TreePtr.add ⟨.out, o⟩ (rowStart t.arity (k - t.firstKept cols false)
        (k - n - t.firstKept cols false))) := by
  set kept := t.firstKept cols false
  have hsize : t.size (t.leafCount cols k) cols false =
      rowStart t.arity (k - kept) (k - n - kept) + rowStart t.arity n (n + 1) := by
    have hrows : k - kept + 1 = k - n - kept + (n + 1) := by omega
    have htop : k - kept - (k - n - kept) = n := by omega
    rw [size_eq (by omega : kept ≤ k) (by omega), hrows, rowStart_add, htop]
  rw [topTreeStart, size_merge hpool, hsize, TreePtr.offset, if_pos (by omega)]
  congr 2
  simp only
  omega

/-- Otherwise it starts before the output. -/
lemma lt_of_topTreeStart (hpool : t.numChunks poolSize = t.arity ^ n)
    (hk : t.firstKept cols false ≤ k) (hn : k < n + t.firstKept cols false) (hpos : 0 < k)
    {p : TreePtr} (hp : t.topTreeStart (t.leafCount cols k) poolSize ⟨.out, o⟩ cols = some p) :
    p.idx < o := by
  set kept := t.firstKept cols false
  have hlt : t.size (t.leafCount cols k) cols false < rowStart t.arity n (n + 1) := by
    obtain ⟨l, hl⟩ : ∃ l, n = k - kept + l + 1 := ⟨n - (k - kept) - 1, by omega⟩
    have hrows : n + 1 = l + 1 + (k - kept + 1) := by omega
    have htop : n - (l + 1) = k - kept := by omega
    have hmono : rowStart t.arity n 1 ≤ rowStart t.arity n (l + 1) := rowStart_mono (by omega)
    have hfirst : 0 < rowStart t.arity n 1 := by
      rw [rowStart_succ, rowStart_zero, Nat.zero_add]
      exact pow_pos t.arity_pos _
    have htotal : rowStart t.arity n (n + 1) =
        rowStart t.arity n (l + 1) + rowStart t.arity (k - kept) (k - kept + 1) := by
      rw [hrows, rowStart_add, htop]
    rw [size_eq hk hpos, htotal]
    exact Nat.lt_add_of_pos_left (hfirst.trans_le hmono)
  rw [topTreeStart, size_merge hpool, TreePtr.offset] at hp
  split_ifs at hp with hle
  obtain rfl := Option.some.inj hp
  show ((o : ℤ) + _).toNat < o
  simp only at hle ⊢
  omega

/-- The merge changes nothing up to the roots of the chunks. -/
lemma merge_frame (hd : t.discardRows ≤ 2) (hpos : 0 < n) {p : TreePtr} (hp : p.buf = .out) {x : ℕ}
    (hx : x < p.idx + t.arity ^ n) :
    (t.buildTree (t.arity ^ n) (p.add (t.arity ^ n)) p false true m).2 .out x = m .out x := by
  have hkept : t.firstKept false true ≤ n := hpos
  have hcalls := mem_buildTree (t := t) (t.leafCount false n) (p.add (t.arity ^ n)) p false true m
  rw [passes_eq hd hkept] at hcalls
  have hcalls : (t.buildTree (t.arity ^ n) (p.add (t.arity ^ n)) p false true m).2 = _ := hcalls
  rw [hcalls]
  refine runProg_frame fun y hy heq => ?_
  have P : t.IsPart (p.add (t.arity ^ n)) ⟨.discarded, 0⟩ p false (t.firstKept false true) n n 0 :=
    isPart_whole hkept (by rw [TreePtr.add_buf, hp]; nofun) (by rw [hp]; nofun) fun _ => le_rfl
  rcases P.out_of_mem hy with ⟨h1, -⟩ | ⟨q, -, -, j, -, hj⟩
  · exact absurd h1 (Nat.lt_irrefl 1)
  · rw [heq] at hj
    have hidx : x = p.idx + t.arity ^ n + _ := congrArg TreePtr.idx hj
    omega

/-- The rows that the multi-threaded builder stores, and its root. -/
lemma buildTreePool_rows (hd : t.discardRows ≤ 2) (hpool : t.numChunks poolSize = t.arity ^ n)
    (hn : n + t.firstKept cols false ≤ k) (hpos : 0 < n) {trace : List (ℕ × HashCall)}
    (htrace : IsInterleaving
      (t.chunkProgs (t.leafCount cols k) poolSize ⟨.out, o⟩ ⟨.input, i⟩ cols false) trace) :
    ∃ res, t.buildTreePool (t.leafCount cols k) poolSize ⟨.out, o⟩ cols trace m = some res ∧
      (∀ q, t.firstKept cols false ≤ q → q ≤ k → ∀ j < t.arity ^ (k - q),
        res.2.array ⟨.out, o⟩
            (rowStart t.arity (k - t.firstKept cols false) (q - t.firstKept cols false) + j) =
          row t.hash t.arity (t.leaves cols (m.array ⟨.input, i⟩)) q j) ∧
      res.1 = row t.hash t.arity (t.leaves cols (m.array ⟨.input, i⟩)) k 0 := by
  have hrun := fun {q : ℕ} => run_rows (m := m) (q := q) hd hpool hn htrace
  have hstart := topTreeStart_eq (o := o) hpool hn hpos
  set kept := t.firstKept cols false
  set f := t.leaves cols (m.array ⟨.input, i⟩)
  set p := TreePtr.add ⟨.out, o⟩ (rowStart t.arity (k - kept) (k - n - kept)) with hp
  have hres : t.buildTreePool (t.leafCount cols k) poolSize ⟨.out, o⟩ cols trace m =
      some (t.buildTree (t.arity ^ n) (p.add (t.arity ^ n)) p false true (run t.exec trace m)) := by
    rw [buildTreePool, hstart, Option.map_some, hpool]
  -- the roots of the chunks
  have hroots : ∀ j < t.arity ^ n, (run t.exec trace m).array p j =
      row t.hash t.arity f (k - n) j := by
    intro j hj
    rw [hp, TreeMem.array_add]
    refine hrun (by omega : kept ≤ k - n) le_rfl ?_
    rwa [Nat.sub_sub_self (by omega : n ≤ k)]
  have hkept : t.firstKept false true ≤ n := hpos
  have hrow : ∀ q, 1 ≤ q → q ≤ n → ∀ j < t.arity ^ (n - q),
      (t.buildTree (t.arity ^ n) (p.add (t.arity ^ n)) p false true (run t.exec trace m)).2.array
        (p.add (t.arity ^ n)) (rowStart t.arity (n - 1) (q - 1) + j) =
          row t.hash t.arity f (k - n + q) j := by
    intro q h1 hq j hj
    have h := buildTree_rows (k := n) (j := j) hd hkept (p.add (t.arity ^ n)) p (run t.exec trace m)
      nofun nofun (fun _ => le_rfl) h1 hq hj
    rw [row_add, ← row_congr hroots hq j hj]
    exact h
  refine ⟨_, hres, ?_, ?_⟩
  · intro q hkq hq j hj
    by_cases hqn : q ≤ k - n
    · -- a row of the chunks
      refine Eq.trans ?_ (hrun hkq hqn hj)
      refine merge_frame hd hpos rfl ?_
      have hend : rowStart t.arity (k - kept) (q - kept) + j <
          rowStart t.arity (k - kept) (q - kept + 1) := by
        have hexp : k - kept - (q - kept) = k - q := by omega
        rw [rowStart_succ, hexp]
        exact Nat.add_lt_add_left hj _
      have hmono : rowStart t.arity (k - kept) (q - kept + 1) ≤
          rowStart t.arity (k - kept) (k - n - kept + 1) := rowStart_mono (by omega)
      have hexp : k - kept - (k - n - kept) = n := by omega
      rw [rowStart_succ _ (k - n - kept), hexp] at hmono
      simp only [hp, TreePtr.add_idx]
      omega
    · -- a row of the merge
      obtain ⟨q, rfl⟩ : ∃ q', q = k - n + (q' + 1) := ⟨q - (k - n) - 1, by omega⟩
      obtain ⟨n, rfl⟩ : ∃ n', n = n' + 1 := ⟨n - 1, by omega⟩
      rw [← hrow (q + 1) (by omega) (by omega) j (by convert hj using 2; omega)]
      have hsub : k - (n + 1) + (q + 1) - kept = k - (n + 1) - kept + (q + 1) := by omega
      have hexp : k - kept - (k - (n + 1) - kept) = n + 1 := by omega
      rw [hsub, rowStart_add, hexp, rowStart_succ_succ, hp, TreePtr.add_add, TreeMem.array_add,
        Nat.add_sub_cancel, Nat.add_sub_cancel, Nat.add_assoc, Nat.add_assoc, Nat.add_assoc]
  · have h := buildTree_root (k := n) hd hkept hpos (p.add (t.arity ^ n)) p (run t.exec trace m)
      nofun nofun fun _ => le_rfl
    refine h.trans ?_
    have hk : k = k - n + n := by omega
    conv_rhs => rw [hk, row_add]
    exact row_congr hroots le_rfl 0 (by simp)

/-! ### The accesses -/

/-- A part writes in its scratch buffer and in the output. -/
lemma chunkPart_out (hn : n + t.firstKept cols false ≤ k) (hpos : 0 < n) (hc : c < t.arity ^ n)
    {x : HashCall} (hx : x ∈ (t.chunkPart cols k n o i c).flatMap t.calls) :
    t.InBounds (t.leafCount cols k) ⟨.out, o⟩ ⟨.input, i⟩ cols c x.out := by
  have P := isPart_chunk (t := t) (o := o) (i := i) hn hc
  rcases P.out_of_mem hx with ⟨hkept, j, hj, hxj⟩ | ⟨q, hkept, hq, j, hj, hxj⟩
  · exact .inr (.inr ⟨j, scratch_lt hn hkept hj, hxj⟩)
  · refine .inr (.inl ⟨_, ?_, hxj⟩)
    rw [size_eq (by omega) (by omega)]
    calc t.rowPos (t.firstKept cols false) k (k - n) c q + j
        < t.rowPos (t.firstKept cols false) k (k - n) c q + t.arity ^ (k - n - q) :=
          Nat.add_lt_add_left hj _
      _ ≤ rowStart t.arity (k - t.firstKept cols false) (q + 1 - t.firstKept cols false) :=
          P.rowPos_end hkept hq
      _ ≤ _ := rowStart_mono (by omega)

lemma chunkPart_input (hn : n + t.firstKept cols false ≤ k) (hpos : 0 < n) (hc : c < t.arity ^ n)
    {x : HashCall} (hx : x ∈ (t.chunkPart cols k n o i c).flatMap t.calls) {a : ℕ}
    (ha : a < t.groupSize x.cols) :
    t.InBounds (t.leafCount cols k) ⟨.out, o⟩ ⟨.input, i⟩ cols c (x.input.add a) := by
  rcases (isPart_chunk hn hc).input_of_mem hx ha with ⟨j, hj, hxj⟩ | ⟨y, hy, hxy⟩
  · refine .inl ⟨c * t.leafCount cols (k - n) + j, ?_, by rw [hxj, TreePtr.add_add]⟩
    have hcount : t.leafCount cols k = t.arity ^ n * t.leafCount cols (k - n) := by
      have hpow : t.arity ^ k = t.arity ^ n * t.arity ^ (k - n) := by
        rw [← pow_add, Nat.add_sub_cancel' (by omega)]
      rw [leafCount, leafCount, hpow]
      split_ifs
      · exact Nat.mul_left_comm ..
      · rfl
    calc c * t.leafCount cols (k - n) + j
        < c * t.leafCount cols (k - n) + t.leafCount cols (k - n) := Nat.add_lt_add_left hj _
      _ = (c + 1) * t.leafCount cols (k - n) := (Nat.succ_mul ..).symm
      _ ≤ _ := hcount ▸ Nat.mul_le_mul_right _ hc
  · rw [hxy]
    exact chunkPart_out hn hpos hc hy

/-- The merge stays in the output. -/
lemma merge_bounds (hd : t.discardRows ≤ 2) (hpool : t.numChunks poolSize = t.arity ^ n)
    (hn : n + t.firstKept cols false ≤ k) (hpos : 0 < n) {p : TreePtr}
    (hp : p = TreePtr.add ⟨.out, o⟩ (rowStart t.arity (k - t.firstKept cols false)
      (k - n - t.firstKept cols false))) {x : HashCall} (hx : x ∈ t.mergeCalls poolSize p) :
    (∃ i < t.size (t.leafCount cols k) cols false, x.out = TreePtr.add ⟨.out, o⟩ i) ∧
    ∀ a < t.groupSize x.cols, ∃ i < t.size (t.leafCount cols k) cols false,
      x.input.add a = TreePtr.add ⟨.out, o⟩ i := by
  set kept := t.firstKept cols false
  -- the nodes from the roots of the chunks on
  have htop : ∀ j < rowStart t.arity n (n + 1),
      ∃ i < t.size (t.leafCount cols k) cols false, p.add j = TreePtr.add ⟨.out, o⟩ i := by
    intro j hj
    refine ⟨_, ?_, by rw [hp, TreePtr.add_add]⟩
    have hrows : k - kept + 1 = k - n - kept + (n + 1) := by omega
    have hexp : k - kept - (k - n - kept) = n := by omega
    rw [size_eq (by omega : kept ≤ k) (by omega), hrows, rowStart_add, hexp]
    exact Nat.add_lt_add_left hj _
  have hkept : t.firstKept false true ≤ n := hpos
  have P : t.IsPart (p.add (t.arity ^ n)) ⟨.discarded, 0⟩ p false (t.firstKept false true) n n 0 :=
    isPart_whole hkept (by rw [hp]; nofun) (by rw [hp]; nofun) fun _ => le_rfl
  have hcalls : t.mergeCalls poolSize p = (t.partPasses (p.add (t.arity ^ n)) ⟨.discarded, 0⟩ p false
      (t.firstKept false true) n n 0).flatMap t.calls := by
    rw [mergeCalls, hpool, ← passes_eq hd hkept]
    rfl
  rw [hcalls] at hx
  have hout : ∀ {y : HashCall}, y ∈ (t.partPasses (p.add (t.arity ^ n)) ⟨.discarded, 0⟩ p false
      (t.firstKept false true) n n 0).flatMap t.calls →
        ∃ i < t.size (t.leafCount cols k) cols false, y.out = TreePtr.add ⟨.out, o⟩ i := by
    intro y hy
    rcases P.out_of_mem hy with ⟨h1, -⟩ | ⟨q, h1, hq, j, hj, hyj⟩
    · exact absurd h1 (Nat.lt_irrefl 1)
    · have hend := P.rowPos_end h1 hq
      have hmono : rowStart t.arity (n - 1) (q + 1 - 1) ≤ rowStart t.arity (n - 1) n :=
        rowStart_mono (by omega)
      have hlast : rowStart t.arity n (n + 1) = t.arity ^ n + rowStart t.arity (n - 1) n := by
        obtain ⟨n, rfl⟩ : ∃ n', n = n' + 1 := ⟨n - 1, by omega⟩
        exact rowStart_succ_succ n (n + 1)
      obtain ⟨l, hl, hlo⟩ := htop (t.arity ^ n + (t.rowPos (t.firstKept false true) n n 0 q + j)) (by
        have hend : t.rowPos (t.firstKept false true) n n 0 q + t.arity ^ (n - q) ≤
          rowStart t.arity (n - 1) (q + 1 - 1) := hend
        omega)
      exact ⟨l, hl, by rw [hyj, TreePtr.add_add, hlo]⟩
  refine ⟨hout hx, fun a ha => ?_⟩
  rcases P.input_of_mem hx ha with ⟨j, hj, hxj⟩ | ⟨y, hy, hxy⟩
  · rw [hxj]
    refine htop j (lt_of_lt_of_le hj ?_)
    have hfirst : rowStart t.arity n 1 ≤ rowStart t.arity n (n + 1) := rowStart_mono (by omega)
    rwa [rowStart_succ, rowStart_zero, Nat.zero_add, Nat.sub_zero] at hfirst
  · rw [hxy]
    exact hout hy

/-- The first call of the merge reads where the merge starts. -/
lemma exists_mem_mergeCalls (hpool : t.numChunks poolSize = t.arity ^ n) (hpos : 0 < n) (p : TreePtr) :
    ∃ x ∈ t.mergeCalls poolSize p, x.input = p := by
  obtain ⟨n, rfl⟩ : ∃ n', n = n' + 1 := ⟨n - 1, by omega⟩
  have hpasses : t.passes (t.arity ^ (n + 1)) (p.add (t.arity ^ (n + 1))) p false true = _ :=
    rowPasses_succ _ n (-1) _ p
  have hcount : (⟨false, t.arity ^ (n + 1), p.add (t.arity ^ (n + 1)), p⟩ : RowPass).count =
      t.groupSize false * t.arity ^ n := pow_succ' t.arity n
  have hlen := length_calls_of_count hcount
  rw [length_calls] at hlen
  refine ⟨⟨false, (p.add (t.arity ^ (n + 1))).add 0, p.add (t.groupSize false * 0)⟩, ?_, rfl⟩
  simp only [mergeCalls, hpool]
  rw [hpasses, List.flatMap_cons, calls, hlen]
  refine List.mem_append_left _ (List.mem_map.mpr ⟨0, List.mem_range.mpr (pow_pos t.arity_pos n), rfl⟩)

/-! ### The condition -/

/-- The merge stays in the output only when the chunks reach the first kept row. -/
lemma reaches_of_poolAgrees (hpool : t.numChunks poolSize = t.arity ^ n)
    (hk : t.firstKept cols false ≤ k) (hpos : 0 < n) (hkpos : 0 < k)
    (h : t.PoolAgrees (t.leafCount cols k) poolSize ⟨.out, o⟩ input cols m) :
    n + t.firstKept cols false ≤ k := by
  by_contra hlt
  -- the merge reads a node before the output
  obtain ⟨p, hp, hbounds⟩ := h.mergeBounds
  have hbefore := lt_of_topTreeStart hpool hk (not_le.mp hlt) hkpos hp
  obtain ⟨x, hx, rfl⟩ := exists_mem_mergeCalls hpool hpos p
  obtain ⟨j, -, hj⟩ := (hbounds x hx).2 0 (groupSize_pos _)
  have hidx : x.input.idx = o + j := congrArg TreePtr.idx hj
  omega

/-- The multi-threaded builder agrees with the single-threaded one exactly when there are not more
chunks than nodes in the first row that is kept. -/
theorem poolAgrees_iff (t : TreeBuilder α) (hd : t.discardRows ≤ 2) (hk : t.discardRows < k)
    (cols : Bool) (poolSize o i : ℕ) (m : TreeMem α) :
    t.PoolAgrees (t.leafCount cols k) poolSize ⟨.out, o⟩ ⟨.input, i⟩ cols m ↔
      t.numChunks poolSize * t.arity ^ t.firstKept cols false ≤ t.arity ^ k := by
  obtain ⟨n, hpos, hpool⟩ := t.exists_numChunks poolSize
  have hkept : t.firstKept cols false ≤ k := by
    rw [firstKept]
    split_ifs <;> omega
  rw [hpool, ← pow_add, Nat.pow_le_pow_iff_right t.one_lt_arity]
  constructor
  · intro h
    exact reaches_of_poolAgrees hpool hkept hpos (by omega) h
  · intro hn
    refine ⟨?_, ?_, ⟨_, topTreeStart_eq hpool hn hpos, fun x hx => merge_bounds hd hpool hn hpos rfl hx⟩,
      ?_⟩
    · intro trace htrace
      obtain ⟨res, hres, hrows, hroot⟩ := buildTreePool_rows (m := m) hd hpool hn hpos htrace
      refine ⟨res, hres, ?_, ?_⟩
      · intro j hj
        rw [size_eq hkept (by omega)] at hj
        obtain ⟨l, hl, x, hx, rfl⟩ := exists_row_of_lt hj
        have hq : l = l + t.firstKept cols false - t.firstKept cols false := (Nat.add_sub_cancel ..).symm
        have hexp : k - t.firstKept cols false - l = k - (l + t.firstKept cols false) := by omega
        rw [hexp] at hx
        have hrow := buildTree_rows hd hkept ⟨.out, o⟩ ⟨.input, i⟩ m (by simp) (by simp)
          (by simp)
          (Nat.le_add_left ..) (by omega) hx
        rw [hq, hrows _ (Nat.le_add_left ..) (by omega) x hx, hrow]
      · rw [hroot]
        exact (buildTree_root hd hkept (by omega) ⟨.out, o⟩ ⟨.input, i⟩ m (by simp) (by simp)
          (by simp)).symm
    · intro c hc x hx
      rw [hpool] at hc
      rw [chunkProgs_eq hd hpool hn hc] at hx
      exact ⟨chunkPart_out hn hpos hc hx, fun a ha => chunkPart_input hn hpos hc hx ha⟩
    · intro c hc c' hc' hne x hx y hy _
      rw [hpool] at hc hc'
      rw [chunkProgs_eq hd hpool hn hc] at hx
      rw [chunkProgs_eq hd hpool hn hc'] at hy
      exact chunkPart_disjoint hn hc hc' hne hx hy

/-- The builder of tree R of a sector of 8MiB, adding up nodes. -/
def treeR : TreeBuilder ℕ := ⟨2, 8, 2, List.sum, List.sum, Nat.two_pos, by decide⟩

lemma numChunks_treeR_16 : treeR.numChunks 16 = 8 ^ 2 := by
  simp [numChunks, createChunks, treeR]

lemma numChunks_treeR_129 : treeR.numChunks 129 = 8 ^ 4 := by
  simp [numChunks, createChunks, treeR]

/-- With 16 threads the tree over the `8 ^ 6` nodes of a sector of 8MiB is that of one thread. -/
theorem poolAgrees_treeR :
    treeR.PoolAgrees (8 ^ 6) 16 ⟨.out, 0⟩ ⟨.input, 0⟩ false fun _ j => j := by
  refine (poolAgrees_iff (k := 6) treeR (by decide) (by decide) false 16 0 0 _).mpr ?_
  rw [numChunks_treeR_16]
  decide

/-- With 129 threads the merge starts before the output. -/
theorem not_poolAgrees_treeR :
    64 < 8 ^ 6 ∧ ¬treeR.PoolAgrees (8 ^ 6) 129 ⟨.out, 0⟩ ⟨.input, 0⟩ false fun _ j => j := by
  refine ⟨by decide, fun h => ?_⟩
  have h : treeR.PoolAgrees (treeR.leafCount false 6) 129 ⟨.out, 0⟩ _ false _ := h
  have hreach := reaches_of_poolAgrees numChunks_treeR_129 (by decide) (by decide) (by decide) h
  exact absurd hreach (by decide)

end TreeBuilder

end SupraSeal
