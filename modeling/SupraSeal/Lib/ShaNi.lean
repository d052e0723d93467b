import SupraSeal.Lib.Sha256
import SupraSeal.Lib.X86Rules

/-!
# SHA-256 with the SHA extensions

The state is kept in two vectors and the schedule in vectors of four words. Two instructions do four
rounds, and the next four words of the schedule are computed from the last sixteen.
-/

namespace Sha256

open Sections X86

def State.abef (s : State) : Xmm := ⟨s.f, s.e, s.b, s.a⟩

def State.cdgh (s : State) : Xmm := ⟨s.h, s.g, s.d, s.c⟩

/-! ### Rounds -/

/-- Four rounds with constants `k` and words `w`. -/
def fourRounds (s : State) (k w : Xmm) : State :=
  round (round (round (round s k.d0 w.d0) k.d1 w.d1) k.d2 w.d2) k.d3 w.d3

/-- The instruction does two rounds. -/
lemma rnds2_eq (s : State) (wk : Xmm) {k₀ w₀ k₁ w₁ : Word} (h₀ : wk.d0 = w₀ + k₀)
    (h₁ : wk.d1 = w₁ + k₁) :
    s.cdgh.rnds2 s.abef wk = (round (round s k₀ w₀) k₁ w₁).abef := by
  have hround : ∀ (s : State) (k w : Word), Xmm.shaRound s.cdgh s.abef (w + k) =
      ((round s k w).cdgh, (round s k w).abef) := by
    intro s k w
    simp only [Xmm.shaRound, State.cdgh, State.abef, round, Prod.mk.injEq, Xmm.mk.injEq, true_and]
    constructor
    · show Xmm.ch s.e s.f s.g + Xmm.sum1 s.e + (w + k) + s.h + s.d = s.d + (s.h + Xmm.sum1 s.e +
        Xmm.ch s.e s.f s.g + k + w)
      ac_rfl
    · show Xmm.ch s.e s.f s.g + Xmm.sum1 s.e + (w + k) + s.h + Xmm.maj s.a s.b s.c + Xmm.sum0 s.a =
        s.h + Xmm.sum1 s.e + Xmm.ch s.e s.f s.g + k + w + (Xmm.sum0 s.a + Xmm.maj s.a s.b s.c)
      ac_rfl
  rw [Xmm.rnds2, h₀, h₁]
  simp only [hround]

/-- After two rounds the first half of the state is the second half of the new one. -/
lemma cdgh_round (s : State) (k₀ w₀ k₁ w₁ : Word) :
    (round (round s k₀ w₀) k₁ w₁).cdgh = s.abef := rfl

lemma cdgh_fourRounds (s : State) (k w : Xmm) :
    (fourRounds s k w).cdgh = s.cdgh.rnds2 s.abef (w.add k) := by
  rw [rnds2_eq s _ rfl rfl]
  rfl

lemma abef_fourRounds (s : State) (k w : Xmm) :
    (fourRounds s k w).abef =
      s.abef.rnds2 (s.cdgh.rnds2 s.abef (w.add k)) ((w.add k).shuffle 0x0E) := by
  have htwo : s.cdgh.rnds2 s.abef (w.add k) = (round (round s k.d0 w.d0) k.d1 w.d1).abef :=
    rnds2_eq s _ rfl rfl
  rw [htwo, ← cdgh_round s k.d0 w.d0 k.d1 w.d1]
  exact (rnds2_eq _ _ rfl rfl).symm

/-! ### The schedule -/

/-- Sixteen words of the schedule. -/
structure Window where
  q0 : Xmm
  q1 : Xmm
  q2 : Xmm
  q3 : Xmm

namespace Window

def words (w : Window) : List Word := w.q0.dwords ++ w.q1.dwords ++ w.q2.dwords ++ w.q3.dwords

/-- The window four words further, as the instructions compute it. -/
def next (w : Window) : Window :=
  ⟨w.q1, w.q2, w.q3, ((w.q0.msg1 w.q1).add (w.q3.alignr w.q2 4)).msg2 w.q3⟩

/-- The words as a block of the message. -/
def block (w : Window) : List Byte := w.words.flatMap fun d => beBytes 4 d.toNat

/-- Words `4 * g` to `4 * g + 3` of the schedule. -/
def quad (w : Window) (g : ℕ) : Xmm := (next^[g] w).q0

lemma iterate_next (w : Window) (g : ℕ) :
    next^[g] w = ⟨w.quad g, w.quad (g + 1), w.quad (g + 2), w.quad (g + 3)⟩ := by
  simp only [quad, Function.iterate_succ_apply', next]

lemma quad_add_four (w : Window) (g : ℕ) :
    w.quad (g + 4) = (((w.quad g).msg1 (w.quad (g + 1))).add
      ((w.quad (g + 3)).alignr (w.quad (g + 2)) 4)).msg2 (w.quad (g + 3)) := by
  have hlast : w.quad (g + 4) = (next (next^[g] w)).q3 := by
    rw [← Function.iterate_succ_apply' next, iterate_next]
  rw [hlast, iterate_next]
  rfl

end Window

/-- Constants `4 * g` to `4 * g + 3`. -/
def constantQuad (g : ℕ) : Xmm :=
  ⟨roundConstants.getD (4 * g) 0, roundConstants.getD (4 * g + 1) 0,
    roundConstants.getD (4 * g + 2) 0, roundConstants.getD (4 * g + 3) 0⟩

/-- The state after the first `g` times four rounds. -/
def quadRounds (w : Window) (s : State) : ℕ → State
  | 0 => s
  | g + 1 => fourRounds (quadRounds w s g) (constantQuad g) (w.quad g)

lemma rounds_dwords (k : Xmm) (ks : List Word) (w : Window) (s : State) :
    rounds (k.dwords ++ ks) w.words s = rounds ks w.next.words (fourRounds s k w.q0) := by
  have hword : ∀ w14 w9 w1 w0 : Word, smallSigma1 w14 + w9 + smallSigma0 w1 + w0 =
      w0 + Xmm.sigma0 w1 + w9 + Xmm.sigma1 w14 := by
    intro w14 w9 w1 w0
    show smallSigma1 w14 + w9 + smallSigma0 w1 + w0 = w0 + smallSigma0 w1 + w9 + smallSigma1 w14
    ac_rfl
  simp only [Window.next, Xmm.alignr_four]
  simp only [Xmm.dwords, Window.words, List.cons_append, List.nil_append, rounds, List.getD_cons_zero,
    List.getD_cons_succ, List.tail_cons, fourRounds, hword]
  rfl

/-- The rounds of constants that come four at a time. -/
lemma rounds_flatMap (w : Window) (s : State) (g n : ℕ) (rest : List Word) :
    rounds (((List.range n).map fun i => constantQuad (g + i)).flatMap Xmm.dwords ++ rest)
      (Window.next^[g] w).words (quadRounds w s g) =
        rounds rest (Window.next^[g + n] w).words (quadRounds w s (g + n)) := by
  induction n generalizing rest with
  | zero => rfl
  | succ n ih =>
    rw [List.range_succ, List.map_append, List.flatMap_append, List.append_assoc, ih,
      List.map_singleton, List.flatMap_singleton, rounds_dwords]
    rw [← Function.iterate_succ_apply' Window.next]
    rfl

/-- The rounds of a block. -/
lemma quadRounds_sixteen (w : Window) (s : State) :
    quadRounds w s 16 = rounds roundConstants w.words s := by
  have hconstants : ((List.range 16).map fun i => constantQuad (0 + i)).flatMap Xmm.dwords ++ [] =
      roundConstants := by decide
  exact (hconstants ▸ rounds_flatMap w s 0 16 []).symm

/-! ### Blocks -/

lemma wordOfBytes_beBytes (d : Word) : wordOfBytes (beBytes 4 d.toNat) = d := by
  have hbyte : ∀ i, BitVec.ofNat 8 (d.toNat >>> (8 * i)) = d.extractLsb' (8 * i) 8 := fun _ => rfl
  simp only [beBytes, leBytes, hbyte, List.range_succ, List.range_zero, List.nil_append,
    List.map_cons, List.map_nil, List.cons_append, List.reverse_cons, List.reverse_nil, wordOfBytes,
    List.foldl_cons, List.foldl_nil]
  ext i hi
  simp only [BitVec.getElem_or, BitVec.getElem_shiftLeft, BitVec.getElem_setWidth,
    BitVec.getLsbD_extractLsb']
  grind

/-- One of several pieces of the same length. -/
lemma take_drop_flatMap {α β : Type*} {f : α → List β} {n : ℕ} (hf : ∀ x, (f x).length = n)
    (xs : List α) {i : ℕ} (hi : i < xs.length) :
    ((xs.flatMap f).drop (n * i)).take n = f xs[i] := by
  induction xs generalizing i with
  | nil => simp at hi
  | cons x xs ih =>
    rw [List.flatMap_cons]
    cases i with
    | zero => rw [Nat.mul_zero, List.drop_zero, List.take_left' (hf x), List.getElem_cons_zero]
    | succ i =>
      rw [Nat.mul_succ, Nat.add_comm, List.drop_append, hf x, Nat.add_sub_cancel_left,
        List.drop_eq_nil_of_le (by rw [hf x]; exact Nat.le_add_right _ _), List.nil_append,
        List.getElem_cons_succ]
      exact ih (Nat.lt_of_succ_lt_succ hi)

/-- The words of a block are those that were loaded. -/
lemma blockWords_block (w : Window) : blockWords w.block = w.words := by
  have hlen : w.words.length = 16 := rfl
  apply List.ext_getElem
  · rw [blockWords, List.length_map, List.length_range, hlen]
  · intro i hi hi'
    have hpart : (w.block.drop (4 * i)).take 4 = beBytes 4 (w.words[i]).toNat := by
      rw [Window.block]
      exact take_drop_flatMap (fun d => length_beBytes 4 (BitVec.toNat d)) w.words hi'
    simp only [blockWords, List.getElem_map, List.getElem_range, hpart, wordOfBytes_beBytes]

/-- The compression of a block, with its words in vectors. -/
lemma compress_block (w : Window) (s : State) : compress s w.block = s.add (quadRounds w s 16) := by
  rw [compress, blockWords_block, quadRounds_sixteen]

lemma length_block (w : Window) : w.block.length = blockSize := by
  rw [Window.block, length_flatMap_const fun d : Word => length_beBytes 4 (BitVec.toNat d)]
  rfl

/-- A message that is given block by block. -/
lemma blocks_flatMap {α : Type*} {f : α → List Byte} (hf : ∀ x, (f x).length = blockSize)
    (xs : List α) : blocks (xs.flatMap f) = xs.map f := by
  have hcount : (xs.flatMap f).length / blockSize = xs.length := by
    rw [length_flatMap_const hf]
    exact Nat.mul_div_cancel _ (by decide)
  rw [blocks, hcount]
  apply List.ext_getElem
  · rw [List.length_map, List.length_map, List.length_range]
  · intro i _ hi
    rw [List.length_map] at hi
    rw [List.getElem_map, List.getElem_range, List.getElem_map]
    exact take_drop_flatMap hf xs hi

/-- The digest of a message is the compression of the blocks that its padding makes. -/
lemma hash_eq_foldl {α : Type*} {f : α → List Byte} (hf : ∀ x, (f x).length = blockSize)
    {xs : List α} {msg : List Byte} (h : xs.flatMap f = pad msg) :
    hash msg = (xs.map f).foldl compress .initial := by
  rw [hash, ← h, blocks_flatMap hf]

end Sha256
