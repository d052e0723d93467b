import Mathlib.Algebra.Order.Group.Nat
import Mathlib.Tactic.Ring

/-!
# Writing behind a cursor

A writer copies pieces to a buffer behind a cursor and returns the cursor behind the last piece. It
advances by `n` if it moves the cursor by `n`, whatever its position is, and all its pieces lie between
the two positions. Writers are put together one after the other and in loops.
-/

namespace Cursor

/-- A copy of `len` bytes to position `off`. -/
structure Piece where
  off : ℕ
  len : ℕ

/-- The pieces that are written from some position on, and the position behind them. -/
abbrev Writer : Type := ℕ → List Piece × ℕ

def memcpy (len : ℕ) : Writer := fun i => ([⟨i, len⟩], i + len)

/-- One writer after the other. -/
def seq : List Writer → Writer
  | [] => fun i => ([], i)
  | w :: ws => fun i =>
    let (pieces, j) := w i
    let (rest, k) := seq ws j
    (pieces ++ rest, k)

/-- `for (i = start; i < start + n; ++i)`. -/
def loop (start n : ℕ) (body : ℕ → Writer) : Writer := seq ((List.range' start n).map body)

/-- The writer moves the cursor by `n`, and writes only what it moves over. -/
structure Advances (w : Writer) (n : ℕ) : Prop where
  cursor : ∀ i, (w i).2 = i + n
  pieces : ∀ i, ∀ p ∈ (w i).1, i ≤ p.off ∧ p.off + p.len ≤ i + n

variable {w : Writer} {ws : List Writer} {body : ℕ → Writer} {m n : ℕ}

lemma Advances.memcpy (n : ℕ) : Advances (memcpy n) n := by
  constructor
  · intro i
    rfl
  · intro i p hp
    obtain rfl := List.mem_singleton.mp hp
    exact ⟨le_rfl, le_rfl⟩

lemma Advances.nil : Advances (seq []) 0 := by
  constructor
  · intro i
    rfl
  · intro i p hp
    cases hp

lemma Advances.cons (h : Advances w m) (hs : Advances (seq ws) n) : Advances (seq (w :: ws)) (m + n) := by
  constructor
  · intro i
    simp only [seq]
    rw [hs.cursor, h.cursor, Nat.add_assoc]
  · intro i p hp
    simp only [seq, List.mem_append] at hp
    rcases hp with hp | hp
    · obtain ⟨hle, hlt⟩ := h.pieces i p hp
      exact ⟨hle, by omega⟩
    · obtain ⟨hle, hlt⟩ := hs.pieces _ p hp
      rw [h.cursor] at hle hlt
      exact ⟨by omega, by omega⟩

lemma Advances.of_eq (h : Advances w m) (heq : m = n) : Advances w n := heq ▸ h

/-- A loop whose iterations all write as much. -/
lemma Advances.loop {start k : ℕ} (h : ∀ i, start ≤ i → i < start + k → Advances (body i) n) :
    Advances (loop start k body) (k * n) := by
  unfold Cursor.loop
  induction k generalizing start with
  | zero =>
    rw [Nat.zero_mul]
    exact Advances.nil
  | succ k ih =>
    rw [List.range'_succ, List.map_cons]
    have hrest := ih fun i (hi : start + 1 ≤ i) hlt => h i (by omega) (by omega)
    exact ((h start le_rfl (by omega)).cons hrest).of_eq (by ring)

lemma Advances.ite {p : Prop} [Decidable p] {v : Writer} (hw : p → Advances w m)
    (hv : ¬ p → Advances v n) : Advances (if p then w else v) (if p then m else n) := by
  split_ifs with h
  · exact hw h
  · exact hv h

end Cursor
