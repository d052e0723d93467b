import SupraSeal.Nvme.NodeLayout
import Mathlib.Data.Nat.Digits.Lemmas

/-!
# Field elements

A `node_t` read as an `fr_t`, an element of the scalar field of BLS12-381. The type comes from a
library; what the code relies on is collected in `FrT`.
-/

namespace SupraSeal

/-! ### Values -/

/-- The number that the words of a node make up, the lowest word first. -/
def Node.val (n : Node) : ℕ := Nat.ofDigits (2 ^ 32) (List.ofFn fun i => (n.limbs i).toNat)

def Node.ofVal (v : ℕ) : Node := ⟨fun i => BitVec.ofNat 32 (v / 2 ^ (32 * i.val))⟩

lemma Node.ext_limbs {n m : Node} (h : n.limbs = m.limbs) : n = m := by
  cases n
  cases m
  rw [Node.mk.injEq]
  exact h

lemma Node.val_injective : Function.Injective Node.val := by
  intro n m h
  have hlt : ∀ n : Node, ∀ l ∈ List.ofFn fun i => (n.limbs i).toNat, l < 2 ^ 32 := by
    intro n l hl
    obtain ⟨i, rfl⟩ := (List.mem_ofFn' _ _).mp hl
    exact (n.limbs i).isLt
  have hdigits := Nat.ofDigits_inj_of_len_eq (by decide) (by simp) (hlt n) (hlt m) h
  apply Node.ext_limbs
  funext i
  exact BitVec.eq_of_toNat_eq (congrFun (List.ofFn_injective hdigits) i)

/-- The lowest digits of a number. -/
lemma ofDigits_ofFn (b n v : ℕ) :
    Nat.ofDigits b (List.ofFn fun i : Fin n => v / b ^ i.val % b) = v % b ^ n := by
  induction n generalizing v with
  | zero => simp [Nat.mod_one]
  | succ n ih =>
    have hdiv : ∀ i : Fin n, v / b ^ (i.succ.val) % b = v / b / b ^ i.val % b := by
      intro i
      rw [Fin.val_succ, Nat.pow_succ', Nat.div_div_eq_div_mul]
    rw [List.ofFn_succ, Nat.ofDigits_cons, Nat.pow_succ', Nat.mod_mul]
    simp only [hdiv, ih, Fin.val_zero, Nat.pow_zero, Nat.div_one]

lemma Node.val_ofVal {v : ℕ} (hv : v < 2 ^ 256) : (Node.ofVal v).val = v := by
  have hwords : (fun i => ((Node.ofVal v).limbs i).toNat) =
      fun i : Fin nodeWords => v / (2 ^ 32) ^ i.val % 2 ^ 32 := by
    funext i
    rw [Node.ofVal, BitVec.toNat_ofNat, Nat.pow_mul]
  rw [Node.val, hwords, ofDigits_ofFn, Nat.mod_eq_of_lt]
  exact hv

/-! ### Bytes of the words -/

lemma htonl_getElem (w : BitVec 32) (i : ℕ) (hi : i < 32) :
    (htonl w)[i] = w.getLsbD (24 - i / 8 * 8 + i % 8) := by
  simp only [htonl]
  grind

lemma htonl_htonl (w : BitVec 32) : htonl (htonl w) = w := by
  apply BitVec.eq_of_getElem_eq
  intro i hi
  have hj : 24 - i / 8 * 8 + i % 8 < 32 := by omega
  rw [htonl_getElem, BitVec.getLsbD_eq_getElem hj, htonl_getElem,
    BitVec.getLsbD_eq_getElem (by omega)]
  congr 1
  omega

@[simp]
lemma Node.reverseL_reverseL (n : Node) : n.reverseL.reverseL = n := by
  apply Node.ext_limbs
  funext i
  exact htonl_htonl (n.limbs i)

/-! ### The field -/

/-- The order of the field. -/
def frModulus : ℕ := 0x73eda753299d7d483339d80809a1d80553bda402fffe5bfeffffffff00000001

/-- The operations of `fr_t` that are used: addition, `to`, which brings bytes to
Montgomery form, and `to_scalar`, which brings them back. -/
structure FrT where
  add : Node → Node → Node
  toMont : Node → Node
  toScalar : Node → Node
  val_add : ∀ a b, a.val < frModulus → b.val < frModulus →
    (add a b).val = (a.val + b.val) % frModulus
  val_toMont : ∀ a, a.val < frModulus → (toMont a).val = a.val * 2 ^ 256 % frModulus
  val_toScalar : ∀ a, a.val < frModulus → (toScalar a).val < frModulus ∧
    (toScalar a).val * 2 ^ 256 % frModulus = a.val

lemma frModulus_lt : frModulus < 2 ^ 256 := by decide

lemma frModulus_pos : 0 < frModulus := by decide

lemma coprime_frModulus : Nat.Coprime (2 ^ 256) frModulus := by
  apply Nat.Coprime.pow_left
  decide

namespace FrT

/-- The inverse of `2 ^ 256`. -/
def montInverse : ℕ := 0x1bbe869330009d577204078a4f77266aab6fca8f09dc705f13f75b69fe75c040

/-- The operations on the values. -/
def ofVal : FrT where
  add a b := Node.ofVal ((a.val + b.val) % frModulus)
  toMont a := Node.ofVal (a.val * 2 ^ 256 % frModulus)
  toScalar a := Node.ofVal (a.val * montInverse % frModulus)
  val_add a b _ _ := Node.val_ofVal ((Nat.mod_lt _ frModulus_pos).trans frModulus_lt)
  val_toMont a _ := Node.val_ofVal ((Nat.mod_lt _ frModulus_pos).trans frModulus_lt)
  val_toScalar a ha := by
    have hlt := Nat.mod_lt (a.val * montInverse) frModulus_pos
    rw [Node.val_ofVal (hlt.trans frModulus_lt)]
    refine ⟨hlt, ?_⟩
    have hinv : montInverse * 2 ^ 256 % frModulus = 1 := by decide
    rw [Nat.mod_mul_mod, Nat.mul_assoc, Nat.mul_mod, hinv, Nat.mul_one, Nat.mod_mod,
      Nat.mod_eq_of_lt ha]

variable (F : FrT)

/-- A sum in Montgomery form is the sum of the values. -/
lemma val_toScalar_add {a b : Node} (ha : a.val < frModulus) (hb : b.val < frModulus) :
    (F.toScalar (F.add (F.toMont a) (F.toMont b))).val = (a.val + b.val) % frModulus := by
  have hto : ∀ x : Node, x.val < frModulus → (F.toMont x).val < frModulus := by
    intro x hx
    rw [F.val_toMont x hx]
    exact Nat.mod_lt _ frModulus_pos
  have hsum := F.val_add _ _ (hto a ha) (hto b hb)
  have hlt : (F.add (F.toMont a) (F.toMont b)).val < frModulus := by
    rw [hsum]
    exact Nat.mod_lt _ frModulus_pos
  obtain ⟨hscalar, hmul⟩ := F.val_toScalar _ hlt
  rw [hsum, F.val_toMont a ha, F.val_toMont b hb, ← Nat.add_mod, ← Nat.add_mul] at hmul
  have hmod := Nat.ModEq.cancel_right_of_coprime (c := 2 ^ 256)
    (Nat.Coprime.symm coprime_frModulus) hmul
  rw [Nat.ModEq, Nat.mod_eq_of_lt hscalar] at hmod
  exact hmod

end FrT

end SupraSeal
