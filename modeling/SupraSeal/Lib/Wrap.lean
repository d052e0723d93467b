import Mathlib.Data.Nat.Bitwise
import Mathlib.Data.Nat.ModEq
import Mathlib.Algebra.Order.Group.Nat
import Mathlib.Tactic.Ring

/-!
# Wraparound indices

An index that runs through `0, …, n - 1` cyclically is the remainder modulo `n` of a counter that
only grows. The lemmas state the usual compare-and-reset updates of such an index in terms of the
counter, and when two counters share an index. Where `n` is a power of two the code masks and
shifts instead.
-/

namespace Wrap

variable {n x y k : ℕ}

/-- Increment with reset at the last index. -/
theorem succ_mod (hn : 0 < n) : (if x % n = n - 1 then 0 else x % n + 1) = (x + 1) % n := by
  have hx := Nat.mod_lt x hn
  split_ifs with h
  · rw [Nat.add_mod, h]
    rcases Nat.lt_or_ge 1 n with h1 | h1
    · rw [Nat.mod_eq_of_lt h1, Nat.sub_add_cancel hn, Nat.mod_self]
    · obtain rfl : n = 1 := by omega
      simp
  · rw [← Nat.mod_add_mod, Nat.mod_eq_of_lt (by omega : x % n + 1 < n)]

/-- Addition with one conditional subtraction. -/
theorem add_mod_of_le (hn : 0 < n) (hk : k ≤ n) :
    (if x % n + k ≥ n then x % n + k - n else x % n + k) = (x + k) % n := by
  have hx := Nat.mod_lt x hn
  rw [← Nat.mod_add_mod x n k]
  generalize x % n = r at hx
  split_ifs with h
  · rw [Nat.mod_eq_sub_mod h, Nat.mod_eq_of_lt (by omega)]
  · rw [Nat.mod_eq_of_lt (by omega)]

/-- The distance between two indices whose counters are less than `n` apart. -/
theorem sub_mod_of_lt (hxy : x ≤ y) (hlt : y < x + n) :
    (if y % n ≥ x % n then y % n - x % n else n + y % n - x % n) = y - x := by
  have hn : 0 < n := by omega
  obtain ⟨k, rfl⟩ := Nat.exists_eq_add_of_le hxy
  have hk : k ≤ n := by omega
  have hx := Nat.mod_lt x hn
  rw [← add_mod_of_le hn hk, Nat.add_sub_cancel_left]
  generalize x % n = r at hx
  split_ifs <;> omega

/-- Counters less than `n` apart share an index only when they are equal. -/
theorem eq_of_mod_eq (hxy : x ≤ y) (hlt : y < x + n) (h : x % n = y % n) : x = y := by
  have hd := (Nat.modEq_iff_dvd' hxy).mp h
  have h0 := Nat.eq_zero_of_dvd_of_lt hd (by omega)
  omega

theorem mod_ne_of_lt (hxy : x < y) (hlt : y < x + n) : x % n ≠ y % n := fun h =>
  absurd (eq_of_mod_eq hxy.le hlt h) hxy.ne

theorem mod_ne_of_ne (hyx : y < x + n) (hxy : x < y + n) (hne : x ≠ y) : x % n ≠ y % n := by
  rcases Nat.lt_or_gt_of_ne hne with h | h
  · exact mod_ne_of_lt h hyx
  · exact (mod_ne_of_lt h hxy).symm

/-- Clearing the low bits rounds down. -/
theorem ldiff_two_pow_sub_one (x k : ℕ) : Nat.ldiff x (2 ^ k - 1) = 2 ^ k * (x / 2 ^ k) := by
  refine Nat.eq_of_testBit_eq fun i => ?_
  rw [Nat.testBit_ldiff, Nat.testBit_two_pow_sub_one, Nat.testBit_two_pow_mul, Nat.testBit_div_two_pow]
  by_cases hi : i < k
  · simp [hi, Nat.not_le.mpr hi]
  · simp [hi, Nat.not_lt.mp hi]

end Wrap
