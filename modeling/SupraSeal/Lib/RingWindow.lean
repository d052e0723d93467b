import SupraSeal.Lib.Wrap
import Mathlib.Logic.Function.Basic
import Mathlib.Data.List.Basic

/-!
# Windows of a ring

A store of `n` slots that is filled and emptied cyclically. Element `m` of the sequence of all elements
is put into slot `m % n`; while less than `n` elements are held, each has a slot of its own. The window
from `t` to `h` lists the elements `t, …, h - 1`.
-/

namespace RingWindow

variable {α : Type*} {store store' : ℕ → α} {n t h k : ℕ}

def window (store : ℕ → α) (n t h : ℕ) : List α := (List.range' t (h - t)).map fun m => store (m % n)

@[simp] lemma length_window : (window store n t h).length = h - t := by simp [window]

lemma window_self : window store n t t = [] := by simp [window]

lemma getElem?_window {i : ℕ} (hi : i < h - t) :
    (window store n t h)[i]? = some (store ((t + i) % n)) := by
  simp [window, hi]

/-- Only the slots of the window matter. -/
lemma window_congr (hs : ∀ m, t ≤ m → m < h → store (m % n) = store' (m % n)) :
    window store n t h = window store' n t h := by
  refine List.map_congr_left fun m hm => ?_
  obtain ⟨htm, hmh⟩ := List.mem_range'_1.mp hm
  exact hs m htm (by omega)

/-- A window splits into two. -/
lemma window_append (htk : t ≤ k) (hkh : k ≤ h) :
    window store n t k ++ window store n k h = window store n t h := by
  have hrange : List.range' t (k - t) ++ List.range' (t + (k - t)) (h - k) =
      List.range' t (k - t + (h - k)) := List.range'_append_1
  rw [Nat.add_sub_cancel' htk, show k - t + (h - k) = h - t by omega] at hrange
  rw [window, window, window, ← List.map_append, hrange]

/-- Slots do not depend on how often the ring has been filled. -/
lemma window_mod : window store n (t % n) (t % n + k) = window store n t (t + k) := by
  refine List.ext_getElem? fun i => ?_
  by_cases hi : i < k
  · rw [getElem?_window (by omega), getElem?_window (by omega), Nat.mod_add_mod]
  · rw [List.getElem?_eq_none, List.getElem?_eq_none] <;> rw [length_window] <;> omega

lemma window_one : window store n t (t + 1) = [store (t % n)] := by
  rw [window, Nat.add_sub_cancel_left]
  rfl

lemma window_pop (hth : t < h) : window store n t h = store (t % n) :: window store n (t + 1) h := by
  rw [← window_append (Nat.le_succ t) hth, window_one]
  rfl

lemma window_drop (hk : t + k ≤ h) :
    window store n (t + k) h = (window store n t h).drop k := by
  have hlen : (window store n t (t + k)).length = k := by rw [length_window, Nat.add_sub_cancel_left]
  rw [← window_append (Nat.le_add_right t k) hk, List.drop_left' hlen]

lemma window_take (hk : t + k ≤ h) :
    window store n t (t + k) = (window store n t h).take k := by
  have hlen : (window store n t (t + k)).length = k := by rw [length_window, Nat.add_sub_cancel_left]
  rw [← window_append (Nat.le_add_right t k) hk, List.take_left' hlen]

/-- A slot that is written for a later element is not in the window. -/
lemma window_update (hkt : k < t + n) (hhk : h ≤ k) (x : α) :
    window (Function.update store (k % n) x) n t h = window store n t h := by
  refine window_congr fun m htm hmh => Function.update_of_ne ?_ x store
  exact Wrap.mod_ne_of_lt (by omega) (by omega)

/-- The next element is put behind the window. -/
lemma window_push (hth : t ≤ h) (hlt : h < t + n) (x : α) :
    window (Function.update store (h % n) x) n t (h + 1) = window store n t h ++ [x] := by
  rw [← window_append hth (Nat.le_succ h), window_update hlt le_rfl, window_one, Function.update_self]

end RingWindow
