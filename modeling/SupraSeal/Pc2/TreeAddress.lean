import SupraSeal.C1.Challenge
import SupraSeal.Lib.MerkleTree

/-!
# Offsets in the tree files

`tree_address_t` of `pc2/cuda/pc2.cuh` and the tables `layer_offsets_c` and `layer_offsets_r` of the
constructor of `pc2_t`. The first gives the place of a node in a file, the second how far apart in a
layer the nodes of two streams are.
-/

namespace SupraSeal

open MerkleTree

lemma one_lt_treeRCArity : 1 < treeRCArity := by decide

/-- `tree_address_t`. -/
structure TreeAddress where
  nodeSize : ℕ
  layerOffsets : List ℕ

namespace TreeAddress

/-- The second loop of the constructor, and the offset that it adds last. -/
def offsets (nodeSize nodeCount offset : ℕ) : List ℕ :=
  if _h : 1 < nodeCount then
    offset :: offsets nodeSize (nodeCount / treeRCArity) (offset + nodeCount * nodeSize)
  else [offset]
termination_by nodeCount
decreasing_by exact Nat.div_lt_self (Nat.zero_lt_of_lt _h) one_lt_treeRCArity

/-- The constructor. -/
def new (nodeCount nodeSize layerSkips : ℕ) : TreeAddress where
  nodeSize := nodeSize
  layerOffsets := offsets nodeSize ((· / treeRCArity)^[layerSkips] nodeCount) 0

/-- `address`, `none` when the layer has no offset. -/
def address (t : TreeAddress) (layer node : ℕ) : Option ℕ :=
  t.layerOffsets[layer]?.map fun base => base + node * t.nodeSize

/-- `data_size`. -/
def dataSize (t : TreeAddress) : ℕ := t.layerOffsets.getLastD 0 + t.nodeSize

end TreeAddress

/-- A loop over the layers of a stream that fills `layer_offsets_c` or `layer_offsets_r`. -/
def layerOffsets (layerOffset : ℕ) : List ℕ :=
  if _h : treeRCArity ≤ layerOffset then
    layerOffset :: layerOffsets (layerOffset / treeRCArity)
  else []
termination_by layerOffset
decreasing_by
  exact Nat.div_lt_self (Nat.lt_of_lt_of_le (Nat.zero_lt_of_lt one_lt_treeRCArity) _h)
    one_lt_treeRCArity

/-! ### What the tables hold -/

lemma iterate_div (d n : ℕ) : (· / treeRCArity)^[d] n = n / treeRCArity ^ d := by
  induction d with
  | zero => rw [Function.iterate_zero_apply, pow_zero, Nat.div_one]
  | succ d ih => rw [Function.iterate_succ_apply', ih, Nat.div_div_eq_div_mul, pow_succ]

namespace TreeAddress

variable {k d l s : ℕ}

lemma offsets_pow (s k offset : ℕ) : offsets s (treeRCArity ^ k) offset =
    (List.range (k + 1)).map fun l => offset + rowStart treeRCArity k l * s := by
  induction k generalizing offset with
  | zero =>
    rw [offsets, dif_neg (by simp)]
    simp
  | succ k ih =>
    have hone : 1 < treeRCArity ^ (k + 1) := Nat.one_lt_pow (Nat.succ_ne_zero k) one_lt_treeRCArity
    have hdiv : treeRCArity ^ (k + 1) / treeRCArity = treeRCArity ^ k := by
      rw [pow_succ, Nat.mul_div_cancel _ (Nat.zero_lt_of_lt one_lt_treeRCArity)]
    rw [offsets, dif_pos hone, hdiv, ih, List.range_succ_eq_map (n := k + 1), List.map_cons,
      List.map_map]
    refine congrArg₂ _ (by simp) (List.map_congr_left fun l _ => ?_)
    rw [Function.comp_apply, rowStart_succ_succ, Nat.add_mul, Nat.add_assoc]

lemma new_pow (s : ℕ) (hd : d ≤ k) : new (treeRCArity ^ k) s d =
    ⟨s, (List.range (k - d + 1)).map fun l => rowStart treeRCArity (k - d) l * s⟩ := by
  rw [new, iterate_div, Nat.pow_div hd (Nat.zero_lt_of_lt one_lt_treeRCArity), offsets_pow]
  simp only [Nat.zero_add]

/-- A file holds the rows after the skipped ones, one after the other. -/
lemma address_new (s j : ℕ) (hd : d ≤ k) (hl : l ≤ k - d) : (new (treeRCArity ^ k) s d).address l j =
    some ((rowStart treeRCArity (k - d) l + j) * s) := by
  rw [address, new_pow s hd, List.getElem?_map, List.getElem?_range (Nat.lt_succ_of_le hl)]
  exact congrArg some (Nat.add_mul ..).symm

lemma dataSize_new (s : ℕ) (hd : d ≤ k) :
    (new (treeRCArity ^ k) s d).dataSize = rowStart treeRCArity (k - d) (k - d + 1) * s := by
  have hlast : (new (treeRCArity ^ k) s d).layerOffsets.getLastD 0 =
      rowStart treeRCArity (k - d) (k - d) * s := by
    rw [new_pow s hd, List.range_succ, List.map_append, List.map_singleton, List.getLastD_concat]
  rw [dataSize, hlast, rowStart_succ, Nat.sub_self, pow_zero, Nat.add_mul, Nat.one_mul]
  rfl

end TreeAddress

/-- The nodes of a stream in each layer, as long as they divide. -/
lemma getElem?_layerOffsets {n l : ℕ} (hn : 0 < n) (hdvd : treeRCArity ^ (l + 1) ∣ n) :
    (layerOffsets n)[l]? = some (n / treeRCArity ^ l) := by
  induction l generalizing n with
  | zero =>
    have hle : treeRCArity ≤ n := Nat.le_of_dvd hn (by rwa [Nat.zero_add, pow_one] at hdvd)
    rw [layerOffsets, dif_pos hle, List.getElem?_cons_zero, pow_zero, Nat.div_one]
  | succ l ih =>
    have hpos : 0 < treeRCArity := Nat.zero_lt_of_lt one_lt_treeRCArity
    have hle : treeRCArity ≤ n :=
      (Nat.le_self_pow (Nat.succ_ne_zero _) _).trans (Nat.le_of_dvd hn hdvd)
    have hdvd' : treeRCArity ^ (l + 1) ∣ n / treeRCArity := by
      refine Nat.dvd_div_of_mul_dvd ?_
      rwa [← pow_succ']
    rw [layerOffsets, dif_pos hle, List.getElem?_cons_succ, ih (Nat.div_pos hle hpos) hdvd',
      Nat.div_div_eq_div_mul, pow_succ']

end SupraSeal
