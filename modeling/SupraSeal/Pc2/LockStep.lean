import Mathlib.Data.Multiset.Bind
import Mathlib.Tactic.Abel
import SupraSeal.Pc2.Traversal

/-!
# Two schedulers on one pool

The buffers that were made are those of the pool and those that hold an input of an item that is on
the stack or waits. A step of a scheduler keeps this, although it puts the inputs of an item back
before they are read: the output of the item is taken before.
-/

namespace SupraSeal

/-! ### The pool -/

namespace Buffers

variable {bufs : Buffers} {held rest : Multiset ℕ} {buf : ℕ}

/-- The buffers that were made are those of the pool and those of `held`. -/
def Owns (bufs : Buffers) (held : Multiset ℕ) : Prop :=
  (bufs.buffers : Multiset ℕ) + held = (Multiset.range bufs.numBuffers).map Nat.succ

lemma owns_init : init.Owns 0 := rfl

lemma Owns.nodup (h : bufs.Owns held) : ((bufs.buffers : Multiset ℕ) + held).Nodup := by
  rw [Owns] at h
  rw [h]
  exact (Multiset.nodup_range _).map Nat.succ_injective

lemma Owns.nodup_held (h : bufs.Owns held) : held.Nodup :=
  Multiset.nodup_of_le (Multiset.le_add_left _ _) h.nodup

lemma Owns.ne_zero (h : bufs.Owns held) (hbuf : buf ∈ held) : buf ≠ 0 := by
  have hmem : buf ∈ (bufs.buffers : Multiset ℕ) + held := Multiset.mem_add.mpr (.inr hbuf)
  rw [Owns] at h
  rw [h] at hmem
  obtain ⟨n, -, rfl⟩ := Multiset.mem_map.mp hmem
  exact Nat.succ_ne_zero n

/-- `get` gives a buffer that is not held. -/
theorem Owns.get (h : bufs.Owns held) : bufs.get.2.Owns (bufs.get.1 ::ₘ held) := by
  obtain ⟨buffers, numBuffers⟩ := bufs
  cases buffers with
  | nil =>
    simp only [Owns, Buffers.get, Multiset.coe_nil, zero_add] at h ⊢
    rw [h, Multiset.range_succ, Multiset.map_cons]
  | cons buf buffers =>
    simp only [Owns, Buffers.get] at h ⊢
    rw [← h, ← Multiset.cons_coe, Multiset.add_cons, Multiset.cons_add]

theorem Owns.put (h : bufs.Owns (buf ::ₘ held)) : (bufs.put buf).Owns held := by
  simp only [Owns, Buffers.put] at h ⊢
  rw [← h, ← Multiset.cons_coe, Multiset.add_cons, Multiset.cons_add]

lemma Owns.puts {inputs : List ℕ} (h : bufs.Owns (inputs + held)) :
    (inputs.foldl Buffers.put bufs).Owns held := by
  induction inputs generalizing bufs with
  | nil => rwa [Multiset.coe_nil, zero_add] at h
  | cons buf inputs ih =>
    rw [← Multiset.cons_coe, Multiset.cons_add] at h
    exact ih h.put

end Buffers

namespace TreeScheduler

variable {arity k lg : ℕ} {done stack : List WorkItem} {s : TreeScheduler} {w e : WorkItem}
  {bufs : Buffers} {rest : Multiset ℕ} {i buf : ℕ}

/-! ### The buffers of a scheduler -/

/-- The inputs of an item that are there. -/
def inputsHeld (arity : ℕ) (w : WorkItem) : Multiset ℕ :=
  ((Multiset.range arity).map w.inputs).filter (· ≠ 0)

/-- The buffers with an input of an item that was not given out. -/
def held (arity : ℕ) (s : TreeScheduler) : Multiset ℕ :=
  ((s.stack ++ s.wip : List WorkItem) : Multiset WorkItem).bind (inputsHeld arity)

lemma mem_inputsHeld : buf ∈ inputsHeld arity w ↔ (∃ i < arity, w.inputs i = buf) ∧ buf ≠ 0 := by
  simp [inputsHeld, Multiset.mem_filter]

lemma mem_held : buf ∈ s.held arity ↔ ∃ w ∈ s.stack ++ s.wip, buf ∈ inputsHeld arity w := by
  simp only [held, Multiset.mem_bind, Multiset.mem_coe]

lemma inputsHeld_eq_zero (h : ∀ i, w.inputs i = 0) : inputsHeld arity w = 0 := by
  refine Multiset.filter_eq_nil.mpr ?_
  intro buf hbuf
  obtain ⟨i, -, rfl⟩ := Multiset.mem_map.mp hbuf
  rw [not_not]
  exact h i

lemma inputsHeld_congr (h : w.inputs = e.inputs) : inputsHeld arity w = inputsHeld arity e := by
  rw [inputsHeld, inputsHeld, h]

/-- The inputs of an item with all of them. -/
lemma inputsHeld_full (h : ∀ i < arity, w.inputs i ≠ 0) :
    inputsHeld arity w = ((List.range arity).map w.inputs : List ℕ) := by
  rw [inputsHeld, ← Multiset.coe_range, Multiset.map_coe, Multiset.filter_eq_self]
  intro buf hbuf
  obtain ⟨i, hi, rfl⟩ := List.mem_map.mp (Multiset.mem_coe.mp hbuf)
  exact h i (List.mem_range.mp hi)

/-- The item gets one more input. -/
lemma inputsHeld_update (hi : i < arity) (hw : w.inputs i = 0) (hbuf : buf ≠ 0)
    (he : e.inputs = Function.update w.inputs i buf) :
    inputsHeld arity e = buf ::ₘ inputsHeld arity w := by
  have hrange : Multiset.range arity = i ::ₘ (Multiset.range arity).erase i :=
    (Multiset.cons_erase (Multiset.mem_range.mpr hi)).symm
  have hnot : i ∉ (Multiset.range arity).erase i := (Multiset.nodup_range arity).notMem_erase
  have hrest : ((Multiset.range arity).erase i).map e.inputs =
      ((Multiset.range arity).erase i).map w.inputs := by
    refine Multiset.map_congr rfl ?_
    intro j hj
    rw [he, Function.update_of_ne (ne_of_mem_of_not_mem hj hnot)]
  have hself : e.inputs i = buf := by rw [he, Function.update_self]
  rw [inputsHeld, inputsHeld, hrange, Multiset.map_cons, Multiset.map_cons, hrest, hself, hw,
    Multiset.filter_cons_of_pos (p := (· ≠ 0)) _ hbuf, Multiset.filter_cons_of_neg (p := (· ≠ 0)) _ (not_not.mpr rfl)]

lemma held_reset (arity initialNodes : ℕ) : (reset initialNodes).held arity = 0 := by
  refine Multiset.eq_zero_of_forall_notMem ?_
  intro buf hbuf
  obtain ⟨w, hw, hmem⟩ := mem_held.mp hbuf
  rw [show (reset initialNodes).wip = [] from rfl, List.append_nil] at hw
  obtain ⟨v, -, rfl⟩ := List.mem_map.mp hw
  rw [inputsHeld_eq_zero fun i => rfl] at hmem
  exact Multiset.notMem_zero buf hmem

/-- The items that wait are the one of a node and the others. -/
lemma bind_waiting (hnodup : (s.wip.map WorkItem.idx).Nodup) :
    inputsHeld arity (waiting s.wip (parent arity w.idx)) +
      (others arity s.wip w : Multiset WorkItem).bind (inputsHeld arity) =
    (s.wip : Multiset WorkItem).bind (inputsHeld arity) := by
  unfold waiting
  cases hfind : s.wip.find? (·.idx = parent arity w.idx) with
  | none =>
    have hothers : others arity s.wip w = s.wip := by
      refine List.filter_eq_self.mpr ?_
      intro v hv
      simpa using List.find?_eq_none.mp hfind v hv
    rw [hothers, Option.getD_none, inputsHeld_eq_zero fun i => rfl, zero_add]
  | some v =>
    have hv := List.mem_of_find?_eq_some hfind
    have hidx : v.idx = parent arity w.idx := by simpa using List.find?_some hfind
    have hperm : s.wip.Perm (v :: others arity s.wip w) := by
      refine (List.perm_ext_iff_of_nodup hnodup.of_map ?_).mpr ?_
      · refine List.nodup_cons.mpr ⟨?_, hnodup.of_map.filter _⟩
        intro hmem
        simp [others, hidx] at hmem
      · intro u
        simp only [List.mem_cons, others, List.mem_filter, decide_eq_true_eq]
        constructor
        · intro hu
          by_cases heq : u.idx = parent arity w.idx
          · exact .inl (List.inj_on_of_nodup_map hnodup hu hv (heq.trans hidx.symm))
          · exact .inr ⟨hu, heq⟩
        · rintro (rfl | hu)
          · exact hv
          · exact hu.1
    rw [Multiset.coe_eq_coe.mpr hperm, ← Multiset.cons_coe, Multiset.cons_bind, Option.getD_some]

namespace Traversal

/-- After a step the scheduler holds the output of the item instead of its inputs. -/
theorem held_record (h : Traversal arity k done s) (hlg : arity = 2 ^ lg) (harity : 1 < arity)
    (hs : s.stack = w :: stack) (hbuf : buf ≠ 0) :
    inputsHeld arity w + (s.record arity { w with buf := buf } stack).held arity =
      buf ::ₘ s.held arity := by
  have hw := h.inTree w (List.mem_append_right _ (hs ▸ List.mem_cons_self ..))
  have hmod : w.idx.2 % arity < arity := Nat.mod_lt _ (Nat.zero_lt_of_lt harity)
  obtain ⟨-, hinputs, -⟩ := h.waiting_spec harity hs
  -- the slot of the item is free
  have hslot : (waiting s.wip (TreeScheduler.parent arity w.idx)).inputs (w.idx.2 % arity) = 0 := by
    rw [hinputs, waiting_idx, child_parent, outOf_eq_zero (h.idx_notMem hs), ite_self]
  have hdep : inputsHeld arity (dependant arity s.wip { w with buf := buf }) =
      buf ::ₘ inputsHeld arity (waiting s.wip (TreeScheduler.parent arity w.idx)) := by
    refine inputsHeld_update hmod hslot hbuf ?_
    rw [← leafNum_eq hlg w]
    rfl
  have hnodup : (s.wip.map WorkItem.idx).Nodup := by
    have hall := h.nodup
    rw [List.map_append] at hall
    exact hall.of_append_right
  have hwait : inputsHeld arity _ + (others arity s.wip w : Multiset WorkItem).bind _ = _ :=
    bind_waiting hnodup
  rw [held, Multiset.coe_eq_coe.mpr (perm_record s { w with buf := buf } stack), ← Multiset.cons_coe,
    Multiset.cons_bind, hdep, ← Multiset.coe_add, Multiset.add_bind, held, hs, ← Multiset.coe_add,
    Multiset.add_bind, ← Multiset.cons_coe, Multiset.cons_bind, ← hwait, Multiset.cons_add,
    Multiset.add_cons]
  congr 1
  show _ + (_ + (_ + (others arity s.wip w : Multiset WorkItem).bind (inputsHeld arity))) = _
  abel

end Traversal

/-! ### A step -/

lemma Traversal.inputs_leaf (h : Traversal arity k done s) (hw : w ∈ s.stack) (hleaf : w.isLeaf = true)
    (i : ℕ) : w.inputs i = 0 := by
  have hlayer := (h.isLeaf w (List.mem_append_right done hw)).mp hleaf
  rw [h.inputs w (List.mem_append_left _ hw) i, if_neg]
  rintro ⟨hlt, -⟩
  exact Nat.ne_of_gt hlt hlayer

lemma Traversal.inputs_full (h : Traversal arity k done s) (hw : w ∈ s.stack) (hleaf : ¬ w.isLeaf = true) :
    ∀ i < arity, w.inputs i ≠ 0 := by
  have hmem := List.mem_append_right done hw
  have hlayer : 1 < w.idx.1 :=
    lt_of_le_of_ne (h.inTree w hmem).1 fun heq => hleaf ((h.isLeaf w hmem).mpr heq.symm)
  intro i hi
  rw [h.inputs w (List.mem_append_left _ hw) i, if_pos ⟨hlayer, hi⟩]
  exact h.full w hmem hlayer i hi

/-- The buffers of the inputs of an item go back to the pool. -/
lemma Traversal.owns_puts (h : Traversal arity k done s) (hs : s.stack = w :: stack)
    (howns : bufs.Owns (inputsHeld arity w + rest)) :
    (if w.isLeaf then bufs
      else (List.range arity).foldl (fun bufs i => bufs.put (w.inputs i)) bufs).Owns rest := by
  have hw : w ∈ s.stack := hs ▸ List.mem_cons_self ..
  split_ifs with hleaf
  · rwa [inputsHeld_eq_zero (h.inputs_leaf hw hleaf), zero_add] at howns
  · rw [inputsHeld_full (h.inputs_full hw hleaf)] at howns
    have hputs := howns.puts
    rwa [List.foldl_map] at hputs

/-- `next` gives the item on top of the stack with a buffer that is not in use. -/
theorem Traversal.next_spec (h : Traversal arity k done s) (hlg : arity = 2 ^ lg) (harity : 1 < arity)
    (hs : s.stack = w :: stack) (howns : bufs.Owns (s.held arity + rest)) :
    ∃ buf bufs', s.next arity bufs =
        (!(s.record arity { w with buf := buf } stack).stack.isEmpty, some { w with buf := buf },
          s.record arity { w with buf := buf } stack, bufs') ∧
      buf ≠ 0 ∧ buf ∉ s.held arity + rest ∧
      Traversal arity k (done ++ [{ w with buf := buf }]) (s.record arity { w with buf := buf } stack) ∧
      bufs'.Owns ((s.record arity { w with buf := buf } stack).held arity + rest) := by
  have hget := howns.get
  have hbuf : bufs.get.1 ≠ 0 := hget.ne_zero (Multiset.mem_cons_self ..)
  rw [← Multiset.cons_add, ← h.held_record hlg harity hs hbuf, add_assoc] at hget
  refine ⟨bufs.get.1, _, ?_, hbuf, ?_, h.record hlg harity hs hbuf, h.owns_puts hs hget⟩
  · simp only [next, hs]
  · exact (Multiset.nodup_cons.mp howns.get.nodup_held).1

/-- The shape of an item: all of it but the buffers. -/
def shape (w : WorkItem) : (ℕ × ℕ) × ℕ × Bool := (w.idx, w.dependenciesReady, w.isLeaf)

/-- Two schedulers that differ in their buffers. -/
structure SameShape (s s' : TreeScheduler) : Prop where
  stack : s.stack.map shape = s'.stack.map shape
  wip : s.wip.map shape = s'.wip.map shape

lemma waiting_shape (wip : List WorkItem) (idx : ℕ × ℕ) :
    shape (waiting wip idx) = ((wip.map shape).find? (·.1 = idx)).getD (idx, 0, false) := by
  rw [waiting, List.find?_map]
  show shape ((wip.find? (·.idx = idx)).getD _) = ((wip.find? (·.idx = idx)).map shape).getD _
  cases wip.find? (·.idx = idx) <;> rfl

lemma others_shape (wip : List WorkItem) (w : WorkItem) :
    (others arity wip w).map shape = (wip.map shape).filter (·.1 ≠ parent arity w.idx) := by
  rw [List.filter_map]
  rfl

lemma dependant_shape (wip : List WorkItem) (w : WorkItem) :
    shape (dependant arity wip w) = (parent arity w.idx,
      (shape (waiting wip (parent arity w.idx))).2.1 + 1,
      (shape (waiting wip (parent arity w.idx))).2.2) :=
  congrArg (·, _, _) (dependant_idx ..)

/-- A step does not look at the buffers. -/
lemma SameShape.record {s' : TreeScheduler} {w' : WorkItem} {stack' : List WorkItem}
    (h : SameShape s s') (hw : shape w = shape w') (hstack : stack.map shape = stack'.map shape) :
    SameShape (s.record arity w stack) (s'.record arity w' stack') := by
  have hidx : w.idx = w'.idx := congrArg Prod.fst hw
  have hwait : shape (waiting s.wip (parent arity w.idx)) = shape (waiting s'.wip (parent arity w'.idx)) := by
    rw [waiting_shape, waiting_shape, h.wip, hidx]
  have hdep : shape (dependant arity s.wip w) = shape (dependant arity s'.wip w') := by
    rw [dependant_shape, dependant_shape, hwait, hidx]
  have hothers : (others arity s.wip w).map shape = (others arity s'.wip w').map shape := by
    rw [others_shape, others_shape, h.wip, hidx]
  have hready : (dependant arity s.wip w).dependenciesReady =
      (dependant arity s'.wip w').dependenciesReady := congrArg (·.2.1) hdep
  rw [record_eq, record_eq, hready]
  split_ifs
  · refine ⟨?_, hothers⟩
    rw [List.map_cons, List.map_cons, hdep, hstack]
  · refine ⟨hstack, ?_⟩
    rw [List.map_cons, List.map_cons, hdep, hothers]

end TreeScheduler

end SupraSeal
