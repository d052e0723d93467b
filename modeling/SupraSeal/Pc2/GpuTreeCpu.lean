import SupraSeal.Pc2.GpuTreeStream

/-!
# The rows above the streams

`hash_cpu` hashes the last results of all streams up to the root. Its nodes come after those of the
streams in the file.
-/

namespace SupraSeal

open MerkleTree LiveBuffers TreeScheduler TreeResource

/-! ### The buffers of a run -/

namespace TreeScheduler

variable {arity k lg fuel : ℕ} {done items : List WorkItem} {s s' : TreeScheduler} {bufs bufs' : Buffers}
  {rest : Multiset ℕ}

/-- An item reads the output of a child. -/
def ReadsOf (arity : ℕ) (w e : WorkItem) : Prop := w.idx = parent arity e.idx

/-- No item takes a buffer with an output that is to be read. -/
def Fresh (arity : ℕ) (done : List WorkItem) : Prop :=
  ∀ pre w post, done = pre ++ w :: post → ∀ e ∈ pre, (∀ y ∈ pre, ¬ ReadsOf arity y e) → e.buf ≠ w.buf

lemma Fresh.append {w : WorkItem} (h : Fresh arity done)
    (hw : ∀ e ∈ done, (∀ y ∈ done, ¬ ReadsOf arity y e) → e.buf ≠ w.buf) : Fresh arity (done ++ [w]) := by
  intro pre v post hsplit
  rcases List.eq_nil_or_concat post with rfl | ⟨post, u, rfl⟩
  · obtain ⟨rfl, hv⟩ := List.append_inj' hsplit rfl
    rw [← List.head_eq_of_cons_eq hv]
    exact hw
  · rw [List.concat_eq_append, ← List.cons_append, ← List.append_assoc] at hsplit
    exact h pre v post (List.append_inj' hsplit rfl).1

/-- A run keeps the outputs that are to be read. -/
lemma Traversal.runLoop_fresh (h : Traversal arity k done s) (hlg : arity = 2 ^ lg) (harity : 1 < arity)
    (hs : s.stack ≠ []) (howns : bufs.Owns (s.held arity + rest)) (hfresh : Fresh arity done)
    (hrun : runLoop arity fuel s bufs = some (items, s', bufs')) : Fresh arity (done ++ items) := by
  induction fuel generalizing done s bufs items with
  | zero => cases hrun
  | succ fuel ih =>
    obtain ⟨w, stack, hw⟩ := List.exists_cons_of_ne_nil hs
    obtain ⟨buf, bufs₁, hnext, -, hbuf, htrav, howns'⟩ := h.next_spec hlg harity hw howns
    have hfresh' : Fresh arity (done ++ [{ w with buf := buf }]) := by
      refine hfresh.append fun e he hunread heq => hbuf ?_
      rw [show buf = e.buf from heq.symm]
      refine Multiset.mem_add.mpr (.inl (h.buf_mem_held harity he fun hmem => ?_))
      obtain ⟨y, hy, hidx⟩ := List.mem_map.mp hmem
      exact hunread y hy hidx
    rw [runLoop, hnext] at hrun
    cases hstack : (s.record arity { w with buf := buf } stack).stack with
    | nil =>
      rw [hstack] at hrun
      cases hrun
      exact hfresh'
    | cons v stack' =>
      rw [hstack] at hrun
      obtain ⟨⟨items', s₁, bufs₂⟩, hrun', heq⟩ := Option.map_eq_some_iff.mp hrun
      cases heq
      have hne : (s.record arity { w with buf := buf } stack).stack ≠ [] := by
        rw [hstack]
        exact List.cons_ne_nil _ _
      have htail := ih htrav hne howns' hfresh' hrun'
      rwa [List.append_assoc] at htail

/-- A run from the leaves, on a pool of its own. -/
lemma runLoop_init (hlg : arity = 2 ^ lg) (harity : 1 < arity) (hfuel : (k + 1) * arity ^ k ≤ fuel) :
    ∃ items s bufs e, runLoop arity fuel (.reset (arity ^ k)) .init = some (items, s, bufs) ∧
      TraversalOf arity k items ∧ Safe (ReadsOf arity) WorkItem.buf items ∧ e ∈ items ∧
      e.idx = (k + 1, 0) ∧ s.result = e.buf := by
  obtain ⟨items, s, bufs, e, hrun, htrav, -, ⟨he, hidx, hresult⟩, -⟩ :=
    runLoop_reset hlg harity Buffers.owns_init hfuel
  have howns : Buffers.init.Owns ((reset (arity ^ k)).held arity + 0) := by
    rw [held_reset]
    exact Buffers.owns_init
  have hfresh : Fresh arity items := (traversal_reset arity k).runLoop_fresh hlg harity
    (reset_stack_ne_nil harity k) howns (by intro pre w post h; cases pre <;> cases h) hrun
  refine ⟨items, s, bufs, e, hrun, htrav, ⟨hfresh, ?_⟩, he, hidx, hresult⟩
  intro before x after hsplit e hread y hy hread'
  have hnodup := htrav.nodup
  rw [hsplit, List.map_append, List.nodup_append] at hnodup
  exact hnodup.2.2 _ (List.mem_map_of_mem hy) _ (List.mem_cons_self ..) (hread'.trans hread.symm)

end TreeScheduler

namespace GpuTrees

variable {α : Type} {P : GpuTrees α} {k m i partition fuel : ℕ} {tree : Tree} {input : ℕ → α}
  {bufs : ℕ → ℕ → α} {items pre rest : List WorkItem} {w : WorkItem}

/-! ### Offsets -/

variable (P) in
/-- The offset from which the CPU writes. -/
def finalGpuOffset (tree : Tree) : ℕ := (P.address tree).dataSize - P.finalTree.dataSize

lemma firstRow_le (h : P.Shape k m) (tree : Tree) : P.firstRow tree ≤ m + 2 := by
  cases tree with
  | c => exact Nat.zero_le _
  | r =>
    have hd := P.discardRows_le
    have hm := h.pos
    show P.discardRows + 1 ≤ m + 2
    omega

lemma Shape.finalTree_eq (h : P.Shape k m) :
    P.finalTree = .new (treeRCArity ^ (k - m - 2)) nodeSize 0 := by
  rw [finalTree, h.nodesToHash_eq]

lemma finalGpuOffset_eq (h : P.Shape k m) (tree : Tree) : P.finalGpuOffset tree =
    rowStart treeRCArity (k - P.firstRow tree) (m + 2 - P.firstRow tree) * nodeSize := by
  have hk := h.lt_k
  have hfirst := firstRow_le h tree
  have hrows : k - P.firstRow tree + 1 = m + 2 - P.firstRow tree + (k - m - 2 + 1) := by omega
  have hrest : k - P.firstRow tree - (m + 2 - P.firstRow tree) = k - m - 2 := by omega
  rw [finalGpuOffset, address, ← P.nodesToRead_eq, h.nodes, h.finalTree_eq,
    TreeAddress.dataSize_new _ (hfirst.trans hk), TreeAddress.dataSize_new _ (Nat.zero_le _),
    ← Nat.sub_mul, hrows, rowStart_add, hrest, Nat.sub_zero, Nat.add_sub_cancel]

/-! ### An item -/

variable (P) in
/-- The output of an item of the CPU: a node in all sectors. -/
def CpuHolds (tree : Tree) (m partition : ℕ) (w : WorkItem) (content : ℕ → α) : Prop :=
  ∀ i < P.parallelSectors, content i =
    row P.hash treeRCArity (P.leaves tree partition i) (m + 1 + w.idx.1) w.idx.2

/-- The node that an item of the CPU writes. -/
def cpuKey (m : ℕ) (w : WorkItem) : ℕ × ℕ := (m + 1 + w.idx.1, w.idx.2)

variable (P) in
/-- The input of the CPU: a row, in groups of the streams. -/
def CpuInput (tree : Tree) (k m partition : ℕ) (input : ℕ → α) : Prop :=
  ∀ i < P.parallelSectors, ∀ j < treeRCArity ^ (k - (m + 1)),
    input (j / P.groupSize * P.groupSize * P.parallelSectors + i * P.groupSize + j % P.groupSize) =
      row P.hash treeRCArity (P.leaves tree partition i) (m + 1) j

/-- The item of a node whose inputs are right. -/
lemma hashFunc_spec (h : P.Shape k m) (hinput : P.CpuInput tree k m partition input)
    (hin : InTree treeRCArity (k - m - 2) w.idx) (hleaf : w.isLeaf = true ↔ w.idx.1 = 1)
    (hbufs : 1 < w.idx.1 → ∀ a < treeRCArity, ∃ e, e.idx = child treeRCArity w.idx a ∧
      P.CpuHolds tree m partition e (bufs (w.inputs a))) :
    ∃ write bufs', P.hashFunc input (P.finalGpuOffset tree) w bufs = some (write, bufs') ∧
      (∀ i < P.parallelSectors,
        write.nodes i = P.treeNodes tree k partition i [cpuKey m w]) ∧
      P.CpuHolds tree m partition w (bufs' w.buf) ∧ ∀ b, b ≠ w.buf → bufs' b = bufs b := by
  have hk := h.lt_k
  have hfirst := firstRow_le h tree
  obtain ⟨hpos, hle, hlt⟩ := hin
  obtain ⟨l, hl⟩ : ∃ l, w.idx.1 = l + 1 := ⟨w.idx.1 - 1, (Nat.sub_add_cancel hpos).symm⟩
  have hll : l ≤ k - m - 2 := by omega
  -- the hash of the children
  obtain ⟨out, hout⟩ : ∃ out : ℕ → α, out = fun sector => P.hash ((List.range treeRCArity).map fun a =>
      if w.isLeaf then input ((w.idx.2 * treeRCArity + a) / P.groupSize * P.groupSize *
        P.parallelSectors + sector * P.groupSize + (w.idx.2 * treeRCArity + a) % P.groupSize)
      else bufs (w.inputs a) sector) := ⟨_, rfl⟩
  have hrow : ∀ i < P.parallelSectors, out i =
      row P.hash treeRCArity (P.leaves tree partition i) (m + 1 + w.idx.1) w.idx.2 := by
    intro i hi
    rw [hout, hl, ← Nat.add_assoc, row]
    refine congrArg P.hash (List.map_congr_left fun a ha => ?_)
    have ha := List.mem_range.mp ha
    by_cases hleaf' : w.isLeaf = true
    · have hl0 : l = 0 := by
        have := hleaf.mp hleaf'
        omega
      have hj : w.idx.2 * treeRCArity + a < treeRCArity ^ (k - (m + 1)) := by
        have hexp : k - (m + 1) = k - m - 2 + 1 - w.idx.1 + 1 := by omega
        rw [hexp, pow_succ]
        exact Poseidon.mul_add_lt hlt ha
      rw [if_pos hleaf', hinput i hi _ hj, hl0, Nat.mul_comm]
    · have hlayer : 1 < w.idx.1 := lt_of_le_of_ne hpos fun heq => hleaf' (hleaf.mpr heq.symm)
      obtain ⟨e, hidx, hholds⟩ := hbufs hlayer a ha
      rw [if_neg hleaf', hholds i hi, hidx, child, hl, Nat.add_sub_cancel]
  obtain ⟨bufs', hbufs'⟩ : ∃ bufs' : ℕ → ℕ → α, bufs' = Function.update bufs w.buf fun sector =>
      if sector < P.parallelSectors then out sector else bufs w.buf sector := ⟨_, rfl⟩
  have hself : ∀ i < P.parallelSectors, bufs' w.buf i = out i := by
    intro i hi
    rw [hbufs', Function.update_self, if_pos hi]
  refine ⟨⟨bufs' w.buf, (((rowStart treeRCArity (k - m - 2) l + w.idx.2) * nodeSize) +
    P.finalGpuOffset tree) / nodeSize, 1, fun sector => sector⟩, bufs', ?_, ?_, ?_, ?_⟩
  · have haddress : P.finalTree.address (w.idx.1 - 1) w.idx.2 =
        some ((rowStart treeRCArity (k - m - 2) l + w.idx.2) * nodeSize) := by
      rw [h.finalTree_eq, hl, Nat.add_sub_cancel]
      exact TreeAddress.address_new _ _ (Nat.zero_le _) hll
    rw [hbufs', hout]
    exact Option.bind_eq_some_iff.mpr ⟨_, haddress, rfl⟩
  · intro i hi
    have hnode : 0 < nodeSize := by decide
    have hplace : rowStart treeRCArity (k - m - 2) l + w.idx.2 +
        rowStart treeRCArity (k - P.firstRow tree) (m + 2 - P.firstRow tree) =
        rowStart treeRCArity (k - P.firstRow tree) (m + 1 + w.idx.1 - P.firstRow tree) + w.idx.2 := by
      have hrows : m + 1 + w.idx.1 - P.firstRow tree = m + 2 - P.firstRow tree + l := by omega
      have hrest : k - P.firstRow tree - (m + 2 - P.firstRow tree) = k - m - 2 := by omega
      rw [hrows, rowStart_add, hrest]
      ring
    rw [TreeWrite.nodes, List.range_one, List.map_singleton, treeNodes, List.map_singleton, place,
      finalGpuOffset_eq h, ← Nat.add_mul, Nat.mul_div_cancel _ hnode, hplace]
    simp only [Nat.add_zero, cpuKey, hself i hi, hrow i hi]
  · intro i hi
    rw [hself i hi, hrow i hi]
  · intro b hb
    rw [hbufs', Function.update_of_ne hb]

/-! ### A run -/

/-- The rest of a run. -/
lemma hashFuncs_spec (h : P.Shape k m) (hinput : P.CpuInput tree k m partition input)
    (htrav : TraversalOf treeRCArity (k - m - 2) items)
    (hsafe : Safe (ReadsOf treeRCArity) WorkItem.buf items) (hitems : items = pre ++ rest)
    (hlive : Live (ReadsOf treeRCArity) WorkItem.buf (P.CpuHolds tree m partition) pre bufs) :
    ∃ writes bufs', P.hashFuncs input (P.finalGpuOffset tree) rest bufs = some (writes, bufs') ∧
      (∀ i < P.parallelSectors, (writes.flatMap fun w => w.nodes i) =
        P.treeNodes tree k partition i (rest.map (cpuKey m))) ∧
      Live (ReadsOf treeRCArity) WorkItem.buf (P.CpuHolds tree m partition) items bufs' := by
  induction rest generalizing pre bufs with
  | nil =>
    rw [List.append_nil] at hitems
    exact ⟨[], bufs, rfl, fun _ _ => rfl, hitems ▸ hlive⟩
  | cons w rest ih =>
    have hmem : w ∈ items := by
      rw [hitems]
      exact List.mem_append_right _ (List.mem_cons_self ..)
    have hin := (htrav.mem w.idx).mp (List.mem_map_of_mem hmem)
    have hbufs : 1 < w.idx.1 → ∀ a < treeRCArity, ∃ e : WorkItem, e.idx = child treeRCArity w.idx a ∧
        P.CpuHolds tree m partition e (bufs (w.inputs a)) := by
      intro hlayer a ha
      obtain ⟨e, he, hidx, hread, hparent⟩ := TraversalOf.input htrav hitems hlayer ha
      refine ⟨e, hidx, ?_⟩
      rw [hread]
      exact hlive.input hsafe hitems he hparent
    obtain ⟨write, bufs₁, hrun, hnodes, hholds, hframe⟩ :=
      hashFunc_spec h hinput hin (htrav.isLeaf w hmem) hbufs
    have hitems' : items = (pre ++ [w]) ++ rest := by
      rw [hitems, List.append_assoc, List.singleton_append]
    obtain ⟨writes, bufs', hrun', hnodes', hlive'⟩ :=
      ih hitems' (hlive.step hsafe hitems hholds hframe)
    refine ⟨write :: writes, bufs', ?_, ?_, hlive'⟩
    · exact Option.bind_eq_some_iff.mpr ⟨_, hrun, Option.bind_eq_some_iff.mpr ⟨_, hrun', rfl⟩⟩
    · intro i hi
      rw [List.flatMap_cons, hnodes i hi, hnodes' i hi, ← treeNodes_append]
      rfl

/-- The CPU writes each node above the streams, and returns the root. -/
theorem hashCpu_spec (h : P.Shape k m) (hinput : P.CpuInput tree k m partition input)
    (hfuel : (k - m - 2 + 1) * treeRCArity ^ (k - m - 2) ≤ fuel) (bufs : ℕ → ℕ → α) :
    ∃ items writes roots, P.hashCpu fuel input (P.finalGpuOffset tree) bufs = some (writes, roots) ∧
      TraversalOf treeRCArity (k - m - 2) items ∧
      (∀ i < P.parallelSectors, (writes.flatMap fun w => w.nodes i) =
        P.treeNodes tree k partition i (items.map (cpuKey m))) ∧
      ∀ i < P.parallelSectors, roots i =
        row P.hash treeRCArity (P.leaves tree partition i) k 0 := by
  have hk := h.lt_k
  obtain ⟨items, s, bufs₁, e, hrun, htrav, hsafe, he, hidx, hresult⟩ :=
    runLoop_init (show treeRCArity = 2 ^ 3 from rfl) one_lt_treeRCArity hfuel
  obtain ⟨writes, bufs', hrun', hnodes, hlive⟩ :=
    hashFuncs_spec h hinput htrav hsafe (List.nil_append items).symm (live_nil bufs)
  refine ⟨items, writes, bufs' s.result, ?_, htrav, hnodes, ?_⟩
  · rw [hashCpu, h.nodesToHash_eq]
    exact Option.bind_eq_some_iff.mpr ⟨_, hrun, Option.bind_eq_some_iff.mpr ⟨_, hrun', rfl⟩⟩
  · intro i hi
    have hroot : P.CpuHolds tree m partition e (bufs' e.buf) := by
      refine hlive e he fun y hy hread => ?_
      -- nothing is above the root
      have hle := ((htrav.mem y.idx).mp (List.mem_map_of_mem hy)).2.1
      rw [hread, hidx] at hle
      exact absurd hle (Nat.not_succ_le_self _)
    rw [hresult, hroot i hi, hidx]
    congr 1
    show m + 1 + (k - m - 2 + 1) = k
    omega

end GpuTrees

end SupraSeal
