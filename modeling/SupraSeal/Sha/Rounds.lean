import SupraSeal.Sha.ShaExtMbx2

/-!
# The rounds of a block

Between two groups of instructions a lane has its state after the rounds so far, the words that come
next, and what is known of the words after them. Each group keeps this, and does not touch the
registers of the other lane.
-/

namespace SupraSeal.ShaExtMbx2

open X86 Sha256

namespace Lane

/-- The registers of a lane that live from group to group. -/
def regs (L : Lane) : List (Fin 16) := [L.abef, L.cdgh, L.w0, L.w1, L.w2, L.w3]

/-- What the instructions of a lane may write. -/
def scratch (L : Lane) : List (Fin 16) := 0 :: L.tmp :: L.regs

/-- The registers are different from each other. -/
def Distinct (L : Lane) : Prop := L.scratch.Nodup

instance (L : Lane) : Decidable L.Distinct := inferInstanceAs (Decidable L.scratch.Nodup)

lemma w_mem_regs (L : Lane) (g : ℕ) : L.w g ∈ L.regs := by
  rw [w]
  split <;> simp [regs]

lemma abef_mem_regs (L : Lane) : L.abef ∈ L.regs := by simp [regs]

lemma cdgh_mem_regs (L : Lane) : L.cdgh ∈ L.regs := by simp [regs]

@[simp] lemma w_add_four (L : Lane) (g : ℕ) : L.w (g + 4) = L.w g := by
  rw [w, w, Nat.add_mod_right]

namespace Distinct

variable {L : Lane} (h : L.Distinct)

include h

lemma zero_notMem : (0 : Fin 16) ∉ L.regs := fun hmem =>
  (List.nodup_cons.mp h).1 (List.mem_cons_of_mem _ hmem)

lemma tmp_notMem : L.tmp ∉ L.regs := (List.nodup_cons.mp (List.nodup_cons.mp h).2).1

lemma tmp_ne_zero : L.tmp ≠ 0 := fun heq =>
  (List.nodup_cons.mp h).1 (heq ▸ List.mem_cons_self)

lemma ne_zero {r : Fin 16} (hr : r ∈ L.regs) : r ≠ 0 := ne_of_mem_of_not_mem hr h.zero_notMem

lemma ne_tmp {r : Fin 16} (hr : r ∈ L.regs) : r ≠ L.tmp := ne_of_mem_of_not_mem hr h.tmp_notMem

lemma regs_nodup : L.regs.Nodup := (List.nodup_cons.mp (List.nodup_cons.mp h).2).2

lemma abef_ne_cdgh : L.abef ≠ L.cdgh := by
  have hnodup := h.regs_nodup
  simp only [regs, List.nodup_cons, List.mem_cons, not_or] at hnodup
  exact hnodup.1.1

lemma w_ne_abef (g : ℕ) : L.w g ≠ L.abef := by
  have hnodup := h.regs_nodup
  simp only [regs, List.nodup_cons, List.mem_cons, not_or] at hnodup
  rw [w]
  split <;> grind

lemma w_ne_cdgh (g : ℕ) : L.w g ≠ L.cdgh := by
  have hnodup := h.regs_nodup
  simp only [regs, List.nodup_cons, List.mem_cons, not_or] at hnodup
  rw [w]
  split <;> grind

lemma w_ne {g g' : ℕ} (hg : g % 4 ≠ g' % 4) : L.w g ≠ L.w g' := by
  have hnodup := h.regs_nodup
  simp only [regs, List.nodup_cons, List.mem_cons, not_or] at hnodup
  rw [w, w]
  split <;> split <;> grind

end Distinct

end Lane

lemma lane0_distinct : lane0.Distinct := by decide

lemma lane1_distinct : lane1.Distinct := by decide

/-! ### What a group does -/

variable {R : Addr} {c c' : Cpu} {L : Lane} {g : ℕ}

/-- The constants are where register `r10` points to. -/
def Constants (c : Cpu) : Prop :=
  ∀ g < 16, Aligned (c.gpr .r10 + BitVec.ofNat 64 (16 * g)) ∧
    c.mem.loadXmm (c.gpr .r10 + BitVec.ofNat 64 (16 * g)) = constantQuad g

/-- The words that group `g` takes from memory, if it does. -/
def Feeds (L : Lane) (w : Window) (g : ℕ) (c : Cpu) : Prop :=
  g < 4 → c.mem.loadXmm (c.gpr .r12 + BitVec.ofNat 64 (L.offset + 16 * (g % 2))) = w.quad g

/-- A lane before group `g`, with the state `s` before the block and the words `w` of the block. -/
structure Lane.At (L : Lane) (w : Window) (s : State) (g : ℕ) (c : Cpu) : Prop where
  abef : c.xmm L.abef = (quadRounds w s g).abef
  cdgh : c.xmm L.cdgh = (quadRounds w s g).cdgh
  current : 4 ≤ g → g < 16 → c.xmm (L.w g) = w.quad g
  previous : 1 ≤ g → c.xmm (L.w (g + 3)) = w.quad (g - 1)
  next : 3 ≤ g → g < 15 → c.xmm (L.w (g + 1)) = (w.quad (g - 3)).msg1 (w.quad (g - 2))
  afterNext : 2 ≤ g → g < 14 → c.xmm (L.w (g + 2)) = (w.quad (g - 2)).msg1 (w.quad (g - 1))

/-- Only the registers of the lane matter. -/
lemma Lane.At.congr {w : Window} {s : State} (h : L.At w s g c)
    (hregs : ∀ r ∈ L.regs, c'.xmm r = c.xmm r) : L.At w s g c' := by
  have hw : ∀ i, c'.xmm (L.w i) = c.xmm (L.w i) := fun i => hregs _ (L.w_mem_regs i)
  constructor
  · rw [hregs _ L.abef_mem_regs, h.abef]
  · rw [hregs _ L.cdgh_mem_regs, h.cdgh]
  · rw [hw]
    exact h.current
  · rw [hw]
    exact h.previous
  · rw [hw]
    exact h.next
  · rw [hw]
    exact h.afterNext

/-- The other lane is not affected. -/
lemma Lane.At.frame {w : Window} {s : State} {rs : List (Fin 16)} (h : L.At w s g c)
    (honly : OnlyXmm rs c c') (hrs : ∀ r ∈ L.regs, r ∉ rs) : L.At w s g c' :=
  h.congr fun r hr => honly.xmm r (hrs r hr)

lemma source_spec (hL : L.Distinct) {w : Window} (hfeeds : Feeds L w g c)
    (hcurrent : 4 ≤ g → c.xmm (L.w g) = w.quad g) (hconst : Constants c) (hg : g < 16) :
    ∃ c', execAll (symbol R) c (L.source g) = some c' ∧ c'.xmm 0 = (w.quad g).add (constantQuad g) ∧
      c'.xmm (L.w g) = w.quad g ∧ OnlyXmm [0, L.w g] c c' := by
  obtain ⟨haligned, hload⟩ := hconst g hg
  have hne : L.w g ≠ 0 := hL.ne_zero (L.w_mem_regs g)
  by_cases hlt : g < 4
  · refine ⟨((c.setXmm 0 (w.quad g)).setXmm (L.w g) (w.quad g)).setXmm 0
      ((w.quad g).add (constantQuad g)), ?_, ?_, ?_, ?_⟩
    · have hfirst : c.mem.loadXmm _ = _ := hfeeds hlt
      simp only [Lane.source, if_pos hlt, List.cons_append, List.nil_append, execAll_cons, exec,
        Mem.addr, hfirst, Option.bind_some, Cpu.setXmm_xmm, Cpu.setXmm_gpr, Cpu.setXmm_mem,
        Memory.loadAligned_of_aligned haligned, Option.map_some, hload, Cpu.setXmm_xmm_of_ne _ hne.symm, execAll_nil]
    · exact Cpu.setXmm_xmm ..
    · rw [Cpu.setXmm_xmm_of_ne _ hne, Cpu.setXmm_xmm]
    · refine ⟨rfl, rfl, ?_⟩
      intro r hr
      simp only [List.mem_cons, List.not_mem_nil, or_false, not_or] at hr
      rw [Cpu.setXmm_xmm_of_ne _ hr.1, Cpu.setXmm_xmm_of_ne _ hr.2, Cpu.setXmm_xmm_of_ne _ hr.1]
  · have hcur : c.xmm (L.w g) = w.quad g := hcurrent (Nat.le_of_not_lt hlt)
    refine ⟨(c.setXmm 0 (w.quad g)).setXmm 0 ((w.quad g).add (constantQuad g)), ?_, ?_, ?_, ?_⟩
    · simp only [Lane.source, if_neg hlt, List.cons_append, List.nil_append, execAll_cons, exec,
        Mem.addr, hcur, Option.bind_some, Cpu.setXmm_xmm, Cpu.setXmm_gpr, Cpu.setXmm_mem,
        Memory.loadAligned_of_aligned haligned, Option.map_some, hload, execAll_nil]
    · exact Cpu.setXmm_xmm ..
    · rw [Cpu.setXmm_xmm_of_ne _ hne, Cpu.setXmm_xmm_of_ne _ hne, hcur]
    · refine ⟨rfl, rfl, ?_⟩
      intro r hr
      simp only [List.mem_cons, List.not_mem_nil, or_false, not_or] at hr
      rw [Cpu.setXmm_xmm_of_ne _ hr.1, Cpu.setXmm_xmm_of_ne _ hr.1]

lemma extend_spec (hL : L.Distinct) (g : ℕ) (c : Cpu) :
    ∃ c', execAll (symbol R) c (L.extend g) = some c' ∧
      (3 ≤ g → g < 15 → c'.xmm (L.w (g + 1)) = ((c.xmm (L.w (g + 1))).add
        ((c.xmm (L.w g)).alignr (c.xmm (L.w (g + 3))) 4)).msg2 (c.xmm (L.w g))) ∧
      OnlyXmm [L.tmp, L.w (g + 1)] c c' := by
  by_cases hg : 3 ≤ g ∧ g < 15
  · have hnext : L.w (g + 1) ≠ L.tmp := hL.ne_tmp (L.w_mem_regs _)
    have hprev : L.w (g + 3) ≠ L.tmp := hL.ne_tmp (L.w_mem_regs _)
    have hcur : L.w g ≠ L.tmp := hL.ne_tmp (L.w_mem_regs _)
    have hcn : L.w g ≠ L.w (g + 1) := hL.w_ne (by omega)
    obtain ⟨c', hc'⟩ : ∃ c', execAll (symbol R) c (L.extend g) = some c' := by
      simp only [Lane.extend, if_pos hg, execAll_cons, exec, Option.bind_some, execAll_nil,
        Option.some.injEq, exists_eq']
    refine ⟨c', hc', ?_, ?_⟩
    · intro _ _
      simp only [Lane.extend, if_pos hg, execAll_cons, exec, Option.bind_some, execAll_nil,
        Option.some.injEq] at hc'
      subst hc'
      simp only [Cpu.setXmm_xmm, Cpu.setXmm_xmm_of_ne _ hnext, Cpu.setXmm_xmm_of_ne _ hprev,
        Cpu.setXmm_xmm_of_ne _ hcur, Cpu.setXmm_xmm_of_ne _ hcn]
    · apply onlyXmm_execAll ?_ hc'
      rw [Lane.extend, if_pos hg]
      simp [Op.vectorDst]
  · refine ⟨c, ?_, fun h3 h15 => absurd ⟨h3, h15⟩ hg, OnlyXmm.refl _ c⟩
    rw [Lane.extend, if_neg hg]
    rfl

lemma prepare_spec (g : ℕ) (c : Cpu) :
    ∃ c', execAll (symbol R) c (L.prepare g) = some c' ∧
      (1 ≤ g → g < 13 →
        c'.xmm (L.w (g + 3)) = (c.xmm (L.w (g + 3))).msg1 (c.xmm (L.w g))) ∧
      OnlyXmm [L.w (g + 3)] c c' := by
  by_cases hg : 1 ≤ g ∧ g < 13
  · refine ⟨c.setXmm (L.w (g + 3)) ((c.xmm (L.w (g + 3))).msg1 (c.xmm (L.w g))), ?_, ?_, rfl, rfl, ?_⟩
    · simp only [Lane.prepare, if_pos hg, execAll_cons, exec, Option.bind_some, execAll_nil]
    · exact fun _ _ => Cpu.setXmm_xmm ..
    · intro r hr
      exact Cpu.setXmm_xmm_of_ne _ (by simpa using hr) _
  · refine ⟨c, ?_, fun h1 h13 => absurd ⟨h1, h13⟩ hg, OnlyXmm.refl _ c⟩
    rw [Lane.prepare, if_neg hg]
    rfl

/-- The first two of four rounds. -/
lemma firstRounds_spec {s : State} {k q : Xmm} (habef : c.xmm L.abef = s.abef)
    (hcdgh : c.xmm L.cdgh = s.cdgh) (hwk : c.xmm 0 = q.add k) :
    ∃ c', execAll (symbol R) c [.sha256rnds2 L.cdgh L.abef] = some c' ∧
      c'.xmm L.cdgh = (fourRounds s k q).cdgh ∧ OnlyXmm [L.cdgh] c c' := by
  refine ⟨c.setXmm L.cdgh (fourRounds s k q).cdgh, ?_, ?_, rfl, rfl, ?_⟩
  · rw [execAll_cons, exec, habef, hcdgh, hwk, ← cdgh_fourRounds]
    rfl
  · exact Cpu.setXmm_xmm ..
  · intro r hr
    exact Cpu.setXmm_xmm_of_ne _ (by simpa using hr) _

/-- The other two rounds. -/
lemma lastRounds_spec (hL : L.Distinct) {s : State} {k q : Xmm} (habef : c.xmm L.abef = s.abef)
    (hcdgh : c.xmm L.cdgh = (fourRounds s k q).cdgh) (hwk : c.xmm 0 = q.add k) :
    ∃ c', execAll (symbol R) c [.pshufd 0 0 0x0E, .sha256rnds2 L.abef L.cdgh] = some c' ∧
      c'.xmm L.abef = (fourRounds s k q).abef ∧ OnlyXmm [0, L.abef] c c' := by
  have h0 : L.abef ≠ 0 := hL.ne_zero L.abef_mem_regs
  have h0' : L.cdgh ≠ 0 := hL.ne_zero L.cdgh_mem_regs
  refine ⟨(c.setXmm 0 ((q.add k).shuffle 0x0E)).setXmm L.abef (fourRounds s k q).abef, ?_, ?_, rfl,
    rfl, ?_⟩
  · simp only [execAll_cons, exec, Option.bind_some, execAll_nil, Cpu.setXmm_xmm,
      Cpu.setXmm_xmm_of_ne _ h0, Cpu.setXmm_xmm_of_ne _ h0', hwk, habef, hcdgh, cdgh_fourRounds,
      abef_fourRounds]
  · exact Cpu.setXmm_xmm ..
  · intro r hr
    simp only [List.mem_cons, List.not_mem_nil, or_false, not_or] at hr
    rw [Cpu.setXmm_xmm_of_ne _ hr.2, Cpu.setXmm_xmm_of_ne _ hr.1]

/-- A group keeps what is known of its lane. -/
lemma group_spec (hL : L.Distinct) {w : Window} {s : State} (h : L.At w s g c)
    (hfeeds : Feeds L w g c) (hconst : Constants c) (hg : g < 16) :
    ∃ c', execAll (symbol R) c (L.group g) = some c' ∧ L.At w s (g + 1) c' ∧
      OnlyXmm L.scratch c c' := by
  have habef : ∀ i, L.abef ≠ L.w i := fun i => (hL.w_ne_abef i).symm
  have hcdgh : ∀ i, L.cdgh ≠ L.w i := fun i => (hL.w_ne_cdgh i).symm
  have ha0 : L.abef ≠ 0 := hL.ne_zero L.abef_mem_regs
  have hc0 : L.cdgh ≠ 0 := hL.ne_zero L.cdgh_mem_regs
  have hw0 : ∀ i, L.w i ≠ 0 := fun i => hL.ne_zero (L.w_mem_regs i)
  have hat : L.abef ≠ L.tmp := hL.ne_tmp L.abef_mem_regs
  have hct : L.cdgh ≠ L.tmp := hL.ne_tmp L.cdgh_mem_regs
  have hwt : ∀ i, L.w i ≠ L.tmp := fun i => hL.ne_tmp (L.w_mem_regs i)
  have hac := hL.abef_ne_cdgh
  have hwa := hL.w_ne_abef
  have hwc := hL.w_ne_cdgh
  -- the registers of the schedule: the first group has not touched the others yet
  obtain ⟨c₁, hc₁, hwk, hcur, only₁⟩ :=
    source_spec (R := R) hL hfeeds (fun h4 => h.current h4 hg) hconst hg
  obtain ⟨c₂, hc₂, hcdgh₂, only₂⟩ := firstRounds_spec (R := R) (L := L)
    (by rw [only₁.xmm _ (by simp [ha0, habef]), h.abef])
    (by rw [only₁.xmm _ (by simp [hc0, hcdgh]), h.cdgh]) hwk
  obtain ⟨c₃, hc₃, hnext, only₃⟩ := extend_spec (R := R) hL g c₂
  obtain ⟨c₄, hc₄, habef₄, only₄⟩ := lastRounds_spec (R := R) (c := c₃) hL
    (by rw [only₃.xmm _ (by simp [hat, habef]), only₂.xmm _ (by simp [hac]),
      only₁.xmm _ (by simp [ha0, habef]), h.abef])
    (by rw [only₃.xmm _ (by simp [hct, hcdgh]), hcdgh₂])
    (by rw [only₃.xmm _ (by simp [hL.tmp_ne_zero.symm, (hw0 _).symm]), only₂.xmm _ (by simp [hc0.symm]),
      hwk])
  obtain ⟨c₅, hc₅, hprep, only₅⟩ := prepare_spec (R := R) (L := L) g c₄
  have hcur₂ : c₂.xmm (L.w g) = w.quad g := by rw [only₂.xmm _ (by simp [hwc]), hcur]
  have hcur₄ : c₄.xmm (L.w g) = w.quad g := by
    rw [only₄.xmm _ (by simp [hw0, hwa]),
      only₃.xmm _ (by simp [hwt, hL.w_ne (show g % 4 ≠ (g + 1) % 4 by omega)]), hcur₂]
  -- a register that neither holds the words of this group nor the next ones
  have hkeep₂ : ∀ i, i % 4 ≠ g % 4 → c₂.xmm (L.w i) = c.xmm (L.w i) := by
    intro i hi
    rw [only₂.xmm _ (by simp [hwc]), only₁.xmm _ (by simp [hw0, hL.w_ne hi])]
  have hkeep₄ : ∀ i, i % 4 ≠ g % 4 → i % 4 ≠ (g + 1) % 4 → c₄.xmm (L.w i) = c.xmm (L.w i) := by
    intro i hi hi'
    rw [only₄.xmm _ (by simp [hw0, hwa]), only₃.xmm _ (by simp [hwt, hL.w_ne hi']), hkeep₂ i hi]
  refine ⟨c₅, ?_, ?_, ?_⟩
  · rw [Lane.group, execAll_append, hc₁, Option.bind_some, execAll_append, hc₂, Option.bind_some,
      execAll_append, hc₃, Option.bind_some, execAll_append, hc₄, Option.bind_some, hc₅]
  · constructor
    · rw [only₅.xmm _ (by simp [habef]), habef₄]
      rfl
    · rw [only₅.xmm _ (by simp [hcdgh]), only₄.xmm _ (by simp [hc0, hac.symm]),
        only₃.xmm _ (by simp [hct, hcdgh]), hcdgh₂]
      rfl
    · intro h4 h16
      rw [only₅.xmm _ (by simp [hL.w_ne (show (g + 1) % 4 ≠ (g + 3) % 4 by omega)]),
        only₄.xmm _ (by simp [hw0, hwa]), hnext (by omega) (by omega), hcur₂,
        hkeep₂ _ (by omega), hkeep₂ _ (by omega), h.next (by omega) (by omega),
        h.previous (by omega)]
      obtain ⟨k, rfl⟩ : ∃ k, g = k + 3 := ⟨g - 3, by omega⟩
      exact (w.quad_add_four k).symm
    · intro _
      rw [show g + 1 + 3 = g + 4 by rfl, L.w_add_four, Nat.add_sub_cancel,
        only₅.xmm _ (by simp [hL.w_ne (show g % 4 ≠ (g + 3) % 4 by omega)]), hcur₄]
    · intro h3 h15
      rw [show g + 1 + 1 = g + 2 by rfl, show g + 1 - 3 = g - 2 by omega,
        show g + 1 - 2 = g - 1 by omega,
        only₅.xmm _ (by simp [hL.w_ne (show (g + 2) % 4 ≠ (g + 3) % 4 by omega)]),
        hkeep₄ _ (by omega) (by omega), h.afterNext (by omega) (by omega)]
    · intro h2 h14
      rw [show g + 1 + 2 = g + 3 by rfl, show g + 1 - 2 = g - 1 by omega, Nat.add_sub_cancel,
        hprep (by omega) (by omega), hcur₄, hkeep₄ _ (by omega) (by omega), h.previous (by omega)]
  · have hw : ∀ i, L.w i ∈ L.scratch := fun i =>
      List.mem_cons_of_mem _ (List.mem_cons_of_mem _ (L.w_mem_regs i))
    refine ((((only₁.mono ?_).trans (only₂.mono ?_)).trans (only₃.mono ?_)).trans
      (only₄.mono ?_)).trans (only₅.mono ?_)
    all_goals simp [hw]
    all_goals simp [Lane.scratch, Lane.regs]

/-! ### Both lanes -/

/-- The lanes before group `g`. -/
structure Lanes (w₀ w₁ : Window) (s₀ s₁ : State) (g : ℕ) (c : Cpu) : Prop where
  first : lane0.At w₀ s₀ g c
  second : lane1.At w₁ s₁ g c

/-- What the rounds of both lanes may write. -/
def scratch : List (Fin 16) := lane0.scratch ++ lane1.scratch

variable {w₀ w₁ : Window} {s₀ s₁ : State}

lemma lanes_step (h : Lanes w₀ w₁ s₀ s₁ g c) (h₀ : Feeds lane0 w₀ g c) (h₁ : Feeds lane1 w₁ g c)
    (hconst : Constants c) (hg : g < 16) :
    ∃ c', execAll (symbol R) c (lane0.group g ++ lane1.group g) = some c' ∧
      Lanes w₀ w₁ s₀ s₁ (g + 1) c' ∧ OnlyXmm scratch c c' := by
  obtain ⟨c₁, hc₁, hat₀, only₁⟩ := group_spec (R := R) lane0_distinct h.first h₀ hconst hg
  have hat₁ : lane1.At w₁ s₁ g c₁ := h.second.frame only₁ (by decide)
  have hfeeds : Feeds lane1 w₁ g c₁ := by
    rw [Feeds, only₁.mem, only₁.gpr]
    exact h₁
  have hconst₁ : Constants c₁ := by
    rw [Constants, only₁.mem, only₁.gpr]
    exact hconst
  obtain ⟨c₂, hc₂, hat₂, only₂⟩ := group_spec (R := R) lane1_distinct hat₁ hfeeds hconst₁ hg
  refine ⟨c₂, ?_, ⟨hat₀.frame only₂ (by decide), hat₂⟩, ?_⟩
  · rw [execAll_append, hc₁]
    exact hc₂
  · exact (only₁.mono (List.subset_append_left _ _)).trans
      (only₂.mono (List.subset_append_right _ _))

/-- Groups in a row. -/
lemma lanes_run {n : ℕ} (h : Lanes w₀ w₁ s₀ s₁ g c)
    (h₀ : ∀ i, g ≤ i → i < g + n → Feeds lane0 w₀ i c)
    (h₁ : ∀ i, g ≤ i → i < g + n → Feeds lane1 w₁ i c) (hconst : Constants c) (hg : g + n ≤ 16) :
    ∃ c', execAll (symbol R) c (groups g n) = some c' ∧
      Lanes w₀ w₁ s₀ s₁ (g + n) c' ∧ OnlyXmm scratch c c' := by
  induction n generalizing g c with
  | zero => exact ⟨c, rfl, h, OnlyXmm.refl _ c⟩
  | succ n ih =>
    obtain ⟨c₁, hc₁, hat₁, only₁⟩ := lanes_step (R := R) h (h₀ g (Nat.le_refl g) (by omega))
      (h₁ g (Nat.le_refl g) (by omega)) hconst (by omega)
    have hfeeds : ∀ {L w}, (∀ i, g ≤ i → i < g + (n + 1) → Feeds L w i c) →
        ∀ i, g + 1 ≤ i → i < g + 1 + n → Feeds L w i c₁ := by
      intro L w hall i hi hi'
      rw [Feeds, only₁.mem, only₁.gpr]
      exact hall i (by omega) (by omega)
    have hconst₁ : Constants c₁ := by
      rw [Constants, only₁.mem, only₁.gpr]
      exact hconst
    obtain ⟨c₂, hc₂, hat₂, only₂⟩ := ih hat₁ (hfeeds h₀) (hfeeds h₁) hconst₁ (by omega)
    refine ⟨c₂, ?_, ?_, only₁.trans only₂⟩
    · rw [groups, List.range'_succ, List.flatMap_cons, execAll_append, hc₁]
      exact hc₂
    · rw [show g + (n + 1) = g + 1 + n by omega]
      exact hat₂

end SupraSeal.ShaExtMbx2
