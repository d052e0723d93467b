import SupraSeal.Sha.Rounds

/-!
# The blocks of the lanes

A block is found through two pointers, and the state after it is the compression of the block into
the state before. Memory changes only where the states are saved.
-/

namespace SupraSeal.ShaExtMbx2

open Sections X86 Sha256

/-! ### The constants -/

/-- `.rodata` is loaded at an address as the directives align it. -/
structure Rodata (m : Memory) (R : Addr) : Prop where
  aligned : Aligned R
  bytes : m.bytes R rodata.length = rodata

lemma length_rodata : rodata.length = 304 := by decide +kernel

def stateMask : Xmm := ⟨0xFFFFFFFF, 0xFFFFFFFF, 0xFFFFFFFF, 0xFFFFFF3F⟩

namespace Rodata

variable {m m' : Memory} {R : Addr} (h : Rodata m R)

include h

lemma congr (hm : Set.EqOn m' m (range R rodata.length)) : Rodata m' R := by
  refine ⟨h.aligned, ?_⟩
  rw [Memory.bytes_congr (by rw [length_rodata]; decide) hm, h.bytes]

lemma firstState : m.loadXmm R = State.initial.abef := by
  have hload := Memory.loadXmm_of_bytes (k := 0) h.bytes (by rw [length_rodata]; decide)
  rw [BitVec.add_zero] at hload
  rw [hload]
  decide +kernel

lemma secondState : m.loadXmm (R + 16) = State.initial.cdgh := by
  have hload := Memory.loadXmm_of_bytes (k := 16) h.bytes (by rw [length_rodata]; decide)
  rw [show R + 16 = R + BitVec.ofNat 64 16 from rfl, hload]
  decide +kernel

lemma mask : m.loadXmm (R + 32) = stateMask := by
  have hload := Memory.loadXmm_of_bytes (k := 32) h.bytes (by rw [length_rodata]; decide)
  rw [show R + 32 = R + BitVec.ofNat 64 32 from rfl, hload]
  decide +kernel

lemma constants {g : ℕ} (hg : g < 16) :
    m.loadXmm (R + 48 + BitVec.ofNat 64 (16 * g)) = constantQuad g := by
  have hall : ∀ g < 16, (⟨Memory.dwordAt rodata (48 + 16 * g), Memory.dwordAt rodata (48 + 16 * g + 4),
      Memory.dwordAt rodata (48 + 16 * g + 8), Memory.dwordAt rodata (48 + 16 * g + 12)⟩ : Xmm) =
        constantQuad g := by decide +kernel
  rw [show R + 48 = R + BitVec.ofNat 64 48 from rfl, BitVec.add_assoc, ← BitVec.ofNat_add,
    Memory.loadXmm_of_bytes h.bytes (by rw [length_rodata]; omega)]
  exact hall g hg

end Rodata

/-! ### The walk -/

/-- What the code looks up for a block: the address of the two pointers and where they point to. -/
structure Visit where
  slot : Addr
  first : Addr
  second : Addr
  deriving DecidableEq

section

variable (m : Memory) (rdx rcx : Addr) (r9 : Quad) (pad : Addr)

/-- The blocks from `shaloop` on, with `n` of them left. The second half of the last one is at `pad`,
and when `r13` blocks are done the pointers in `rdx` are walked again. -/
def walk : ℕ → (r13 : Quad) → (r11 : Addr) → List Visit
  | 0, _, _ => []
  | n + 1, r13, r11 =>
    ⟨r11, m.load64 r11 + rcx, if n = 0 then pad else m.load64 (r11 + 8) + rcx⟩ ::
      if r13 - 1 = 0 then walk n r9 rdx else walk n (r13 - 1) (r11 + 16)

variable {m rdx rcx r9 pad}

lemma walk_one (r13 : Quad) (r11 : Addr) :
    walk m rdx rcx r9 pad 1 r13 r11 = [⟨r11, m.load64 r11 + rcx, pad⟩] := by
  rw [walk, if_pos rfl]
  split <;> rfl

lemma walk_succ (n : ℕ) (r13 : Quad) (r11 : Addr) :
    walk m rdx rcx r9 pad (n + 2) r13 r11 =
      ⟨r11, m.load64 r11 + rcx, m.load64 (r11 + 8) + rcx⟩ ::
        walk m rdx rcx r9 pad (n + 1) (if r13 = 1 then r9 else r13 - 1)
          (if r13 = 1 then rdx else r11 + 16) := by
  have hzero : r13 - 1 = 0 ↔ r13 = 1 := by
    constructor
    · intro h
      bv_omega
    · rintro rfl
      rfl
  rw [walk, if_neg (Nat.succ_ne_zero n)]
  by_cases hone : r13 = 1
  · rw [if_pos (hzero.mpr hone), if_pos hone, if_pos hone]
  · rw [if_neg (mt hzero.mp hone), if_neg hone, if_neg hone]

end

/-- The block of a lane, for the two places it is in. -/
def window (m : Memory) (first second : Addr) (L : Lane) : Window :=
  ⟨m.loadXmm (first + BitVec.ofNat 64 (L.offset + 16 * 0)),
    m.loadXmm (first + BitVec.ofNat 64 (L.offset + 16 * 1)),
    m.loadXmm (second + BitVec.ofNat 64 (L.offset + 16 * 0)),
    m.loadXmm (second + BitVec.ofNat 64 (L.offset + 16 * 1))⟩

/-- The blocks of a lane. -/
def laneBlocks (m : Memory) (visits : List Visit) (L : Lane) : List (List Byte) :=
  visits.map fun v => (window m v.first v.second L).block

/-- What a visit reads is apart from `F`. -/
structure Visit.Apart (v : Visit) (F : Set Addr) : Prop where
  slot : Disjoint (range v.slot 16) F
  first : Disjoint (range v.first 64) F
  second : Disjoint (range v.second 64) F

/-! ### A block -/

/-- At `shaloop`: memory is as `m` outside of the frame `F`, and the states are in the registers. -/
structure AtLoop (m : Memory) (F : Set Addr) (R : Addr) (s₀ s₁ : State) (c : Cpu) : Prop where
  mem : Set.EqOn c.mem m Fᶜ
  aligned : Aligned (c.gpr .rsp)
  locals : range (c.gpr .rsp) 64 ⊆ F
  r10 : c.gpr .r10 = R + 48
  abef₀ : c.xmm 1 = s₀.abef
  cdgh₀ : c.xmm 2 = s₀.cdgh
  abef₁ : c.xmm 8 = s₁.abef
  cdgh₁ : c.xmm 9 = s₁.cdgh

variable {m : Memory} {F : Set Addr} {R : Addr} {s₀ s₁ : State} {c c' : Cpu}

/-- Memory with four vectors saved from an address on. -/
def saved (m : Memory) (a : Addr) (x₀ x₁ x₂ x₃ : Xmm) : Memory :=
  (((m.write (a + 0) x₀.bytes).write (a + 0x10) x₁.bytes).write (a + 0x20) x₂.bytes).write
    (a + 0x30) x₃.bytes

/-- The saved vectors are there, and nothing else has changed. -/
structure Saved (m : Memory) (a : Addr) (x₀ x₁ x₂ x₃ : Xmm) (m' : Memory) : Prop where
  load₀ : m'.loadXmm (a + 0) = x₀
  load₁ : m'.loadXmm (a + 0x10) = x₁
  load₂ : m'.loadXmm (a + 0x20) = x₂
  load₃ : m'.loadXmm (a + 0x30) = x₃
  rest : Set.EqOn m' m (range a 64)ᶜ

lemma saved_spec (m : Memory) (a : Addr) (x₀ x₁ x₂ x₃ : Xmm) :
    Saved m a x₀ x₁ x₂ x₃ (saved m a x₀ x₁ x₂ x₃) := by
  have hne : ∀ (m : Memory) (x : Xmm) {i j}, i + 16 ≤ j → j + 16 ≤ 2 ^ 64 →
      (m.write (a + BitVec.ofNat 64 j) x.bytes).loadXmm (a + BitVec.ofNat 64 i) =
        m.loadXmm (a + BitVec.ofNat 64 i) := fun m x i j h hj =>
    Memory.loadXmm_write_of_disjoint (by rw [Xmm.length_bytes]; exact disjoint_range a h hj)
  have heq : ∀ (m : Memory) (x : Xmm) {i}, i + 16 ≤ 64 →
      Set.EqOn (m.write (a + BitVec.ofNat 64 i) x.bytes) m (range a 64)ᶜ := by
    intro m x i hi
    apply (m.eqOn_write _ _).mono
    rw [Xmm.length_bytes]
    exact Set.compl_subset_compl.mpr (range_add_subset a hi (by decide))
  constructor
  · exact ((hne _ x₃ (i := 0) (j := 0x30) (by decide) (by decide)).trans
      (hne _ x₂ (i := 0) (j := 0x20) (by decide) (by decide))).trans
      ((hne _ x₁ (i := 0) (j := 0x10) (by decide) (by decide)).trans (Memory.loadXmm_write _ _ _))
  · exact ((hne _ x₃ (i := 0x10) (j := 0x30) (by decide) (by decide)).trans
      (hne _ x₂ (i := 0x10) (j := 0x20) (by decide) (by decide))).trans (Memory.loadXmm_write _ _ _)
  · exact (hne _ x₃ (i := 0x20) (j := 0x30) (by decide) (by decide)).trans
      (Memory.loadXmm_write _ _ _)
  · exact Memory.loadXmm_write _ _ _
  · exact ((heq _ x₃ (i := 0x30) (by decide)).trans (heq _ x₂ (i := 0x20) (by decide))).trans
      ((heq _ x₁ (i := 0x10) (by decide)).trans (heq _ x₀ (i := 0) (by decide)))

/-- The four slots are aligned when the first one is. -/
lemma aligned_slots {a : Addr} (h : Aligned a) :
    Aligned (a + 0) ∧ Aligned (a + 0x10) ∧ Aligned (a + 0x20) ∧ Aligned (a + 0x30) :=
  ⟨h.add 0, h.add 1, h.add 2, h.add 3⟩

lemma saveOps_spec (c : Cpu) (h : Aligned (c.gpr .rsp)) :
    execAll (symbol R) c saveOps = some (c.setMem
      (saved c.mem (c.gpr .rsp) (c.xmm 1) (c.xmm 2) (c.xmm 8) (c.xmm 9))) := by
  obtain ⟨h0, h1, h2, h3⟩ := aligned_slots h
  simp only [saveOps, execAll_cons, execAll_nil, exec, Mem.addr, Cpu.setMem_gpr, Cpu.setMem_xmm,
    Cpu.setMem_mem, Option.bind_some, Option.map_some, Memory.writeAligned_of_aligned h0,
    Memory.writeAligned_of_aligned h1, Memory.writeAligned_of_aligned h2,
    Memory.writeAligned_of_aligned h3]
  rfl

lemma firstHalf_spec (c : Cpu) :
    ∃ c', execAll (symbol R) c firstHalf = some c' ∧ c'.xmm = c.xmm ∧ c'.mem = c.mem ∧
      c'.gpr .r12 = c.mem.load64 (c.gpr .r11) + c.gpr .rcx ∧
      ∀ r, r ≠ .r12 → c'.gpr r = c.gpr r := by
  refine ⟨_, rfl, rfl, rfl, ?_, ?_⟩
  · rw [Cpu.result_gpr, Cpu.setGpr_gpr, Cpu.setGpr_gpr_of_ne _ (by decide), Mem.addr_base_zero]
  · intro r hr
    rw [Cpu.result_gpr_of_ne _ hr, Cpu.setGpr_gpr_of_ne _ hr]

lemma sub_one_beq_zero (v : Quad) : (v - 1 == 0) = decide (v = 1) := by
  rw [Bool.eq_iff_iff, beq_iff_eq, decide_eq_true_iff]
  constructor
  · intro h
    bv_omega
  · rintro rfl
    rfl

lemma secondHalf_spec (c : Cpu) :
    ∃ c', execAll (symbol R) c secondHalf = some c' ∧ c'.xmm = c.xmm ∧ c'.mem = c.mem ∧
      c'.gpr .r12 = (if c.gpr .r8 = 1 then c.gpr .rsi else
        c.mem.load64 (c.gpr .r11 + 8) + c.gpr .rcx) ∧
      c'.gpr .r8 = c.gpr .r8 - 1 ∧ ∀ r, r ≠ .r12 → r ≠ .r8 → c'.gpr r = c.gpr r := by
  refine ⟨_, rfl, rfl, rfl, ?_, ?_, ?_⟩
  · simp only [Cpu.setGpr_gpr, Cpu.result_zf, Mem.addr, Cpu.result_gpr,
      Cpu.result_gpr_of_ne _ (show Gpr.r8 ≠ .r12 by decide),
      Cpu.result_gpr_of_ne _ (show Gpr.rsi ≠ .r8 by decide),
      Cpu.result_gpr_of_ne _ (show Gpr.rsi ≠ .r12 by decide),
      Cpu.result_gpr_of_ne _ (show Gpr.r12 ≠ .r8 by decide),
      Cpu.setGpr_gpr_of_ne _ (show Gpr.r8 ≠ .r12 by decide),
      Cpu.setGpr_gpr_of_ne _ (show Gpr.rsi ≠ .r12 by decide),
      Cpu.setGpr_gpr_of_ne _ (show Gpr.rcx ≠ .r12 by decide), sub_one_beq_zero,
      decide_eq_true_eq]
  · rw [Cpu.setGpr_gpr_of_ne _ (by decide), Cpu.result_gpr, Cpu.result_gpr_of_ne _ (by decide),
      Cpu.setGpr_gpr_of_ne _ (by decide)]
  · intro r h12 h8
    rw [Cpu.setGpr_gpr_of_ne _ h12, Cpu.result_gpr_of_ne _ h8, Cpu.result_gpr_of_ne _ h12,
      Cpu.setGpr_gpr_of_ne _ h12]

lemma addOps_spec {x₀ x₁ x₂ x₃ : Xmm} (h : Aligned (c.gpr .rsp))
    (h0 : c.mem.loadXmm (c.gpr .rsp + 0) = x₀) (h1 : c.mem.loadXmm (c.gpr .rsp + 0x10) = x₁)
    (h2 : c.mem.loadXmm (c.gpr .rsp + 0x20) = x₂) (h3 : c.mem.loadXmm (c.gpr .rsp + 0x30) = x₃) :
    ∃ c', execAll (symbol R) c addOps = some c' ∧ c'.gpr = c.gpr ∧ c'.mem = c.mem ∧
      c'.xmm 1 = (c.xmm 1).add x₀ ∧ c'.xmm 2 = (c.xmm 2).add x₁ ∧ c'.xmm 8 = (c.xmm 8).add x₂ ∧
      c'.xmm 9 = (c.xmm 9).add x₃ := by
  obtain ⟨ha0, ha1, ha2, ha3⟩ := aligned_slots h
  refine ⟨(((c.setXmm 1 ((c.xmm 1).add x₀)).setXmm 2 ((c.xmm 2).add x₁)).setXmm 8
    ((c.xmm 8).add x₂)).setXmm 9 ((c.xmm 9).add x₃), ?_, rfl, rfl, rfl, rfl, rfl, rfl⟩
  simp only [addOps, execAll_cons, execAll_nil, exec, Mem.addr, Cpu.setXmm_gpr, Cpu.setXmm_mem,
    Option.bind_some, Option.map_some, Memory.loadAligned_of_aligned ha0,
    Memory.loadAligned_of_aligned ha1, Memory.loadAligned_of_aligned ha2,
    Memory.loadAligned_of_aligned ha3, h0, h1, h2, h3]
  rfl

lemma blockEnd_spec (c : Cpu) :
    ∃ c', execAll (symbol R) c blockEnd = some c' ∧ c'.xmm = c.xmm ∧ c'.mem = c.mem ∧
      c'.gpr .r11 = c.gpr .r11 + 16 ∧ c'.zf = (c.gpr .r8 == 0) ∧
      ∀ r, r ≠ .r11 → c'.gpr r = c.gpr r := by
  refine ⟨_, rfl, rfl, rfl, ?_, ?_, ?_⟩
  · rw [Cpu.setZf_gpr, Cpu.result_gpr]
  · rw [Cpu.setZf_zf, Cpu.result_gpr_of_ne _ (by decide)]
    exact congrArg (· == 0) (BitVec.sub_zero _)
  · intro r hr
    rw [Cpu.setZf_gpr, Cpu.result_gpr_of_ne _ hr]

/-! The parts put together. -/

/-- The constants are read from `.rodata`. -/
lemma constants_of_rodata (hrodata : Rodata m R) (hapart : Disjoint (range R rodata.length) F)
    (hmem : Set.EqOn c.mem m Fᶜ) (hr10 : c.gpr .r10 = R + 48) : Constants c := by
  intro g hg
  rw [hr10]
  refine ⟨(hrodata.aligned.add 3).add g, ?_⟩
  rw [← hrodata.constants hg]
  apply Memory.loadXmm_of_apart hmem
  apply hapart.mono_left
  rw [show R + 48 = R + BitVec.ofNat 64 48 from rfl, BitVec.add_assoc, ← BitVec.ofNat_add,
    length_rodata]
  exact range_add_subset R (by omega) (by decide)

lemma feeds_of_apart {L : Lane} (hL : L.offset ≤ 32) {v : Visit} (hv : v.Apart F) {g : ℕ}
    (hmem : Set.EqOn c.mem m Fᶜ) (hr12 : c.gpr .r12 = if g < 2 then v.first else v.second) :
    Feeds L (window m v.first v.second L) g c := by
  have hload : ∀ {a i}, Disjoint (range a 64) F → i < 2 →
      c.mem.loadXmm (a + BitVec.ofNat 64 (L.offset + 16 * i)) =
        m.loadXmm (a + BitVec.ofNat 64 (L.offset + 16 * i)) := fun ha hi =>
    Memory.loadXmm_of_apart hmem (ha.mono_left (range_add_subset _ (by omega) (by decide)))
  intro hg
  rw [hr12]
  obtain rfl | rfl | rfl | rfl : g = 0 ∨ g = 1 ∨ g = 2 ∨ g = 3 := by omega
  · exact hload hv.first (by decide)
  · exact hload hv.first (by decide)
  · exact hload hv.second (by decide)
  · exact hload hv.second (by decide)

/-- Before the first group. -/
lemma lanes_start {w₀ w₁ : Window} (h0 : c.xmm 1 = s₀.abef) (h1 : c.xmm 2 = s₀.cdgh)
    (h2 : c.xmm 8 = s₁.abef) (h3 : c.xmm 9 = s₁.cdgh) : Lanes w₀ w₁ s₀ s₁ 0 c :=
  ⟨⟨h0, h1, fun h => absurd h (by decide), fun h => absurd h (by decide),
      fun h => absurd h (by decide), fun h => absurd h (by decide)⟩,
    ⟨h2, h3, fun h => absurd h (by decide), fun h => absurd h (by decide),
      fun h => absurd h (by decide), fun h => absurd h (by decide)⟩⟩

lemma Xmm.add_comm (x y : Xmm) : x.add y = y.add x := by
  simp only [Xmm.add, BitVec.add_comm]

/-- The state is added to what the rounds made of it. -/
lemma add_saved {w : Window} (s : State) :
    (quadRounds w s 16).abef.add s.abef = (compress s w.block).abef ∧
      (quadRounds w s 16).cdgh.add s.cdgh = (compress s w.block).cdgh := by
  rw [compress_block, Xmm.add_comm, Xmm.add_comm (quadRounds w s 16).cdgh]
  exact ⟨rfl, rfl⟩

/-- Groups of rounds whose words are at the place that the visit has for them. -/
lemma visitGroups_spec {v : Visit} {g n : ℕ} (hrodata : Rodata m R)
    (hapart : Disjoint (range R rodata.length) F) (hv : v.Apart F) (hmem : Set.EqOn c.mem m Fᶜ)
    (hr10 : c.gpr .r10 = R + 48)
    (hr12 : ∀ i, g ≤ i → i < g + n → c.gpr .r12 = if i < 2 then v.first else v.second)
    (hat : Lanes (window m v.first v.second lane0) (window m v.first v.second lane1) s₀ s₁ g c)
    (hg : g + n ≤ 16) :
    ∃ c', execAll (symbol R) c (groups g n) = some c' ∧
      Lanes (window m v.first v.second lane0) (window m v.first v.second lane1) s₀ s₁ (g + n) c' ∧
      OnlyXmm scratch c c' :=
  lanes_run hat (fun i hi hi' => feeds_of_apart (by decide) hv hmem (hr12 i hi hi'))
    (fun i hi hi' => feeds_of_apart (by decide) hv hmem (hr12 i hi hi'))
    (constants_of_rodata hrodata hapart hmem hr10) hg

/-- The rounds of a block, with the two places of its words. -/
lemma blockRounds_spec {v : Visit} (hrodata : Rodata m R)
    (hapart : Disjoint (range R rodata.length) F) (hv : v.Apart F) (hmem : Set.EqOn c.mem m Fᶜ)
    (hr10 : c.gpr .r10 = R + 48) (hfirst : v.first = c.mem.load64 (c.gpr .r11) + c.gpr .rcx)
    (hsecond : v.second = if c.gpr .r8 = 1 then c.gpr .rsi else
      c.mem.load64 (c.gpr .r11 + 8) + c.gpr .rcx)
    (hat : Lanes (window m v.first v.second lane0) (window m v.first v.second lane1) s₀ s₁ 0 c) :
    ∃ c', execAll (symbol R) c (firstHalf ++ (groups 0 2 ++ (secondHalf ++ groups 2 14))) = some c' ∧
      Lanes (window m v.first v.second lane0) (window m v.first v.second lane1) s₀ s₁ 16 c' ∧
      c'.mem = c.mem ∧ c'.gpr .r8 = c.gpr .r8 - 1 ∧
      ∀ r, r ≠ .r8 → r ≠ .r12 → c'.gpr r = c.gpr r := by
  obtain ⟨c₁, hc₁, hxmm₁, hmem₁, hr12₁, hgpr₁⟩ := firstHalf_spec (R := R) c
  obtain ⟨c₂, hc₂, hat₂, only₂⟩ := visitGroups_spec (g := 0) (n := 2) (c := c₁) hrodata hapart hv
    (by rw [hmem₁]; exact hmem) ((hgpr₁ _ (by decide)).trans hr10)
    (fun i _ hi => by rw [if_pos (by omega), hr12₁, hfirst])
    ⟨hat.first.congr fun r _ => by rw [hxmm₁], hat.second.congr fun r _ => by rw [hxmm₁]⟩ (by decide)
  have hmem₂ : c₂.mem = c.mem := only₂.mem.trans hmem₁
  have hgpr₂ : ∀ r, r ≠ .r12 → c₂.gpr r = c.gpr r := by
    intro r hr
    rw [only₂.gpr, hgpr₁ r hr]
  obtain ⟨c₃, hc₃, hxmm₃, hmem₃, hr12₃, hr8₃, hgpr₃⟩ := secondHalf_spec (R := R) c₂
  have hr12 : c₃.gpr .r12 = v.second := by
    rw [hr12₃, hsecond, hgpr₂ _ (by decide), hgpr₂ _ (by decide), hgpr₂ _ (by decide),
      hgpr₂ _ (by decide), hmem₂]
  have hgpr : ∀ r, r ≠ .r8 → r ≠ .r12 → c₃.gpr r = c.gpr r := by
    intro r h8 h12
    rw [hgpr₃ r h12 h8, hgpr₂ r h12]
  obtain ⟨c₄, hc₄, hat₄, only₄⟩ := visitGroups_spec (g := 2) (n := 14) (c := c₃) hrodata hapart hv
    (by rw [hmem₃, hmem₂]; exact hmem) ((hgpr _ (by decide) (by decide)).trans hr10)
    (fun i hi _ => by rw [if_neg (Nat.not_lt.mpr hi), hr12])
    ⟨hat₂.first.congr fun r _ => by rw [hxmm₃], hat₂.second.congr fun r _ => by rw [hxmm₃]⟩ (by decide)
  refine ⟨c₄, ?_, hat₄, (only₄.mem.trans hmem₃).trans hmem₂, ?_, ?_⟩
  · rw [execAll_append, hc₁, Option.bind_some, execAll_append, hc₂, Option.bind_some, execAll_append,
      hc₃, Option.bind_some, hc₄]
  · rw [only₄.gpr, hr8₃, hgpr₂ _ (by decide)]
  · intro r h8 h12
    rw [only₄.gpr, hgpr r h8 h12]

/-- A block. -/
lemma block_spec (h : AtLoop m F R s₀ s₁ c) (hrodata : Rodata m R)
    (hapart : Disjoint (range R rodata.length) F) {v : Visit} (hv : v.Apart F)
    (hslot : v.slot = c.gpr .r11) (hfirst : v.first = m.load64 (c.gpr .r11) + c.gpr .rcx)
    (hsecond : v.second = if c.gpr .r8 = 1 then c.gpr .rsi else
      m.load64 (c.gpr .r11 + 8) + c.gpr .rcx) :
    ∃ c', execAll (symbol R) c blockOps = some c' ∧
      AtLoop m F R (compress s₀ (window m v.first v.second lane0).block)
        (compress s₁ (window m v.first v.second lane1).block) c' ∧
      c'.gpr .r8 = c.gpr .r8 - 1 ∧ c'.gpr .r11 = c.gpr .r11 + 16 ∧
      c'.zf = (c.gpr .r8 - 1 == 0) ∧
      (∀ r, r ≠ .r8 → r ≠ .r11 → r ≠ .r12 → c'.gpr r = c.gpr r) ∧
      Set.EqOn c'.mem c.mem (range (c.gpr .rsp) 64)ᶜ := by
  have hsaved := saved_spec c.mem (c.gpr .rsp) (c.xmm 1) (c.xmm 2) (c.xmm 8) (c.xmm 9)
  have hsave := saveOps_spec (R := R) c h.aligned
  generalize saved c.mem (c.gpr .rsp) (c.xmm 1) (c.xmm 2) (c.xmm 8) (c.xmm 9) = m₁ at hsaved hsave
  have hmem₁ : Set.EqOn m₁ m Fᶜ :=
    (hsaved.rest.mono (Set.compl_subset_compl.mpr h.locals)).trans h.mem
  -- the pointers are not where the states are saved
  have hpointer : ∀ k, k + 8 ≤ 16 →
      m₁.load64 (c.gpr .r11 + BitVec.ofNat 64 k) = m.load64 (c.gpr .r11 + BitVec.ofNat 64 k) := by
    intro k hk
    rw [← hslot]
    exact Memory.load64_of_apart hmem₁ (hv.slot.mono_left (range_add_subset _ hk (by decide)))
  have hfirst₁ : v.first = m₁.load64 (c.gpr .r11) + c.gpr .rcx := by
    have hzero := hpointer 0 (by decide)
    rw [BitVec.add_zero] at hzero
    rw [hfirst, hzero]
  have hsecond₁ : v.second = if c.gpr .r8 = 1 then c.gpr .rsi else
      m₁.load64 (c.gpr .r11 + 8) + c.gpr .rcx := by
    have height := hpointer 8 (by decide)
    exact hsecond.trans
      (congrArg (fun a => if c.gpr .r8 = 1 then c.gpr .rsi else a + c.gpr .rcx) height.symm)
  obtain ⟨c₂, hc₂, hat₂, hmem₂, hr8₂, hgpr₂⟩ := blockRounds_spec (c := c.setMem m₁) hrodata hapart hv
    hmem₁ h.r10 hfirst₁ hsecond₁ (lanes_start h.abef₀ h.cdgh₀ h.abef₁ h.cdgh₁)
  -- the saved states
  have hrsp₂ : c₂.gpr .rsp = c.gpr .rsp := hgpr₂ _ (by decide) (by decide)
  have hload : ∀ {k x}, m₁.loadXmm (c.gpr .rsp + k) = x → c₂.mem.loadXmm (c₂.gpr .rsp + k) = x := by
    intro k x hx
    rw [hrsp₂, hmem₂]
    exact hx
  obtain ⟨c₃, hc₃, hgpr₃, hmem₃, hx1, hx2, hx8, hx9⟩ := addOps_spec (R := R) (c := c₂)
    (hrsp₂ ▸ h.aligned) (hload (hsaved.load₀.trans h.abef₀)) (hload (hsaved.load₁.trans h.cdgh₀))
    (hload (hsaved.load₂.trans h.abef₁)) (hload (hsaved.load₃.trans h.cdgh₁))
  obtain ⟨c₄, hc₄, hxmm₄, hmem₄, hr11₄, hzf₄, hgpr₄⟩ := blockEnd_spec (R := R) c₃
  have hgpr : ∀ r, r ≠ .r8 → r ≠ .r11 → r ≠ .r12 → c₄.gpr r = c.gpr r := by
    intro r h8 h11 h12
    rw [hgpr₄ r h11, hgpr₃, hgpr₂ r h8 h12, Cpu.setMem_gpr]
  have hr8 : c₃.gpr .r8 = c.gpr .r8 - 1 := by
    rw [hgpr₃, hr8₂, Cpu.setMem_gpr]
  have hmem : c₄.mem = m₁ := (hmem₄.trans hmem₃).trans hmem₂
  refine ⟨c₄, ?_, ?_, ?_, ?_, ?_, hgpr, ?_⟩
  · have hops : blockOps = saveOps ++ ((firstHalf ++ (groups 0 2 ++ (secondHalf ++ groups 2 14))) ++
        (addOps ++ blockEnd)) := by
      simp only [blockOps, List.append_assoc]
    rw [hops, execAll_append, hsave, Option.bind_some, execAll_append, hc₂, Option.bind_some,
      execAll_append, hc₃, Option.bind_some, hc₄]
  · have hrsp : c₄.gpr .rsp = c.gpr .rsp := hgpr _ (by decide) (by decide) (by decide)
    constructor
    · rw [hmem]
      exact hmem₁
    · rw [hrsp]
      exact h.aligned
    · rw [hrsp]
      exact h.locals
    · rw [hgpr _ (by decide) (by decide) (by decide)]
      exact h.r10
    · rw [hxmm₄, hx1, show c₂.xmm 1 = _ from hat₂.first.abef]
      exact (add_saved s₀).1
    · rw [hxmm₄, hx2, show c₂.xmm 2 = _ from hat₂.first.cdgh]
      exact (add_saved s₀).2
    · rw [hxmm₄, hx8, show c₂.xmm 8 = _ from hat₂.second.abef]
      exact (add_saved s₁).1
    · rw [hxmm₄, hx9, show c₂.xmm 9 = _ from hat₂.second.cdgh]
      exact (add_saved s₁).2
  · rw [hgpr₄ _ (by decide), hr8]
  · rw [hr11₄, hgpr₃, hgpr₂ _ (by decide) (by decide), Cpu.setMem_gpr]
  · rw [hzf₄, hr8]
  · rw [hmem]
    exact hsaved.rest

end SupraSeal.ShaExtMbx2
