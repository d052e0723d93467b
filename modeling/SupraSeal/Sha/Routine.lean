import SupraSeal.Sha.Blocks

/-!
# A call of the routine

The caller passes the digests, two arrays of pointers, an offset and two counts in registers, and
finds the digests of both lanes when the call returns. Nothing else has changed but the stack below
the caller's, and the registers that a callee saves are what they were.
-/

namespace SupraSeal.ShaExtMbx2

open Sections X86 Sha256

/-! ### What a call is about -/

/-- The part of the stack that a call writes: three registers, four vectors and the alignment. -/
def frame (c : Cpu) : Set Addr := range (c.gpr .rsp - 103) 103

/-- Where the second half of the last block is. -/
def padAddr (c : Cpu) : Addr :=
  if c.gpr .r9 = 1 then c.mem.load64 (c.gpr .rsi) + 192 else c.mem.load64 (c.gpr .rsi) + 192 + 64

/-- The blocks of a call. -/
def visits (c : Cpu) : List Visit :=
  walk c.mem (c.gpr .rdx) (c.gpr .rcx) (c.gpr .r9) (padAddr c) (c.gpr .r8).toNat 1 (c.gpr .rsi)

/-- The state of a lane after all blocks. -/
def laneState (c : Cpu) (L : Lane) : State :=
  (laneBlocks c.mem (visits c) L).foldl compress .initial

/-- What the blocks of a lane make up. -/
def laneMessage (c : Cpu) (L : Lane) : List Byte :=
  (visits c).flatMap fun v => (window c.mem v.first v.second L).block

/-- A call that the routine is made for: at least one block, and the stack apart from what is read
and from the digests. -/
structure Callable (R : Addr) (c : Cpu) : Prop where
  constants : Rodata c.mem R
  constants_apart : Disjoint (range R rodata.length) (frame c)
  blocks : c.gpr .r8 ≠ 0
  visits : ∀ v ∈ visits c, v.Apart (frame c)
  digest : Disjoint (range (c.gpr .rdi) 64) (frame c)
  address : Disjoint (range (c.gpr .rdi) 64) (range (c.gpr .rsp) 8)

/-- The digest of a state as it is stored, with two bits of the last word cleared. -/
structure DigestAt (m : Memory) (a : Addr) (s : State) : Prop where
  low : m.loadXmm a = ⟨s.a, s.b, s.c, s.d⟩
  high : m.loadXmm (a + 0x10) = ⟨s.e, s.f, s.g, s.h &&& 0xFFFFFF3F⟩

/-- What a call leaves behind. -/
structure Hashed (c : Cpu) (a : Addr) (c' : Cpu) : Prop where
  address : a = c.mem.load64 (c.gpr .rsp)
  digest₀ : DigestAt c'.mem (c.gpr .rdi) (laneState c lane0)
  digest₁ : DigestAt c'.mem (c.gpr .rdi + 0x20) (laneState c lane1)
  rest : Set.EqOn c'.mem c.mem (range (c.gpr .rdi) 64 ∪ frame c)ᶜ
  rsp : c'.gpr .rsp = c.gpr .rsp + 8
  saved : ∀ r, r = .rbx ∨ r = .rbp ∨ r = .r12 ∨ r = .r13 ∨ r = .r14 ∨ r = .r15 →
    c'.gpr r = c.gpr r

/-! ### The loop -/

lemma target_shaloop : target program .shaloop = loopLines := by decide +kernel

lemma target_done : target program .done = doneLines := by decide +kernel

variable {m : Memory} {F : Set Addr} {R : Addr} {c c₁ : Cpu} {post : Addr → Cpu → Prop}

/-- The registers that the loop keeps. -/
def Kept (c c' : Cpu) : Prop :=
  ∀ r, r ≠ .r8 → r ≠ .r11 → r ≠ .r12 → r ≠ .r13 → c'.gpr r = c.gpr r

lemma AtLoop.of_eq {s₀ s₁ : State} {c c' : Cpu} (h : AtLoop m F R s₀ s₁ c) (hmem : c'.mem = c.mem)
    (hxmm : c'.xmm = c.xmm) (hrsp : c'.gpr .rsp = c.gpr .rsp) (hr10 : c'.gpr .r10 = c.gpr .r10) :
    AtLoop m F R s₀ s₁ c' := by
  constructor
  · rw [hmem]
    exact h.mem
  · rw [hrsp]
    exact h.aligned
  · rw [hrsp]
    exact h.locals
  · rw [hr10]
    exact h.r10
  · rw [hxmm]
    exact h.abef₀
  · rw [hxmm]
    exact h.cdgh₀
  · rw [hxmm]
    exact h.abef₁
  · rw [hxmm]
    exact h.cdgh₁

lemma ofNat_eq_one_iff {n : ℕ} (h : n + 1 < 2 ^ 64) : BitVec.ofNat 64 (n + 1) = 1 ↔ n = 0 := by
  constructor
  · intro heq
    have hnat := congrArg BitVec.toNat heq
    rw [BitVec.toNat_ofNat, Nat.mod_eq_of_lt h] at hnat
    exact Nat.succ_injective hnat
  · rintro rfl
    rfl

lemma foldl_laneBlocks (s : State) (v : Visit) (vs : List Visit) (L : Lane) :
    (laneBlocks m (v :: vs) L).foldl compress s =
      (laneBlocks m vs L).foldl compress (compress s (window m v.first v.second L).block) := by
  rw [laneBlocks, List.map_cons, List.foldl_cons, laneBlocks]

/-- The loop ends with the compression of all blocks. -/
lemma loop_returns (hrodata : Rodata m R) (hapart : Disjoint (range R rodata.length) F) {n : ℕ}
    {s₀ s₁ : State} (h : AtLoop m F R s₀ s₁ c) (hn : c.gpr .r8 = BitVec.ofNat 64 (n + 1))
    (hlt : n + 1 < 2 ^ 64) {vs : List Visit}
    (hvs : vs = walk m (c.gpr .rdx) (c.gpr .rcx) (c.gpr .r9) (c.gpr .rsi) (n + 1) (c.gpr .r13)
      (c.gpr .r11))
    (hall : ∀ v ∈ vs, v.Apart F)
    (hdone : ∀ c', AtLoop m F R ((laneBlocks m vs lane0).foldl compress s₀)
      ((laneBlocks m vs lane1).foldl compress s₁) c' → Kept c c' →
        Set.EqOn c'.mem c.mem (range (c.gpr .rsp) 64)ᶜ →
          Returns (symbol R) program doneLines c' post) :
    Returns (symbol R) program loopLines c post := by
  induction n generalizing c s₀ s₁ vs with
  | zero =>
    rw [walk_one] at hvs
    subst hvs
    obtain ⟨c', hc', hat, -, -, hzf, hgpr, hmem⟩ := block_spec h hrodata hapart
      (hall _ List.mem_cons_self) rfl rfl (by rw [hn]; rfl)
    rw [loopLines]
    apply Returns.ops hc'
    apply Returns.jz
    rw [hzf, hn, if_pos (by decide), target_done]
    exact hdone c' hat (fun r h8 h11 h12 _ => hgpr r h8 h11 h12) hmem
  | succ n ih =>
    rw [walk_succ] at hvs
    subst hvs
    have hne : ¬c.gpr .r8 = 1 := by
      rw [hn, ofNat_eq_one_iff hlt]
      exact Nat.succ_ne_zero n
    have hpred : c.gpr .r8 - 1 = BitVec.ofNat 64 (n + 1) := by
      rw [hn]
      bv_omega
    obtain ⟨c₁, hc₁, hat, hr8, hr11, hzf, hgpr, hmem⟩ := block_spec h hrodata hapart
      (hall _ List.mem_cons_self) rfl rfl (by rw [if_neg hne])
    have hr13 : c₁.gpr .r13 = c.gpr .r13 := hgpr _ (by decide) (by decide) (by decide)
    have hkept : Kept c c₁ := fun r h8 h11 h12 _ => hgpr r h8 h11 h12
    -- what is left to do from a state at the next block
    have hnext : ∀ c₂ : Cpu, c₂.mem = c₁.mem → c₂.xmm = c₁.xmm →
        (∀ r, r ≠ .r11 → r ≠ .r13 → c₂.gpr r = c₁.gpr r) →
        c₂.gpr .r13 = (if c.gpr .r13 = 1 then c.gpr .r9 else c.gpr .r13 - 1) →
        c₂.gpr .r11 = (if c.gpr .r13 = 1 then c.gpr .rdx else c.gpr .r11 + 16) →
        Returns (symbol R) program loopLines c₂ post := by
      intro c₂ hmem₂ hxmm₂ hgpr₂ hr13₂ hr11₂
      have hkept₂ : Kept c c₂ := fun r h8 h11 h12 h13 => (hgpr₂ r h11 h13).trans
        (hgpr r h8 h11 h12)
      refine ih (hat.of_eq hmem₂ hxmm₂ (hgpr₂ _ (by decide) (by decide))
        (hgpr₂ _ (by decide) (by decide))) ?_ (Nat.lt_of_succ_lt hlt) ?_
        (fun v hv => hall v (List.mem_cons_of_mem _ hv)) ?_
      · rw [hgpr₂ _ (by decide) (by decide), hr8, hpred]
      · rw [hr13₂, hr11₂, hkept₂ .rdx (by decide) (by decide) (by decide) (by decide),
          hkept₂ .rcx (by decide) (by decide) (by decide) (by decide),
          hkept₂ .r9 (by decide) (by decide) (by decide) (by decide),
          hkept₂ .rsi (by decide) (by decide) (by decide) (by decide)]
      · intro c' hat' hkept' hmem'
        apply hdone c'
        · rw [foldl_laneBlocks, foldl_laneBlocks]
          exact hat'
        · intro r h8 h11 h12 h13
          rw [hkept' r h8 h11 h12 h13, hkept₂ r h8 h11 h12 h13]
        · rw [hkept₂ .rsp (by decide) (by decide) (by decide) (by decide), hmem₂] at hmem'
          exact hmem'.trans hmem
    rw [loopLines]
    apply Returns.ops hc₁
    apply Returns.jz
    rw [hzf, sub_one_beq_zero, if_neg (by simpa using hne)]
    apply Returns.op rfl
    apply Returns.jne
    rw [Cpu.result_zf, sub_one_beq_zero, hr13]
    by_cases hround : c.gpr .r13 = 1
    · rw [if_pos (decide_eq_true hround)]
      apply Returns.op rfl
      apply Returns.op rfl
      apply Returns.jmp
      rw [target_shaloop]
      apply hnext
      · rfl
      · rfl
      · intro r h11 h13
        rw [Cpu.setGpr_gpr_of_ne _ h11, Cpu.setGpr_gpr_of_ne _ h13, Cpu.result_gpr_of_ne _ h13]
      · rw [Cpu.setGpr_gpr_of_ne _ (by decide), Cpu.setGpr_gpr, Cpu.result_gpr_of_ne _ (by decide),
          hkept .r9 (by decide) (by decide) (by decide) (by decide), if_pos hround]
      · rw [Cpu.setGpr_gpr, Cpu.setGpr_gpr_of_ne _ (by decide), Cpu.result_gpr_of_ne _ (by decide),
          hkept .rdx (by decide) (by decide) (by decide) (by decide), if_pos hround]
    · rw [if_neg (by simpa using hround), target_shaloop]
      apply hnext
      · rfl
      · rfl
      · intro r _ h13
        rw [Cpu.result_gpr_of_ne _ h13]
      · rw [Cpu.result_gpr, if_neg hround]
      · rw [Cpu.result_gpr_of_ne _ (by decide), hr11, if_neg hround]

/-! ### The end of a call -/

variable {s₀ s₁ : State}

lemma orderOps_spec (h1 : c.xmm 1 = s₀.abef) (h2 : c.xmm 2 = s₀.cdgh) (h8 : c.xmm 8 = s₁.abef)
    (h9 : c.xmm 9 = s₁.cdgh) :
    ∃ c', execAll (symbol R) c orderOps = some c' ∧ c'.gpr = c.gpr ∧ c'.mem = c.mem ∧
      c'.xmm 1 = ⟨s₀.a, s₀.b, s₀.c, s₀.d⟩ ∧ c'.xmm 2 = ⟨s₀.e, s₀.f, s₀.g, s₀.h⟩ ∧
      c'.xmm 8 = ⟨s₁.a, s₁.b, s₁.c, s₁.d⟩ ∧ c'.xmm 9 = ⟨s₁.e, s₁.f, s₁.g, s₁.h⟩ := by
  refine ⟨_, rfl, rfl, rfl, ?_, ?_, ?_, ?_⟩
  · show ((c.xmm 1).unpackHigh (c.xmm 2)).shuffle 0x72 = _
    rw [h1, h2]
    rfl
  · show ((c.xmm 2).unpackLow (c.xmm 1)).shuffle 0x27 = _
    rw [h1, h2]
    rfl
  · show ((c.xmm 8).unpackHigh (c.xmm 9)).shuffle 0x72 = _
    rw [h8, h9]
    rfl
  · show ((c.xmm 9).unpackLow (c.xmm 8)).shuffle 0x27 = _
    rw [h8, h9]
    rfl

lemma maskOps_spec (c : Cpu) (hrodata : Rodata c.mem R) :
    ∃ c', execAll (symbol R) c maskOps = some c' ∧ c'.gpr = c.gpr ∧ c'.mem = c.mem ∧
      c'.xmm 1 = c.xmm 1 ∧ c'.xmm 2 = (c.xmm 2).and stateMask ∧ c'.xmm 8 = c.xmm 8 ∧
      c'.xmm 9 = (c.xmm 9).and stateMask := by
  have haligned : Aligned (R + 32) := hrodata.aligned.add 2
  refine ⟨((c.setXmm 15 stateMask).setXmm 2 ((c.xmm 2).and stateMask)).setXmm 9
    ((c.xmm 9).and stateMask), ?_, rfl, rfl, rfl, rfl, rfl, rfl⟩
  simp only [maskOps, execAll_cons, execAll_nil, exec, Mem.addr, symbol, Option.bind_some,
    Option.map_some, Memory.loadAligned_of_aligned haligned, hrodata.mask]
  rfl

lemma storeOps_spec (c : Cpu) :
    execAll (symbol R) c storeOps = some (c.setMem
      (saved c.mem (c.gpr .rdi) (c.xmm 1) (c.xmm 2) (c.xmm 8) (c.xmm 9))) := rfl

lemma popOps_spec (c : Cpu) :
    ∃ c', execAll (symbol R) c popOps = some c' ∧ c'.mem = c.mem ∧
      c'.gpr .rsp = c.gpr .rbp + 8 ∧ c'.gpr .r13 = c.mem.load64 (c.gpr .rbp - 16) ∧
      c'.gpr .r12 = c.mem.load64 (c.gpr .rbp - 8) ∧ c'.gpr .rbp = c.mem.load64 (c.gpr .rbp) ∧
      ∀ r, r ≠ .rsp → r ≠ .r13 → r ≠ .r12 → r ≠ .rbp → c'.gpr r = c.gpr r := by
  have hlea : (Mem.base Gpr.rbp (-16)).addr (symbol R) c = c.gpr .rbp - 16 := by
    rw [Mem.addr]
    bv_omega
  obtain ⟨c₁, hc₁, -, hmem₁, hr13, hrsp₁, hgpr₁⟩ :=
    exec_pop (symbol R) (c.setGpr .rsp (c.gpr .rbp - 16)) (show Gpr.r13 ≠ .rsp by decide)
  obtain ⟨c₂, hc₂, -, hmem₂, hr12, hrsp₂, hgpr₂⟩ :=
    exec_pop (symbol R) c₁ (show Gpr.r12 ≠ .rsp by decide)
  obtain ⟨c₃, hc₃, -, hmem₃, hrbp, hrsp₃, hgpr₃⟩ :=
    exec_pop (symbol R) c₂ (show Gpr.rbp ≠ .rsp by decide)
  rw [Cpu.setGpr_gpr] at hrsp₁ hr13
  rw [hmem₁, hrsp₁] at hr12
  rw [hmem₂, hmem₁, hrsp₂, hrsp₁] at hrbp
  rw [hrsp₂, hrsp₁] at hrsp₃
  refine ⟨c₃, ?_, (hmem₃.trans hmem₂).trans hmem₁, ?_, ?_, ?_, ?_, ?_⟩
  · rw [popOps, execAll_cons, exec, hlea, Option.bind_some, execAll_cons, hc₁, Option.bind_some,
      execAll_cons, hc₂, Option.bind_some, execAll_cons, hc₃]
    rfl
  · rw [hrsp₃]
    bv_omega
  · rw [hgpr₃ _ (by decide) (by decide), hgpr₂ _ (by decide) (by decide), hr13, Cpu.setGpr_mem]
  · rw [hgpr₃ _ (by decide) (by decide), hr12, Cpu.setGpr_mem]
    exact congrArg _ (by bv_omega)
  · rw [hrbp, Cpu.setGpr_mem]
    exact congrArg _ (by bv_omega)
  · intro r h h13 h12 hbp
    rw [hgpr₃ r hbp h, hgpr₂ r h12 h, hgpr₁ r h13 h, Cpu.setGpr_gpr_of_ne _ h]

/-- The mask keeps all bits but two. -/
lemma and_stateMask (e f g h : DWord) :
    (⟨e, f, g, h⟩ : Xmm).and stateMask = ⟨e, f, g, h &&& 0xFFFFFF3F⟩ := by
  have hones : ∀ v : DWord, v &&& 0xFFFFFFFF = v := fun v => BitVec.and_allOnes
  simp only [Xmm.and, stateMask, hones]

/-- From the last block to the return. -/
lemma done_returns (hrodata : Rodata c.mem R) (h1 : c.xmm 1 = s₀.abef) (h2 : c.xmm 2 = s₀.cdgh)
    (h8 : c.xmm 8 = s₁.abef) (h9 : c.xmm 9 = s₁.cdgh) :
    Returns (symbol R) program doneLines c fun a c' =>
      DigestAt c'.mem (c.gpr .rdi) s₀ ∧ DigestAt c'.mem (c.gpr .rdi + 0x20) s₁ ∧
      Set.EqOn c'.mem c.mem (range (c.gpr .rdi) 64)ᶜ ∧ a = c'.mem.load64 (c.gpr .rbp + 8) ∧
      c'.gpr .rsp = c.gpr .rbp + 16 ∧ c'.gpr .r13 = c'.mem.load64 (c.gpr .rbp - 16) ∧
      c'.gpr .r12 = c'.mem.load64 (c.gpr .rbp - 8) ∧ c'.gpr .rbp = c'.mem.load64 (c.gpr .rbp) ∧
      ∀ r, r ≠ .rsp → r ≠ .r13 → r ≠ .r12 → r ≠ .rbp → c'.gpr r = c.gpr r := by
  obtain ⟨c₁, hc₁, hgpr₁, hmem₁, h1, h2, h8, h9⟩ := orderOps_spec (R := R) h1 h2 h8 h9
  obtain ⟨c₂, hc₂, hgpr₂, hmem₂, h1', h2', h8', h9'⟩ :=
    maskOps_spec (R := R) c₁ (by rw [hmem₁]; exact hrodata)
  obtain ⟨c₃, hc₃, hmem₃, hrsp, hr13, hr12, hrbp, hgpr₃⟩ := popOps_spec (R := R)
    (c₂.setMem (saved c₂.mem (c₂.gpr .rdi) (c₂.xmm 1) (c₂.xmm 2) (c₂.xmm 8) (c₂.xmm 9)))
  rw [Cpu.setMem_mem] at hmem₃
  rw [Cpu.setMem_mem, ← hmem₃] at hr13 hr12 hrbp
  have hgpr : c₂.gpr = c.gpr := hgpr₂.trans hgpr₁
  have hmem : c₂.mem = c.mem := hmem₂.trans hmem₁
  have hsaved := saved_spec c₂.mem (c₂.gpr .rdi) (c₂.xmm 1) (c₂.xmm 2) (c₂.xmm 8) (c₂.xmm 9)
  rw [← hmem₃, hgpr, hmem, h1', h2', h8', h9', h1, h2, h8, h9] at hsaved
  rw [Cpu.setMem_gpr, hgpr] at hrsp hr13 hr12 hrbp hgpr₃
  have hops : execAll (symbol R) c (orderOps ++ (maskOps ++ (storeOps ++ popOps))) = some c₃ := by
    rw [execAll_append, hc₁, Option.bind_some, execAll_append, hc₂, Option.bind_some,
      execAll_append, storeOps_spec, Option.bind_some, hc₃]
  rw [doneLines]
  apply Returns.ops hops
  apply Returns.ret
  have hzero := hsaved.load₀
  rw [show c.gpr .rdi + 0 = c.gpr .rdi from BitVec.add_zero _] at hzero
  have haddr : c.gpr .rbp + 8 + 8 = c.gpr .rbp + 16 := by bv_omega
  refine ⟨⟨hzero, hsaved.load₁.trans (and_stateMask _ _ _ _)⟩,
    ⟨hsaved.load₂, ?_⟩, hsaved.rest, ?_, ?_, ?_, ?_, ?_, ?_⟩
  · rw [Cpu.setGpr_mem, BitVec.add_assoc]
    exact hsaved.load₃.trans (and_stateMask _ _ _ _)
  · rw [hrsp, Cpu.setGpr_mem]
  · rw [Cpu.setGpr_gpr, hrsp, haddr]
  · rw [Cpu.setGpr_gpr_of_ne _ (by decide)]
    exact hr13
  · rw [Cpu.setGpr_gpr_of_ne _ (by decide)]
    exact hr12
  · rw [Cpu.setGpr_gpr_of_ne _ (by decide)]
    exact hrbp
  · intro r hr h13 h12 hbp
    rw [Cpu.setGpr_gpr_of_ne _ hr, hgpr₃ r hr h13 h12 hbp]

/-! ### The start of a call -/

/-- Memory with the three saved registers. -/
def pushed (c : Cpu) : Memory :=
  ((c.mem.write (c.gpr .rsp - 8) (leBytes 8 (c.gpr .rbp).toNat)).write (c.gpr .rsp - 8 - 8)
    (leBytes 8 (c.gpr .r12).toNat)).write (c.gpr .rsp - 8 - 8 - 8) (leBytes 8 (c.gpr .r13).toNat)

/-- What the stack holds after the pushes. -/
lemma pushed_spec (c : Cpu) :
    (pushed c).load64 (c.gpr .rsp - 8) = c.gpr .rbp ∧
      (pushed c).load64 (c.gpr .rsp - 16) = c.gpr .r12 ∧
      (pushed c).load64 (c.gpr .rsp - 24) = c.gpr .r13 ∧
      Set.EqOn (pushed c) c.mem (frame c)ᶜ := by
  have hapart : ∀ x : Addr, Disjoint (range (x - 8) 8) (range (x - 8 - 8) 8) ∧
      Disjoint (range (x - 8) 8) (range (x - 8 - 8 - 8) 8) := by
    intro x
    constructor
    · rw [Set.disjoint_left]
      intro b hb hb'
      rw [mem_range] at hb hb'
      bv_omega
    · rw [Set.disjoint_left]
      intro b hb hb'
      rw [mem_range] at hb hb'
      bv_omega
  have hframe : ∀ x : Addr, range (x - 8) 8 ⊆ range (x - 103) 103 ∧
      range (x - 8 - 8) 8 ⊆ range (x - 103) 103 ∧ range (x - 8 - 8 - 8) 8 ⊆ range (x - 103) 103 := by
    intro x
    refine ⟨?_, ?_, ?_⟩
    all_goals
      intro b hb
      rw [mem_range] at hb ⊢
      bv_omega
  have h16 : c.gpr .rsp - 16 = c.gpr .rsp - 8 - 8 := by bv_omega
  have h24 : c.gpr .rsp - 24 = c.gpr .rsp - 8 - 8 - 8 := by bv_omega
  refine ⟨?_, ?_, ?_, ?_⟩
  · rw [pushed, Memory.load64_write_of_disjoint (by simpa using (hapart _).2),
      Memory.load64_write_of_disjoint (by simpa using (hapart _).1), Memory.load64_write]
  · rw [h16, pushed, Memory.load64_write_of_disjoint (by simpa using (hapart _).1),
      Memory.load64_write]
  · rw [h24, pushed, Memory.load64_write]
  · obtain ⟨h₁, h₂, h₃⟩ := hframe (c.gpr .rsp)
    have hwrite : ∀ (m : Memory) {a : Addr} (v : Quad), range a 8 ⊆ frame c →
        Set.EqOn (m.write a (leBytes 8 v.toNat)) m (frame c)ᶜ := by
      intro m a v ha
      apply (m.eqOn_write a _).mono
      rw [length_leBytes]
      exact Set.compl_subset_compl.mpr ha
    exact ((hwrite _ _ h₃).trans (hwrite _ _ h₂)).trans (hwrite _ _ h₁)

lemma stackOps_spec (c : Cpu) :
    ∃ c', execAll (symbol R) c stackOps = some c' ∧ c'.mem = pushed c ∧
      c'.gpr .rsp = (c.gpr .rsp - 88) &&& 0xFFFFFFFFFFFFFFF0 ∧ c'.gpr .rbp = c.gpr .rsp - 8 ∧
      ∀ r, r ≠ .rsp → r ≠ .rbp → c'.gpr r = c.gpr r := by
  obtain ⟨c₁, hc₁, -, hmem₁, hrsp₁, hgpr₁⟩ := exec_push (symbol R) c .rbp
  obtain ⟨c₂, hc₂, -, hmem₂, hrsp₂, hgpr₂⟩ :=
    exec_push (symbol R) (c₁.setGpr .rbp (c₁.gpr .rsp)) .r12
  obtain ⟨c₃, hc₃, -, hmem₃, hrsp₃, hgpr₃⟩ := exec_push (symbol R) c₂ .r13
  rw [Cpu.setGpr_gpr_of_ne _ (by decide)] at hrsp₂
  have hother : ∀ r, r ≠ .rsp → r ≠ .rbp → c₃.gpr r = c.gpr r := by
    intro r hrsp hrbp
    rw [hgpr₃ r hrsp, hgpr₂ r hrsp, Cpu.setGpr_gpr_of_ne _ hrbp, hgpr₁ r hrsp]
  refine ⟨(c₃.result .rsp (c₃.gpr .rsp - 64)).result .rsp
    ((c₃.gpr .rsp - 64) &&& 0xFFFFFFFFFFFFFFF0), ?_, ?_, ?_, ?_, ?_⟩
  · rw [stackOps, execAll_cons, exec, Option.bind_some, execAll_cons, hc₁, Option.bind_some,
      execAll_cons, exec, Option.bind_some, execAll_cons, hc₂, Option.bind_some, execAll_cons, hc₃]
    simp only [Option.bind_some, execAll_cons, exec, execAll_nil, Cpu.result_gpr]
  · have hr12 : (c₁.setGpr .rbp (c₁.gpr .rsp)).gpr .r12 = c.gpr .r12 := by
      rw [Cpu.setGpr_gpr_of_ne _ (by decide), hgpr₁ _ (by decide)]
    have hr13 : c₂.gpr .r13 = c.gpr .r13 := by
      rw [hgpr₂ _ (by decide), Cpu.setGpr_gpr_of_ne _ (by decide), hgpr₁ _ (by decide)]
    have hrsp : (c₁.setGpr .rbp (c₁.gpr .rsp)).gpr .rsp = c.gpr .rsp - 8 := by
      rw [Cpu.setGpr_gpr_of_ne _ (by decide), hrsp₁]
    rw [Cpu.result_mem, Cpu.result_mem, hmem₃, hmem₂, Cpu.setGpr_mem, hmem₁, hr12, hr13, hrsp, hrsp₂,
      hrsp₁, pushed]
  · rw [Cpu.result_gpr, hrsp₃, hrsp₂, hrsp₁]
    congr 1
    bv_omega
  · rw [Cpu.result_gpr_of_ne _ (by decide), Cpu.result_gpr_of_ne _ (by decide),
      hgpr₃ _ (by decide), hgpr₂ _ (by decide), Cpu.setGpr_gpr, hrsp₁]
  · intro r hrsp hrbp
    rw [Cpu.result_gpr_of_ne _ hrsp, Cpu.result_gpr_of_ne _ hrsp, hother r hrsp hrbp]

lemma initialOps_spec (c : Cpu) (hrodata : Rodata c.mem R) :
    ∃ c', execAll (symbol R) c initialOps = some c' ∧ c'.mem = c.mem ∧ c'.gpr = c.gpr ∧
      c'.xmm 1 = State.initial.abef ∧ c'.xmm 2 = State.initial.cdgh ∧
      c'.xmm 8 = State.initial.abef ∧ c'.xmm 9 = State.initial.cdgh := by
  have h₀ : Aligned R := hrodata.aligned
  have h₁ : Aligned (R + 16) := hrodata.aligned.add 1
  refine ⟨(((c.setXmm 1 State.initial.abef).setXmm 2 State.initial.cdgh).setXmm 8
    State.initial.abef).setXmm 9 State.initial.cdgh, ?_, rfl, rfl, rfl, rfl, rfl, rfl⟩
  simp only [initialOps, execAll_cons, exec, Mem.addr, symbol, Option.bind_some, Cpu.setXmm_mem,
    Memory.loadAligned_of_aligned h₀, Memory.loadAligned_of_aligned h₁, Option.map_some,
    execAll_nil, hrodata.firstState, hrodata.secondState]
  rfl

lemma pointerOps_spec (c : Cpu) :
    ∃ c', execAll (symbol R) c pointerOps = some c' ∧ c'.mem = c.mem ∧ c'.xmm = c.xmm ∧
      c'.gpr .r10 = R + 48 ∧ c'.gpr .r13 = 1 ∧ c'.gpr .r11 = c.gpr .rsi ∧
      c'.gpr .rsi = c.mem.load64 (c.gpr .rsi) + 192 ∧ c'.zf = decide (c.gpr .r9 = 1) ∧
      ∀ r, r ≠ .r10 → r ≠ .r13 → r ≠ .r11 → r ≠ .rsi → c'.gpr r = c.gpr r := by
  refine ⟨_, rfl, rfl, rfl, ?_, ?_, ?_, ?_, ?_, ?_⟩
  · simp only [Cpu.setZf_gpr, Cpu.result_gpr_of_ne _ (show Gpr.r10 ≠ .rsi by decide),
      Cpu.setGpr_gpr_of_ne _ (show Gpr.r10 ≠ .rsi by decide),
      Cpu.setGpr_gpr_of_ne _ (show Gpr.r10 ≠ .r11 by decide),
      Cpu.setGpr_gpr_of_ne _ (show Gpr.r10 ≠ .r13 by decide), Cpu.setGpr_gpr, Mem.addr, symbol]
  · simp only [Cpu.setZf_gpr, Cpu.result_gpr_of_ne _ (show Gpr.r13 ≠ .rsi by decide),
      Cpu.setGpr_gpr_of_ne _ (show Gpr.r13 ≠ .rsi by decide),
      Cpu.setGpr_gpr_of_ne _ (show Gpr.r13 ≠ .r11 by decide), Cpu.setGpr_gpr]
    rfl
  · simp only [Cpu.setZf_gpr, Cpu.result_gpr_of_ne _ (show Gpr.r11 ≠ .rsi by decide),
      Cpu.setGpr_gpr_of_ne _ (show Gpr.r11 ≠ .rsi by decide), Cpu.setGpr_gpr,
      Cpu.setGpr_gpr_of_ne _ (show Gpr.rsi ≠ .r13 by decide),
      Cpu.setGpr_gpr_of_ne _ (show Gpr.rsi ≠ .r10 by decide)]
  · simp only [Cpu.setZf_gpr, Cpu.result_gpr, Cpu.setGpr_gpr, Mem.addr_base_zero,
      Cpu.setGpr_mem, Cpu.setGpr_gpr_of_ne _ (show Gpr.rsi ≠ .r11 by decide),
      Cpu.setGpr_gpr_of_ne _ (show Gpr.rsi ≠ .r13 by decide),
      Cpu.setGpr_gpr_of_ne _ (show Gpr.rsi ≠ .r10 by decide)]
  · simp only [Cpu.setZf_zf, Cpu.result_gpr_of_ne _ (show Gpr.r9 ≠ .rsi by decide),
      Cpu.setGpr_gpr_of_ne _ (show Gpr.r9 ≠ .rsi by decide),
      Cpu.setGpr_gpr_of_ne _ (show Gpr.r9 ≠ .r11 by decide),
      Cpu.setGpr_gpr_of_ne _ (show Gpr.r9 ≠ .r13 by decide),
      Cpu.setGpr_gpr_of_ne _ (show Gpr.r9 ≠ .r10 by decide), sub_one_beq_zero]
  · intro r h10 h13 h11 hrsi
    simp only [Cpu.setZf_gpr, Cpu.result_gpr_of_ne _ hrsi, Cpu.setGpr_gpr_of_ne _ hrsi,
      Cpu.setGpr_gpr_of_ne _ h11, Cpu.setGpr_gpr_of_ne _ h13, Cpu.setGpr_gpr_of_ne _ h10]

/-! ### The alignment of the stack -/

lemma aligned_alignDown (x : Quad) : Aligned (x &&& 0xFFFFFFFFFFFFFFF0) := by
  have h : (x &&& 0xFFFFFFFFFFFFFFF0).toNat % 2 ^ 4 = 0 := by
    rw [BitVec.toNat_and, Nat.and_mod_two_pow]
    simp
  exact h

/-- The alignment takes less than sixteen bytes. -/
lemma alignDown_eq (x : Quad) : ∃ d < 16, x &&& 0xFFFFFFFFFFFFFFF0 = x - BitVec.ofNat 64 d := by
  have hlt : (x &&& 15).toNat < 16 := by
    rw [BitVec.toNat_and]
    exact Nat.lt_of_le_of_lt Nat.and_le_right (by decide)
  have hdisjoint : (x &&& 0xFFFFFFFFFFFFFFF0) &&& (x &&& 15) = 0#64 := by
    calc (x &&& 0xFFFFFFFFFFFFFFF0) &&& (x &&& 15) = (x &&& x) &&& (0xFFFFFFFFFFFFFFF0 &&& 15) := by
          ac_rfl
      _ = 0#64 := BitVec.and_zero
  have hall : (0xFFFFFFFFFFFFFFF0 : Quad) ||| 15 = BitVec.allOnes 64 := by decide
  have hsplit : (x &&& 0xFFFFFFFFFFFFFFF0) + (x &&& 15) = x := by
    rw [BitVec.add_eq_or_of_and_eq_zero _ _ hdisjoint, ← BitVec.and_or_distrib_left, hall,
      BitVec.and_allOnes]
  refine ⟨(x &&& 15).toNat, hlt, ?_⟩
  rw [BitVec.ofNat_toNat, BitVec.setWidth_eq]
  exact BitVec.eq_sub_iff_add_eq.mpr hsplit

/-- The saved states are in the frame, below the saved registers. -/
lemma locals_spec (x : Addr) {sp : Addr} (hsp : sp = (x - 88) &&& 0xFFFFFFFFFFFFFFF0) :
    range sp 64 ⊆ range (x - 103) 103 ∧ Disjoint (range (x - 24) 24) (range sp 64) := by
  obtain ⟨d, hd, heq⟩ := alignDown_eq (x - 88)
  rw [hsp, heq]
  constructor
  · intro b hb
    rw [mem_range] at hb ⊢
    bv_omega
  · rw [Set.disjoint_left]
    intro b hb hb'
    rw [mem_range] at hb hb'
    bv_omega

/-! ### The whole call -/

lemma Rodata.of_apart {m m' : Memory} (h : Rodata m R) (hapart : Disjoint (range R rodata.length) F)
    (hm : Set.EqOn m' m Fᶜ) : Rodata m' R := h.congr (hm.mono hapart.subset_compl_right)

lemma Callable.exists_blocks (h : Callable R c) : ∃ n, (c.gpr .r8).toNat = n + 1 := by
  apply Nat.exists_eq_succ_of_ne_zero
  intro hzero
  exact h.blocks (BitVec.eq_of_toNat_eq hzero)

/-- From the first block to the return. -/
lemma body_returns (h : Callable R c) (hmem : c₁.mem = pushed c)
    (hrsp : c₁.gpr .rsp = (c.gpr .rsp - 88) &&& 0xFFFFFFFFFFFFFFF0)
    (hrbp : c₁.gpr .rbp = c.gpr .rsp - 8) (hr10 : c₁.gpr .r10 = R + 48) (hr13 : c₁.gpr .r13 = 1)
    (hr11 : c₁.gpr .r11 = c.gpr .rsi) (hrsi : c₁.gpr .rsi = padAddr c)
    (hgpr : ∀ r, r ≠ .rsp → r ≠ .rbp → r ≠ .r10 → r ≠ .r13 → r ≠ .r11 → r ≠ .rsi →
      c₁.gpr r = c.gpr r)
    (h1 : c₁.xmm 1 = State.initial.abef) (h2 : c₁.xmm 2 = State.initial.cdgh)
    (h8 : c₁.xmm 8 = State.initial.abef) (h9 : c₁.xmm 9 = State.initial.cdgh) :
    Returns (symbol R) program loopLines c₁ (Hashed c) := by
  obtain ⟨hlocals, hregs⟩ := locals_spec (c.gpr .rsp) hrsp
  obtain ⟨hload8, hload16, hload24, hpushed⟩ := pushed_spec c
  obtain ⟨n, hn⟩ := h.exists_blocks
  have hr8 : c₁.gpr .r8 = BitVec.ofNat 64 (n + 1) := by
    rw [hgpr _ (by decide) (by decide) (by decide) (by decide) (by decide) (by decide), ← hn,
      BitVec.ofNat_toNat, BitVec.setWidth_eq]
  have hstart : AtLoop c.mem (frame c) R .initial .initial c₁ := by
    refine ⟨?_, ?_, hlocals, hr10, h1, h2, h8, h9⟩
    · rw [hmem]
      exact hpushed
    · rw [hrsp]
      exact aligned_alignDown _
  refine loop_returns h.constants h.constants_apart hstart hr8
    (hn ▸ (c.gpr .r8).isLt) ?_ h.visits ?_
  · rw [visits, hr13, hr11, hrsi, hn,
      hgpr .rdx (by decide) (by decide) (by decide) (by decide) (by decide) (by decide),
      hgpr .rcx (by decide) (by decide) (by decide) (by decide) (by decide) (by decide),
      hgpr .r9 (by decide) (by decide) (by decide) (by decide) (by decide) (by decide)]
  · intro c₂ hat hkept hmem₂
    have hrbp₂ : c₂.gpr .rbp = c.gpr .rsp - 8 := by
      rw [hkept _ (by decide) (by decide) (by decide) (by decide), hrbp]
    have hrdi₂ : c₂.gpr .rdi = c.gpr .rdi := by
      rw [hkept _ (by decide) (by decide) (by decide) (by decide),
        hgpr _ (by decide) (by decide) (by decide) (by decide) (by decide) (by decide)]
    have hrodata : Rodata c₂.mem R := h.constants.of_apart h.constants_apart hat.mem
    apply (done_returns hrodata hat.abef₀ hat.cdgh₀ hat.abef₁ hat.cdgh₁).mono
    rintro a c₃ ⟨hdigest₀, hdigest₁, hrest, ha, hrsp₃, hr13₃, hr12₃, hrbp₃, hgpr₃⟩
    rw [hrdi₂] at hdigest₀ hdigest₁ hrest
    rw [hrbp₂] at ha hrsp₃ hr13₃ hr12₃ hrbp₃
    -- what was pushed is still there
    have hsaved : ∀ k, k + 8 ≤ 24 → c₃.mem.load64 (c.gpr .rsp - 24 + BitVec.ofNat 64 k) =
        (pushed c).load64 (c.gpr .rsp - 24 + BitVec.ofNat 64 k) := by
      intro k hk
      have hsub : range (c.gpr .rsp - 24 + BitVec.ofNat 64 k) 8 ⊆ range (c.gpr .rsp - 24) 24 :=
        range_add_subset _ hk (by decide)
      have hframe : range (c.gpr .rsp - 24) 24 ⊆ frame c := by
        intro b hb
        rw [frame, mem_range]
        rw [mem_range] at hb
        bv_omega
      rw [Memory.load64_of_apart hrest ((h.digest.mono_right hframe).symm.mono_left hsub),
        Memory.load64_of_apart hmem₂ (hregs.mono_left hsub), hmem]
    have hsaved0 := hsaved 0 (by decide)
    have hsaved8 := hsaved 8 (by decide)
    have hsaved16 := hsaved 16 (by decide)
    rw [show c.gpr .rsp - 24 + BitVec.ofNat 64 0 = c.gpr .rsp - 24 by bv_omega, hload24] at hsaved0
    rw [show c.gpr .rsp - 24 + BitVec.ofNat 64 8 = c.gpr .rsp - 16 by bv_omega, hload16] at hsaved8
    rw [show c.gpr .rsp - 24 + BitVec.ofNat 64 16 = c.gpr .rsp - 8 by bv_omega, hload8] at hsaved16
    rw [show c.gpr .rsp - 8 - 16 = c.gpr .rsp - 24 by bv_omega, hsaved0] at hr13₃
    rw [show c.gpr .rsp - 8 - 8 = c.gpr .rsp - 16 by bv_omega, hsaved8] at hr12₃
    rw [hsaved16] at hrbp₃
    have hrest' : Set.EqOn c₃.mem c.mem (range (c.gpr .rdi) 64 ∪ frame c)ᶜ := by
      intro b hb
      rw [Set.compl_union] at hb
      rw [hrest hb.1, hat.mem hb.2]
    refine ⟨?_, hdigest₀, hdigest₁, hrest', ?_, ?_⟩
    · rw [ha, show c.gpr .rsp - 8 + 8 = c.gpr .rsp by bv_omega]
      apply Memory.load64_of_apart hrest'
      rw [Set.disjoint_union_right]
      refine ⟨h.address.symm, ?_⟩
      rw [Set.disjoint_left]
      intro b hb hb'
      rw [mem_range] at hb
      rw [frame, mem_range] at hb'
      bv_omega
    · rw [hrsp₃]
      bv_omega
    · have hkeep : ∀ r, r = .rbx ∨ r = .r14 ∨ r = .r15 → c₃.gpr r = c.gpr r := by
        rintro r (rfl | rfl | rfl)
        all_goals
          rw [hgpr₃ _ (by decide) (by decide) (by decide) (by decide),
            hkept _ (by decide) (by decide) (by decide) (by decide),
            hgpr _ (by decide) (by decide) (by decide) (by decide) (by decide) (by decide)]
      rintro r (rfl | rfl | rfl | rfl | rfl | rfl)
      · exact hkeep _ (.inl rfl)
      · exact hrbp₃
      · exact hr12₃
      · exact hr13₃
      · exact hkeep _ (.inr (.inl rfl))
      · exact hkeep _ (.inr (.inr rfl))

/-- From the call to the return. -/
lemma returns_hashed (h : Callable R c) : Returns (symbol R) program program c (Hashed c) := by
  obtain ⟨c₁, hc₁, hmem₁, hrsp₁, hrbp₁, hgpr₁⟩ := stackOps_spec (R := R) c
  have hpushed := (pushed_spec c).2.2.2
  obtain ⟨c₂, hc₂, hmem₂, hgpr₂, h1, h2, h8, h9⟩ := initialOps_spec (R := R) c₁
    (h.constants.of_apart h.constants_apart (hmem₁ ▸ hpushed))
  obtain ⟨c₃, hc₃, hmem₃, hxmm₃, hr10, hr13, hr11, hrsi, hzf, hgpr₃⟩ := pointerOps_spec (R := R) c₂
  have hops : execAll (symbol R) c (stackOps ++ (initialOps ++ pointerOps)) = some c₃ := by
    rw [execAll_append, hc₁, Option.bind_some, execAll_append, hc₂, Option.bind_some, hc₃]
  have hgpr : ∀ r, r ≠ .rsp → r ≠ .rbp → r ≠ .r10 → r ≠ .r13 → r ≠ .r11 → r ≠ .rsi →
      c₃.gpr r = c.gpr r := by
    intro r hrsp hrbp h10 h13 h11 hsi
    rw [hgpr₃ r h10 h13 h11 hsi, hgpr₂, hgpr₁ r hrsp hrbp]
  have hmem : c₃.mem = pushed c := (hmem₃.trans hmem₂).trans hmem₁
  -- the pointer to the padding is read after the pushes
  have hpad : c₃.gpr .rsi = c.mem.load64 (c.gpr .rsi) + 192 := by
    obtain ⟨n, hn⟩ := h.exists_blocks
    have hslot : ∃ v ∈ visits c, v.slot = c.gpr .rsi := by
      rw [visits, hn, walk]
      exact ⟨_, List.mem_cons_self, rfl⟩
    obtain ⟨v, hv, hslot⟩ := hslot
    have hapart := (h.visits v hv).slot.mono_left (range_mono _ (show 8 ≤ 16 by decide))
    rw [hslot] at hapart
    rw [hrsi, hmem₂, hgpr₂, hmem₁, hgpr₁ _ (by decide) (by decide),
      Memory.load64_of_apart hpushed hapart]
  have hrsp : c₃.gpr .rsp = (c.gpr .rsp - 88) &&& 0xFFFFFFFFFFFFFFF0 := by
    rw [hgpr₃ _ (by decide) (by decide) (by decide) (by decide), hgpr₂, hrsp₁]
  have hrbp : c₃.gpr .rbp = c.gpr .rsp - 8 := by
    rw [hgpr₃ _ (by decide) (by decide) (by decide) (by decide), hgpr₂, hrbp₁]
  have hr11 : c₃.gpr .r11 = c.gpr .rsi := by
    rw [hr11, hgpr₂, hgpr₁ _ (by decide) (by decide)]
  have hr9 : c₂.gpr .r9 = c.gpr .r9 := by
    rw [hgpr₂, hgpr₁ _ (by decide) (by decide)]
  have hx1 : c₃.xmm 1 = State.initial.abef := by rw [hxmm₃, h1]
  have hx2 : c₃.xmm 2 = State.initial.cdgh := by rw [hxmm₃, h2]
  have hx8 : c₃.xmm 8 = State.initial.abef := by rw [hxmm₃, h8]
  have hx9 : c₃.xmm 9 = State.initial.cdgh := by rw [hxmm₃, h9]
  have hlines : Returns (symbol R) program (.label .shaExtMbx2 ::
      ((stackOps ++ (initialOps ++ pointerOps)).map .op ++ (.jz .shaloop :: .op (.addImm .rsi 64) ::
        .label .shaloop :: loopLines))) c (Hashed c) := by
    apply Returns.label
    apply Returns.ops hops
    apply Returns.jz
    rw [hzf, hr9, target_shaloop]
    by_cases hone : c.gpr .r9 = 1
    · rw [if_pos (decide_eq_true hone)]
      refine body_returns h hmem hrsp hrbp hr10 hr13 hr11 ?_ hgpr hx1 hx2 hx8 hx9
      rw [hpad, padAddr, if_pos hone]
    · rw [if_neg (by simpa using hone)]
      apply Returns.op rfl
      apply Returns.label
      apply body_returns h
      · exact hmem
      · rw [Cpu.result_gpr_of_ne _ (by decide), hrsp]
      · rw [Cpu.result_gpr_of_ne _ (by decide), hrbp]
      · rw [Cpu.result_gpr_of_ne _ (by decide), hr10]
      · rw [Cpu.result_gpr_of_ne _ (by decide), hr13]
      · rw [Cpu.result_gpr_of_ne _ (by decide), hr11]
      · rw [Cpu.result_gpr, hpad, padAddr, if_neg hone]
      · intro r h1 h2 h3 h4 h5 h6
        rw [Cpu.result_gpr_of_ne _ h6, hgpr r h1 h2 h3 h4 h5 h6]
      · exact hx1
      · exact hx2
      · exact hx8
      · exact hx9
  rw [← program_eq] at hlines
  exact hlines

/-- The routine computes SHA-256 of two messages. When the blocks that are found through the pointers
are the padded messages of the lanes, however the pointers are shared and repeated, every call returns
to its caller with both digests, up to the two bits that are cleared. Memory is otherwise changed only
below the stack of the caller, and the registers that a callee saves keep their values. -/
theorem shaExtMbx2_sha256 (h : Callable R c) {msg₀ msg₁ : List Byte}
    (h₀ : laneMessage c lane0 = pad msg₀) (h₁ : laneMessage c lane1 = pad msg₁) :
    Returns (symbol R) program program c fun a c' =>
      a = c.mem.load64 (c.gpr .rsp) ∧ DigestAt c'.mem (c.gpr .rdi) (Sha256.hash msg₀) ∧
      DigestAt c'.mem (c.gpr .rdi + 0x20) (Sha256.hash msg₁) ∧
      Set.EqOn c'.mem c.mem (range (c.gpr .rdi) 64 ∪ frame c)ᶜ ∧
      c'.gpr .rsp = c.gpr .rsp + 8 ∧
      ∀ r, r = .rbx ∨ r = .rbp ∨ r = .r12 ∨ r = .r13 ∨ r = .r14 ∨ r = .r15 →
        c'.gpr r = c.gpr r := by
  have hstate : ∀ {L msg}, laneMessage c L = pad msg → laneState c L = Sha256.hash msg := by
    intro L msg hmsg
    rw [hash_eq_foldl (fun _ => length_block _) hmsg]
    rfl
  apply (returns_hashed h).mono
  intro a c' hhashed
  refine ⟨hhashed.address, ?_, ?_, hhashed.rest, hhashed.rsp, hhashed.saved⟩
  · rw [← hstate h₀]
    exact hhashed.digest₀
  · rw [← hstate h₁]
    exact hhashed.digest₁

/-- A call for one block in each lane, the padding of the empty message. -/
def Cpu.oneBlock : Cpu where
  gpr
    | .rsp => 0x8000
    | .rdi => 0x9000
    | .rsi => 0x2000
    | .rdx => 0x3000
    | .r8 => 1
    | .r9 => 1
    | _ => 0
  xmm _ := ⟨0, 0, 0, 0⟩
  mem := (Memory.write (fun _ => 0) 0 ([0, 0, 0, 0x80] ++ List.replicate 28 0 ++
    [0, 0, 0, 0x80])).write 0x1000 rodata
  zf := false

lemma callable_oneBlock : Callable 0x1000 Cpu.oneBlock := by
  have hvisits : visits Cpu.oneBlock = [⟨0x2000, 0, 192⟩] := by decide +kernel
  constructor
  · refine ⟨rfl, ?_⟩
    have hbytes := Memory.bytes_write (Memory.write (fun _ => 0) 0 ([0, 0, 0, 0x80] ++
      List.replicate 28 0 ++ [0, 0, 0, 0x80])) 0x1000
      (show 0 + rodata.length ≤ rodata.length by rw [Nat.zero_add]) (by rw [length_rodata]; decide)
    rw [BitVec.add_zero, List.drop_zero, List.take_of_length_le (Nat.le_refl _)] at hbytes
    exact hbytes
  · rw [length_rodata]
    exact disjoint_range_of_le (by decide) (by decide)
  · decide
  · rw [hvisits]
    intro v hv
    obtain rfl := List.mem_singleton.mp hv
    constructor
    · exact disjoint_range_of_le (by decide) (by decide)
    · exact disjoint_range_of_le (by decide) (by decide)
    · exact disjoint_range_of_le (by decide) (by decide)
  · exact (disjoint_range_of_le (by decide) (by decide)).symm
  · exact (disjoint_range_of_le (by decide) (by decide)).symm

/-- Both digests of the empty message. -/
theorem shaExtMbx2_sha256_oneBlock :
    Returns (symbol 0x1000) program program Cpu.oneBlock fun a c' =>
      a = Cpu.oneBlock.mem.load64 0x8000 ∧ DigestAt c'.mem 0x9000 (Sha256.hash []) ∧
      DigestAt c'.mem 0x9020 (Sha256.hash []) :=
  (shaExtMbx2_sha256 callable_oneBlock
    (by decide +kernel : laneMessage Cpu.oneBlock lane0 = pad [])
    (by decide +kernel : laneMessage Cpu.oneBlock lane1 = pad [])).mono
      fun _ _ h => ⟨h.1, h.2.1, h.2.2.1⟩

end SupraSeal.ShaExtMbx2
