import SupraSeal.Lib.X86
import Mathlib.Data.Set.Function
import Mathlib.Data.Nat.ModEq

/-!
# Reasoning about x86-64 programs

What is loaded after a store, which registers an instruction leaves alone, and rules for programs:
one for instructions without jumps, and one for each of the other lines.
-/

namespace X86

open Sections

/-! ### Bytes and numbers -/

lemma leBytes_succ (n x : ℕ) : leBytes (n + 1) x = BitVec.ofNat 8 x :: leBytes n (x / 256) := by
  rw [leBytes, List.range_succ_eq_map, List.map_cons, List.map_map, leBytes]
  refine congrArg₂ List.cons rfl (List.map_congr_left ?_)
  intro i _
  simp only [Function.comp_apply, Nat.shiftRight_eq_div_pow, Nat.div_div_eq_div_mul]
  rw [show 8 * (i + 1) = 8 + 8 * i by ring, pow_add, show 2 ^ 8 = 256 from rfl]

lemma ofLe_leBytes (n x : ℕ) : ofLe (leBytes n x) = x % 2 ^ (8 * n) := by
  induction n generalizing x with
  | zero => simp [leBytes, ofLe, Nat.mod_one]
  | succ n ih =>
    have hcons : ofLe (leBytes (n + 1) x) = x % 256 + 256 * ofLe (leBytes n (x / 256)) := by
      rw [leBytes_succ, ofLe, List.foldr_cons, BitVec.toNat_ofNat]
      rfl
    rw [hcons, ih, show 2 ^ (8 * (n + 1)) = 256 * 2 ^ (8 * n) by rw [Nat.mul_succ, pow_add]; ring,
      Nat.mod_mul]

lemma ofNat_ofLe_leBytes {n : ℕ} (v : BitVec (8 * n)) :
    BitVec.ofNat (8 * n) (ofLe (leBytes n v.toNat)) = v := by
  rw [ofLe_leBytes, Nat.mod_eq_of_lt v.isLt, BitVec.ofNat_toNat, BitVec.setWidth_eq]

/-! ### Ranges of addresses -/

lemma mem_range {a b : Addr} {n : ℕ} : b ∈ range a n ↔ (b - a).toNat < n := Iff.rfl

lemma toNat_add_ofNat_sub (a : Addr) {i : ℕ} (hi : i < 2 ^ 64) :
    (a + BitVec.ofNat 64 i - a).toNat = i := by
  rw [BitVec.add_comm, BitVec.add_sub_cancel, BitVec.toNat_ofNat, Nat.mod_eq_of_lt hi]

lemma add_mem_range (a : Addr) {i n : ℕ} (hi : i < n) (hn : n ≤ 2 ^ 64) :
    a + BitVec.ofNat 64 i ∈ range a n := by
  rw [mem_range, toNat_add_ofNat_sub a (hi.trans_le hn)]
  exact hi

lemma range_add_subset (a : Addr) {k n l : ℕ} (h : k + n ≤ l) (hl : l ≤ 2 ^ 64) :
    range (a + BitVec.ofNat 64 k) n ⊆ range a l := by
  intro b hb
  rw [mem_range] at hb ⊢
  obtain hn | hn := Nat.eq_zero_or_pos n
  · omega
  · have hk : (BitVec.ofNat 64 k).toNat = k := by
      rw [BitVec.toNat_ofNat, Nat.mod_eq_of_lt (by omega)]
    have hsub : b - a = b - (a + BitVec.ofNat 64 k) + BitVec.ofNat 64 k := by bv_omega
    rw [hsub, BitVec.toNat_add, hk]
    exact (Nat.mod_le _ _).trans_lt (by omega)

lemma range_mono (a : Addr) {n l : ℕ} (h : n ≤ l) : range a n ⊆ range a l := fun _ hb =>
  lt_of_lt_of_le hb h

lemma disjoint_range (a : Addr) {i j n l : ℕ} (h : i + n ≤ j) (hl : j + l ≤ 2 ^ 64) :
    Disjoint (range (a + BitVec.ofNat 64 i) n) (range (a + BitVec.ofNat 64 j) l) := by
  rw [Set.disjoint_left]
  intro b hb hb'
  rw [mem_range] at hb hb'
  bv_omega

lemma disjoint_range_of_le {a b : Addr} {n l : ℕ} (h : a.toNat + n ≤ b.toNat)
    (hl : b.toNat + l ≤ 2 ^ 64) : Disjoint (range a n) (range b l) := by
  rw [Set.disjoint_left]
  intro x hx hx'
  rw [mem_range] at hx hx'
  bv_omega

/-! ### Loads and stores -/

namespace Memory

variable {m m' : Memory} {a b : Addr} {n : ℕ} {bs : List Byte}

@[simp] lemma length_bytes : (m.bytes a n).length = n := by simp [bytes]

lemma bytes_congr (hn : n ≤ 2 ^ 64) (h : Set.EqOn m m' (range a n)) : m.bytes a n = m'.bytes a n :=
  List.map_congr_left fun _ hi => h (add_mem_range a (List.mem_range.mp hi) hn)

lemma load32_congr (h : Set.EqOn m m' (range a 4)) : m.load32 a = m'.load32 a := by
  rw [load32, load32, bytes_congr (by decide) h]

lemma load64_congr (h : Set.EqOn m m' (range a 8)) : m.load64 a = m'.load64 a := by
  rw [load64, load64, bytes_congr (by decide) h]

lemma loadXmm_congr (h : Set.EqOn m m' (range a 16)) : m.loadXmm a = m'.loadXmm a := by
  have hpart : ∀ k, k + 4 ≤ 16 → m.load32 (a + BitVec.ofNat 64 k) =
      m'.load32 (a + BitVec.ofNat 64 k) := fun k hk =>
    load32_congr (h.mono (range_add_subset a hk (by decide)))
  rw [loadXmm, loadXmm]
  congr 1
  · exact load32_congr (h.mono (range_mono a (by decide)))
  · exact hpart 4 (by decide)
  · exact hpart 8 (by decide)
  · exact hpart 12 (by decide)

/-- A store changes no more than its range. -/
lemma eqOn_write (m : Memory) (a : Addr) (bs : List Byte) :
    Set.EqOn (m.write a bs) m (range a bs.length)ᶜ := by
  intro b hb
  rw [write, List.getD_eq_getElem?_getD, List.getElem?_eq_none (Nat.le_of_not_lt hb),
    Option.getD_none]

/-- The bytes of a part of what was stored. -/
lemma bytes_write (m : Memory) (a : Addr) {k : ℕ} (h : k + n ≤ bs.length)
    (hbs : bs.length ≤ 2 ^ 64) :
    (m.write a bs).bytes (a + BitVec.ofNat 64 k) n = (bs.drop k).take n := by
  apply List.ext_getElem
  · rw [length_bytes, List.length_take, List.length_drop]
    omega
  · intro i hi _
    rw [length_bytes] at hi
    have haddr : a + BitVec.ofNat 64 k + BitVec.ofNat 64 i = a + BitVec.ofNat 64 (k + i) := by
      rw [BitVec.add_assoc, BitVec.ofNat_add]
    simp only [bytes, List.getElem_map, List.getElem_range, haddr, write,
      toNat_add_ofNat_sub a (show k + i < 2 ^ 64 by omega), List.getElem_take, List.getElem_drop,
      List.getD_eq_getElem?_getD, List.getElem?_eq_getElem (show k + i < bs.length by omega),
      Option.getD_some]

lemma load32_write (m : Memory) (a : Addr) {k : ℕ} {d : DWord} (h : k + 4 ≤ bs.length)
    (hbs : bs.length ≤ 2 ^ 64) (hd : (bs.drop k).take 4 = leBytes 4 d.toNat) :
    (m.write a bs).load32 (a + BitVec.ofNat 64 k) = d := by
  rw [load32, bytes_write m a h hbs, hd]
  exact ofNat_ofLe_leBytes (n := 4) d

lemma load64_write (m : Memory) (a : Addr) (v : Quad) :
    (m.write a (leBytes 8 v.toNat)).load64 a = v := by
  have hbytes : (m.write a (leBytes 8 v.toNat)).bytes (a + BitVec.ofNat 64 0) 8 = _ :=
    bytes_write m a (by simp) (by simp)
  rw [BitVec.add_zero] at hbytes
  rw [load64, hbytes, List.drop_zero, List.take_of_length_le (by simp)]
  exact ofNat_ofLe_leBytes (n := 8) v

/-- The double word at position `k` of some bytes. -/
def dwordAt (bs : List Byte) (k : ℕ) : DWord := BitVec.ofNat 32 (ofLe ((bs.drop k).take 4))

lemma load32_of_bytes {k : ℕ} (h : m.bytes a n = bs) (hk : k + 4 ≤ n) :
    m.load32 (a + BitVec.ofNat 64 k) = dwordAt bs k := by
  have hbytes : m.bytes (a + BitVec.ofNat 64 k) 4 = (bs.drop k).take 4 := by
    subst h
    apply List.ext_getElem
    · rw [length_bytes, List.length_take, List.length_drop, length_bytes]
      omega
    · intro i _ _
      simp only [bytes, List.getElem_map, List.getElem_range, List.getElem_take, List.getElem_drop]
      rw [BitVec.add_assoc, BitVec.ofNat_add]
  rw [load32, hbytes, dwordAt]

/-- A vector from a region whose bytes are known. -/
lemma loadXmm_of_bytes {k : ℕ} (h : m.bytes a n = bs) (hk : k + 16 ≤ n) :
    m.loadXmm (a + BitVec.ofNat 64 k) =
      ⟨dwordAt bs k, dwordAt bs (k + 4), dwordAt bs (k + 8), dwordAt bs (k + 12)⟩ := by
  have hpart : ∀ j, j + 4 ≤ 16 → m.load32 (a + BitVec.ofNat 64 k + BitVec.ofNat 64 j) =
      dwordAt bs (k + j) := by
    intro j hj
    rw [BitVec.add_assoc, ← BitVec.ofNat_add, load32_of_bytes h (by omega)]
  rw [loadXmm, load32_of_bytes h (by omega)]
  congr 1
  · exact hpart 4 (by decide)
  · exact hpart 8 (by decide)
  · exact hpart 12 (by decide)

end Memory

@[simp] lemma Xmm.length_bytes (x : Xmm) : x.bytes.length = 16 := by simp [bytes, dwords]

lemma Memory.loadXmm_write (m : Memory) (a : Addr) (x : Xmm) :
    (m.write a x.bytes).loadXmm a = x := by
  have hlen : x.bytes.length ≤ 2 ^ 64 := by simp
  have hdword : ∀ {k d}, k + 4 ≤ 16 → (x.bytes.drop k).take 4 = leBytes 4 d.toNat →
      (m.write a x.bytes).load32 (a + BitVec.ofNat 64 k) = d := fun hk hd =>
    m.load32_write a (by simpa using hk) hlen hd
  have h0 : (m.write a x.bytes).load32 (a + BitVec.ofNat 64 0) = x.d0 := hdword (by decide) rfl
  rw [BitVec.add_zero] at h0
  rw [loadXmm, h0]
  ext1
  · rfl
  · exact hdword (k := 4) (by decide) rfl
  · exact hdword (k := 8) (by decide) rfl
  · exact hdword (k := 12) (by decide) rfl

/-- A load elsewhere does not see a store. -/
lemma Memory.loadXmm_write_of_disjoint {m : Memory} {a b : Addr} {bs : List Byte}
    (h : Disjoint (range b 16) (range a bs.length)) : (m.write a bs).loadXmm b = m.loadXmm b :=
  loadXmm_congr ((m.eqOn_write a bs).mono h.subset_compl_right)

lemma Memory.load64_write_of_disjoint {m : Memory} {a b : Addr} {bs : List Byte}
    (h : Disjoint (range b 8) (range a bs.length)) : (m.write a bs).load64 b = m.load64 b :=
  load64_congr ((m.eqOn_write a bs).mono h.subset_compl_right)

/-- Memories that agree outside of `F` have the same vectors there. -/
lemma Memory.loadXmm_of_apart {m m' : Memory} {F : Set Addr} {a : Addr} (h : Set.EqOn m' m Fᶜ)
    (ha : Disjoint (range a 16) F) : m'.loadXmm a = m.loadXmm a :=
  loadXmm_congr (h.mono ha.subset_compl_right)

lemma Memory.load64_of_apart {m m' : Memory} {F : Set Addr} {a : Addr} (h : Set.EqOn m' m Fᶜ)
    (ha : Disjoint (range a 8) F) : m'.load64 a = m.load64 a :=
  load64_congr (h.mono ha.subset_compl_right)

@[simp] lemma Memory.loadAligned_of_aligned {m : Memory} {a : Addr} (h : Aligned a) :
    m.loadAligned a = some (m.loadXmm a) := if_pos h

@[simp] lemma Memory.writeAligned_of_aligned {m : Memory} {a : Addr} (h : Aligned a) (x : Xmm) :
    m.writeAligned a x = some (m.write a x.bytes) := if_pos h

lemma Aligned.add {a : Addr} (h : Aligned a) (k : ℕ) : Aligned (a + BitVec.ofNat 64 (16 * k)) := by
  rw [Aligned] at h ⊢
  rw [BitVec.toNat_add, BitVec.toNat_ofNat]
  omega

/-! ### Vectors -/

/-- `palignr` by one double word. -/
lemma Xmm.alignr_four (x y : Xmm) : x.alignr y 4 = ⟨y.d1, y.d2, y.d3, x.d0⟩ := by
  have hbits : ∀ (v : BitVec 256) (k : ℕ), k + 32 ≤ 128 →
      ((v >>> (8 * 4)).setWidth 128).extractLsb' k 32 = v.extractLsb' (k + 32) 32 := by
    intro v k hk
    ext i hi
    simp only [BitVec.getElem_extractLsb', BitVec.getLsbD_setWidth, BitVec.getLsbD_ushiftRight]
    rw [decide_eq_true (show k + i < 128 by omega), Bool.true_and]
    congr 1
    omega
  rw [alignr, ofBits, hbits _ 0 (by decide), hbits _ 32 (by decide), hbits _ 64 (by decide),
    hbits _ 96 (by decide), bits, bits]
  congr 1
  all_goals
    ext i hi
    simp only [BitVec.getElem_extractLsb', BitVec.getLsbD_append]
    grind

/-! ### Registers -/

namespace Cpu

variable (c : Cpu)

@[simp] lemma setGpr_gpr (r : Gpr) (v : Quad) : (c.setGpr r v).gpr r = v := Function.update_self ..

lemma setGpr_gpr_of_ne {r r' : Gpr} (h : r' ≠ r) (v : Quad) : (c.setGpr r v).gpr r' = c.gpr r' :=
  Function.update_of_ne h ..

@[simp] lemma setXmm_xmm (r : Fin 16) (v : Xmm) : (c.setXmm r v).xmm r = v :=
  Function.update_self ..

lemma setXmm_xmm_of_ne {r r' : Fin 16} (h : r' ≠ r) (v : Xmm) : (c.setXmm r v).xmm r' = c.xmm r' :=
  Function.update_of_ne h ..

@[simp] lemma setGpr_xmm (r : Gpr) (v : Quad) : (c.setGpr r v).xmm = c.xmm := rfl
@[simp] lemma setGpr_mem (r : Gpr) (v : Quad) : (c.setGpr r v).mem = c.mem := rfl
@[simp] lemma setGpr_zf (r : Gpr) (v : Quad) : (c.setGpr r v).zf = c.zf := rfl
@[simp] lemma setXmm_gpr (r : Fin 16) (v : Xmm) : (c.setXmm r v).gpr = c.gpr := rfl
@[simp] lemma setXmm_mem (r : Fin 16) (v : Xmm) : (c.setXmm r v).mem = c.mem := rfl
@[simp] lemma setXmm_zf (r : Fin 16) (v : Xmm) : (c.setXmm r v).zf = c.zf := rfl
@[simp] lemma setMem_gpr (m : Memory) : (c.setMem m).gpr = c.gpr := rfl
@[simp] lemma setMem_xmm (m : Memory) : (c.setMem m).xmm = c.xmm := rfl
@[simp] lemma setMem_mem (m : Memory) : (c.setMem m).mem = m := rfl
@[simp] lemma setMem_zf (m : Memory) : (c.setMem m).zf = c.zf := rfl
@[simp] lemma setZf_gpr (b : Bool) : (c.setZf b).gpr = c.gpr := rfl
@[simp] lemma setZf_xmm (b : Bool) : (c.setZf b).xmm = c.xmm := rfl
@[simp] lemma setZf_mem (b : Bool) : (c.setZf b).mem = c.mem := rfl
@[simp] lemma setZf_zf (b : Bool) : (c.setZf b).zf = b := rfl
@[simp] lemma result_gpr (r : Gpr) (v : Quad) : (c.result r v).gpr r = v := c.setGpr_gpr r v
@[simp] lemma result_xmm (r : Gpr) (v : Quad) : (c.result r v).xmm = c.xmm := rfl
@[simp] lemma result_mem (r : Gpr) (v : Quad) : (c.result r v).mem = c.mem := rfl
@[simp] lemma result_zf (r : Gpr) (v : Quad) : (c.result r v).zf = (v == 0) := rfl

lemma result_gpr_of_ne {r r' : Gpr} (h : r' ≠ r) (v : Quad) : (c.result r v).gpr r' = c.gpr r' :=
  c.setGpr_gpr_of_ne h v

end Cpu

lemma Mem.addr_base_zero {σ : Type} (symbol : σ → Addr) (c : Cpu) (r : Gpr) :
    (Mem.base r 0).addr symbol c = c.gpr r := BitVec.add_zero _

/-! ### What an instruction leaves alone -/

variable {σ Λ : Type} {symbol : σ → Addr}

namespace Op

/-- The vector register that is written, for instructions that write nothing else. -/
def vectorDst : Op σ → Option (Fin 16)
  | movdqa dst _ | movdqaLoad dst _ | movdquLoad dst _ | paddd dst _ | padddLoad dst _
  | pshufd dst _ _ | palignr dst _ _ | punpckhdq dst _ | punpckldq dst _ | pand dst _
  | sha256rnds2 dst _ | sha256msg1 dst _ | sha256msg2 dst _ => some dst
  | _ => none

end Op

/-- A vector instruction sets its register. -/
lemma exec_vector {c c' : Cpu} {i : Op σ} {dst : Fin 16} (hi : i.vectorDst = some dst)
    (h : exec symbol c i = some c') : ∃ v, c' = c.setXmm dst v := by
  cases i <;> simp only [Op.vectorDst, Option.some.injEq, reduceCtorEq] at hi <;> subst hi <;>
    simp only [exec, Option.some.injEq, Option.map_eq_some_iff] at h <;>
    first
      | exact ⟨_, h.symm⟩
      | exact ⟨_, h.choose_spec.2.symm⟩

/-- Vector registers that may be written; everything else is as it was. -/
structure OnlyXmm (rs : List (Fin 16)) (c c' : Cpu) : Prop where
  gpr : c'.gpr = c.gpr
  mem : c'.mem = c.mem
  xmm : ∀ r, r ∉ rs → c'.xmm r = c.xmm r

namespace OnlyXmm

variable {rs rs' : List (Fin 16)} {c c' c'' : Cpu}

lemma refl (rs : List (Fin 16)) (c : Cpu) : OnlyXmm rs c c := ⟨rfl, rfl, fun _ _ => rfl⟩

lemma trans (h : OnlyXmm rs c c') (h' : OnlyXmm rs c' c'') : OnlyXmm rs c c'' :=
  ⟨h'.gpr.trans h.gpr, h'.mem.trans h.mem, fun r hr => (h'.xmm r hr).trans (h.xmm r hr)⟩

lemma mono (h : OnlyXmm rs c c') (hrs : rs ⊆ rs') : OnlyXmm rs' c c' :=
  ⟨h.gpr, h.mem, fun r hr => h.xmm r fun hmem => hr (hrs hmem)⟩

end OnlyXmm

lemma execAll_cons (c : Cpu) (i : Op σ) (ops : List (Op σ)) :
    execAll symbol c (i :: ops) = (exec symbol c i).bind fun c' => execAll symbol c' ops := rfl

@[simp] lemma execAll_nil (c : Cpu) : execAll symbol c [] = some c := rfl

lemma execAll_append (c : Cpu) (ops ops' : List (Op σ)) :
    execAll symbol c (ops ++ ops') =
      (execAll symbol c ops).bind fun c' => execAll symbol c' ops' := by
  rw [execAll, List.foldlM_append]
  rfl

/-- Instructions that only write vector registers. -/
lemma onlyXmm_execAll {ops : List (Op σ)} {rs : List (Fin 16)}
    (hops : ∀ i ∈ ops, ∃ r ∈ rs, i.vectorDst = some r) {c c' : Cpu}
    (h : execAll symbol c ops = some c') : OnlyXmm rs c c' := by
  induction ops generalizing c with
  | nil =>
    obtain rfl := Option.some.inj h
    exact OnlyXmm.refl rs c
  | cons i ops ih =>
    rw [execAll_cons, Option.bind_eq_some_iff] at h
    obtain ⟨c₁, h₁, h⟩ := h
    obtain ⟨r, hr, hdst⟩ := hops i List.mem_cons_self
    obtain ⟨v, rfl⟩ := exec_vector hdst h₁
    have hfirst : OnlyXmm rs c (c.setXmm r v) :=
      ⟨rfl, rfl, fun r' hr' => c.setXmm_xmm_of_ne (ne_of_mem_of_not_mem hr hr').symm v⟩
    exact hfirst.trans (ih (fun i hi => hops i (List.mem_cons_of_mem _ hi)) h)

/-- A value is taken off the stack. -/
lemma exec_pop (symbol : σ → Addr) (c : Cpu) {dst : Gpr} (hdst : dst ≠ .rsp) :
    ∃ c', exec symbol c (.pop dst) = some c' ∧ c'.xmm = c.xmm ∧ c'.mem = c.mem ∧
      c'.gpr dst = c.mem.load64 (c.gpr .rsp) ∧ c'.gpr .rsp = c.gpr .rsp + 8 ∧
      ∀ r, r ≠ dst → r ≠ .rsp → c'.gpr r = c.gpr r := by
  refine ⟨_, rfl, rfl, rfl, Cpu.setGpr_gpr .., ?_, ?_⟩
  · rw [Cpu.setGpr_gpr_of_ne _ hdst.symm, Cpu.setGpr_gpr]
  · intro r hr hrsp
    rw [Cpu.setGpr_gpr_of_ne _ hr, Cpu.setGpr_gpr_of_ne _ hrsp]

/-- A value is put on the stack. -/
lemma exec_push (symbol : σ → Addr) (c : Cpu) (src : Gpr) :
    ∃ c', exec symbol c (.push src) = some c' ∧ c'.xmm = c.xmm ∧
      c'.mem = c.mem.write (c.gpr .rsp - 8) (leBytes 8 (c.gpr src).toNat) ∧
      c'.gpr .rsp = c.gpr .rsp - 8 ∧ ∀ r, r ≠ .rsp → c'.gpr r = c.gpr r := by
  refine ⟨_, rfl, rfl, rfl, ?_, ?_⟩
  · rw [Cpu.setMem_gpr, Cpu.setGpr_gpr]
  · intro r hr
    rw [Cpu.setMem_gpr, Cpu.setGpr_gpr_of_ne _ hr]

/-! ### Programs -/

section

variable [DecidableEq σ] [DecidableEq Λ] {program rest : List (Line σ Λ)} {c c' : Cpu}
  {post : Addr → Cpu → Prop} {l : Λ}

lemma target_append {before : List (Line σ Λ)} (h : ∀ i ∈ before, i ≠ .label l) :
    target (before ++ .label l :: rest) l = rest := by
  rw [target, List.dropWhile_append_of_pos, List.dropWhile_cons_of_neg]
  · rfl
  · simp
  · intro i hi
    exact decide_eq_true (h i hi)

namespace Returns

lemma op {i : Op σ} (hi : exec symbol c i = some c') (h : Returns symbol program rest c' post) :
    Returns symbol program (.op i :: rest) c post := by
  obtain ⟨fuel, a, c'', hrun, hpost⟩ := h
  refine ⟨fuel + 1, a, c'', ?_, hpost⟩
  rw [run, hi]
  exact hrun

lemma ops {ops : List (Op σ)} (hops : execAll symbol c ops = some c')
    (h : Returns symbol program rest c' post) :
    Returns symbol program (ops.map .op ++ rest) c post := by
  induction ops generalizing c with
  | nil =>
    obtain rfl := Option.some.inj hops
    exact h
  | cons i ops ih =>
    rw [execAll_cons, Option.bind_eq_some_iff] at hops
    obtain ⟨c₁, h₁, hops⟩ := hops
    exact op h₁ (ih hops)

lemma label (h : Returns symbol program rest c post) :
    Returns symbol program (.label l :: rest) c post := by
  obtain ⟨fuel, a, c', hrun, hpost⟩ := h
  exact ⟨fuel + 1, a, c', hrun, hpost⟩

lemma jz (h : Returns symbol program (if c.zf then target program l else rest) c post) :
    Returns symbol program (.jz l :: rest) c post := by
  obtain ⟨fuel, a, c', hrun, hpost⟩ := h
  exact ⟨fuel + 1, a, c', hrun, hpost⟩

lemma jne (h : Returns symbol program (if c.zf then rest else target program l) c post) :
    Returns symbol program (.jne l :: rest) c post := by
  obtain ⟨fuel, a, c', hrun, hpost⟩ := h
  exact ⟨fuel + 1, a, c', hrun, hpost⟩

lemma jmp (h : Returns symbol program (target program l) c post) :
    Returns symbol program (.jmp l :: rest) c post := by
  obtain ⟨fuel, a, c', hrun, hpost⟩ := h
  exact ⟨fuel + 1, a, c', hrun, hpost⟩

lemma ret (h : post (c.mem.load64 (c.gpr .rsp)) (c.setGpr .rsp (c.gpr .rsp + 8))) :
    Returns symbol program (.ret :: rest) c post := ⟨1, _, _, rfl, h⟩

lemma mono {lines : List (Line σ Λ)} {post' : Addr → Cpu → Prop}
    (h : Returns symbol program lines c post) (hpost : ∀ a c', post a c' → post' a c') :
    Returns symbol program lines c post' := by
  obtain ⟨fuel, a, c', hrun, h⟩ := h
  exact ⟨fuel, a, c', hrun, hpost a c' h⟩

end Returns

end

end X86
