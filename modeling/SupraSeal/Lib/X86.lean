import SupraSeal.Lib.Sections
import Mathlib.Data.Set.Basic
import Mathlib.Data.Set.BooleanAlgebra
import Mathlib.Order.CompletePartialOrder
import Mathlib.Logic.Function.Basic

/-!
# A part of the x86-64 instruction set

Sixteen general purpose registers, sixteen vector registers of four double words, the zero flag and
a flat memory of bytes. A program is a listing: instructions, labels and jumps to labels. Operands
that are relative to the instruction pointer name a symbol. An access that must be aligned and is
not stops the machine.
-/

namespace X86

open Sections

abbrev Addr : Type := BitVec 64

abbrev Quad : Type := BitVec 64

abbrev DWord : Type := BitVec 32

/-! ### Memory -/

abbrev Memory : Type := Addr → Byte

/-- The number whose bytes are given, the least significant one first. -/
def ofLe (bytes : List Byte) : ℕ := bytes.foldr (fun b n => b.toNat + 256 * n) 0

namespace Memory

def bytes (m : Memory) (a : Addr) (n : ℕ) : List Byte :=
  (List.range n).map fun i => m (a + BitVec.ofNat 64 i)

/-- The bytes are written from address `a` on. -/
def write (m : Memory) (a : Addr) (bs : List Byte) : Memory := fun b =>
  bs.getD (b - a).toNat (m b)

def load32 (m : Memory) (a : Addr) : DWord := BitVec.ofNat 32 (ofLe (m.bytes a 4))

def load64 (m : Memory) (a : Addr) : Quad := BitVec.ofNat 64 (ofLe (m.bytes a 8))

end Memory

/-- The `n` addresses from `a` on. -/
def range (a : Addr) (n : ℕ) : Set Addr := {b | (b - a).toNat < n}

/-! ### Vectors -/

/-- The numerals below sixteen are registers. -/
scoped instance neZero_sixteen : NeZero 16 := ⟨Nat.succ_ne_zero 15⟩

/-- A vector register: four double words, the least significant one first. -/
@[ext]
structure Xmm where
  d0 : DWord
  d1 : DWord
  d2 : DWord
  d3 : DWord
  deriving DecidableEq

namespace Xmm

def dwords (x : Xmm) : List DWord := [x.d0, x.d1, x.d2, x.d3]

def bytes (x : Xmm) : List Byte := x.dwords.flatMap fun d => leBytes 4 d.toNat

def bits (x : Xmm) : BitVec 128 := x.d3 ++ x.d2 ++ x.d1 ++ x.d0

def ofBits (b : BitVec 128) : Xmm :=
  ⟨b.extractLsb' 0 32, b.extractLsb' 32 32, b.extractLsb' 64 32, b.extractLsb' 96 32⟩

/-- Double word `i` modulo four. -/
def dword (x : Xmm) (i : ℕ) : DWord := x.dwords.getD (i % 4) 0

/-- `paddd`. -/
def add (x y : Xmm) : Xmm := ⟨x.d0 + y.d0, x.d1 + y.d1, x.d2 + y.d2, x.d3 + y.d3⟩

/-- `pand`. -/
def and (x y : Xmm) : Xmm := ⟨x.d0 &&& y.d0, x.d1 &&& y.d1, x.d2 &&& y.d2, x.d3 &&& y.d3⟩

/-- `pshufd`. -/
def shuffle (x : Xmm) (imm : ℕ) : Xmm :=
  ⟨x.dword imm, x.dword (imm >>> 2), x.dword (imm >>> 4), x.dword (imm >>> 6)⟩

/-- `palignr`: the bytes of `x` and then `y` below it, shifted down by `imm` bytes. -/
def alignr (x y : Xmm) (imm : ℕ) : Xmm :=
  ofBits (((x.bits ++ y.bits : BitVec 256) >>> (8 * imm)).setWidth 128)

/-- `punpckhdq`. -/
def unpackHigh (x y : Xmm) : Xmm := ⟨x.d2, y.d2, x.d3, y.d3⟩

/-- `punpckldq`. -/
def unpackLow (x y : Xmm) : Xmm := ⟨x.d0, y.d0, x.d1, y.d1⟩

/-! The functions of the SHA extensions. -/

def sigma0 (x : DWord) : DWord := x.rotateRight 7 ^^^ x.rotateRight 18 ^^^ x >>> 3

def sigma1 (x : DWord) : DWord := x.rotateRight 17 ^^^ x.rotateRight 19 ^^^ x >>> 10

def sum0 (x : DWord) : DWord := x.rotateRight 2 ^^^ x.rotateRight 13 ^^^ x.rotateRight 22

def sum1 (x : DWord) : DWord := x.rotateRight 6 ^^^ x.rotateRight 11 ^^^ x.rotateRight 25

def ch (x y z : DWord) : DWord := (x &&& y) ^^^ (~~~x &&& z)

def maj (x y z : DWord) : DWord := (x &&& y) ^^^ (x &&& z) ^^^ (y &&& z)

/-- A round on `(a, b, e, f)` and `(c, d, g, h)`, from the high double word down. -/
def shaRound (cdgh abef : Xmm) (wk : DWord) : Xmm × Xmm :=
  let a := abef.d3
  let b := abef.d2
  let e := abef.d1
  let f := abef.d0
  let c := cdgh.d3
  let d := cdgh.d2
  let g := cdgh.d1
  let h := cdgh.d0
  let a' := ch e f g + sum1 e + wk + h + maj a b c + sum0 a
  let e' := ch e f g + sum1 e + wk + h + d
  (⟨g, f, c, b⟩, ⟨e, e', a, a'⟩)

/-- `sha256rnds2`: `x` holds `c, d, g, h`, `y` holds `a, b, e, f`, and two words with their constants
added are in `wk`. -/
def rnds2 (x y wk : Xmm) : Xmm :=
  let s := shaRound x y wk.d0
  (shaRound s.1 s.2 wk.d1).2

/-- `sha256msg1`. -/
def msg1 (x y : Xmm) : Xmm :=
  ⟨x.d0 + sigma0 x.d1, x.d1 + sigma0 x.d2, x.d2 + sigma0 x.d3, x.d3 + sigma0 y.d0⟩

/-- `sha256msg2`. -/
def msg2 (x y : Xmm) : Xmm :=
  let w16 := x.d0 + sigma1 y.d2
  let w17 := x.d1 + sigma1 y.d3
  ⟨w16, w17, x.d2 + sigma1 w16, x.d3 + sigma1 w17⟩

end Xmm

def Aligned (a : Addr) : Prop := a.toNat % 16 = 0

instance : DecidablePred Aligned := fun a => inferInstanceAs (Decidable (a.toNat % 16 = 0))

namespace Memory

def loadXmm (m : Memory) (a : Addr) : Xmm :=
  ⟨m.load32 a, m.load32 (a + 4), m.load32 (a + 8), m.load32 (a + 12)⟩

/-- Some instructions only load from aligned addresses. -/
def loadAligned (m : Memory) (a : Addr) : Option Xmm :=
  if Aligned a then some (m.loadXmm a) else none

def writeAligned (m : Memory) (a : Addr) (x : Xmm) : Option Memory :=
  if Aligned a then some (m.write a x.bytes) else none

end Memory

/-! ### Instructions -/

inductive Gpr
  | rax | rbx | rcx | rdx | rsi | rdi | rbp | rsp
  | r8 | r9 | r10 | r11 | r12 | r13 | r14 | r15
  deriving DecidableEq

/-- A memory operand: register and displacement, or a symbol relative to the instruction pointer. -/
inductive Mem (σ : Type)
  | base (r : Gpr) (disp : Quad)
  | rip (s : σ)
  deriving DecidableEq

/-- The instructions that go on to the next one. -/
inductive Op (σ : Type)
  | endbr64
  | push (src : Gpr)
  | pop (dst : Gpr)
  | mov (dst src : Gpr)
  /-- `mov` to the low half of a register. -/
  | movImm32 (dst : Gpr) (imm : DWord)
  | movLoad (dst : Gpr) (src : Mem σ)
  | lea (dst : Gpr) (src : Mem σ)
  | add (dst src : Gpr)
  | addImm (dst : Gpr) (imm : Quad)
  | subImm (dst : Gpr) (imm : Quad)
  | andImm (dst : Gpr) (imm : Quad)
  | cmpImm (dst : Gpr) (imm : Quad)
  | cmove (dst src : Gpr)
  | movdqa (dst src : Fin 16)
  | movdqaLoad (dst : Fin 16) (src : Mem σ)
  | movdqaStore (dst : Mem σ) (src : Fin 16)
  | movdquLoad (dst : Fin 16) (src : Mem σ)
  | movdquStore (dst : Mem σ) (src : Fin 16)
  | paddd (dst src : Fin 16)
  | padddLoad (dst : Fin 16) (src : Mem σ)
  | pshufd (dst src : Fin 16) (imm : ℕ)
  | palignr (dst src : Fin 16) (imm : ℕ)
  | punpckhdq (dst src : Fin 16)
  | punpckldq (dst src : Fin 16)
  | pand (dst src : Fin 16)
  | sha256rnds2 (dst src : Fin 16)
  | sha256msg1 (dst src : Fin 16)
  | sha256msg2 (dst src : Fin 16)
  deriving DecidableEq

/-- A line of the listing. -/
inductive Line (σ Λ : Type)
  | op (i : Op σ)
  | label (l : Λ)
  | jz (l : Λ)
  | jne (l : Λ)
  | jmp (l : Λ)
  | ret
  deriving DecidableEq

/-! ### The machine -/

structure Cpu where
  gpr : Gpr → Quad
  xmm : Fin 16 → Xmm
  mem : Memory
  zf : Bool

namespace Cpu

def setGpr (c : Cpu) (r : Gpr) (v : Quad) : Cpu := { c with gpr := Function.update c.gpr r v }

def setXmm (c : Cpu) (r : Fin 16) (v : Xmm) : Cpu := { c with xmm := Function.update c.xmm r v }

def setMem (c : Cpu) (m : Memory) : Cpu := { c with mem := m }

def setZf (c : Cpu) (b : Bool) : Cpu := { c with zf := b }

/-- The result of an arithmetic instruction goes into a register and sets the flag. -/
def result (c : Cpu) (r : Gpr) (v : Quad) : Cpu := (c.setGpr r v).setZf (v == 0)

end Cpu

variable {σ Λ : Type} (symbol : σ → Addr)

def Mem.addr (c : Cpu) : Mem σ → Addr
  | .base r disp => c.gpr r + disp
  | .rip s => symbol s

/-- One instruction. -/
def exec (c : Cpu) : Op σ → Option Cpu
  | .endbr64 => some c
  | .push src =>
    let rsp := c.gpr .rsp - 8
    some ((c.setGpr .rsp rsp).setMem (c.mem.write rsp (leBytes 8 (c.gpr src).toNat)))
  | .pop dst => some ((c.setGpr .rsp (c.gpr .rsp + 8)).setGpr dst (c.mem.load64 (c.gpr .rsp)))
  | .mov dst src => some (c.setGpr dst (c.gpr src))
  | .movImm32 dst imm => some (c.setGpr dst (imm.setWidth 64))
  | .movLoad dst src => some (c.setGpr dst (c.mem.load64 (src.addr symbol c)))
  | .lea dst src => some (c.setGpr dst (src.addr symbol c))
  | .add dst src => some (c.result dst (c.gpr dst + c.gpr src))
  | .addImm dst imm => some (c.result dst (c.gpr dst + imm))
  | .subImm dst imm => some (c.result dst (c.gpr dst - imm))
  | .andImm dst imm => some (c.result dst (c.gpr dst &&& imm))
  | .cmpImm dst imm => some (c.setZf (c.gpr dst - imm == 0))
  | .cmove dst src => some (c.setGpr dst (if c.zf then c.gpr src else c.gpr dst))
  | .movdqa dst src => some (c.setXmm dst (c.xmm src))
  | .movdqaLoad dst src =>
    (c.mem.loadAligned (src.addr symbol c)).map fun x => c.setXmm dst x
  | .movdqaStore dst src =>
    (c.mem.writeAligned (dst.addr symbol c) (c.xmm src)).map fun m => c.setMem m
  | .movdquLoad dst src => some (c.setXmm dst (c.mem.loadXmm (src.addr symbol c)))
  | .movdquStore dst src => some (c.setMem (c.mem.write (dst.addr symbol c) (c.xmm src).bytes))
  | .paddd dst src => some (c.setXmm dst ((c.xmm dst).add (c.xmm src)))
  | .padddLoad dst src =>
    (c.mem.loadAligned (src.addr symbol c)).map fun x => c.setXmm dst ((c.xmm dst).add x)
  | .pshufd dst src imm => some (c.setXmm dst ((c.xmm src).shuffle imm))
  | .palignr dst src imm => some (c.setXmm dst ((c.xmm dst).alignr (c.xmm src) imm))
  | .punpckhdq dst src => some (c.setXmm dst ((c.xmm dst).unpackHigh (c.xmm src)))
  | .punpckldq dst src => some (c.setXmm dst ((c.xmm dst).unpackLow (c.xmm src)))
  | .pand dst src => some (c.setXmm dst ((c.xmm dst).and (c.xmm src)))
  | .sha256rnds2 dst src => some (c.setXmm dst ((c.xmm dst).rnds2 (c.xmm src) (c.xmm 0)))
  | .sha256msg1 dst src => some (c.setXmm dst ((c.xmm dst).msg1 (c.xmm src)))
  | .sha256msg2 dst src => some (c.setXmm dst ((c.xmm dst).msg2 (c.xmm src)))

/-- Instructions without jumps, one after the other. -/
def execAll (c : Cpu) (ops : List (Op σ)) : Option Cpu := ops.foldlM (exec symbol) c

variable [DecidableEq σ] [DecidableEq Λ]

/-- The lines after a label. -/
def target (program : List (Line σ Λ)) (l : Λ) : List (Line σ Λ) :=
  (program.dropWhile fun i => decide (i ≠ .label l)).tail

/-- A run from the first of the lines given up to the return, with the address it returns to. -/
def run (program : List (Line σ Λ)) : ℕ → List (Line σ Λ) → Cpu → Option (Addr × Cpu)
  | 0, _, _ => none
  | _ + 1, [], _ => none
  | fuel + 1, .op i :: rest, c => (exec symbol c i).bind (run program fuel rest)
  | fuel + 1, .label _ :: rest, c => run program fuel rest c
  | fuel + 1, .jz l :: rest, c => run program fuel (if c.zf then target program l else rest) c
  | fuel + 1, .jne l :: rest, c => run program fuel (if c.zf then rest else target program l) c
  | fuel + 1, .jmp l :: _, c => run program fuel (target program l) c
  | _ + 1, .ret :: _, c => some (c.mem.load64 (c.gpr .rsp), c.setGpr .rsp (c.gpr .rsp + 8))

/-- Some run from the lines given returns, and what it returns satisfies `post`. -/
def Returns (program lines : List (Line σ Λ)) (c : Cpu) (post : Addr → Cpu → Prop) : Prop :=
  ∃ fuel a c', run symbol program fuel lines c = some (a, c') ∧ post a c'

end X86
