import SupraSeal.Lib.ShaNi

/-!
# The multi-buffer SHA-256 of PC1

`sha/sha_ext_mbx2.S` hashes two messages of equal length at a time, with the SHA extensions. The
rounds of the two lanes alternate, four rounds of one and then four of the other.
-/

namespace SupraSeal.ShaExtMbx2

open Sections X86 Sha256

inductive Symbol
  | firstState
  | secondState
  | stateMask
  | constants
  deriving DecidableEq

inductive Label
  | shaExtMbx2
  | shaloop
  | done
  deriving DecidableEq

/-! ### The listing -/

/-- `.text` -/
def program : List (Line Symbol Label) :=
  [.label .shaExtMbx2,
   .op .endbr64,
   .op (.push .rbp),
   .op (.mov .rbp .rsp),
   .op (.push .r12),
   .op (.push .r13),
   .op (.subImm .rsp 64),
   .op (.andImm .rsp 0xFFFFFFFFFFFFFFF0),
   .op (.movdqaLoad 1 (.rip .firstState)),
   .op (.movdqaLoad 2 (.rip .secondState)),
   .op (.movdqa 8 1),
   .op (.movdqa 9 2),
   .op (.lea .r10 (.rip .constants)),
   .op (.movImm32 .r13 1),
   .op (.mov .r11 .rsi),
   .op (.movLoad .rsi (.base .rsi 0)),
   .op (.addImm .rsi 192),
   .op (.cmpImm .r9 1),
   .jz .shaloop,
   .op (.addImm .rsi 64),
   .label .shaloop,
   .op (.movdqaStore (.base .rsp 0) 1),
   .op (.movdqaStore (.base .rsp 0x10) 2),
   .op (.movdqaStore (.base .rsp 0x20) 8),
   .op (.movdqaStore (.base .rsp 0x30) 9),
   .op (.movLoad .r12 (.base .r11 0)),
   .op (.add .r12 .rcx),
   .op (.movdquLoad 0 (.base .r12 0)),
   .op (.movdqa 3 0),
   .op (.padddLoad 0 (.base .r10 0)),
   .op (.sha256rnds2 2 1),
   .op (.pshufd 0 0 0x0E),
   .op (.sha256rnds2 1 2),
   .op (.movdquLoad 0 (.base .r12 0x20)),
   .op (.movdqa 10 0),
   .op (.padddLoad 0 (.base .r10 0)),
   .op (.sha256rnds2 9 8),
   .op (.pshufd 0 0 0x0E),
   .op (.sha256rnds2 8 9),
   .op (.movdquLoad 0 (.base .r12 0x10)),
   .op (.movdqa 4 0),
   .op (.padddLoad 0 (.base .r10 0x10)),
   .op (.sha256rnds2 2 1),
   .op (.pshufd 0 0 0x0E),
   .op (.sha256rnds2 1 2),
   .op (.sha256msg1 3 4),
   .op (.movdquLoad 0 (.base .r12 0x30)),
   .op (.movdqa 11 0),
   .op (.padddLoad 0 (.base .r10 0x10)),
   .op (.sha256rnds2 9 8),
   .op (.pshufd 0 0 0x0E),
   .op (.sha256rnds2 8 9),
   .op (.sha256msg1 10 11),
   .op (.movLoad .r12 (.base .r11 0x8)),
   .op (.add .r12 .rcx),
   .op (.subImm .r8 1),
   .op (.cmove .r12 .rsi),
   .op (.movdquLoad 0 (.base .r12 0)),
   .op (.movdqa 5 0),
   .op (.padddLoad 0 (.base .r10 0x20)),
   .op (.sha256rnds2 2 1),
   .op (.pshufd 0 0 0x0E),
   .op (.sha256rnds2 1 2),
   .op (.sha256msg1 4 5),
   .op (.movdquLoad 0 (.base .r12 0x20)),
   .op (.movdqa 12 0),
   .op (.padddLoad 0 (.base .r10 0x20)),
   .op (.sha256rnds2 9 8),
   .op (.pshufd 0 0 0x0E),
   .op (.sha256rnds2 8 9),
   .op (.sha256msg1 11 12),
   .op (.movdquLoad 0 (.base .r12 0x10)),
   .op (.movdqa 6 0),
   .op (.padddLoad 0 (.base .r10 0x30)),
   .op (.sha256rnds2 2 1),
   .op (.movdqa 7 6),
   .op (.palignr 7 5 0x04),
   .op (.paddd 3 7),
   .op (.sha256msg2 3 6),
   .op (.pshufd 0 0 0x0E),
   .op (.sha256rnds2 1 2),
   .op (.sha256msg1 5 6),
   .op (.movdquLoad 0 (.base .r12 0x30)),
   .op (.movdqa 13 0),
   .op (.padddLoad 0 (.base .r10 0x30)),
   .op (.sha256rnds2 9 8),
   .op (.movdqa 14 13),
   .op (.palignr 14 12 0x04),
   .op (.paddd 10 14),
   .op (.sha256msg2 10 13),
   .op (.pshufd 0 0 0x0E),
   .op (.sha256rnds2 8 9),
   .op (.sha256msg1 12 13),
   .op (.movdqa 0 3),
   .op (.padddLoad 0 (.base .r10 0x40)),
   .op (.sha256rnds2 2 1),
   .op (.movdqa 7 3),
   .op (.palignr 7 6 0x04),
   .op (.paddd 4 7),
   .op (.sha256msg2 4 3),
   .op (.pshufd 0 0 0x0E),
   .op (.sha256rnds2 1 2),
   .op (.sha256msg1 6 3),
   .op (.movdqa 0 10),
   .op (.padddLoad 0 (.base .r10 0x40)),
   .op (.sha256rnds2 9 8),
   .op (.movdqa 14 10),
   .op (.palignr 14 13 0x04),
   .op (.paddd 11 14),
   .op (.sha256msg2 11 10),
   .op (.pshufd 0 0 0x0E),
   .op (.sha256rnds2 8 9),
   .op (.sha256msg1 13 10),
   .op (.movdqa 0 4),
   .op (.padddLoad 0 (.base .r10 0x50)),
   .op (.sha256rnds2 2 1),
   .op (.movdqa 7 4),
   .op (.palignr 7 3 0x04),
   .op (.paddd 5 7),
   .op (.sha256msg2 5 4),
   .op (.pshufd 0 0 0x0E),
   .op (.sha256rnds2 1 2),
   .op (.sha256msg1 3 4),
   .op (.movdqa 0 11),
   .op (.padddLoad 0 (.base .r10 0x50)),
   .op (.sha256rnds2 9 8),
   .op (.movdqa 14 11),
   .op (.palignr 14 10 0x04),
   .op (.paddd 12 14),
   .op (.sha256msg2 12 11),
   .op (.pshufd 0 0 0x0E),
   .op (.sha256rnds2 8 9),
   .op (.sha256msg1 10 11),
   .op (.movdqa 0 5),
   .op (.padddLoad 0 (.base .r10 0x60)),
   .op (.sha256rnds2 2 1),
   .op (.movdqa 7 5),
   .op (.palignr 7 4 0x04),
   .op (.paddd 6 7),
   .op (.sha256msg2 6 5),
   .op (.pshufd 0 0 0x0E),
   .op (.sha256rnds2 1 2),
   .op (.sha256msg1 4 5),
   .op (.movdqa 0 12),
   .op (.padddLoad 0 (.base .r10 0x60)),
   .op (.sha256rnds2 9 8),
   .op (.movdqa 14 12),
   .op (.palignr 14 11 0x04),
   .op (.paddd 13 14),
   .op (.sha256msg2 13 12),
   .op (.pshufd 0 0 0x0E),
   .op (.sha256rnds2 8 9),
   .op (.sha256msg1 11 12),
   .op (.movdqa 0 6),
   .op (.padddLoad 0 (.base .r10 0x70)),
   .op (.sha256rnds2 2 1),
   .op (.movdqa 7 6),
   .op (.palignr 7 5 0x04),
   .op (.paddd 3 7),
   .op (.sha256msg2 3 6),
   .op (.pshufd 0 0 0x0E),
   .op (.sha256rnds2 1 2),
   .op (.sha256msg1 5 6),
   .op (.movdqa 0 13),
   .op (.padddLoad 0 (.base .r10 0x70)),
   .op (.sha256rnds2 9 8),
   .op (.movdqa 14 13),
   .op (.palignr 14 12 0x04),
   .op (.paddd 10 14),
   .op (.sha256msg2 10 13),
   .op (.pshufd 0 0 0x0E),
   .op (.sha256rnds2 8 9),
   .op (.sha256msg1 12 13),
   .op (.movdqa 0 3),
   .op (.padddLoad 0 (.base .r10 0x80)),
   .op (.sha256rnds2 2 1),
   .op (.movdqa 7 3),
   .op (.palignr 7 6 0x04),
   .op (.paddd 4 7),
   .op (.sha256msg2 4 3),
   .op (.pshufd 0 0 0x0E),
   .op (.sha256rnds2 1 2),
   .op (.sha256msg1 6 3),
   .op (.movdqa 0 10),
   .op (.padddLoad 0 (.base .r10 0x80)),
   .op (.sha256rnds2 9 8),
   .op (.movdqa 14 10),
   .op (.palignr 14 13 0x04),
   .op (.paddd 11 14),
   .op (.sha256msg2 11 10),
   .op (.pshufd 0 0 0x0E),
   .op (.sha256rnds2 8 9),
   .op (.sha256msg1 13 10),
   .op (.movdqa 0 4),
   .op (.padddLoad 0 (.base .r10 0x90)),
   .op (.sha256rnds2 2 1),
   .op (.movdqa 7 4),
   .op (.palignr 7 3 0x04),
   .op (.paddd 5 7),
   .op (.sha256msg2 5 4),
   .op (.pshufd 0 0 0x0E),
   .op (.sha256rnds2 1 2),
   .op (.sha256msg1 3 4),
   .op (.movdqa 0 11),
   .op (.padddLoad 0 (.base .r10 0x90)),
   .op (.sha256rnds2 9 8),
   .op (.movdqa 14 11),
   .op (.palignr 14 10 0x04),
   .op (.paddd 12 14),
   .op (.sha256msg2 12 11),
   .op (.pshufd 0 0 0x0E),
   .op (.sha256rnds2 8 9),
   .op (.sha256msg1 10 11),
   .op (.movdqa 0 5),
   .op (.padddLoad 0 (.base .r10 0xA0)),
   .op (.sha256rnds2 2 1),
   .op (.movdqa 7 5),
   .op (.palignr 7 4 0x04),
   .op (.paddd 6 7),
   .op (.sha256msg2 6 5),
   .op (.pshufd 0 0 0x0E),
   .op (.sha256rnds2 1 2),
   .op (.sha256msg1 4 5),
   .op (.movdqa 0 12),
   .op (.padddLoad 0 (.base .r10 0xA0)),
   .op (.sha256rnds2 9 8),
   .op (.movdqa 14 12),
   .op (.palignr 14 11 0x04),
   .op (.paddd 13 14),
   .op (.sha256msg2 13 12),
   .op (.pshufd 0 0 0x0E),
   .op (.sha256rnds2 8 9),
   .op (.sha256msg1 11 12),
   .op (.movdqa 0 6),
   .op (.padddLoad 0 (.base .r10 0xB0)),
   .op (.sha256rnds2 2 1),
   .op (.movdqa 7 6),
   .op (.palignr 7 5 0x04),
   .op (.paddd 3 7),
   .op (.sha256msg2 3 6),
   .op (.pshufd 0 0 0x0E),
   .op (.sha256rnds2 1 2),
   .op (.sha256msg1 5 6),
   .op (.movdqa 0 13),
   .op (.padddLoad 0 (.base .r10 0xB0)),
   .op (.sha256rnds2 9 8),
   .op (.movdqa 14 13),
   .op (.palignr 14 12 0x04),
   .op (.paddd 10 14),
   .op (.sha256msg2 10 13),
   .op (.pshufd 0 0 0x0E),
   .op (.sha256rnds2 8 9),
   .op (.sha256msg1 12 13),
   .op (.movdqa 0 3),
   .op (.padddLoad 0 (.base .r10 0xC0)),
   .op (.sha256rnds2 2 1),
   .op (.movdqa 7 3),
   .op (.palignr 7 6 0x04),
   .op (.paddd 4 7),
   .op (.sha256msg2 4 3),
   .op (.pshufd 0 0 0x0E),
   .op (.sha256rnds2 1 2),
   .op (.sha256msg1 6 3),
   .op (.movdqa 0 10),
   .op (.padddLoad 0 (.base .r10 0xC0)),
   .op (.sha256rnds2 9 8),
   .op (.movdqa 14 10),
   .op (.palignr 14 13 0x04),
   .op (.paddd 11 14),
   .op (.sha256msg2 11 10),
   .op (.pshufd 0 0 0x0E),
   .op (.sha256rnds2 8 9),
   .op (.sha256msg1 13 10),
   .op (.movdqa 0 4),
   .op (.padddLoad 0 (.base .r10 0xD0)),
   .op (.sha256rnds2 2 1),
   .op (.movdqa 7 4),
   .op (.palignr 7 3 0x04),
   .op (.paddd 5 7),
   .op (.sha256msg2 5 4),
   .op (.pshufd 0 0 0x0E),
   .op (.sha256rnds2 1 2),
   .op (.movdqa 0 11),
   .op (.padddLoad 0 (.base .r10 0xD0)),
   .op (.sha256rnds2 9 8),
   .op (.movdqa 14 11),
   .op (.palignr 14 10 0x04),
   .op (.paddd 12 14),
   .op (.sha256msg2 12 11),
   .op (.pshufd 0 0 0x0E),
   .op (.sha256rnds2 8 9),
   .op (.movdqa 0 5),
   .op (.padddLoad 0 (.base .r10 0xE0)),
   .op (.sha256rnds2 2 1),
   .op (.movdqa 7 5),
   .op (.palignr 7 4 0x04),
   .op (.paddd 6 7),
   .op (.sha256msg2 6 5),
   .op (.pshufd 0 0 0x0E),
   .op (.sha256rnds2 1 2),
   .op (.movdqa 0 12),
   .op (.padddLoad 0 (.base .r10 0xE0)),
   .op (.sha256rnds2 9 8),
   .op (.movdqa 14 12),
   .op (.palignr 14 11 0x04),
   .op (.paddd 13 14),
   .op (.sha256msg2 13 12),
   .op (.pshufd 0 0 0x0E),
   .op (.sha256rnds2 8 9),
   .op (.movdqa 0 6),
   .op (.padddLoad 0 (.base .r10 0xF0)),
   .op (.sha256rnds2 2 1),
   .op (.pshufd 0 0 0x0E),
   .op (.sha256rnds2 1 2),
   .op (.movdqa 0 13),
   .op (.padddLoad 0 (.base .r10 0xF0)),
   .op (.sha256rnds2 9 8),
   .op (.pshufd 0 0 0x0E),
   .op (.sha256rnds2 8 9),
   .op (.padddLoad 1 (.base .rsp 0)),
   .op (.padddLoad 2 (.base .rsp 0x10)),
   .op (.padddLoad 8 (.base .rsp 0x20)),
   .op (.padddLoad 9 (.base .rsp 0x30)),
   .op (.addImm .r11 16),
   .op (.cmpImm .r8 0),
   .jz .done,
   .op (.subImm .r13 1),
   .jne .shaloop,
   .op (.mov .r13 .r9),
   .op (.mov .r11 .rdx),
   .jmp .shaloop,
   .label .done,
   .op (.movdqa 3 1),
   .op (.movdqa 4 8),
   .op (.punpckhdq 1 2),
   .op (.punpckhdq 8 9),
   .op (.punpckldq 2 3),
   .op (.punpckldq 9 4),
   .op (.pshufd 1 1 0x72),
   .op (.pshufd 2 2 0x27),
   .op (.pshufd 8 8 0x72),
   .op (.pshufd 9 9 0x27),
   .op (.movdqaLoad 15 (.rip .stateMask)),
   .op (.pand 2 15),
   .op (.pand 9 15),
   .op (.movdquStore (.base .rdi 0) 1),
   .op (.movdquStore (.base .rdi 0x10) 2),
   .op (.movdquStore (.base .rdi 0x20) 8),
   .op (.movdquStore (.base .rdi 0x30) 9),
   .op (.lea .rsp (.base .rbp (-16))),
   .op (.pop .r13),
   .op (.pop .r12),
   .op (.pop .rbp),
   .ret]

/-- `.rodata` -/
def rodata : List Byte :=
  -- `FIRST_STATE`
  leBytes 8 0x510E527F9B05688C ++ leBytes 8 0x6A09E667BB67AE85 ++
  -- `SECOND_STATE`
  leBytes 8 0x1F83D9AB5BE0CD19 ++ leBytes 8 0x3C6EF372A54FF53A ++
  -- `STATE_MASK`
  leBytes 8 0xFFFFFFFFFFFFFFFF ++ leBytes 8 0xFFFFFF3FFFFFFFFF ++
  -- `CONSTANTS`
  [0x98, 0x2F, 0x8A, 0x42, 0x91, 0x44, 0x37, 0x71,
    0xCF, 0xFB, 0xC0, 0xB5, 0xA5, 0xDB, 0xB5, 0xE9,
    0x5B, 0xC2, 0x56, 0x39, 0xF1, 0x11, 0xF1, 0x59,
    0xA4, 0x82, 0x3F, 0x92, 0xD5, 0x5E, 0x1C, 0xAB,
    0x98, 0xAA, 0x07, 0xD8, 0x01, 0x5B, 0x83, 0x12,
    0xBE, 0x85, 0x31, 0x24, 0xC3, 0x7D, 0x0C, 0x55,
    0x74, 0x5D, 0xBE, 0x72, 0xFE, 0xB1, 0xDE, 0x80,
    0xA7, 0x06, 0xDC, 0x9B, 0x74, 0xF1, 0x9B, 0xC1,
    0xC1, 0x69, 0x9B, 0xE4, 0x86, 0x47, 0xBE, 0xEF,
    0xC6, 0x9D, 0xC1, 0x0F, 0xCC, 0xA1, 0x0C, 0x24,
    0x6F, 0x2C, 0xE9, 0x2D, 0xAA, 0x84, 0x74, 0x4A,
    0xDC, 0xA9, 0xB0, 0x5C, 0xDA, 0x88, 0xF9, 0x76,
    0x52, 0x51, 0x3E, 0x98, 0x6D, 0xC6, 0x31, 0xA8,
    0xC8, 0x27, 0x03, 0xB0, 0xC7, 0x7F, 0x59, 0xBF,
    0xF3, 0x0B, 0xE0, 0xC6, 0x47, 0x91, 0xA7, 0xD5,
    0x51, 0x63, 0xCA, 0x06, 0x67, 0x29, 0x29, 0x14,
    0x85, 0x0A, 0xB7, 0x27, 0x38, 0x21, 0x1B, 0x2E,
    0xFC, 0x6D, 0x2C, 0x4D, 0x13, 0x0D, 0x38, 0x53,
    0x54, 0x73, 0x0A, 0x65, 0xBB, 0x0A, 0x6A, 0x76,
    0x2E, 0xC9, 0xC2, 0x81, 0x85, 0x2C, 0x72, 0x92,
    0xA1, 0xE8, 0xBF, 0xA2, 0x4B, 0x66, 0x1A, 0xA8,
    0x70, 0x8B, 0x4B, 0xC2, 0xA3, 0x51, 0x6C, 0xC7,
    0x19, 0xE8, 0x92, 0xD1, 0x24, 0x06, 0x99, 0xD6,
    0x85, 0x35, 0x0E, 0xF4, 0x70, 0xA0, 0x6A, 0x10,
    0x16, 0xC1, 0xA4, 0x19, 0x08, 0x6C, 0x37, 0x1E,
    0x4C, 0x77, 0x48, 0x27, 0xB5, 0xBC, 0xB0, 0x34,
    0xB3, 0x0C, 0x1C, 0x39, 0x4A, 0xAA, 0xD8, 0x4E,
    0x4F, 0xCA, 0x9C, 0x5B, 0xF3, 0x6F, 0x2E, 0x68,
    0xEE, 0x82, 0x8F, 0x74, 0x6F, 0x63, 0xA5, 0x78,
    0x14, 0x78, 0xC8, 0x84, 0x08, 0x02, 0xC7, 0x8C,
    0xFA, 0xFF, 0xBE, 0x90, 0xEB, 0x6C, 0x50, 0xA4,
    0xF7, 0xA3, 0xF9, 0xBE, 0xF2, 0x78, 0x71, 0xC6]

/-- Where the symbols are, when `.rodata` is loaded at address `R`. -/
def symbol (R : Addr) : Symbol → Addr
  | .firstState => R
  | .secondState => R + 16
  | .stateMask => R + 32
  | .constants => R + 48

/-! ### The parts of the listing -/

/-- The vector registers of a lane: two for the state, four for the schedule and one to compute it
with, and the offset of the lane in the data. -/
structure Lane where
  abef : Fin 16
  cdgh : Fin 16
  tmp : Fin 16
  w0 : Fin 16
  w1 : Fin 16
  w2 : Fin 16
  w3 : Fin 16
  offset : ℕ

def lane0 : Lane := ⟨1, 2, 7, 3, 4, 5, 6, 0⟩

def lane1 : Lane := ⟨8, 9, 14, 10, 11, 12, 13, 0x20⟩

namespace Lane

variable (L : Lane)

/-- The register of the words that the rounds `4 * g` to `4 * g + 3` use. -/
def w (g : ℕ) : Fin 16 :=
  match g % 4 with
  | 0 => L.w0
  | 1 => L.w1
  | 2 => L.w2
  | _ => L.w3

/-- Four words with their constants: the first sixteen are loaded. -/
def source (g : ℕ) : List (Op Symbol) :=
  (if g < 4 then
    [.movdquLoad 0 (.base .r12 (BitVec.ofNat 64 (L.offset + 16 * (g % 2)))), .movdqa (L.w g) 0]
  else [.movdqa 0 (L.w g)]) ++ [.padddLoad 0 (.base .r10 (BitVec.ofNat 64 (16 * g)))]

/-- The next four words of the schedule. -/
def extend (g : ℕ) : List (Op Symbol) :=
  if 3 ≤ g ∧ g < 15 then
    [.movdqa L.tmp (L.w g), .palignr L.tmp (L.w (g + 3)) 4, .paddd (L.w (g + 1)) L.tmp,
      .sha256msg2 (L.w (g + 1)) (L.w g)]
  else []

/-- Words of the schedule get the sum with the words after them. -/
def prepare (g : ℕ) : List (Op Symbol) :=
  if 1 ≤ g ∧ g < 13 then [.sha256msg1 (L.w (g + 3)) (L.w g)] else []

/-- The instructions of rounds `4 * g` to `4 * g + 3`. -/
def group (g : ℕ) : List (Op Symbol) :=
  L.source g ++ ([.sha256rnds2 L.cdgh L.abef] ++ (L.extend g ++
    ([.pshufd 0 0 0x0E, .sha256rnds2 L.abef L.cdgh] ++ L.prepare g)))

end Lane

/-- The rounds of both lanes, from `4 * g` on, in `n` groups. -/
def groups (g n : ℕ) : List (Op Symbol) :=
  (List.range' g n).flatMap fun g => lane0.group g ++ lane1.group g

/-- Registers are saved and the stack is aligned. -/
def stackOps : List (Op Symbol) :=
  [.endbr64, .push .rbp, .mov .rbp .rsp, .push .r12, .push .r13, .subImm .rsp 64,
    .andImm .rsp 0xFFFFFFFFFFFFFFF0]

def initialOps : List (Op Symbol) :=
  [.movdqaLoad 1 (.rip .firstState), .movdqaLoad 2 (.rip .secondState), .movdqa 8 1, .movdqa 9 2]

def pointerOps : List (Op Symbol) :=
  [.lea .r10 (.rip .constants), .movImm32 .r13 1, .mov .r11 .rsi, .movLoad .rsi (.base .rsi 0),
    .addImm .rsi 192, .cmpImm .r9 1]

/-- The states are saved. -/
def saveOps : List (Op Symbol) :=
  [.movdqaStore (.base .rsp 0) 1, .movdqaStore (.base .rsp 0x10) 2,
    .movdqaStore (.base .rsp 0x20) 8, .movdqaStore (.base .rsp 0x30) 9]

def firstHalf : List (Op Symbol) := [.movLoad .r12 (.base .r11 0), .add .r12 .rcx]

def secondHalf : List (Op Symbol) :=
  [.movLoad .r12 (.base .r11 0x8), .add .r12 .rcx, .subImm .r8 1, .cmove .r12 .rsi]

/-- The saved states are added. -/
def addOps : List (Op Symbol) :=
  [.padddLoad 1 (.base .rsp 0), .padddLoad 2 (.base .rsp 0x10), .padddLoad 8 (.base .rsp 0x20),
    .padddLoad 9 (.base .rsp 0x30)]

def blockEnd : List (Op Symbol) := [.addImm .r11 16, .cmpImm .r8 0]

/-- The instructions of a block. -/
def blockOps : List (Op Symbol) :=
  saveOps ++ (firstHalf ++ (groups 0 2 ++ (secondHalf ++ (groups 2 14 ++ (addOps ++ blockEnd)))))

/-- The digests get the order of the words. -/
def orderOps : List (Op Symbol) :=
  [.movdqa 3 1, .movdqa 4 8, .punpckhdq 1 2, .punpckhdq 8 9, .punpckldq 2 3, .punpckldq 9 4,
    .pshufd 1 1 0x72, .pshufd 2 2 0x27, .pshufd 8 8 0x72, .pshufd 9 9 0x27]

def maskOps : List (Op Symbol) := [.movdqaLoad 15 (.rip .stateMask), .pand 2 15, .pand 9 15]

def storeOps : List (Op Symbol) :=
  [.movdquStore (.base .rdi 0) 1, .movdquStore (.base .rdi 0x10) 2,
    .movdquStore (.base .rdi 0x20) 8, .movdquStore (.base .rdi 0x30) 9]

def popOps : List (Op Symbol) :=
  [.lea .rsp (.base .rbp (-16)), .pop .r13, .pop .r12, .pop .rbp]

/-- The lines after `done`. -/
def doneLines : List (Line Symbol Label) := (orderOps ++ (maskOps ++ (storeOps ++ popOps))).map .op ++ [.ret]

/-- The lines after `shaloop`. -/
def loopLines : List (Line Symbol Label) :=
  blockOps.map .op ++ (.jz .done :: .op (.subImm .r13 1) :: .jne .shaloop ::
    .op (.mov .r13 .r9) :: .op (.mov .r11 .rdx) :: .jmp .shaloop :: .label .done :: doneLines)

/-- The listing, part by part. -/
lemma program_eq : program = .label .shaExtMbx2 :: ((stackOps ++ (initialOps ++ pointerOps)).map .op ++ (.jz .shaloop ::
    .op (.addImm .rsi 64) :: .label .shaloop :: loopLines)) := by
  decide +kernel

end SupraSeal.ShaExtMbx2
