import SupraSeal.Lib.Sections

/-!
# SHA-256

A message is padded: it is followed by a one bit, by zeros up to the last eight bytes of a block of
64, and by its length in bits. The blocks are then compressed into a state of eight words. Words are
big-endian.
-/

namespace Sha256

open Sections

/-- Big-endian bytes of a number. -/
def beBytes (n x : ℕ) : List Byte := (leBytes n x).reverse

@[simp] lemma length_beBytes (n x : ℕ) : (beBytes n x).length = n := by simp [beBytes]

/-- A number whose upper bytes are zero. -/
lemma beBytes_add {m n x : ℕ} (hx : x < 2 ^ (8 * n)) :
    beBytes (m + n) x = List.replicate m 0 ++ beBytes n x := by
  have hzero : (List.range m).map (fun i => BitVec.ofNat 8 (x >>> (8 * (n + i)))) =
      List.replicate m 0 := by
    rw [List.eq_replicate_iff]
    refine ⟨by simp, ?_⟩
    intro b hb
    obtain ⟨i, -, rfl⟩ := List.mem_map.mp hb
    have hshift : x >>> (8 * (n + i)) = 0 := by
      rw [Nat.shiftRight_eq_div_pow]
      exact Nat.div_eq_of_lt (hx.trans_le (Nat.pow_le_pow_right (by decide) (by omega)))
    rw [hshift]
    rfl
  rw [beBytes, beBytes, leBytes, Nat.add_comm m n, List.range_add, List.map_append, List.map_map,
    List.reverse_append]
  simp only [Function.comp_def, hzero, List.reverse_replicate]
  rfl

/-! ### Padding -/

def blockSize : ℕ := 64

/-- A message with its padding. -/
def pad (msg : List Byte) : List Byte :=
  msg ++ 0x80 :: List.replicate ((119 - msg.length % blockSize) % blockSize) 0 ++
    beBytes 8 (8 * msg.length)

/-- The padding fills whole blocks. -/
lemma blockSize_dvd_length_pad (msg : List Byte) : blockSize ∣ (pad msg).length := by
  have hlt : msg.length % 64 < 64 := Nat.mod_lt _ (by decide)
  simp only [pad, blockSize, List.length_append, List.length_cons, List.length_replicate,
    length_beBytes]
  omega

/-! ### Compression -/

abbrev Word : Type := BitVec 32

structure State where
  a : Word
  b : Word
  c : Word
  d : Word
  e : Word
  f : Word
  g : Word
  h : Word
  deriving DecidableEq

/-- The state before the first block. -/
def State.initial : State :=
  ⟨0x6a09e667, 0xbb67ae85, 0x3c6ef372, 0xa54ff53a, 0x510e527f, 0x9b05688c, 0x1f83d9ab, 0x5be0cd19⟩

def State.add (s t : State) : State :=
  ⟨s.a + t.a, s.b + t.b, s.c + t.c, s.d + t.d, s.e + t.e, s.f + t.f, s.g + t.g, s.h + t.h⟩

def roundConstants : List Word :=
  [0x428a2f98, 0x71374491, 0xb5c0fbcf, 0xe9b5dba5, 0x3956c25b, 0x59f111f1, 0x923f82a4, 0xab1c5ed5,
   0xd807aa98, 0x12835b01, 0x243185be, 0x550c7dc3, 0x72be5d74, 0x80deb1fe, 0x9bdc06a7, 0xc19bf174,
   0xe49b69c1, 0xefbe4786, 0x0fc19dc6, 0x240ca1cc, 0x2de92c6f, 0x4a7484aa, 0x5cb0a9dc, 0x76f988da,
   0x983e5152, 0xa831c66d, 0xb00327c8, 0xbf597fc7, 0xc6e00bf3, 0xd5a79147, 0x06ca6351, 0x14292967,
   0x27b70a85, 0x2e1b2138, 0x4d2c6dfc, 0x53380d13, 0x650a7354, 0x766a0abb, 0x81c2c92e, 0x92722c85,
   0xa2bfe8a1, 0xa81a664b, 0xc24b8b70, 0xc76c51a3, 0xd192e819, 0xd6990624, 0xf40e3585, 0x106aa070,
   0x19a4c116, 0x1e376c08, 0x2748774c, 0x34b0bcb5, 0x391c0cb3, 0x4ed8aa4a, 0x5b9cca4f, 0x682e6ff3,
   0x748f82ee, 0x78a5636f, 0x84c87814, 0x8cc70208, 0x90befffa, 0xa4506ceb, 0xbef9a3f7, 0xc67178f2]

def smallSigma0 (x : Word) : Word := x.rotateRight 7 ^^^ x.rotateRight 18 ^^^ x >>> 3

def smallSigma1 (x : Word) : Word := x.rotateRight 17 ^^^ x.rotateRight 19 ^^^ x >>> 10

def bigSigma0 (x : Word) : Word := x.rotateRight 2 ^^^ x.rotateRight 13 ^^^ x.rotateRight 22

def bigSigma1 (x : Word) : Word := x.rotateRight 6 ^^^ x.rotateRight 11 ^^^ x.rotateRight 25

def choose (x y z : Word) : Word := (x &&& y) ^^^ (~~~x &&& z)

def majority (x y z : Word) : Word := (x &&& y) ^^^ (x &&& z) ^^^ (y &&& z)

/-- A round with constant `k` and word `w` of the schedule. -/
def round (s : State) (k w : Word) : State :=
  let t1 := s.h + bigSigma1 s.e + choose s.e s.f s.g + k + w
  let t2 := bigSigma0 s.a + majority s.a s.b s.c
  ⟨t1 + t2, s.a, s.b, s.c, s.d + t1, s.e, s.f, s.g⟩

/-- The rounds of the constants that are left; `w` is the window of the next sixteen words of the
schedule. -/
def rounds : (constants w : List Word) → State → State
  | [], _, s => s
  | k :: ks, w, s =>
    let next := smallSigma1 (w.getD 14 0) + w.getD 9 0 + smallSigma0 (w.getD 1 0) + w.getD 0 0
    rounds ks (w.tail ++ [next]) (round s k (w.getD 0 0))

/-- The word of four bytes. -/
def wordOfBytes (bytes : List Byte) : Word :=
  bytes.foldl (fun w b => w <<< 8 ||| b.setWidth 32) 0

def blockWords (block : List Byte) : List Word :=
  (List.range 16).map fun i => wordOfBytes ((block.drop (4 * i)).take 4)

def compress (s : State) (block : List Byte) : State :=
  s.add (rounds roundConstants (blockWords block) s)

/-! ### The hash -/

/-- The whole blocks of a message. -/
def blocks (msg : List Byte) : List (List Byte) :=
  (List.range (msg.length / blockSize)).map fun i => (msg.drop (blockSize * i)).take blockSize

/-- The state after all blocks of the padded message; its words are the digest. -/
def hash (msg : List Byte) : State := (blocks (pad msg)).foldl compress .initial

/-- The digest of "abc". -/
example : hash [0x61, 0x62, 0x63] = ⟨0xba7816bf, 0x8f01cfea, 0x414140de, 0x5dae2223, 0xb00361a3,
    0x96177a9c, 0xb410ff61, 0xf20015ad⟩ := by decide +kernel

/-- The padding of a message of one block is a block of its own. -/
lemma pad_block {msg : List Byte} (h : msg.length = blockSize) :
    pad msg = msg ++ 0x80 :: (List.replicate 55 0 ++ beBytes 8 512) := by
  rw [pad, h, List.append_assoc, List.cons_append]
  rfl

lemma hash_block {msg : List Byte} (h : msg.length = blockSize) :
    hash msg = compress (compress .initial msg) (0x80 :: (List.replicate 55 0 ++ beBytes 8 512)) := by
  have hlen : (0x80 :: (List.replicate 55 0 ++ beBytes 8 512) : List Byte).length = blockSize := rfl
  have hpad : (pad msg).length / blockSize = 2 := by
    rw [pad_block h, List.length_append, h, hlen]
    rfl
  rw [hash, blocks, hpad, pad_block h]
  simp only [List.range_succ, List.range_zero, List.nil_append, List.map_append, List.map_cons,
    List.map_nil, List.foldl_append, List.foldl_cons, List.foldl_nil]
  rw [Nat.mul_zero, List.drop_zero, Nat.mul_one, List.take_left' h, List.drop_left' h,
    List.take_of_length_le hlen.le]

end Sha256
