import SupraSeal.C1.CcTreeNodes
import SupraSeal.Sealing.FieldElement

/-!
# Challenges

`C1::DeriveChallenges` of `c1/c1.hpp`: challenge `j` of a sector is SHA-256 of its replica id, the seed and
`j`, modulo the number of leaves, where the first leaf is left out. The padding is written to the buffer once
for each partition, and then only the two bytes of `j` change.

`mpz_import` takes the lowest word first, and `mpz_mod_ui` is the remainder.
-/

namespace SupraSeal

open Sections Sha256

/-! ### Parameters -/

namespace SectorSize

variable (s : SectorSize)

def numChallenges : ℕ := if s.sectorSize ≤ oneGB then 2 else 180

def numPartitions : ℕ := if s.sectorSize ≤ oneGB then 1 else 10

/-- `challenges_count_`. -/
def challengesCount : ℕ := s.numChallenges / s.numPartitions

lemma numChallenges_le : s.numChallenges ≤ 180 := by
  rw [numChallenges]
  split_ifs <;> decide

lemma challengesCount_mul : s.challengesCount * s.numPartitions = s.numChallenges := by
  rw [challengesCount, numChallenges, numPartitions]
  split_ifs <;> rfl

lemma two_le_numLeaves : 2 ≤ s.numLeaves := by
  cases s <;> decide

end SectorSize

/-! ### `DeriveChallenges` -/

/-- `blst_sha256_block` with more blocks. -/
def Blst.sha256Blocks (blst : Blst) (h : Node) (data : List Byte) (n : ℕ) : Node :=
  (List.range n).foldl (fun h i => blst.sha256Block h ((data.drop (blockSize * i)).take blockSize)) h

/-- The buffer of a partition: the replica id and the seed, and from there on zeros and the padding. -/
def challengeBuf (replicaId seed : Node) : List Byte :=
  let buf := replicaId.bytes ++ seed.bytes ++ List.replicate 64 0
  ((buf.set 68 0x80).set 126 0x02).set 127 0x20

/-- The buffer with challenge number `j`. -/
def setChallenge (buf : List Byte) (j : ℕ) : List Byte :=
  let buf := buf.set 64 (BitVec.ofNat 8 (j &&& 0xFF))
  buf.set 65 (BitVec.ofNat 8 ((j >>> 8) &&& 0xFF))

/-- A challenge, from the hash of the buffer. -/
def challengeOf (blst : Blst) (leaves : ℕ) (buf : List Byte) : ℕ :=
  let hash := sha256InitialDigest
  let hash := blst.sha256Blocks hash buf 2
  let hash := blst.sha256Emit hash
  hash.val % (leaves - 1) + 1

namespace SectorSize

variable (s : SectorSize) (blst : Blst)

/-- The loop over the challenges of partition `k`. -/
def deriveStep (k : ℕ) (st : List Byte × (ℕ → ℕ)) (i : ℕ) : List Byte × (ℕ → ℕ) :=
  let j := s.challengesCount * k + i
  let buf := setChallenge st.1 j
  (buf, Function.update st.2 (i + k * s.challengesCount) (challengeOf blst s.numLeaves buf))

/-- `DeriveChallenges`, with what the array held before. -/
def deriveChallenges (replicaId seed : Node) (challenges : ℕ → ℕ) : ℕ → ℕ :=
  (List.range s.numPartitions).foldl (fun challenges k =>
    ((List.range s.challengesCount).foldl (s.deriveStep blst k)
      (challengeBuf replicaId seed, challenges)).2) challenges

/-! ### What is derived -/

/-- Challenge `j` of a replica. -/
def challenge (replicaId seed : Node) (j : ℕ) : ℕ :=
  (Node.ofState (Sha256.hash (replicaId.bytes ++ seed.bytes ++ u32 j))).reverseL.val %
    (s.numLeaves - 1) + 1

end SectorSize

/-! ### The buffer -/

variable {replicaId seed : Node}

/-- The message that challenge `j` is the hash of. -/
def challengeMessage (replicaId seed : Node) (j : ℕ) : List Byte :=
  replicaId.bytes ++ seed.bytes ++ u32 j

lemma length_ids (replicaId seed : Node) : (replicaId.bytes ++ seed.bytes).length = 64 := by
  rw [List.length_append, replicaId.length_bytes, seed.length_bytes]
  rfl

/-- The padding of 68 bytes. -/
def challengePadding : List Byte := 0x80 :: List.replicate 57 0 ++ [0x02, 0x20]

/-- Between two challenges only the number is in question. -/
def ReadyFor (replicaId seed : Node) (buf : List Byte) : Prop :=
  ∃ a b, buf = replicaId.bytes ++ seed.bytes ++ ([a, b, 0, 0] ++ challengePadding)

lemma challengeBuf_ready (replicaId seed : Node) :
    ReadyFor replicaId seed (challengeBuf replicaId seed) := by
  refine ⟨0, 0, ?_⟩
  have hlen := length_ids replicaId seed
  simp only [challengeBuf, List.set_append_right _ _ (hlen.trans_le (by decide : 64 ≤ 68)),
    List.set_append_right _ _ (hlen.trans_le (by decide : 64 ≤ 126)),
    List.set_append_right _ _ (hlen.trans_le (by decide : 64 ≤ 127)), hlen]
  rfl

lemma pad_challengeMessage (replicaId seed : Node) (j : ℕ) :
    pad (challengeMessage replicaId seed j) =
      replicaId.bytes ++ seed.bytes ++ (u32 j ++ challengePadding) := by
  have hlen : (challengeMessage replicaId seed j).length = 68 := by
    rw [challengeMessage, List.length_append, length_ids, u32, length_leBytes]
  rw [pad, hlen, challengeMessage]
  simp only [List.append_assoc]
  rfl

/-- Setting the number completes the padded message. -/
lemma ReadyFor.setChallenge {buf : List Byte} (h : ReadyFor replicaId seed buf) {j : ℕ}
    (hj : j < 2 ^ 16) : SupraSeal.setChallenge buf j = pad (challengeMessage replicaId seed j) := by
  obtain ⟨a, b, rfl⟩ := h
  have hlen := length_ids replicaId seed
  have hbyte : ∀ x : ℕ, BitVec.ofNat 8 (x &&& 0xFF) = BitVec.ofNat 8 x := by
    intro x
    rw [show 0xFF = 2 ^ 8 - 1 from rfl, Nat.and_two_pow_sub_one_eq_mod]
    exact BitVec.eq_of_toNat_eq (by simp)
  have hhigh : ∀ k, 16 ≤ k → BitVec.ofNat 8 (j >>> k) = 0 := by
    intro k hk
    rw [Nat.shiftRight_eq_div_pow,
      Nat.div_eq_of_lt (hj.trans_le (Nat.pow_le_pow_right Nat.two_pos hk))]
    rfl
  have hnumber : u32 j = [BitVec.ofNat 8 j, BitVec.ofNat 8 (j >>> 8), 0, 0] := by
    simp [u32, leBytes, List.range_succ, hhigh]
  rw [pad_challengeMessage, SupraSeal.setChallenge, hbyte, hbyte, hnumber,
    List.set_append_right _ _ hlen.le, List.set_append_right _ _ (hlen.trans_le (by decide)), hlen]
  rfl

/-- A buffer with a number is ready for the next one. -/
lemma readyFor_pad {j : ℕ} (hj : j < 2 ^ 16) :
    ReadyFor replicaId seed (pad (challengeMessage replicaId seed j)) := by
  have h := (challengeBuf_ready replicaId seed).setChallenge hj
  rw [← h]
  obtain ⟨a, b, hbuf⟩ := challengeBuf_ready replicaId seed
  have hlen := length_ids replicaId seed
  rw [hbuf, SupraSeal.setChallenge, List.set_append_right _ _ hlen.le,
    List.set_append_right _ _ (hlen.trans_le (by decide)), hlen]
  exact ⟨_, _, rfl⟩

/-! ### The hash -/

variable {blst : Blst}

/-- Two blocks are the whole message. -/
lemma sha256Blocks_eq (h : blst.Sha256) (j : ℕ) :
    blst.sha256Blocks sha256InitialDigest (pad (challengeMessage replicaId seed j)) 2 =
      .ofState (Sha256.hash (challengeMessage replicaId seed j)) := by
  have hlen : (pad (challengeMessage replicaId seed j)).length = blockSize * 2 := by
    rw [pad_challengeMessage, List.length_append, length_ids, List.length_append, u32, length_leBytes]
    rfl
  have hblock : ∀ i < 2, (((pad (challengeMessage replicaId seed j)).drop (blockSize * i)).take
      blockSize).length = blockSize := by
    intro i hi
    rw [List.length_take, List.length_drop, hlen, blockSize]
    omega
  have hstate : ∀ s, (Node.ofState s).toState = s := fun _ => rfl
  rw [Blst.sha256Blocks, Sha256.hash, blocks, hlen, Nat.mul_div_cancel_left _ (by decide)]
  simp only [List.range_succ, List.range_zero, List.nil_append, List.foldl_append, List.foldl_cons,
    List.foldl_nil, List.map_append, List.map_cons, List.map_nil]
  rw [h.block _ _ (hblock 0 (by decide)), h.block _ _ (hblock 1 (by decide)), hstate,
    sha256InitialDigest, hstate]

namespace SectorSize

variable {s : SectorSize}

lemma challengeOf_eq (h : blst.Sha256) (j : ℕ) :
    challengeOf blst s.numLeaves (pad (challengeMessage replicaId seed j)) =
      s.challenge replicaId seed j := by
  rw [challengeOf]
  simp only [sha256Blocks_eq h, h.emit]
  rfl

/-- What a partition derives: its own challenges, and the others stay. -/
lemma deriveStep_foldl (h : blst.Sha256) {k : ℕ} {buf : List Byte} (hbuf : ReadyFor replicaId seed buf)
    (challenges : ℕ → ℕ) {n : ℕ} (hn : s.challengesCount * k + n ≤ 2 ^ 16) :
    ReadyFor replicaId seed
        ((List.range n).foldl (s.deriveStep blst k) (buf, challenges)).1 ∧
      ∀ j, ((List.range n).foldl (s.deriveStep blst k) (buf, challenges)).2 j =
        if s.challengesCount * k ≤ j ∧ j < s.challengesCount * k + n then
          s.challenge replicaId seed j
        else challenges j := by
  induction n with
  | zero =>
    refine ⟨hbuf, fun j => ?_⟩
    rw [if_neg (by omega)]
    rfl
  | succ n ih =>
    obtain ⟨hready, hvalues⟩ := ih (by omega)
    have hj : s.challengesCount * k + n < 2 ^ 16 := hn
    rw [List.range_succ, List.foldl_append, List.foldl_cons, List.foldl_nil, deriveStep,
      hready.setChallenge hj, challengeOf_eq h]
    refine ⟨readyFor_pad hj, fun j => ?_⟩
    rw [Nat.add_comm n, Nat.mul_comm k]
    change Function.update _ _ _ j = _
    by_cases heq : j = s.challengesCount * k + n
    · subst heq
      rw [Function.update_self, if_pos (by omega)]
    · rw [Function.update_of_ne heq, hvalues]
      exact if_congr (by omega) rfl rfl

lemma deriveChallenges_foldl (h : blst.Sha256) (challenges : ℕ → ℕ) {n : ℕ}
    (hn : s.challengesCount * n ≤ 2 ^ 16) (j : ℕ) :
    (List.range n).foldl (fun challenges k => ((List.range s.challengesCount).foldl
        (s.deriveStep blst k) (challengeBuf replicaId seed, challenges)).2) challenges j =
      if j < s.challengesCount * n then s.challenge replicaId seed j else challenges j := by
  induction n with
  | zero => simp
  | succ n ih =>
    rw [Nat.mul_succ] at hn
    rw [List.range_succ, List.foldl_append, List.foldl_cons, List.foldl_nil,
      (deriveStep_foldl h (challengeBuf_ready replicaId seed) _ hn).2, ih (by omega), Nat.mul_succ]
    split_ifs <;> first | rfl | omega

variable (s) in
lemma deriveChallenges_apply (h : blst.Sha256) (replicaId seed : Node) (challenges : ℕ → ℕ) {j : ℕ}
    (hj : j < s.numChallenges) :
    s.deriveChallenges blst replicaId seed challenges j = s.challenge replicaId seed j := by
  rw [deriveChallenges, deriveChallenges_foldl h, s.challengesCount_mul, if_pos hj]
  rw [s.challengesCount_mul]
  exact s.numChallenges_le.trans (by decide)

lemma challenge_lt (s : SectorSize) (replicaId seed : Node) (j : ℕ) :
    s.challenge replicaId seed j < s.numLeaves := by
  have htwo := s.two_le_numLeaves
  have hmod := Nat.mod_lt
    (Node.ofState (Sha256.hash (replicaId.bytes ++ seed.bytes ++ u32 j))).reverseL.val
    (show 0 < s.numLeaves - 1 by omega)
  rw [challenge]
  omega

end SectorSize

end SupraSeal
