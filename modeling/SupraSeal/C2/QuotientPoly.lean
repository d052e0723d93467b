import SupraSeal.Lib.CosetTransform
import SupraSeal.Lib.GridStride
import SupraSeal.Lib.Streams

/-!
# The quotient polynomial

`execute_ntt_msm_h` of `c2/cuda/groth16_ntt_h.cu` computes the coefficients of `(A * B - C) / (X ^ N - 1)`
on three streams. The arrays `a`, `b` and `c` are transferred, padded with zeros and taken from values
at the roots of unity to values on a coset; there the quotient is taken value by value. With little
memory `c` takes the place of `b`.

Commands run on the device as `Streams` describes. `NTT_internal` is not part of the repository: an
`Ntt` is any function with its documented results. Freeing the memory of `b` and `c`, for which the host
waits, is left out.
-/

namespace SupraSeal.NttMsmH

open Polynomial Coset Streams

/-! ### Sizes -/

/-- `lg2`: the rounds of `while (n >>= 1)`. -/
def lg2 (n : ℕ) : ℕ := if h : n / 2 = 0 then 0 else lg2 (n / 2) + 1
termination_by n

/-- `lg_domain_size`. -/
def lgDomainSize (npoints : ℕ) : ℕ := lg2 (npoints - 1) + 1

/-- `calculate_z_inv`: the generator is squared in every round. -/
def calculateZInv {F : Type*} [Field F] (groupGen : F) (lg : ℕ) : F :=
  ((fun x => x ^ 2)^[lg] groupGen - 1)⁻¹

lemma lt_two_pow_lg2 (n : ℕ) : n < 2 ^ (lg2 n + 1) := by
  induction n using lg2.induct with
  | case1 n h =>
    rw [lg2, dif_pos h]
    omega
  | case2 n h ih =>
    rw [lg2, dif_neg h, pow_succ]
    omega

/-- The domain has room for the points. -/
theorem le_domainSize (npoints : ℕ) : npoints ≤ 2 ^ lgDomainSize npoints := by
  have := lt_two_pow_lg2 (npoints - 1)
  rw [lgDomainSize]
  omega

lemma calculateZInv_eq {F : Type*} [Field F] (g : F) (lg : ℕ) :
    calculateZInv g lg = (g ^ 2 ^ lg - 1)⁻¹ := by
  have hpow : ∀ lg, (fun x : F => x ^ 2)^[lg] g = g ^ 2 ^ lg := by
    intro lg
    induction lg with
    | zero => rw [Function.iterate_zero_apply, pow_zero, pow_one]
    | succ lg ih => rw [Function.iterate_succ_apply', ih, ← pow_mul, pow_succ]
  rw [calculateZInv, hpow]

/-! ### Transforms -/

inductive InputOutputOrder
  | NN | NR | RN | RR

inductive Direction
  | forward | inverse

inductive NttType
  | standard | coset

/-- An index with its bits in reverse order. -/
def bitRev (lg i : ℕ) : ℕ := (BitVec.ofNat lg i).reverse.toNat

lemma bitRev_lt (lg i : ℕ) : bitRev lg i < 2 ^ lg := (BitVec.ofNat lg i).reverse.isLt

lemma bitRev_bitRev {lg i : ℕ} (hi : i < 2 ^ lg) : bitRev lg (bitRev lg i) = i := by
  rw [bitRev, bitRev, BitVec.ofNat_toNat, BitVec.setWidth_eq, BitVec.reverse_reverse_eq,
    BitVec.toNat_ofNat, Nat.mod_eq_of_lt hi]

namespace InputOutputOrder

/-- Where element `i` of the input is. -/
def input (lg : ℕ) : InputOutputOrder → ℕ → ℕ
  | NN, i | NR, i => i
  | RN, i | RR, i => bitRev lg i

/-- Where element `i` of the output is. -/
def output (lg : ℕ) : InputOutputOrder → ℕ → ℕ
  | NN, i | RN, i => i
  | NR, i | RR, i => bitRev lg i

lemma output_output {lg i : ℕ} {o : InputOutputOrder} (hi : i < 2 ^ lg) :
    o.output lg (o.output lg i) = i := by
  cases o with
  | NN => rfl
  | RN => rfl
  | NR => exact bitRev_bitRev hi
  | RR => exact bitRev_bitRev hi

end InputOutputOrder

/-- `NTT_internal` for a domain of `2 ^ lg` elements: the transforms over the roots of unity and over
the coset of `group_gen`, with input and output in natural or in bit-reversed order. -/
structure Ntt (F : Type*) [Field F] (lg : ℕ) where
  root : F
  root_primitive : IsPrimitiveRoot root (2 ^ lg)
  groupGen : F
  groupGen_ne_zero : groupGen ≠ 0
  run : InputOutputOrder → Direction → NttType → (ℕ → F) → ℕ → F
  forward_standard : ∀ o x, ∀ i < 2 ^ lg, run o .forward .standard x (o.output lg i) =
    forward 1 root (2 ^ lg) (fun j => x (o.input lg j)) i
  forward_coset : ∀ o x, ∀ i < 2 ^ lg, run o .forward .coset x (o.output lg i) =
    forward groupGen root (2 ^ lg) (fun j => x (o.input lg j)) i
  inverse_standard : ∀ o x, ∀ i < 2 ^ lg, run o .inverse .standard x (o.output lg i) =
    inverse 1 root (2 ^ lg) (fun j => x (o.input lg j)) i
  inverse_coset : ∀ o x, ∀ i < 2 ^ lg, run o .inverse .coset x (o.output lg i) =
    inverse groupGen root (2 ^ lg) (fun j => x (o.input lg j)) i

/-! ### Memory -/

/-- The allocations: `d_a`, and that of `d_b`, in which `d_c` lies too. -/
inductive Block
  | dA | dB
  deriving DecidableEq

abbrev Addr := Block × ℕ

/-- The pointers `d_a`, `d_b` and `d_c`. -/
inductive Buffer
  | dA | dB | dC
  deriving DecidableEq

namespace Buffer

variable (lg : ℕ) (lot : Bool)

def block : Buffer → Block
  | dA => .dA
  | dB | dC => .dB

/-- `d_c = &d_b[domain_size * lot_of_memory]`. -/
def offset : Buffer → ℕ
  | dA | dB => 0
  | dC => 2 ^ lg * lot.toNat

/-- Address of element `i`. -/
def addr (p : Buffer) (i : ℕ) : Addr := (p.block, p.offset lg lot + i)

/-- The element at an address. -/
def index (p : Buffer) (l : Addr) : Option ℕ :=
  if l.1 = p.block ∧ p.offset lg lot ≤ l.2 ∧ l.2 < p.offset lg lot + 2 ^ lg then
    some (l.2 - p.offset lg lot)
  else none

/-- The buffer that a pointer stands for: with little memory `d_c` is `d_b`. -/
def region : Buffer → Buffer
  | dA => dA
  | dB => dB
  | dC => if lot then dC else dB

/-- The buffer in which an address lies. -/
def regionOf : Addr → Buffer
  | (.dA, _) => dA
  | (.dB, i) => if lot ∧ 2 ^ lg ≤ i then dC else dB

variable {lg lot} {p : Buffer} {l : Addr} {i : ℕ}

lemma index_eq_some : p.index lg lot l = some i ↔ i < 2 ^ lg ∧ l = p.addr lg lot i := by
  obtain ⟨blk, k⟩ := l
  rw [index, addr, Prod.mk.injEq]
  constructor
  · intro h
    split_ifs at h with hk
    cases h
    obtain ⟨h1, h2, h3⟩ := hk
    simp only at h1 h2 h3 ⊢
    exact ⟨by omega, h1, by omega⟩
  · rintro ⟨hi, rfl, rfl⟩
    rw [if_pos ⟨rfl, Nat.le_add_right _ _, Nat.add_lt_add_left hi _⟩, Nat.add_sub_cancel_left]

lemma index_addr (hi : i < 2 ^ lg) : p.index lg lot (p.addr lg lot i) = some i :=
  index_eq_some.mpr ⟨hi, rfl⟩

lemma addr_injective : Function.Injective (p.addr lg lot) := by
  intro i j h
  exact Nat.add_left_cancel (Prod.mk.inj h).2

lemma regionOf_addr (hi : i < 2 ^ lg) :
    regionOf lg lot (p.addr lg lot i) = p.region lot := by
  cases p with
  | dA => rfl
  | dB =>
    have hlt : ¬(lot = true ∧ 2 ^ lg ≤ 0 + i) := by
      rintro ⟨-, hle⟩
      omega
    simp only [addr, block, offset, regionOf, region, if_neg hlt]
  | dC =>
    cases lot with
    | false => rfl
    | true => simp [addr, block, offset, regionOf, region]

lemma regionOf_of_index (h : p.index lg lot l = some i) : regionOf lg lot l = p.region lot := by
  obtain ⟨hi, rfl⟩ := index_eq_some.mp h
  exact regionOf_addr hi

end Buffer

section Memory

variable {F : Type*} (lg : ℕ) (lot : Bool)

/-- The memory with other elements in a buffer. -/
def store (m : Addr → F) (p : Buffer) (x : ℕ → F) (l : Addr) : F :=
  match p.index lg lot l with
  | some i => x i
  | none => m l

variable {lg lot} {m m' : Addr → F} {p q : Buffer} {x : ℕ → F} {i : ℕ} {l : Addr}

lemma store_addr (hi : i < 2 ^ lg) : store lg lot m p x (p.addr lg lot i) = x i := by
  rw [store, Buffer.index_addr hi]

lemma store_frame (h : Buffer.regionOf lg lot l ≠ p.region lot) :
    store lg lot m p x l = m l := by
  rw [store]
  cases hl : p.index lg lot l with
  | none => rfl
  | some i => exact absurd (Buffer.regionOf_of_index hl) h

lemma store_congr {y : ℕ → F} (h : ∀ i < 2 ^ lg, x i = y i) (hm : m l = m' l) :
    store lg lot m p x l = store lg lot m' p y l := by
  rw [store, store]
  cases hl : p.index lg lot l with
  | none => exact hm
  | some i => exact h i (Buffer.index_eq_some.mp hl).1

variable [Field F] (lg lot)

/-- The elements of a buffer. -/
def load (m : Addr → F) (p : Buffer) (i : ℕ) : F := if i < 2 ^ lg then m (p.addr lg lot i) else 0

variable {lg lot}

lemma load_eq (hi : i < 2 ^ lg) : load lg lot m p i = m (p.addr lg lot i) := if_pos hi

lemma load_congr (h : ∀ l, Buffer.regionOf lg lot l = p.region lot → m l = m' l) :
    load lg lot m p = load lg lot m' p := by
  funext i
  rw [load, load]
  split_ifs with hi
  · exact h _ (Buffer.regionOf_addr hi)
  · rfl

lemma load_store (hi : i < 2 ^ lg) : load lg lot (store lg lot m p x) p i = x i := by
  rw [load_eq hi, store_addr hi]

lemma load_store_of_ne (h : q.region lot ≠ p.region lot) :
    load lg lot (store lg lot m p x) q = load lg lot m q := by
  funext i
  rw [load, load]
  split_ifs with hi
  · exact store_frame (by rwa [Buffer.regionOf_addr hi])
  · rfl

end Memory

variable {F : Type*} [Field F]

/-! ### Commands -/

/-- A device with `sm_count` multiprocessors, on each of which a kernel has 1024 threads. -/
structure Gpu where
  smCount : ℕ
  pos : 0 < smCount
  lt : 1024 * smCount < 2 ^ 32

/-- The elements that the threads of a kernel take, thread by thread; their numbers have 32 bits. -/
def Gpu.kernelIndices (gpu : Gpu) (limit : ℕ) : List ℕ :=
  (GridStride.threads 1024 gpu.smCount).flatMap fun idx0 =>
    GridStride.indices (1024 * gpu.smCount % 2 ^ 32) limit (idx0 % 2 ^ 32)

lemma Gpu.kernelIndices_perm (gpu : Gpu) (limit : ℕ) :
    (gpu.kernelIndices limit).Perm (List.range limit) := by
  have hpos := gpu.pos
  have hthreads : gpu.kernelIndices limit = (List.range (1024 * gpu.smCount)).flatMap
      (GridStride.indices (1024 * gpu.smCount) limit) := by
    rw [kernelIndices, GridStride.threads_eq, Nat.mod_eq_of_lt gpu.lt]
    refine List.flatMap_congr fun t ht => ?_
    rw [Nat.mod_eq_of_lt ((List.mem_range.mp ht).trans gpu.lt)]
  rw [hthreads]
  exact GridStride.flatMap_indices_perm (by omega)

/-- What `execute_ntt_msm_h` launches on a domain of `2 ^ lg` elements. A transfer asserts that it
fits; a kernel has its output and its input in different allocations. -/
inductive Command (F : Type*) (lg : ℕ)
  | htod (dst : Buffer) (src : ℕ → F) (size : ℕ) (h : size ≤ 2 ^ lg)
  | memset (dst : Buffer) (start count : ℕ)
  | ntt (inout : Buffer) (order : InputOutputOrder) (direction : Direction) (type : NttType)
  | coeffWiseMult (p q : Buffer) (h : p.block ≠ q.block)
  | subMultWithConstant (p q : Buffer) (z : F) (h : p.block ≠ q.block)

namespace Command

variable {lg : ℕ} (T : Ntt F lg) (gpu : Gpu) (lot : Bool)

/-- Buffers that a command uses. One that it writes may keep some of its elements, so it is also read. -/
def footprint : Command F lg → Footprint Buffer
  | htod p _ _ _ | memset p _ _ | ntt p _ _ _ => ⟨[p.region lot], [p.region lot]⟩
  | coeffWiseMult p q _ | subMultWithConstant p q _ _ =>
    ⟨[p.region lot, q.region lot], [p.region lot]⟩

/-- The memory after a command. -/
def run (c : Command F lg) (m : Addr → F) : Addr → F :=
  match c with
  | htod p src size _ =>
    store lg lot m p fun i => if i < size then src i else load lg lot m p i
  | memset p start count =>
    store lg lot m p fun i => if start ≤ i ∧ i < start + count then 0 else load lg lot m p i
  | ntt p order direction type => store lg lot m p (T.run order direction type (load lg lot m p))
  | coeffWiseMult p q _ => store lg lot m p fun i => load lg lot m p i * load lg lot m q i
  | subMultWithConstant p q z _ =>
    store lg lot m p fun i => (load lg lot m p i - load lg lot m q i) * z

/-- One round of the loop of `coeff_wise_mult`. -/
def multRound (lg : ℕ) (p q : Buffer) : (Addr → F) → ℕ → Addr → F :=
  GridStride.round (p.addr lg lot) fun i m => m (p.addr lg lot i) * m (q.addr lg lot i)

/-- One round of the loop of `sub_mult_with_constant`. -/
def subRound (lg : ℕ) (p q : Buffer) (z : F) : (Addr → F) → ℕ → Addr → F :=
  GridStride.round (p.addr lg lot) fun i m => (m (p.addr lg lot i) - m (q.addr lg lot i)) * z

/-- The memory after a command, when the threads of a kernel take the elements in the order `x`. -/
def exec (c : Command F lg) (x : List ℕ) (m : Addr → F) : Option (Addr → F) :=
  match c with
  | coeffWiseMult p q _ =>
    if x.Perm (gpu.kernelIndices (2 ^ lg)) then some (x.foldl (multRound lot lg p q) m) else none
  | subMultWithConstant p q z _ =>
    if x.Perm (gpu.kernelIndices (2 ^ lg)) then some (x.foldl (subRound lot lg p q z) m) else none
  | c => some (c.run T lot m)

variable {T gpu lot} {x : List ℕ} {p q : Buffer} {m m' : Addr → F} {l : Addr}

/-- A loop whose rounds read their own element of two arrays in different allocations leaves what
its rounds compute from the memory before it, in every order. -/
lemma foldl_round_eq (hx : x.Perm (gpu.kernelIndices (2 ^ lg))) (h : p.block ≠ q.block)
    (f : F → F → F) :
    x.foldl (GridStride.round (p.addr lg lot)
      fun i m => f (m (p.addr lg lot i)) (m (q.addr lg lot i))) m l =
    store lg lot m p (fun i => f (load lg lot m p i) (load lg lot m q i)) l := by
  have hperm := hx.trans (gpu.kernelIndices_perm _)
  rw [store]
  cases hl : p.index lg lot l with
  | none =>
    refine GridStride.foldl_round_of_ne (fun i hi heq => ?_) m
    rw [Buffer.index_eq_some.mpr ⟨List.mem_range.mp (hperm.mem_iff.mp hi), heq.symm⟩] at hl
    cases hl
  | some i =>
    obtain ⟨hi, rfl⟩ := Buffer.index_eq_some.mp hl
    show _ = f (load lg lot m p i) (load lg lot m q i)
    rw [load_eq hi, load_eq hi]
    refine GridStride.foldl_round (hperm.nodup_iff.mpr List.nodup_range) Buffer.addr_injective ?_ m
      (hperm.mem_iff.mpr (List.mem_range.mpr hi))
    intro j m m' hm
    rw [hm _ fun k hk heq => hk (Buffer.addr_injective heq),
      hm (q.addr lg lot j) fun k hk heq => h (Prod.mk.inj heq).1]

lemma exec_eq {c : Command F lg} (h : c.exec T gpu lot x m = some m') (l : Addr) :
    m' l = c.run T lot m l := by
  cases c with
  | coeffWiseMult p q hpq =>
    simp only [exec] at h
    split_ifs at h with hx
    cases h
    exact foldl_round_eq hx hpq (· * ·)
  | subMultWithConstant p q z hpq =>
    simp only [exec] at h
    split_ifs at h with hx
    cases h
    exact foldl_round_eq hx hpq fun a c => (a - c) * z
  | _ =>
    cases h
    rfl

lemma exec_isSome (c : Command F lg) (m : Addr → F) : ∃ x, (c.exec T gpu lot x m).isSome = true := by
  refine ⟨gpu.kernelIndices (2 ^ lg), ?_⟩
  cases c <;> simp [exec]

lemma run_frame {c : Command F lg} (h : Buffer.regionOf lg lot l ∉ (c.footprint lot).writes) :
    c.run T lot m l = m l := by
  cases c <;> exact store_frame fun heq => h (by rw [heq]; exact List.mem_singleton_self _)

lemma run_congr {c : Command F lg}
    (h : ∀ l, Buffer.regionOf lg lot l ∈ (c.footprint lot).reads → m l = m' l) (l : Addr)
    (hl : Buffer.regionOf lg lot l ∈ (c.footprint lot).writes) :
    c.run T lot m l = c.run T lot m' l := by
  have hload : ∀ p : Buffer, p.region lot ∈ (c.footprint lot).reads →
      load lg lot m p = load lg lot m' p := fun p hp => load_congr fun l hl => h l (hl ▸ hp)
  have hwrite : m l = m' l := h l (by
    cases c <;> exact List.mem_cons.mpr (.inl (List.mem_singleton.mp hl)))
  cases c with
  | htod p src size hs =>
    exact store_congr (fun i _ => by rw [hload p (List.mem_cons_self ..)]) hwrite
  | memset p start count =>
    exact store_congr (fun i _ => by rw [hload p (List.mem_cons_self ..)]) hwrite
  | ntt p order direction type =>
    exact store_congr (fun i _ => by rw [hload p (List.mem_cons_self ..)]) hwrite
  | coeffWiseMult p q hpq =>
    refine store_congr (fun i _ => ?_) hwrite
    rw [hload p (List.mem_cons_self ..), hload q (List.mem_cons_of_mem _ (List.mem_cons_self ..))]
  | subMultWithConstant p q z hpq =>
    refine store_congr (fun i _ => ?_) hwrite
    rw [hload p (List.mem_cons_self ..), hload q (List.mem_cons_of_mem _ (List.mem_cons_self ..))]

end Command

/-- The device with its memory. -/
def device {lg : ℕ} (T : Ntt F lg) (gpu : Gpu) (lot : Bool) :
    Device (Command F lg) Addr F Buffer (List ℕ) where
  region := Buffer.regionOf lg lot
  footprint := Command.footprint lot
  exec := Command.exec T gpu lot
  run := Command.run T lot
  exec_isSome := Command.exec_isSome
  exec_eq h l _ := Command.exec_eq h l
  run_congr := Command.run_congr
  run_frame := Command.run_frame

/-! ### The host -/

/-- `Assignment`: the arrays on the host and their common size. -/
structure Assignment (F : Type*) where
  a : ℕ → F
  b : ℕ → F
  c : ℕ → F
  abcSize : ℕ

section Host

variable {lg : ℕ}

/-- `execute_ntts_single`, which asserts that the array fits into the domain. -/
def executeNttsSingle (inout : Buffer) (src : ℕ → F) (actualSize : ℕ) (h : actualSize ≤ 2 ^ lg)
    (stream : ℕ) : List (Call (Command F lg)) :=
  .launch stream (.htod inout src actualSize h) ::
    (if actualSize < 2 ^ lg then
      [.launch stream (.memset inout actualSize (2 ^ lg - actualSize))] else []) ++
    [.launch stream (.ntt inout .NR .inverse .standard),
      .launch stream (.ntt inout .RN .forward .coset)]

/-- `execute_ntt_msm_h` up to the multiplication by the points. The one event object is recorded
twice. -/
def executeNttMsmH (groupGen : F) (lot : Bool) (input : Assignment F)
    (h : input.abcSize ≤ 2 ^ lg) : List (Call (Command F lg)) :=
  executeNttsSingle .dA input.a input.abcSize h 0 ++
  .record 0 0 ::
  executeNttsSingle .dB input.b input.abcSize h 1 ++
  .wait 0 1 ::
  .launch 1 (.coeffWiseMult .dA .dB (by decide)) ::
  .record 0 1 ::
  executeNttsSingle .dC input.c input.abcSize h (1 + lot.toNat) ++
  [.wait 0 (1 + lot.toNat),
    .launch (1 + lot.toNat)
      (.subMultWithConstant .dA .dC (calculateZInv groupGen lg) (by decide)),
    .launch (1 + lot.toNat) (.ntt .dA .NN .inverse .coset),
    .sync (1 + lot.toNat)]

/-! ### Order -/

/-- The calls of `execute_ntts_single` by their buffers, with or without the padding. -/
def singleSchedule (r : Buffer) (pad : Bool) (stream : ℕ) : List (Call (Footprint Buffer)) :=
  List.replicate (if pad then 4 else 3) (.launch stream ⟨[r], [r]⟩)

/-- The calls of `execute_ntt_msm_h` by their buffers. -/
def msmHSchedule (lot pad : Bool) : List (Call (Footprint Buffer)) :=
  let c := Buffer.dC.region lot
  singleSchedule .dA pad 0 ++ .record 0 0 ::
  singleSchedule .dB pad 1 ++ .wait 0 1 :: .launch 1 ⟨[.dA, .dB], [.dA]⟩ :: .record 0 1 ::
  singleSchedule c pad (1 + lot.toNat) ++
  [.wait 0 (1 + lot.toNat), .launch (1 + lot.toNat) ⟨[.dA, c], [.dA]⟩,
    .launch (1 + lot.toNat) ⟨[.dA], [.dA]⟩, .sync (1 + lot.toNat)]

variable {T : Ntt F lg} {gpu : Gpu} {lot : Bool} {input : Assignment F}
  {h : input.abcSize ≤ 2 ^ lg}

lemma schedule_executeNttMsmH : schedule (device T gpu lot) (executeNttMsmH T.groupGen lot input h) =
    msmHSchedule lot (decide (input.abcSize < 2 ^ lg)) := by
  by_cases hpad : input.abcSize < 2 ^ lg
  · simp only [schedule, executeNttMsmH, executeNttsSingle, if_pos hpad, decide_eq_true hpad]
    rfl
  · simp only [schedule, executeNttMsmH, executeNttsSingle, if_neg hpad, decide_eq_false hpad]
    rfl

/-- The host ends by waiting for the last stream. -/
lemma getElem?_executeNttMsmH {g : F} : (executeNttMsmH g lot input h)[
    (executeNttMsmH g lot input h).length - 1]? = some (.sync (1 + lot.toNat)) := by
  rw [← List.getLast?_eq_getElem?, executeNttMsmH, List.getLast?_append]
  rfl

lemma ordered_msmHSchedule (lot pad : Bool) : Ordered (msmHSchedule lot pad) := by
  refine ordered_of_isBefore ?_
  cases lot <;> cases pad <;> decide +kernel

/-- Every call to the device is ordered before the end. -/
lemma isBefore_sync (lot pad : Bool) : ∀ j < (msmHSchedule lot pad).length - 1,
    isBefore (msmHSchedule lot pad) j ((msmHSchedule lot pad).length - 1)
      ((msmHSchedule lot pad).length - 1) = true := by
  cases lot <;> cases pad <;> decide +kernel

/-! ### Results -/

/-- An array of `size` elements, padded with zeros. -/
def pad (x : ℕ → F) (size i : ℕ) : F := if i < size then x i else 0

/-- The memory that the calls leave one after the other. -/
def performAll (T : Ntt F lg) (gpu : Gpu) (lot : Bool) (calls : List (Call (Command F lg)))
    (m : Addr → F) : Addr → F :=
  calls.foldl (fun m c => perform (device T gpu lot) c m) m

variable {m : Addr → F} {p q : Buffer} {i : ℕ}

/-- The transforms take an array from values at the roots of unity to values on the coset. -/
lemma load_executeNttsSingle {src : ℕ → F} {size stream : ℕ} (hsize : size ≤ 2 ^ lg) {A : F[X]}
    (hA : Interpolates T.root (2 ^ lg) (pad src size) A) (hi : i < 2 ^ lg) :
    load lg lot (performAll T gpu lot (executeNttsSingle p src size hsize stream) m) p i =
      A.eval (T.groupGen * T.root ^ i) := by
  -- after the transfer and the padding
  obtain ⟨m', hm', hpad⟩ : ∃ m', performAll T gpu lot (executeNttsSingle p src size hsize stream) m =
      Command.run T lot (.ntt p .RN .forward .coset)
        (Command.run T lot (.ntt p .NR .inverse .standard) m') ∧
      ∀ j < 2 ^ lg, load lg lot m' p j = pad src size j := by
    by_cases hlt : size < 2 ^ lg
    · refine ⟨Command.run T lot (.memset p size (2 ^ lg - size))
        (Command.run T lot (.htod p src size hsize) m), ?_, fun j hj => ?_⟩
      · rw [executeNttsSingle, if_pos hlt]
        rfl
      · simp only [Command.run, load_store hj, pad]
        by_cases hjs : j < size
        · rw [if_neg (by omega), if_pos hjs, if_pos hjs]
        · rw [if_pos ⟨by omega, by omega⟩, if_neg hjs]
    · refine ⟨Command.run T lot (.htod p src size hsize) m, ?_, fun j hj => ?_⟩
      · rw [executeNttsSingle, if_neg hlt]
        rfl
      · have hjs : j < size := by omega
        simp only [Command.run, load_store hj, pad, if_pos hjs]
  rw [hm']
  simp only [Command.run, load_store hi]
  refine (T.forward_coset .RN _ i hi).trans ?_
  rw [← forward_coeff (Nat.two_pow_pos lg) hA.degree_lt]
  refine forward_congr (fun j hj => ?_) i
  -- the coefficients are where the second transform expects them
  show load lg lot _ p (bitRev lg j) = _
  rw [load_store (bitRev_lt lg j)]
  refine (T.inverse_standard .NR _ j hj).trans ?_
  rw [← hA.inverse T.root_primitive hj]
  exact inverse_congr (fun k hk => hpad k hk) j

/-- Other buffers are left alone. -/
lemma load_executeNttsSingle_of_ne {src : ℕ → F} {size stream : ℕ} (hsize : size ≤ 2 ^ lg)
    (hne : q.region lot ≠ p.region lot) :
    load lg lot (performAll T gpu lot (executeNttsSingle p src size hsize stream) m) q =
      load lg lot m q := by
  by_cases hlt : size < 2 ^ lg
  · rw [executeNttsSingle, if_pos hlt]
    simp only [performAll, List.foldl_append, List.foldl_cons, List.foldl_nil, perform, device,
      Command.run, load_store_of_ne hne]
  · rw [executeNttsSingle, if_neg hlt]
    simp only [performAll, List.foldl_append, List.foldl_cons, List.foldl_nil, perform, device,
      Command.run, load_store_of_ne hne]

lemma performAll_append (l l' : List (Call (Command F lg))) :
    performAll T gpu lot (l ++ l') m = performAll T gpu lot l' (performAll T gpu lot l m) :=
  List.foldl_append ..

lemma performAll_cons (c : Call (Command F lg)) (l : List (Call (Command F lg))) :
    performAll T gpu lot (c :: l) m =
      performAll T gpu lot l (perform (device T gpu lot) c m) := rfl

lemma performAll_nil : performAll T gpu lot [] m = m := rfl

/-- One after the other, the calls leave the coefficients of the quotient in `d_a`. -/
lemma load_executeNttMsmH (hgen : T.groupGen ^ 2 ^ lg ≠ 1) {A B C H : F[X]}
    (hA : Interpolates T.root (2 ^ lg) (pad input.a input.abcSize) A)
    (hB : Interpolates T.root (2 ^ lg) (pad input.b input.abcSize) B)
    (hC : Interpolates T.root (2 ^ lg) (pad input.c input.abcSize) C)
    (hH : A * B - C = H * (X ^ 2 ^ lg - 1)) (hi : i < 2 ^ lg) :
    load lg lot (performAll T gpu lot (executeNttMsmH T.groupGen lot input h) m) .dA i =
      H.coeff i := by
  have hab : Buffer.dA.region lot ≠ Buffer.dB.region lot := by simp [Buffer.region]
  have hac : Buffer.dA.region lot ≠ Buffer.dC.region lot := by cases lot <;> simp [Buffer.region]
  have hN := Nat.two_pow_pos lg
  rw [executeNttMsmH]
  simp only [performAll_append, performAll_cons, performAll_nil, perform, device]
  -- the memory after each of the three arrays
  have hm₁ : ∀ k < 2 ^ lg, load lg lot (performAll T gpu lot
      (executeNttsSingle .dA input.a input.abcSize h 0) m) .dA k = A.eval (T.groupGen * T.root ^ k) :=
    fun k hk => load_executeNttsSingle h hA hk
  generalize performAll T gpu lot (executeNttsSingle .dA input.a input.abcSize h 0) m = m₁ at hm₁ ⊢
  have hm₂ : ∀ k < 2 ^ lg, load lg lot (performAll T gpu lot
      (executeNttsSingle .dB input.b input.abcSize h 1) m₁) .dB k =
        B.eval (T.groupGen * T.root ^ k) := fun k hk => load_executeNttsSingle h hB hk
  have hm₂a : load lg lot (performAll T gpu lot
      (executeNttsSingle .dB input.b input.abcSize h 1) m₁) .dA = load lg lot m₁ .dA :=
    load_executeNttsSingle_of_ne h hab
  generalize performAll T gpu lot (executeNttsSingle .dB input.b input.abcSize h 1) m₁ = m₂
    at hm₂ hm₂a ⊢
  generalize hm₃ : Command.run T lot (.coeffWiseMult .dA .dB _) m₂ = m₃
  have hm₄ : ∀ k < 2 ^ lg, load lg lot (performAll T gpu lot
      (executeNttsSingle .dC input.c input.abcSize h (1 + lot.toNat)) m₃) .dC k =
        C.eval (T.groupGen * T.root ^ k) := fun k hk => load_executeNttsSingle h hC hk
  have hm₄a : load lg lot (performAll T gpu lot
      (executeNttsSingle .dC input.c input.abcSize h (1 + lot.toNat)) m₃) .dA = load lg lot m₃ .dA :=
    load_executeNttsSingle_of_ne h hac
  generalize performAll T gpu lot
    (executeNttsSingle .dC input.c input.abcSize h (1 + lot.toNat)) m₃ = m₄ at hm₄ hm₄a ⊢
  simp only [Command.run, load_store hi]
  refine (T.inverse_coset .NN _ i hi).trans ?_
  refine inverse_eval T.root_primitive T.groupGen_ne_zero
    (degree_quotient_lt hN hA.degree_lt hB.degree_lt hC.degree_lt hH) (fun k hk => ?_) hi
  show load lg lot _ .dA k = _
  rw [load_store hk, hm₄a, hm₄ k hk, ← hm₃]
  simp only [Command.run, load_store hk, hm₂a, hm₁ k hk, hm₂ k hk]
  rw [calculateZInv_eq]
  exact eval_quotient T.root_primitive hgen hH k

/-- In every run, no two commands are at work on a buffer that one of them writes; the host can
always get through; and when it is, all commands have finished and `d_a` holds the coefficients of the
quotient. -/
theorem quotient_poly (npoints : ℕ) (T : Ntt F (lgDomainSize npoints)) (gpu : Gpu) (lot : Bool)
    (hgen : T.groupGen ^ 2 ^ lgDomainSize npoints ≠ 1) (input : Assignment F)
    (h : input.abcSize ≤ 2 ^ lgDomainSize npoints) (m : Addr → F) (s : State Addr F)
    (hs : Transition.Reachable
      (step (device T gpu lot) (executeNttMsmH T.groupGen lot input h)) (State.init m) s) :
    (∀ j k, s.Running j → s.Running k → j ≠ k →
      ¬Conflict (schedule (device T gpu lot) (executeNttMsmH T.groupGen lot input h)) j k) ∧
    (∃ s', Transition.Reachable
      (step (device T gpu lot) (executeNttMsmH T.groupGen lot input h)) s s' ∧
      s'.issued = (executeNttMsmH T.groupGen lot input h).length) ∧
    (s.issued = (executeNttMsmH T.groupGen lot input h).length →
      (∀ j < s.issued - 1, j ∈ s.finished) ∧
      ∀ A B C H : F[X],
        Interpolates T.root (2 ^ lgDomainSize npoints) (pad input.a input.abcSize) A →
        Interpolates T.root (2 ^ lgDomainSize npoints) (pad input.b input.abcSize) B →
        Interpolates T.root (2 ^ lgDomainSize npoints) (pad input.c input.abcSize) C →
        A * B - C = H * (X ^ 2 ^ lgDomainSize npoints - 1) →
        H.degree < (2 ^ lgDomainSize npoints : ℕ) ∧ ∀ i < 2 ^ lgDomainSize npoints,
          s.mem (Buffer.dA.addr (lgDomainSize npoints) lot i) = H.coeff i) := by
  set prog := executeNttMsmH T.groupGen lot input h with hprog
  have hsched : schedule (device T gpu lot) prog =
      msmHSchedule lot (decide (input.abcSize < 2 ^ lgDomainSize npoints)) :=
    schedule_executeNttMsmH
  have ho : Ordered (schedule (device T gpu lot) prog) := by
    rw [hsched]
    exact ordered_msmHSchedule _ _
  refine ⟨fun j k hj hk hjk => no_conflict ho hs hj hk hjk, exists_through ho hs, fun hthrough => ?_⟩
  have hi := reachable_inv ho hs
  have hlen : prog.length =
      (msmHSchedule lot (decide (input.abcSize < 2 ^ lgDomainSize npoints))).length := by
    rw [← hsched, schedule, List.length_map]
  have hlast : prog[prog.length - 1]? = some (.sync (1 + lot.toNat)) := getElem?_executeNttMsmH
  have hfin : ∀ j < s.issued - 1, j ∈ s.finished := by
    intro j hj
    rw [hthrough] at hj
    have hb := isBefore_sync lot (decide (input.abcSize < 2 ^ lgDomainSize npoints)) j (hlen ▸ hj)
    rw [← hlen, ← hsched] at hb
    exact hi.finished_of_synced (by omega) hlast
      ((before_map (device T gpu lot).footprint).mp (before_of_isBefore hb))
  refine ⟨hfin, fun A B C H hA hB hC hH => ⟨degree_quotient_lt (Nat.two_pow_pos _) hA.degree_lt
    hB.degree_lt hC.degree_lt hH, fun i hlt => ?_⟩⟩
  rw [mem_eq ho hs, runCalls_length, ← load_executeNttMsmH hgen hA hB hC hH hlt, load_eq hlt]
  · rfl
  · intro j hj hw
    refine hfin j (lt_of_le_of_ne (by omega) ?_)
    -- the last call only waits
    rintro rfl
    obtain ⟨st, c, hc, -⟩ := mem_writes.mp hw
    rw [hthrough, hlast] at hc
    cases hc

end Host

/-! ### Two points -/

/-- The transforms by their definition. -/
def Ntt.direct (lg : ℕ) (root groupGen : F) (hroot : IsPrimitiveRoot root (2 ^ lg))
    (hgen : groupGen ≠ 0) : Ntt F lg where
  root := root
  root_primitive := hroot
  groupGen := groupGen
  groupGen_ne_zero := hgen
  run o d t x i :=
    let g := match t with
      | .standard => 1
      | .coset => groupGen
    match d with
    | .forward => forward g root (2 ^ lg) (fun j => x (o.input lg j)) (o.output lg i)
    | .inverse => inverse g root (2 ^ lg) (fun j => x (o.input lg j)) (o.output lg i)
  forward_standard o x i hi := by rw [InputOutputOrder.output_output hi]
  forward_coset o x i hi := by rw [InputOutputOrder.output_output hi]
  inverse_standard o x i hi := by rw [InputOutputOrder.output_output hi]
  inverse_coset o x i hi := by rw [InputOutputOrder.output_output hi]

lemma lgDomainSize_two : lgDomainSize 2 = 1 := by
  rw [lgDomainSize, lg2, dif_pos rfl]

/-- The roots of unity for two points are `1` and `-1`. -/
def twoPoints : Ntt ℚ (lgDomainSize 2) :=
  Ntt.direct _ (-1) 2 (by
    rw [lgDomainSize_two]
    exact IsPrimitiveRoot.neg_one 0 (by norm_num)) (by norm_num)

def oneSm : Gpu := ⟨1, Nat.one_pos, by decide⟩

/-- `a`, `b` and their products. -/
def twoInput : Assignment ℚ where
  a i := if i = 0 then 1 else 3
  b i := if i = 0 then 2 else 4
  c i := if i = 0 then 2 else 12
  abcSize := 2

lemma twoInput_le : twoInput.abcSize ≤ 2 ^ lgDomainSize 2 := by
  rw [lgDomainSize_two]
  exact le_rfl

/-- Here `A = 2 - X`, `B = 3 - X` and `C = 7 - 5 * X`, so that `H = 1`. -/
theorem quotient_poly_twoPoints : ∃ s, Transition.Reachable
      (step (device twoPoints oneSm false) (executeNttMsmH twoPoints.groupGen false twoInput twoInput_le))
      (State.init fun _ => 0) s ∧
    s.mem (Buffer.dA.addr (lgDomainSize 2) false 0) = 1 ∧
    s.mem (Buffer.dA.addr (lgDomainSize 2) false 1) = 0 := by
  have hgen : twoPoints.groupGen ^ 2 ^ lgDomainSize 2 ≠ 1 := by
    show (2 : ℚ) ^ 2 ^ lgDomainSize 2 ≠ 1
    rw [lgDomainSize_two]
    norm_num
  obtain ⟨-, ⟨s, hs, hthrough⟩, -⟩ := quotient_poly 2 twoPoints oneSm false hgen twoInput
    twoInput_le (fun _ => 0) _ Transition.Reachable.start
  have hinterp : ∀ (x : ℕ → ℚ) (u v : ℚ), x 0 = u - v → x 1 = u + v →
      Interpolates twoPoints.root (2 ^ lgDomainSize 2) (pad x 2) (C u - C v * X) := by
    intro x u v h0 h1
    show Interpolates (-1 : ℚ) (2 ^ lgDomainSize 2) (pad x 2) _
    rw [lgDomainSize_two]
    refine ⟨?_, fun k hk => ?_⟩
    · refine (degree_sub_le _ _).trans_lt (max_lt ?_ ?_)
      · exact degree_C_le.trans_lt (by norm_num)
      · exact (degree_C_mul_X_le v).trans_lt (by norm_num)
    · interval_cases k
      · simp [pad, h0]
      · simp [pad, h1]
  obtain ⟨-, -, hdone⟩ := quotient_poly 2 twoPoints oneSm false hgen twoInput twoInput_le
    (fun _ => 0) s hs
  have hH := ((hdone hthrough).2 (C 2 - C 1 * X) (C 3 - C 1 * X) (C 7 - C 5 * X) 1
    (hinterp _ _ _ (by norm_num [twoInput]) (by norm_num [twoInput]))
    (hinterp _ _ _ (by norm_num [twoInput]) (by norm_num [twoInput]))
    (hinterp _ _ _ (by norm_num [twoInput]) (by norm_num [twoInput])) (by
      rw [lgDomainSize_two]
      simp only [map_ofNat, map_one]
      ring)).2
  have hlt : 1 < 2 ^ lgDomainSize 2 := by
    rw [lgDomainSize_two]
    norm_num
  refine ⟨s, hs, (hH 0 (by omega)).trans ?_, (hH 1 hlt).trans ?_⟩
  · exact coeff_one_zero
  · exact coeff_one.trans (if_neg one_ne_zero)

end SupraSeal.NttMsmH
