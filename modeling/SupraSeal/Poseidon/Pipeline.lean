import SupraSeal.Poseidon.Simulation

/-!
# The four kernels

What each kernel leaves in `aux_ptr` and `out_ptr`, whatever order its blocks and threads run in: the
states of all hashes, at four points of the hash.
-/

namespace SupraSeal.Poseidon

variable {R : Type*} {P : Poseidon R} {batch : Batch}

/-! ### Positions -/

lemma mul_add_div' {n b : ℕ} (a : ℕ) (hb : b < n) : (a * n + b) / n = a := by
  rw [Nat.mul_comm, Nat.mul_add_div (Nat.zero_lt_of_lt hb), Nat.div_eq_of_lt hb, Nat.add_zero]

lemma mul_add_mod' {n b : ℕ} (a : ℕ) (hb : b < n) : (a * n + b) % n = b := by
  rw [Nat.mul_add_mod_self_right, Nat.mod_eq_of_lt hb]

lemma mul_add_lt {m n a b : ℕ} (ha : a < m) (hb : b < n) : a * n + b < m * n := by
  calc a * n + b < (a + 1) * n := by rw [Nat.succ_mul]; exact Nat.add_lt_add_left hb _
    _ ≤ m * n := Nat.mul_le_mul_right n ha

lemma exists_mul_add {m n x : ℕ} (h : x < m * n) : ∃ a < m, ∃ b < n, x = a * n + b := by
  have hn : 0 < n := Nat.pos_of_ne_zero fun h0 => by simp [h0] at h
  refine ⟨x / n, (Nat.div_lt_iff_lt_mul hn).mpr h, x % n, Nat.mod_lt x hn, ?_⟩
  rw [Nat.mul_comm, Nat.div_add_mod]

/-- A launch has a block for each of its threads. -/
lemma div_lt_blockCount {size count k : ℕ} (hsize : 0 < size) (hk : k < count) :
    k / size < (count + size - 1) / size := by
  refine Nat.lt_of_succ_le ?_
  rw [Nat.succ_eq_add_one, ← Nat.add_div_right k hsize]
  exact Nat.div_le_div_right (by omega)

lemma le_mul_blockCount24 (batch : Batch) :
    batch.numHashes ≤ blockSize24 * blockCount24 batch := by
  rw [blockCount24, blockSize24]
  omega

lemma LaunchOrder.mem {n i : ℕ} (order : LaunchOrder n) : i ∈ order.list ↔ i < n := by
  rw [order.perm.mem_iff, List.mem_range]

lemma LaunchOrder.nodup {n : ℕ} (order : LaunchOrder n) : order.list.Nodup :=
  order.perm.nodup_iff.mpr List.nodup_range

/-- A launch whose units read and change only their own part of the memory. -/
lemma LaunchOrder.foldl_apply {V : Type*} {n : ℕ} (order : LaunchOrder n) (owner : ℕ → ℕ)
    {body : ℕ → (ℕ → V) → ℕ → V} (hframe : ∀ i m x, owner x ≠ i → body i m x = m x)
    (hlocal : ∀ i m m', (∀ x, owner x = i → m x = m' x) → ∀ x, owner x = i →
      body i m x = body i m' x) (m : ℕ → V) {k : ℕ} (hk : owner k < n) :
    order.list.foldl (fun m i => body i m) m k = body (owner k) m k := by
  rw [GridStride.foldl_parts hframe hlocal order.nodup, if_pos (order.mem.mpr hk)]

lemma blockSize13_pos (P : Poseidon R) : 0 < P.blockSize13 := by
  obtain ⟨q, hq, hsize⟩ := exists_blockSize13 P
  rw [hsize]
  exact Nat.mul_pos hq P.t_pos

/-- The threads of state `c` of a block. -/
structure AtThread (P : Poseidon R) (b k c : ℕ) : Prop where
  eq : k = b * P.blockSize13 + (c * P.t + k % P.t)
  div_eq : k / P.t = b * (P.blockSize13 / P.t) + c
  lt : c < P.blockSize13 / P.t

lemma exists_atThread {b k : ℕ} (hk : k / P.blockSize13 = b) : ∃ c, AtThread P b k c := by
  obtain ⟨q, -, hsize⟩ := exists_blockSize13 P
  have hq : P.blockSize13 / P.t = q := by rw [hsize, Nat.mul_div_cancel _ P.t_pos]
  have hoff : k % P.blockSize13 < q * P.t := hsize ▸ Nat.mod_lt k P.blockSize13_pos
  obtain ⟨c, hc, i, hi, hci⟩ := exists_mul_add hoff
  have hkb : k = (b * q + c) * P.t + i := by
    rw [← Nat.div_add_mod k P.blockSize13, hk, hci, hsize]
    ring
  have hmod : k % P.t = i := by rw [hkb, mul_add_mod' _ hi]
  refine ⟨c, ?_, ?_, hq ▸ hc⟩
  · rw [hmod, hkb, hsize]
    ring
  · rw [hkb, mul_add_div' _ hi, hq]

/-- The stores of a block. -/
lemma foldl_block {V : Type*} (v : ℕ → V) (b : ℕ) (aux : ℕ → V) (k : ℕ) :
    (List.range P.blockSize13).foldl
      (fun aux x => if x + b * P.blockSize13 < P.threadCount13 batch then
        Function.update aux (b * P.blockSize13 + x) (v x) else aux) aux k =
      if k / P.blockSize13 = b ∧ k < P.threadCount13 batch then v (k - b * P.blockSize13)
      else aux k := by
  have hblock : k / P.blockSize13 = b ↔ b * P.blockSize13 ≤ k ∧
      k < b * P.blockSize13 + P.blockSize13 := by
    rw [Nat.div_eq_iff P.blockSize13_pos]
    have := P.blockSize13_pos
    omega
  rw [GridStride.foldl_store]
  by_cases hk : k / P.blockSize13 = b ∧ k < P.threadCount13 batch
  · obtain ⟨hle, hlt⟩ := hblock.mp hk.1
    have hact : k - b * P.blockSize13 + b * P.blockSize13 < P.threadCount13 batch := by
      rw [Nat.sub_add_cancel hle]
      exact hk.2
    rw [if_pos hk, if_pos (show _ ∧ _ ∧ _ from ⟨hle, hlt, hact⟩)]
  · rw [if_neg hk, if_neg]
    rintro ⟨hle, hlt, hact⟩
    rw [Nat.sub_add_cancel hle] at hact
    exact hk ⟨hblock.mpr ⟨hle, hlt⟩, hact⟩

lemma hash3_address (P : Poseidon R) (b x : ℕ) :
    (b * (P.blockSize13 / P.t) + x / P.t) * P.t + x % P.t = b * P.blockSize13 + x := by
  obtain ⟨q, -, hsize⟩ := exists_blockSize13 P
  rw [hsize, Nat.mul_div_cancel _ P.t_pos, Nat.add_mul, Nat.add_assoc, Nat.mul_comm (x / P.t),
    Nat.div_add_mod, Nat.mul_assoc]

/-- The elements of a state are in one block. -/
lemma div_blockSize13 (P : Poseidon R) (h : ℕ) {i : ℕ} (hi : i < P.t) :
    (h * P.t + i) / P.blockSize13 = h / (P.blockSize13 / P.t) := by
  obtain ⟨q, -, hsize⟩ := exists_blockSize13 P
  rw [hsize, Nat.mul_div_cancel _ P.t_pos, Nat.mul_comm q, ← Nat.div_div_eq_div_mul,
    mul_add_div' h hi]

variable [CommRing R] {conv : FrConversion R}

/-! ### First kernel -/

/-- Input `k` of a hash, as kernel 1 takes it. -/
def hashInput (P : Poseidon R) (batch : Batch) (conv : FrConversion R) (inPtrs : ℕ → ℕ → R)
    (hashNum k : ℕ) : R :=
  let index := P.inputIndex batch (hashNum * P.t + (k + 1))
  batch.convertInput conv (inPtrs index.1 index.2)

lemma firstElement_eq (inPtrs : ℕ → ℕ → R) (hashNum : ℕ) {i : ℕ} (hi : i < P.t) :
    P.firstElement batch conv inPtrs (hashNum * P.t + i) =
      if i = 0 then P.domainTag else P.hashInput batch conv inPtrs hashNum (i - 1) := by
  rw [firstElement, mul_add_mod' _ hi]
  split_ifs with hzero
  · rfl
  · rw [hashInput, Nat.sub_add_cancel (Nat.pos_of_ne_zero hzero)]

/-- A block leaves the states of its hashes after four rounds. -/
lemma hash1Block_apply (inPtrs shared : ℕ → ℕ → R) (b : ℕ) (aux : ℕ → R) (k : ℕ) :
    P.hash1Block batch conv inPtrs shared b aux k =
      if k / P.blockSize13 = b ∧ k < P.threadCount13 batch then
        (P.fullRound^[halfFullRounds]
          (P.start (P.hashInput batch conv inPtrs (k / P.t)))).elements (k % P.t)
      else aux k := by
  obtain ⟨q, -, hsize⟩ := exists_blockSize13 P
  have hq : P.blockSize13 / P.t = q := by rw [hsize, Nat.mul_div_cancel _ P.t_pos]
  have haddr : ∀ x, (x + b * P.blockSize13) / P.t * P.t + (x + b * P.blockSize13) % P.t =
      b * P.blockSize13 + x := by
    intro x
    rw [Nat.mul_comm, Nat.div_add_mod, Nat.add_comm]
  simp only [hash1Block, haddr]
  refine (foldl_block _ b aux k).trans ?_
  by_cases hk : k / P.blockSize13 = b ∧ k < P.threadCount13 batch
  · rw [if_pos hk, if_pos hk]
    obtain ⟨c, hc⟩ := exists_atThread hk.1
    have hi : k % P.t < P.t := Nat.mod_lt k P.t_pos
    have hhash : k / P.t < batch.numHashes := (Nat.div_lt_iff_lt_mul P.t_pos).mpr hk.2
    have htid : ∀ i, c * P.t + i + b * P.blockSize13 = k / P.t * P.t + i := by
      intro i
      rw [hc.div_eq, hq, hsize]
      ring
    rw [show k - b * P.blockSize13 = c * P.t + k % P.t from Nat.sub_eq_of_eq_add' hc.eq]
    refine (Block.Follows.iterate (s := P.start (P.hashInput batch conv inPtrs (k / P.t)))
      ⟨fun i hi => ?_, fun i hi => ?_, rfl⟩ (fun i hi => ?_) (fun i hi => ?_) (fun i hi => ?_)
      (fun n hn => ?_)).element _ hi
    · simp only [htid, firstElement_eq _ _ hi, mul_add_mod' _ hi]
      rfl
    · simp only [htid, mul_add_mod' _ hi]
      exact Nat.add_comm ..
    · rw [htid]
      exact mul_add_lt hhash hi
    · rw [htid, mul_add_mod' _ hi]
    · rw [mul_add_div' _ hi]
    · left
      rw [show (P.start _).currentRound = 0 from rfl, Nat.zero_add]
      exact hn
  · rw [if_neg hk, if_neg hk]

/-- The states after kernel 1. -/
lemma hash1_apply (order : LaunchOrder (P.blockCount13 batch)) (inPtrs shared : ℕ → ℕ → R)
    (aux : ℕ → R) {k : ℕ} (hk : k < P.threadCount13 batch) :
    order.list.foldl (fun aux b => P.hash1Block batch conv inPtrs shared b aux) aux k =
      (P.fullRound^[halfFullRounds]
        (P.start (P.hashInput batch conv inPtrs (k / P.t)))).elements (k % P.t) := by
  have hframe : ∀ b m x, x / P.blockSize13 ≠ b →
      P.hash1Block batch conv inPtrs shared b m x = m x := by
    intro b m x hx
    rw [hash1Block_apply, if_neg fun h => hx h.1]
  refine (order.foldl_apply (· / P.blockSize13) hframe (fun b m m' hm x hx => ?_) aux
    (div_lt_blockCount P.blockSize13_pos hk)).trans ?_
  · rw [hash1Block_apply, hash1Block_apply, hm x hx]
  · rw [hash1Block_apply, if_pos ⟨rfl, hk⟩]

/-! ### Second kernel -/

/-- A thread takes its own state through the partial rounds. -/
lemma hash2Thread_apply {aux : ℕ → R} {h : ℕ} (hh : h < batch.numHashes) {s : State R}
    (hs : ∀ j < P.t, aux (h * P.t + j) = s.elements j) (hround : s.currentRound = halfFullRounds)
    {i : ℕ} (hi : i < P.t) :
    P.hash2Thread batch s.rkOffset halfFullRounds h aux (h * P.t + i) =
      (P.partialRound^[P.partialRounds] s).elements i := by
  have hagree : State.Agree P.t ⟨fun j => aux (h * P.t + j), s.rkOffset, halfFullRounds⟩ s :=
    ⟨hs, rfl, hround.symm⟩
  have hin : h * P.t ≤ h * P.t + i ∧ h * P.t + i < h * P.t + P.t :=
    ⟨Nat.le_add_right .., Nat.add_lt_add_left hi _⟩
  rw [hash2Thread, if_neg (Nat.not_le.mpr hh)]
  refine (GridStride.foldl_store_all ..).trans ?_
  rw [if_pos hin, Nat.add_sub_cancel_left]
  exact (hagree.iterate hround le_rfl).elements i hi

lemma hash2Thread_of_ne {rkOffset currentRound idx : ℕ} (aux : ℕ → R) {k : ℕ}
    (hk : k / P.t ≠ idx) : P.hash2Thread batch rkOffset currentRound idx aux k = aux k := by
  rw [hash2Thread]
  split_ifs
  · rfl
  · refine (GridStride.foldl_store_all ..).trans ?_
    rw [if_neg]
    rintro ⟨hle, hlt⟩
    refine hk (Nat.div_eq_of_lt_le hle ?_)
    rwa [Nat.succ_mul]

/-- The states after kernel 2. -/
lemma hash2_apply (order : LaunchOrder (blockSize24 * blockCount24 batch)) {aux : ℕ → R} {h : ℕ}
    (hh : h < batch.numHashes) {s : State R} (hs : ∀ j < P.t, aux (h * P.t + j) = s.elements j)
    (hround : s.currentRound = halfFullRounds) {i : ℕ} (hi : i < P.t) :
    order.list.foldl
      (fun aux idx => P.hash2Thread batch s.rkOffset halfFullRounds idx aux) aux (h * P.t + i) =
      (P.partialRound^[P.partialRounds] s).elements i := by
  have hframe : ∀ idx (m : ℕ → R) x, x / P.t ≠ idx →
      P.hash2Thread batch s.rkOffset halfFullRounds idx m x = m x :=
    fun idx m x hx => hash2Thread_of_ne m hx
  have hlocal : ∀ idx (m m' : ℕ → R), (∀ x, x / P.t = idx → m x = m' x) → ∀ x, x / P.t = idx →
      P.hash2Thread batch s.rkOffset halfFullRounds idx m x =
        P.hash2Thread batch s.rkOffset halfFullRounds idx m' x := by
    rintro idx m m' hm x rfl
    by_cases hx : x / P.t < batch.numHashes
    · have hi := Nat.mod_lt x P.t_pos
      have hown : ∀ j < P.t, m (x / P.t * P.t + j) = m' (x / P.t * P.t + j) :=
        fun j hj => hm _ (mul_add_div' _ hj)
      let s' : State R := ⟨fun j => m' (x / P.t * P.t + j), s.rkOffset, halfFullRounds⟩
      have hthread : P.hash2Thread batch s.rkOffset halfFullRounds (x / P.t) m
          (x / P.t * P.t + x % P.t) = (P.partialRound^[P.partialRounds] s').elements (x % P.t) :=
        hash2Thread_apply (s := s') hx hown rfl hi
      have hthread' : P.hash2Thread batch s.rkOffset halfFullRounds (x / P.t) m'
          (x / P.t * P.t + x % P.t) = (P.partialRound^[P.partialRounds] s').elements (x % P.t) :=
        hash2Thread_apply (s := s') hx (fun _ _ => rfl) rfl hi
      rw [Nat.mul_comm, Nat.div_add_mod] at hthread hthread'
      exact hthread.trans hthread'.symm
    · rw [hash2Thread, hash2Thread, if_pos (Nat.le_of_not_lt hx), if_pos (Nat.le_of_not_lt hx)]
      exact hm x rfl
  have hdiv := mul_add_div' h hi
  refine (order.foldl_apply (· / P.t) hframe hlocal aux ?_).trans ?_
  · rw [hdiv]
    exact hh.trans_le (le_mul_blockCount24 batch)
  · simp only [hdiv]
    exact hash2Thread_apply hh hs hround hi

/-! ### Third kernel -/

/-- The threads of a state take it through three full rounds and its last S-boxes. -/
lemma hash3Block_apply (shared : ℕ → ℕ → R) {aux : ℕ → R} {h : ℕ} (hh : h < batch.numHashes)
    {s : State R} (hs : ∀ j < P.t, aux (h * P.t + j) = s.elements j)
    (hfull : halfFullRounds + P.partialRounds ≤ s.currentRound) {i : ℕ} (hi : i < P.t) :
    P.hash3Block batch shared s.rkOffset s.currentRound ((h * P.t + i) / P.blockSize13) aux
      (h * P.t + i) = (P.fullRound^[halfFullRounds - 1] s).elements i ^ 5 := by
  have hlt : h * P.t + i < P.threadCount13 batch := mul_add_lt hh hi
  obtain ⟨c, hc⟩ := exists_atThread (P := P) (k := h * P.t + i) rfl
  have hdiv := mul_add_div' h hi
  have hmod := mul_add_mod' h hi
  simp only [hash3Block, hash3_address]
  refine (foldl_block _ _ aux _).trans ?_
  rw [if_pos ⟨rfl, hlt⟩, pow5_eq, Nat.sub_eq_of_eq_add' hc.eq]
  congr 1
  rw [hmod]
  have hthread : ∀ j, c * P.t + j + (h * P.t + i) / P.blockSize13 * P.blockSize13 =
      h * P.t + j := by
    intro j
    have := hc.eq
    omega
  refine (Block.Follows.iterate (s := s) ⟨fun j hj => ?_, fun j hj => ?_, rfl⟩ (fun j hj => ?_)
    (fun j hj => mul_add_mod' c hj) (fun j hj => ?_) (fun n hn => ?_)).element i hi
  · simp only
    rw [Nat.add_comm, hthread]
    exact hs j hj
  · simp only
    rw [mul_add_mod' _ hj]
  · rw [hthread]
    exact mul_add_lt hh hj
  · rw [mul_add_div' _ hj]
  · right
    exact hfull.trans (Nat.le_add_right ..)

lemma hash3Block_of_ne (shared : ℕ → ℕ → R) {rkOffset currentRound b : ℕ} (aux : ℕ → R) {k : ℕ}
    (hk : ¬(k / P.blockSize13 = b ∧ k < P.threadCount13 batch)) :
    P.hash3Block batch shared rkOffset currentRound b aux k = aux k := by
  simp only [hash3Block, hash3_address]
  refine (foldl_block _ b aux k).trans ?_
  rw [if_neg hk]

/-- The states after kernel 3. -/
lemma hash3_apply (order : LaunchOrder (P.blockCount13 batch)) (shared : ℕ → ℕ → R) {aux : ℕ → R}
    {h : ℕ} (hh : h < batch.numHashes) {s : State R}
    (hs : ∀ j < P.t, aux (h * P.t + j) = s.elements j)
    (hfull : halfFullRounds + P.partialRounds ≤ s.currentRound) {i : ℕ} (hi : i < P.t) :
    order.list.foldl
      (fun aux b => P.hash3Block batch shared s.rkOffset s.currentRound b aux) aux (h * P.t + i) =
      (P.fullRound^[halfFullRounds - 1] s).elements i ^ 5 := by
  have hframe : ∀ b (m : ℕ → R) x, x / P.blockSize13 ≠ b →
      P.hash3Block batch shared s.rkOffset s.currentRound b m x = m x :=
    fun b m x hx => hash3Block_of_ne shared m fun h => hx h.1
  have hlocal : ∀ b (m m' : ℕ → R), (∀ x, x / P.blockSize13 = b → m x = m' x) →
      ∀ x, x / P.blockSize13 = b → P.hash3Block batch shared s.rkOffset s.currentRound b m x =
        P.hash3Block batch shared s.rkOffset s.currentRound b m' x := by
    rintro b m m' hm x rfl
    by_cases hx : x < P.threadCount13 batch
    · have hi := Nat.mod_lt x P.t_pos
      have hh : x / P.t < batch.numHashes := (Nat.div_lt_iff_lt_mul P.t_pos).mpr hx
      have hx' : x / P.t * P.t + x % P.t = x := by rw [Nat.mul_comm, Nat.div_add_mod]
      have hown : ∀ j < P.t, m (x / P.t * P.t + j) = m' (x / P.t * P.t + j) := by
        intro j hj
        refine hm _ ?_
        rw [div_blockSize13 P _ hj, ← div_blockSize13 P _ hi, hx']
      let s' : State R := ⟨fun j => m' (x / P.t * P.t + j), s.rkOffset, s.currentRound⟩
      have hblock := hash3Block_apply (s := s') shared hh hown hfull hi
      have hblock' := hash3Block_apply (s := s') shared hh (fun _ _ => rfl) hfull hi
      rw [hx'] at hblock hblock'
      exact hblock.trans hblock'.symm
    · rw [hash3Block_of_ne shared m fun h => hx h.2, hash3Block_of_ne shared m' fun h => hx h.2]
      exact hm x rfl
  refine (order.foldl_apply (· / P.blockSize13) hframe hlocal aux
    (div_lt_blockCount P.blockSize13_pos (mul_add_lt hh hi))).trans ?_
  exact hash3Block_apply shared hh hs hfull hi

/-! ### Fourth kernel -/

lemma hash4_apply (order : LaunchOrder (blockSize24 * blockCount24 batch)) (aux out : ℕ → R)
    {h : ℕ} (hh : h < batch.numHashes) :
    order.list.foldl (fun out idx => P.hash4Thread batch conv aux idx out) out h =
      let result := P.lastMatrixMul fun i => aux (h * P.t + i)
      if batch.fromMont then conv.fromMont result else result := by
  have hframe : ∀ idx (m : ℕ → R) x, x ≠ idx → P.hash4Thread batch conv aux idx m x = m x := by
    intro idx m x hx
    rw [hash4Thread]
    split_ifs
    · rfl
    all_goals exact Function.update_of_ne hx ..
  refine (order.foldl_apply id hframe ?_ out (hh.trans_le (le_mul_blockCount24 batch))).trans ?_
  · rintro idx m m' hm x rfl
    by_cases hx : batch.numHashes ≤ x
    · rw [hash4Thread, hash4Thread, id, if_pos hx, if_pos hx]
      exact hm x rfl
    · rw [hash4Thread, hash4Thread, id, if_neg hx, if_neg hx]
      rw [Function.update_self, Function.update_self]
  · rw [hash4Thread, id, if_neg (Nat.not_le.mpr hh)]
    exact Function.update_self ..

/-! ### All four -/

/-- The output of a hash, over the inputs that kernel 1 takes. -/
theorem hashBatchPtrs_apply (sched : Schedule P batch) (inPtrs : ℕ → ℕ → R) (aux out : ℕ → R)
    {h : ℕ} (hh : h < batch.numHashes) :
    P.hashBatchPtrs batch conv sched inPtrs aux out h =
      let result := P.permute (P.hashInput batch conv inPtrs h)
      if batch.fromMont then conv.fromMont result else result := by
  let input := P.hashInput batch conv inPtrs h
  let s₁ := P.fullRound^[halfFullRounds] (P.start input)
  let s₂ := P.partialRound^[P.partialRounds] s₁
  have hrk₁ : s₁.rkOffset = P.t * (halfFullRounds + 1) := by
    rw [(fullRound_iterate _ _).1, Nat.mul_succ, Nat.mul_comm P.t, Nat.add_comm]
    rfl
  have hround₁ : s₁.currentRound = halfFullRounds := by
    rw [(fullRound_iterate _ _).2]
    exact Nat.zero_add _
  have hrk₂ : s₂.rkOffset = P.t * (halfFullRounds + 1) + P.partialRounds := by
    rw [(partialRound_iterate _ _).1, hrk₁]
  have hround₂ : s₂.currentRound = halfFullRounds + P.partialRounds := by
    rw [(partialRound_iterate _ _).2, hround₁]
  rw [hashBatchPtrs, hash4_apply _ _ _ hh]
  have hresult : P.lastMatrixMul (fun i => sched.order3.list.foldl
      (fun aux b => P.hash3Block batch sched.shared3 (P.t * (halfFullRounds + 1) + P.partialRounds)
        (halfFullRounds + P.partialRounds) b aux)
      (sched.order2.list.foldl
        (fun aux idx => P.hash2Thread batch (P.t * (halfFullRounds + 1)) halfFullRounds idx aux)
        (sched.order1.list.foldl
          (fun aux b => P.hash1Block batch conv inPtrs sched.shared1 b aux) aux)) (h * P.t + i)) =
      P.permute input := by
    rw [lastMatrixMul_eq, permute, lastFullRound, matrixMul_eq_sum, matrixMul_eq_sum]
    refine Finset.sum_congr rfl fun i hi => ?_
    have hi := Finset.mem_range.mp hi
    rw [← hrk₂, ← hround₂, ← hrk₁]
    congr 1
    refine hash3_apply _ _ hh (fun j hj => ?_) hround₂.ge hi
    refine hash2_apply _ hh (fun l hl => ?_) hround₁ hj
    rw [hash1_apply _ _ _ _ (mul_add_lt hh hl), mul_add_div' _ hl, mul_add_mod' _ hl]
  rw [hresult]

end SupraSeal.Poseidon
