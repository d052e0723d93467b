import SupraSeal.Lib.Transition
import SupraSeal.Nvme.NodeLayout
import Mathlib.Data.List.Perm.Basic
import Mathlib.Data.List.Count
import Mathlib.Data.List.Range

/-!
# Requests to the controllers

`node_rw_t::process` of `pc1/node_rw_t.hpp` with the queue pairs of `nvme/nvme_qpair_t.hpp`. Other
threads put batches into the request queue and set the terminator at any time, and the device completes
outstanding operations in any order. Whether a submission succeeds is up to SPDK.
-/

namespace SupraSeal

open Transition

namespace NodeRw

/-- `nvme_controller_t::queue_size`. -/
def queueSize : ℕ := 1024

/-- `node_io_t::type_e`. -/
inductive IoType
  | read
  | write
  | nop
  deriving DecidableEq

/-- `node_io_t`, with the valid counter and the buffer by number. -/
structure NodeIo where
  node : ℕ
  type : IoType
  valid : ℕ
  buf : ℕ
  deriving DecidableEq

def NodeIo.IsNop (io : NodeIo) : Prop := io.type = .nop

instance (io : NodeIo) : Decidable io.IsNop := inferInstanceAs (Decidable (_ = _))

/-- An operation as it is submitted; the request is the argument of its callback. -/
structure Op where
  ctrlId : ℕ
  block : ℕ
  req : NodeIo
  deriving DecidableEq

structure Setup where
  config : Config
  numControllers : ℕ
  numControllers_pos : 0 < numControllers
  batchSize : ℕ
  batchSize_pos : 0 < batchSize
  blockOffset : ℕ
  /-- Whether SPDK takes an operation when that many are outstanding. -/
  accepts : ℕ → Bool

/-- `batch_t`. -/
abbrev Batch (S : Setup) : Type := Fin S.batchSize → NodeIo

/-- The operation for a request. -/
def Setup.op (S : Setup) (req : NodeIo) : Op :=
  let (ctrlId, stridedBlock) := nvmeNodeIndexes S.config S.numControllers req.node
  ⟨ctrlId, stridedBlock + S.blockOffset, req⟩

/-- Where the thread is in `process`. -/
inductive Pc
  /-- `while (!terminator)`. -/
  | loop
  /-- Before `parent_read_fifo.size()`. -/
  | sample
  /-- Before a dequeue, or before the rest of a batch. -/
  | issue (numBatches : ℕ) (rest : List NodeIo)
  /-- Before `process_completions` of a controller. -/
  | poll (ctrlId : ℕ)
  /-- In `process_all_completions` of a controller. -/
  | drain (ctrlId : ℕ)
  | returned (rc : Bool)
  /-- A failed assertion. -/
  | aborted
  deriving DecidableEq

/-- The counters are those of the queue pairs; `inFlight` is what the device works on. -/
structure State (S : Setup) where
  fifo : List (Batch S)
  terminator : Bool
  outstandingIoOps : ℕ → ℕ
  inFlight : ℕ → List Op
  /-- How often the callback has incremented each valid counter. -/
  valid : ℕ → ℕ
  pc : Pc
  /-- The entries of all batches so far. -/
  dequeued : List NodeIo
  submitted : List Op
  completed : List Op

inductive Action (S : Setup)
  | enqueue (batch : Batch S)
  | terminate
  /-- The thread goes on; at a poll the device has completed `done`, and `rest` is still outstanding. -/
  | run (done rest : List Op)

/-- Subtraction of type `size_t`. -/
def sizeSub (a b : ℕ) : ℕ := (a + 2 ^ 64 - b) % 2 ^ 64

section Steps

variable {S : Setup} (s : State S)

namespace State

def init (fifo : List (Batch S)) : State S where
  fifo := fifo
  terminator := false
  outstandingIoOps := fun _ => 0
  inFlight := fun _ => []
  valid := fun _ => 0
  pc := .loop
  dequeued := []
  submitted := []
  completed := []

def freeSlots (ctrlId : ℕ) : ℕ := sizeSub queueSize (s.outstandingIoOps ctrlId)

/-- `min_free`. -/
def minFree : ℕ :=
  (List.range' 1 (S.numControllers - 1)).foldl (fun m ctrlId => min m (s.freeSlots ctrlId)) (s.freeSlots 0)

def numBatches : ℕ := min (s.minFree / S.batchSize) s.fifo.length

/-- `read` or `write` of the controller. -/
def submit (op : Op) : State S :=
  { s with
    outstandingIoOps :=
      Function.update s.outstandingIoOps op.ctrlId ((s.outstandingIoOps op.ctrlId + 1) % 2 ^ 64)
    inFlight := Function.update s.inFlight op.ctrlId (s.inFlight op.ctrlId ++ [op])
    submitted := s.submitted ++ [op] }

/-- `completion_cb`. -/
def completionCb (valid : ℕ → ℕ) (op : Op) : ℕ → ℕ :=
  Function.update valid op.req.valid (valid op.req.valid + 1)

def complete (ctrlId : ℕ) (done rest : List Op) : State S :=
  { s with
    outstandingIoOps :=
      Function.update s.outstandingIoOps ctrlId (sizeSub (s.outstandingIoOps ctrlId) done.length)
    inFlight := Function.update s.inFlight ctrlId rest
    valid := done.foldl completionCb s.valid
    completed := s.completed ++ done }

/-- `nvme_qpair_t::process_completions`. -/
def processCompletions (ctrlId : ℕ) (done rest : List Op) : Option (State S) :=
  if 0 < s.outstandingIoOps ctrlId then
    if (s.inFlight ctrlId).Perm (done ++ rest) then some (s.complete ctrlId done rest) else none
  else some s

/-- One step of `process`. -/
def run (done rest : List Op) : Option (State S) :=
  match s.pc with
  | .loop => some { s with pc := if s.terminator then .drain 0 else .sample }
  | .sample => some { s with pc := .issue s.numBatches [] }
  | .issue numBatches (io :: ios) =>
    if io.IsNop then some { s with pc := .issue numBatches ios }
    else if S.accepts (s.inFlight (S.op io).ctrlId).length then
      some { s.submit (S.op io) with pc := .issue numBatches ios }
    else some { s with pc := .returned false }
  | .issue (numBatches + 1) [] =>
    match s.fifo with
    | [] => some { s with pc := .aborted }
    | batch :: fifo =>
      some { s with
        fifo := fifo
        pc := .issue numBatches (List.ofFn batch)
        dequeued := s.dequeued ++ List.ofFn batch }
  | .issue 0 [] => some { s with pc := .poll 0 }
  | .poll ctrlId =>
    if ctrlId < S.numControllers then
      (s.processCompletions ctrlId done rest).map fun s => { s with pc := .poll (ctrlId + 1) }
    else some { s with pc := .loop }
  | .drain ctrlId =>
    if ctrlId < S.numControllers then
      if 0 < s.outstandingIoOps ctrlId then s.processCompletions ctrlId done rest
      else some { s with pc := .drain (ctrlId + 1) }
    else some { s with pc := .returned true }
  | .returned _ => none
  | .aborted => none

end State

def step : Action S → Option (State S)
  | .enqueue batch => some { s with fifo := s.fifo ++ [batch] }
  | .terminate => some { s with terminator := true }
  | .run done rest => s.run done rest

end Steps

/-! ### Free slots -/

lemma sizeSub_eq {a b : ℕ} (hle : b ≤ a) (ha : a < 2 ^ 64) : sizeSub a b = a - b := by
  rw [sizeSub, Nat.sub_add_comm hle, Nat.add_mod_right, Nat.mod_eq_of_lt ((Nat.sub_le a b).trans_lt ha)]

lemma foldl_min_le (f : ℕ → ℕ) (l : List ℕ) (m : ℕ) :
    l.foldl (fun m c => min m (f c)) m ≤ m ∧ ∀ c ∈ l, l.foldl (fun m c => min m (f c)) m ≤ f c := by
  induction l generalizing m with
  | nil =>
    refine ⟨le_rfl, ?_⟩
    intro c hc
    cases hc
  | cons d l ih =>
    obtain ⟨hle, hmem⟩ := ih (min m (f d))
    refine ⟨hle.trans (min_le_left ..), ?_⟩
    intro c hc
    rcases List.mem_cons.1 hc with rfl | hc
    · exact hle.trans (min_le_right ..)
    · exact hmem c hc

lemma State.minFree_le {S : Setup} (s : State S) {c : ℕ} (hc : c < S.numControllers) :
    s.minFree ≤ s.freeSlots c := by
  obtain ⟨hzero, hmem⟩ := foldl_min_le s.freeSlots (List.range' 1 (S.numControllers - 1)) (s.freeSlots 0)
  rcases Nat.eq_zero_or_pos c with rfl | hpos
  · exact hzero
  · refine hmem c (List.mem_range'_1.2 ⟨hpos, ?_⟩)
    rwa [Nat.add_sub_cancel' S.numControllers_pos]

lemma Setup.op_ctrlId_lt (S : Setup) (io : NodeIo) : (S.op io).ctrlId < S.numControllers := by
  rw [Setup.op, nvmeNodeIndexes_eq]
  exact Nat.mod_lt _ S.numControllers_pos

/-! ### The invariant -/

/-- The entries of the current batch that are still to be submitted. -/
def Pc.rest : Pc → List NodeIo
  | .issue _ rest => rest
  | _ => []

/-- What is to be submitted of some entries. -/
def Setup.ops (S : Setup) (ios : List NodeIo) : List Op :=
  (ios.filter fun io => ¬ io.IsNop).map S.op

section Invariant

variable {S : Setup}

def State.allInFlight (s : State S) : List Op := (List.range S.numControllers).flatMap s.inFlight

/-- The queue pairs. -/
structure Queues (s : State S) : Prop where
  counter : ∀ c, s.outstandingIoOps c = (s.inFlight c).length
  length_le : ∀ c, (s.inFlight c).length ≤ queueSize
  outside : ∀ c, S.numControllers ≤ c → s.inFlight c = []

/-- What has become of the entries of the batches. -/
structure Accounts (s : State S) : Prop where
  /-- Every entry was submitted once, but for those of the current batch. -/
  submitted : s.submitted ++ S.ops s.pc.rest = S.ops s.dequeued
  /-- Every operation completes once. -/
  completed : s.submitted.Perm (s.completed ++ s.allInFlight)
  valid : ∀ v, s.valid v = s.completed.countP fun op => op.req.valid = v

/-- What holds at the places of `process`. -/
structure Control (s : State S) : Prop where
  /-- The batches of a round fit on any controller. -/
  budget : ∀ n rest, s.pc = .issue n rest → n ≤ s.fifo.length ∧
    ∀ c, (s.inFlight c).length + (n * S.batchSize + rest.length) ≤ queueSize
  drained : ∀ k, s.pc = .drain k → ∀ c < k, s.inFlight c = []
  returned : ∀ rc, s.pc = .returned rc → rc = true ∧ ∀ c, s.inFlight c = []
  not_aborted : s.pc ≠ .aborted

variable {s : State S}

lemma Queues.freeSlots_eq (h : Queues s) (c : ℕ) :
    s.freeSlots c = queueSize - (s.inFlight c).length := by
  rw [State.freeSlots, sizeSub_eq, h.counter]
  · rw [h.counter]
    exact h.length_le c
  · decide

/-- The batches of a round fit on each controller together with what it is working on. -/
lemma Queues.numBatches_fit (h : Queues s) (c : ℕ) :
    (s.inFlight c).length + s.numBatches * S.batchSize ≤ queueSize := by
  have hbatches : s.numBatches * S.batchSize ≤ s.minFree :=
    (Nat.mul_le_mul_right _ (min_le_left ..)).trans (Nat.div_mul_le_self ..)
  have hlen := h.length_le c
  by_cases hc : c < S.numControllers
  · have hfree := s.minFree_le hc
    rw [h.freeSlots_eq] at hfree
    omega
  · have hfree := s.minFree_le S.numControllers_pos
    rw [h.freeSlots_eq] at hfree
    rw [h.outside c (Nat.le_of_not_lt hc), List.length_nil, Nat.zero_add]
    exact (hbatches.trans hfree).trans (Nat.sub_le ..)

lemma Queues.submit (h : Queues s) (io : NodeIo)
    (hroom : (s.inFlight (S.op io).ctrlId).length < queueSize) : Queues (s.submit (S.op io)) where
  counter := by
    intro c
    simp only [State.submit, Function.update_apply]
    split
    next hc =>
      subst hc
      rw [h.counter, List.length_append, List.length_singleton, Nat.mod_eq_of_lt]
      exact (Nat.succ_lt_succ hroom).trans (by decide)
    · exact h.counter c
  length_le := by
    intro c
    simp only [State.submit, Function.update_apply]
    split
    next hc =>
      subst hc
      rw [List.length_append]
      exact hroom
    · exact h.length_le c
  outside := by
    intro c hc
    have hne : c ≠ (S.op io).ctrlId := ((S.op_ctrlId_lt io).trans_le hc).ne'
    simp only [State.submit, Function.update_of_ne hne]
    exact h.outside c hc

lemma Queues.complete (h : Queues s) {c : ℕ} {done rest : List Op}
    (hperm : (s.inFlight c).Perm (done ++ rest)) : Queues (s.complete c done rest) := by
  have hlen : (s.inFlight c).length = done.length + rest.length := by
    rw [hperm.length_eq, List.length_append]
  refine ⟨?_, ?_, ?_⟩
  · intro c'
    simp only [State.complete, Function.update_apply]
    split
    · have hle := h.length_le c
      rw [h.counter, sizeSub_eq, hlen, Nat.add_sub_cancel_left]
      · rw [hlen]
        exact Nat.le_add_right ..
      · exact hle.trans_lt (by decide)
    · exact h.counter c'
  · intro c'
    simp only [State.complete, Function.update_apply]
    split
    · exact (Nat.le_add_left ..).trans (hlen.symm.trans_le (h.length_le c))
    · exact h.length_le c'
  · intro c' hc'
    simp only [State.complete, Function.update_apply]
    split
    next heq =>
      subst heq
      rw [h.outside c' hc'] at hperm
      exact (List.append_eq_nil_iff.1 hperm.nil_eq.symm).2
    · exact h.outside c' hc'

lemma Queues.of_eq {s' : State S} (h : Queues s) (hcounter : s'.outstandingIoOps = s.outstandingIoOps)
    (hflight : s'.inFlight = s.inFlight) : Queues s' := by
  refine ⟨?_, ?_, ?_⟩
  · rw [hcounter, hflight]
    exact h.counter
  · rw [hflight]
    exact h.length_le
  · rw [hflight]
    exact h.outside

/-! ### Accounts of a step -/

/-- One controller among all of them. -/
lemma flatMap_update_perm {f : ℕ → List Op} {c n : ℕ} (hc : c < n) (l : List Op) :
    ((List.range n).flatMap (Function.update f c l) ++ f c).Perm ((List.range n).flatMap f ++ l) := by
  induction n with
  | zero => cases hc
  | succ n ih =>
    rw [List.range_succ, List.flatMap_append, List.flatMap_append, List.flatMap_singleton,
      List.flatMap_singleton]
    rcases Nat.lt_succ_iff_lt_or_eq.1 hc with hc | rfl
    · rw [Function.update_of_ne hc.ne']
      have hswap : ∀ l₁ l₂ : List Op, (l₁ ++ f n ++ l₂).Perm (l₁ ++ l₂ ++ f n) := by
        intro l₁ l₂
        rw [List.append_assoc, List.append_assoc]
        exact List.Perm.append_left _ List.perm_append_comm
      exact (hswap _ (f c)).trans (((ih hc).append_right (f n)).trans (hswap _ l).symm)
    · have hsame : (List.range c).flatMap (Function.update f c l) = (List.range c).flatMap f := by
        refine List.flatMap_congr fun d hd => ?_
        rw [Function.update_of_ne (List.mem_range.1 hd).ne]
      rw [hsame, Function.update_self, List.append_assoc, List.append_assoc]
      exact List.Perm.append_left _ List.perm_append_comm

lemma foldl_completionCb (done : List Op) (valid : ℕ → ℕ) (v : ℕ) :
    done.foldl State.completionCb valid v = valid v + done.countP fun op => op.req.valid = v := by
  induction done generalizing valid with
  | nil => rfl
  | cons op done ih =>
    rw [List.foldl_cons, ih, List.countP_cons, State.completionCb, Function.update_apply]
    by_cases h : op.req.valid = v
    · simp only [h, if_true, decide_true]
      ring
    · simp [h, Ne.symm h]

lemma Setup.ops_append (ios ios' : List NodeIo) : S.ops (ios ++ ios') = S.ops ios ++ S.ops ios' := by
  rw [Setup.ops, List.filter_append, List.map_append]
  rfl

lemma Accounts.complete (h : Accounts s) {c : ℕ} (hc : c < S.numControllers) {done rest : List Op}
    (hperm : (s.inFlight c).Perm (done ++ rest)) : Accounts (s.complete c done rest) where
  submitted := h.submitted
  completed := by
    have hflight : (s.complete c done rest).allInFlight
        = (List.range S.numControllers).flatMap (Function.update s.inFlight c rest) := rfl
    have hmove : (s.allInFlight ++ rest).Perm (done ++ (s.complete c done rest).allInFlight ++ rest) := by
      rw [hflight]
      refine (flatMap_update_perm hc rest).symm.trans ?_
      refine (hperm.append_left _).trans ?_
      rw [← List.append_assoc]
      exact List.perm_append_comm.append_right _
    have hall := (List.perm_append_right_iff _).1 hmove
    refine h.completed.trans ((hall.append_left _).trans ?_)
    rw [← List.append_assoc]
    exact List.Perm.refl _
  valid := by
    intro v
    show done.foldl State.completionCb s.valid v = (s.completed ++ done).countP _
    rw [foldl_completionCb, List.countP_append, h.valid]

lemma Accounts.submit (h : Accounts s) {n : ℕ} {io : NodeIo} {ios : List NodeIo}
    (hpc : s.pc = .issue n (io :: ios)) (hnop : ¬ io.IsNop) :
    Accounts { s.submit (S.op io) with pc := .issue n ios } where
  submitted := by
    have hsub := h.submitted
    rw [hpc] at hsub
    have hops : S.ops (io :: ios) = S.op io :: S.ops ios := by
      rw [Setup.ops, List.filter_cons_of_pos (by simpa using hnop)]
      rfl
    refine Eq.trans ?_ hsub
    show s.submitted ++ [S.op io] ++ S.ops ios = s.submitted ++ S.ops (io :: ios)
    rw [hops, List.append_assoc]
    rfl
  completed := by
    have hmove := flatMap_update_perm (f := s.inFlight) (S.op_ctrlId_lt io)
      (s.inFlight (S.op io).ctrlId ++ [S.op io])
    rw [← List.append_assoc] at hmove
    refine (h.completed.append_right [S.op io]).trans ?_
    rw [List.append_assoc]
    refine List.Perm.append_left _ ?_
    refine (List.perm_append_right_iff (s.inFlight (S.op io).ctrlId)).1 ?_
    refine List.Perm.trans ?_ hmove.symm
    rw [List.append_assoc, List.append_assoc]
    exact List.Perm.append_left _ List.perm_append_comm
  valid := h.valid

lemma Accounts.of_eq {s' : State S} (h : Accounts s) (hsub : s'.submitted = s.submitted)
    (hrest : S.ops s'.pc.rest = S.ops s.pc.rest) (hdeq : s'.dequeued = s.dequeued)
    (hcomp : s'.completed = s.completed) (hflight : s'.inFlight = s.inFlight)
    (hvalid : s'.valid = s.valid) : Accounts s' := by
  refine ⟨?_, ?_, ?_⟩
  · rw [hsub, hrest, hdeq]
    exact h.submitted
  · rw [hsub, hcomp, State.allInFlight, hflight]
    exact h.completed
  · rw [hvalid, hcomp]
    exact h.valid

/-! ### Steps -/

structure Inv (s : State S) : Prop where
  queues : Queues s
  accounts : Accounts s
  control : Control s

lemma inv_init (fifo : List (Batch S)) : Inv (State.init fifo) where
  queues := ⟨fun _ => rfl, fun _ => Nat.zero_le _, fun _ _ => rfl⟩
  accounts := by
    refine ⟨rfl, ?_, fun _ => rfl⟩
    have hnil : (State.init fifo).allInFlight = [] := List.flatMap_eq_nil_iff.2 fun _ _ => rfl
    rw [hnil]
    exact List.Perm.refl _
  control := by
    refine ⟨?_, ?_, ?_, ?_⟩
    · rintro n rest ⟨⟩
    · rintro k ⟨⟩
    · rintro rc ⟨⟩
    · rintro ⟨⟩

lemma Queues.counter_pos (h : Queues s) {c : ℕ} (hpos : ¬ 0 < s.outstandingIoOps c) : s.inFlight c = [] := by
  rw [h.counter] at hpos
  exact List.eq_nil_of_length_eq_zero (Nat.eq_zero_of_not_pos hpos)

/-- A poll of a controller, at a place `pc` of the loops after the submissions. -/
lemma Inv.processCompletions {s' : State S} (h : Inv s) {c : ℕ} (hc : c < S.numControllers)
    {done rest : List Op} (hstep : s.processCompletions c done rest = some s') :
    Queues s' ∧ Accounts s' ∧ s'.pc = s.pc ∧ ∀ d, s.inFlight d = [] → s'.inFlight d = [] := by
  rw [State.processCompletions] at hstep
  split at hstep
  · split at hstep
    next hperm =>
      cases hstep
      refine ⟨h.queues.complete hperm, h.accounts.complete hc hperm, rfl, ?_⟩
      intro d hd
      simp only [State.complete, Function.update_apply]
      split
      next heq =>
        subst heq
        rw [hd] at hperm
        exact (List.append_eq_nil_iff.1 hperm.nil_eq.symm).2
      · exact hd
    · cases hstep
  · cases hstep
    exact ⟨h.queues, h.accounts, rfl, fun _ hd => hd⟩

/-- What holds after a step to a place that is not in the middle of a batch. -/
lemma Control.of_pc {s' : State S}
    (hissue : ∀ n rest, s'.pc ≠ .issue n rest) (hdrain : ∀ k, s'.pc = .drain k → ∀ c < k, s'.inFlight c = [])
    (hreturn : ∀ rc, s'.pc ≠ .returned rc) (habort : s'.pc ≠ .aborted) : Control s' where
  budget n rest hpc := absurd hpc (hissue n rest)
  drained := hdrain
  returned rc hpc := absurd hpc (hreturn rc)
  not_aborted := habort

/-- The thread takes a step. -/
lemma Inv.run (hspdk : ∀ n < queueSize, S.accepts n = true) {s' : State S} (h : Inv s)
    {done rest : List Op} (hstep : s.run done rest = some s') : Inv s' := by
  rw [State.run] at hstep
  split at hstep
  next hpc =>
    cases hstep
    refine ⟨h.queues.of_eq rfl rfl, h.accounts.of_eq rfl ?_ rfl rfl rfl rfl, ?_⟩
    · rw [hpc]
      dsimp only
      split <;> rfl
    · refine Control.of_pc ?_ ?_ ?_ ?_ <;> dsimp only <;> split <;> simp
  next hpc =>
    cases hstep
    refine ⟨h.queues.of_eq rfl rfl, h.accounts.of_eq rfl ?_ rfl rfl rfl rfl, ?_, ?_, ?_, ?_⟩
    · rw [hpc]
      rfl
    · rintro n rest ⟨⟩
      refine ⟨min_le_right .., fun c => ?_⟩
      exact h.queues.numBatches_fit c
    · rintro k ⟨⟩
    · rintro rc ⟨⟩
    · rintro ⟨⟩
  next n io ios hpc =>
    obtain ⟨hfifo, hbudget⟩ := h.control.budget n _ hpc
    split at hstep
    next hnop =>
      cases hstep
      refine ⟨h.queues.of_eq rfl rfl, h.accounts.of_eq rfl ?_ rfl rfl rfl rfl, ?_, ?_, ?_, ?_⟩
      · rw [hpc]
        show S.ops ios = S.ops (io :: ios)
        rw [Setup.ops, Setup.ops, List.filter_cons_of_neg (by simpa using hnop)]
      · rintro n rest ⟨⟩
        refine ⟨hfifo, fun c => ?_⟩
        have := hbudget c
        rw [List.length_cons] at this
        show (s.inFlight c).length + _ ≤ _
        omega
      · rintro k ⟨⟩
      · rintro rc ⟨⟩
      · rintro ⟨⟩
    next hnop =>
      have hroom : (s.inFlight (S.op io).ctrlId).length < queueSize := by
        have := hbudget (S.op io).ctrlId
        rw [List.length_cons] at this
        omega
      rw [if_pos (hspdk _ hroom)] at hstep
      cases hstep
      refine ⟨(h.queues.submit io hroom).of_eq rfl rfl, h.accounts.submit hpc hnop, ?_, ?_, ?_, ?_⟩
      · rintro n rest ⟨⟩
        refine ⟨hfifo, fun c => ?_⟩
        have := hbudget c
        rw [List.length_cons] at this
        have hlen : ((s.submit (S.op io)).inFlight c).length ≤ (s.inFlight c).length + 1 := by
          simp only [State.submit, Function.update_apply]
          split
          next heq =>
            subst heq
            rw [List.length_append, List.length_singleton]
          · exact Nat.le_succ _
        show ((s.submit (S.op io)).inFlight c).length + _ ≤ _
        omega
      · rintro k ⟨⟩
      · rintro rc ⟨⟩
      · rintro ⟨⟩
  next n hpc =>
    obtain ⟨hfifo, hbudget⟩ := h.control.budget _ _ hpc
    split at hstep
    next hnil =>
      rw [hnil] at hfifo
      cases hfifo
    next batch fifo hcons =>
      cases hstep
      refine ⟨h.queues.of_eq rfl rfl, ⟨?_, h.accounts.completed, h.accounts.valid⟩, ?_, ?_, ?_, ?_⟩
      · have hsub := h.accounts.submitted
        rw [hpc] at hsub
        show s.submitted ++ S.ops (List.ofFn batch) = S.ops (s.dequeued ++ List.ofFn batch)
        rw [S.ops_append, ← hsub]
        exact congrArg (· ++ _) (List.append_nil _).symm
      · rintro n rest ⟨⟩
        rw [hcons] at hfifo
        refine ⟨Nat.le_of_succ_le_succ hfifo, fun c => ?_⟩
        have := hbudget c
        rw [Nat.succ_mul, List.length_nil] at this
        rw [List.length_ofFn]
        exact this
      · rintro k ⟨⟩
      · rintro rc ⟨⟩
      · rintro ⟨⟩
  next hpc =>
    cases hstep
    refine ⟨h.queues.of_eq rfl rfl, h.accounts.of_eq rfl ?_ rfl rfl rfl rfl, ?_⟩
    · rw [hpc]
      rfl
    · exact Control.of_pc (by simp) (by simp) (by simp) (by simp)
  next c hpc =>
    split at hstep
    next hc =>
      obtain ⟨s₁, hproc, rfl⟩ := Option.map_eq_some_iff.1 hstep
      obtain ⟨hqueues, haccounts, hpc₁, -⟩ := h.processCompletions hc hproc
      refine ⟨hqueues.of_eq rfl rfl, haccounts.of_eq rfl ?_ rfl rfl rfl rfl, ?_⟩
      · rw [hpc₁, hpc]
        rfl
      · exact Control.of_pc (by simp) (by simp) (by simp) (by simp)
    · cases hstep
      refine ⟨h.queues.of_eq rfl rfl, h.accounts.of_eq rfl ?_ rfl rfl rfl rfl, ?_⟩
      · rw [hpc]
        rfl
      · exact Control.of_pc (by simp) (by simp) (by simp) (by simp)
  next c hpc =>
    have hdrained := h.control.drained c hpc
    split at hstep
    next hc =>
      split at hstep
      · obtain ⟨hqueues, haccounts, hpc₁, hnil⟩ := h.processCompletions hc hstep
        rw [hpc] at hpc₁
        refine ⟨hqueues, haccounts, Control.of_pc ?_ ?_ ?_ ?_⟩ <;> rw [hpc₁]
        · simp
        · rintro k ⟨⟩ d hd
          exact hnil d (hdrained d hd)
        · simp
        · simp
      next hpos =>
        cases hstep
        refine ⟨h.queues.of_eq rfl rfl, h.accounts.of_eq rfl ?_ rfl rfl rfl rfl, ?_⟩
        · rw [hpc]
          rfl
        · refine Control.of_pc (by simp) ?_ (by simp) (by simp)
          rintro k ⟨⟩ d hd
          rcases Nat.lt_succ_iff_lt_or_eq.1 hd with hd | rfl
          · exact hdrained d hd
          · exact h.queues.counter_pos hpos
    next hc =>
      cases hstep
      refine ⟨h.queues.of_eq rfl rfl, h.accounts.of_eq rfl ?_ rfl rfl rfl rfl, ?_, ?_, ?_, ?_⟩
      · rw [hpc]
        rfl
      · rintro n rest ⟨⟩
      · rintro k ⟨⟩
      · rintro rc ⟨⟩
        refine ⟨rfl, fun d => ?_⟩
        rcases Nat.lt_or_ge d c with hd | hd
        · exact hdrained d hd
        · exact h.queues.outside d ((Nat.le_of_not_lt hc).trans hd)
      · rintro ⟨⟩
  next => cases hstep
  next => cases hstep

lemma Inv.step (hspdk : ∀ n < queueSize, S.accepts n = true) {s' : State S} (h : Inv s) {a : Action S}
    (hstep : step s a = some s') : Inv s' := by
  cases a with
  | enqueue batch =>
    cases hstep
    refine ⟨h.queues.of_eq rfl rfl, h.accounts.of_eq rfl rfl rfl rfl rfl rfl, ?_, h.control.drained,
      h.control.returned, h.control.not_aborted⟩
    intro n rest hpc
    obtain ⟨hfifo, hbudget⟩ := h.control.budget n rest hpc
    refine ⟨hfifo.trans ?_, hbudget⟩
    exact (Nat.le_add_right ..).trans_eq List.length_append.symm
  | terminate =>
    cases hstep
    exact ⟨h.queues.of_eq rfl rfl, h.accounts.of_eq rfl rfl rfl rfl rfl rfl, h.control.budget,
      h.control.drained, h.control.returned, h.control.not_aborted⟩
  | run done rest => exact h.run hspdk hstep

lemma inv_of_reachable (hspdk : ∀ n < queueSize, S.accepts n = true) {fifo : List (Batch S)}
    (h : Reachable step (State.init fifo) s) : Inv s :=
  h.invariant (inv_init fifo) fun _ _ _ hs hstep => hs.step hspdk hstep

/-- In every run, with any completions and any requests: a submission finds room, the counters of the
queue pairs are right and never wrap, every entry is submitted and completed once, and `process` returns
when nothing is outstanding. -/
theorem queueDiscipline (hspdk : ∀ n < queueSize, S.accepts n = true) {fifo : List (Batch S)}
    (h : Reachable step (State.init fifo) s) :
    (∀ n io ios, s.pc = .issue n (io :: ios) → ¬ io.IsNop →
      (s.inFlight (S.op io).ctrlId).length < queueSize) ∧
    (∀ c, s.outstandingIoOps c = (s.inFlight c).length ∧ s.outstandingIoOps c ≤ queueSize ∧
      s.freeSlots c + s.outstandingIoOps c = queueSize ∧
      ∀ done rest, (s.inFlight c).Perm (done ++ rest) →
        (s.complete c done rest).outstandingIoOps c + done.length = s.outstandingIoOps c) ∧
    s.submitted ++ S.ops s.pc.rest = S.ops s.dequeued ∧
    s.submitted.Perm (s.completed ++ s.allInFlight) ∧
    (∀ v, s.valid v = s.completed.countP fun op => op.req.valid = v) ∧
    (∀ rc, s.pc = .returned rc → rc = true ∧ (∀ c, s.outstandingIoOps c = 0) ∧
      (S.ops s.dequeued).Perm s.completed) ∧
    s.pc ≠ .aborted := by
  have hinv := inv_of_reachable hspdk h
  refine ⟨?_, ?_, hinv.accounts.submitted, hinv.accounts.completed, hinv.accounts.valid, ?_,
    hinv.control.not_aborted⟩
  · intro n io ios hpc _
    obtain ⟨-, hbudget⟩ := hinv.control.budget n _ hpc
    have := hbudget (S.op io).ctrlId
    rw [List.length_cons] at this
    omega
  · intro c
    have hcounter := hinv.queues.counter c
    have hle := hinv.queues.length_le c
    refine ⟨hcounter, hcounter.trans_le hle, ?_, ?_⟩
    · rw [hinv.queues.freeSlots_eq, hcounter, Nat.sub_add_cancel hle]
    · intro done rest hperm
      have hrest : (s.complete c done rest).inFlight c = rest := Function.update_self ..
      rw [(hinv.queues.complete hperm).counter, hrest, hcounter, hperm.length_eq, List.length_append,
        Nat.add_comm]
  · intro rc hpc
    obtain ⟨hrc, hnil⟩ := hinv.control.returned rc hpc
    refine ⟨hrc, ?_, ?_⟩
    · intro c
      rw [hinv.queues.counter, hnil]
      rfl
    · have hsub := hinv.accounts.submitted
      have hcomp := hinv.accounts.completed
      have hall : s.allInFlight = [] := List.flatMap_eq_nil_iff.2 fun c _ => hnil c
      rw [hpc] at hsub
      rw [hall, List.append_nil] at hcomp
      rw [← hsub]
      exact (List.Perm.of_eq (List.append_nil _)).trans hcomp

end Invariant

/-- Two controllers and batches of two entries. -/
def pairSetup : Setup :=
  ⟨⟨9, 2, 0, Config.one_sector_le, by decide⟩, 2, Nat.two_pos, 2, Nat.two_pos, 0,
    fun n => decide (n < queueSize)⟩

/-- A read of node 300 and no second request. -/
def pairBatch : Batch pairSetup := fun j => if j.val = 0 then ⟨300, .read, 5, 0⟩ else ⟨0, .nop, 6, 0⟩

/-- A round with the batch, in which the operation is still outstanding after the poll, and the end. -/
def pairRun : List (Action pairSetup) :=
  let op := pairSetup.op ⟨300, .read, 5, 0⟩
  [.run [] [], .enqueue pairBatch, .run [] [], .run [] [], .run [] [], .run [] [], .run [] [],
    .run [] [op], .run [] [], .run [] [], .terminate, .run [] [], .run [op] [], .run [] [], .run [] [],
    .run [] []]

/-- The run with one read. -/
theorem queueDiscipline_pair : ∃ s, runList step (State.init []) pairRun = some s ∧
    s.pc = .returned true ∧ s.valid 5 = 1 ∧ ∀ c, s.outstandingIoOps c = 0 := by
  obtain ⟨s, hrun, hs⟩ := Option.map_eq_some_iff.1
    (show (runList step (State.init []) pairRun).map (fun s => (s.pc, s.valid 5))
      = some (.returned true, 1) by decide)
  have hreach : Reachable step (State.init []) s := ReachableVia.of_runList hrun (by simp) .start
  obtain ⟨hpc, hvalid⟩ := Prod.mk.injEq .. ▸ hs
  have hdone := queueDiscipline (by simp [pairSetup]) hreach
  exact ⟨s, hrun, hpc, hvalid, (hdone.2.2.2.2.2.1 true hpc).2.1⟩

end NodeRw

end SupraSeal
