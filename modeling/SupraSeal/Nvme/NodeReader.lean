import SupraSeal.Nvme.NodeRw
import SupraSeal.Sealing.FieldElement
import Mathlib.Algebra.Ring.Parity

/-!
# Single nodes for C1

`load_nodes` and `get_node` of `nvme/streaming_node_reader_nvme.cpp`, with the thread that serves the
requests, and `get_node` of `c1/streaming_node_reader_files.hpp`. Pages are numbered from the first page
of the slot. The queue of the reader has one producer, the caller.
-/

namespace SupraSeal

open Transition NodeRw

namespace NodeReader

/-- The size of `node_read_fifo`. -/
def fifoCapacity : ℕ := 4 * queueSize

/-- A call of `load_nodes`: its nodes and its local counter. The files of a sector hold the labels that
are on the disks, in the byte order of files. -/
structure Load (S : NodeRw.Setup) where
  nodes : List (ℕ × ℕ)
  valid : ℕ
  disk : Disk
  layerFiles : ℕ → ℕ → ℕ → Node
  batchSize_eq : S.batchSize = 1
  nodes_lt : ∀ p ∈ nodes, p.1 < S.config.numLayers ∧ p.2 < S.config.numNodes
  sameLabels : ∀ layer < S.config.numLayers, ∀ node < S.config.numNodes, ∀ x < S.config.parallelSectors,
    (nodeRead S.config S.numControllers S.blockOffset disk (S.config.nodeId layer node)
      (S.config.nodePos (node % S.config.nodesPerPage) x)).reverseL = layerFiles x layer node

inductive Pc
  /-- `load_nodes` looks at an entry of the list. -/
  | enqueue (i : ℕ)
  | wait
  | done
  deriving DecidableEq

structure State (S : NodeRw.Setup) where
  rw : NodeRw.State S
  pages : ℕ → Page
  pc : Pc
  /-- The entries that were requested. -/
  requested : List ℕ
  /-- The calls of `get_node` so far, and what they returned. -/
  calls : List (ℕ × ℕ)
  results : List Node

inductive Action
  /-- The thread of the reader goes on, as in `NodeRw.Action`. -/
  | reader (done rest : List Op)
  /-- The caller goes on in `load_nodes`. -/
  | load
  | getNode (idx sectorSlot : ℕ)

namespace Load

variable {S : NodeRw.Setup} (K : Load S)

/-- The node of an entry. -/
def node (i : ℕ) : ℕ × ℕ := K.nodes.getD i (0, 0)

def request (i : ℕ) : NodeRw.NodeIo := ⟨S.config.nodeId (K.node i).1 (K.node i).2, .read, K.valid, i⟩

/-- A completed read has filled its page. -/
def fillPage (pages : ℕ → Page) (op : Op) : ℕ → Page :=
  if op.req.type = .read then
    Function.update pages op.req.buf
      (nodeRead S.config S.numControllers S.blockOffset K.disk op.req.node)
  else pages

/-- `get_node` of the file reader. -/
def fileGetNode (idx sectorSlot : ℕ) : Node :=
  K.layerFiles sectorSlot (K.node idx).1 (K.node idx).2

/-- The caller in `load_nodes`. -/
def load (s : State S) : Option (State S) :=
  match s.pc with
  | .enqueue i =>
    if i < K.nodes.length then
      if s.rw.fifo.length = fifoCapacity then some { s with pc := .enqueue (i + 1) }
      else some { s with
        rw := { s.rw with fifo := s.rw.fifo ++ [fun _ => K.request i] }
        requested := s.requested ++ [i]
        pc := .enqueue (i + 1) }
    else some { s with pc := .wait }
  | .wait => if s.rw.valid K.valid < K.nodes.length then some s else some { s with pc := .done }
  | .done => none

def step (s : State S) : Action → Option (State S)
  | .reader done rest => (s.rw.run done rest).map fun rw =>
    { s with rw := rw, pages := (rw.completed.drop s.rw.completed.length).foldl K.fillPage s.pages }
  | .load => K.load s
  | .getNode idx sectorSlot =>
    if s.pc = .done ∧ idx < K.nodes.length ∧ sectorSlot < S.config.parallelSectors then
      let (n, pages) := SupraSeal.getNode S.config K.nodes s.pages idx sectorSlot
      some { s with
        pages := pages, calls := s.calls ++ [(idx, sectorSlot)], results := s.results ++ [n] }
    else none

end Load

/-- The reader when `load_nodes` is called: its thread has run before, for requests of other slots. -/
structure Entry {S : NodeRw.Setup} (K : Load S) where
  rw : NodeRw.State S
  pages : ℕ → Page
  fifo : List (Batch S)
  reachable : Reachable NodeRw.step (NodeRw.State.init fifo) rw
  fifo_le : rw.fifo.length ≤ fifoCapacity
  others : ∀ io ∈ rw.dequeued ++ rw.fifo.flatMap List.ofFn, io.valid ≠ K.valid ∧ K.nodes.length ≤ io.buf

def Entry.init {S : NodeRw.Setup} {K : Load S} (E : Entry K) : State S :=
  ⟨E.rw, E.pages, .enqueue 0, [], [], []⟩

/-! ### The thread of the reader -/

section Reader

variable {S : NodeRw.Setup} {s s' : NodeRw.State S}

/-- All entries that were ever in the queue. -/
def entries (s : NodeRw.State S) : List NodeRw.NodeIo := s.dequeued ++ s.fifo.flatMap List.ofFn

lemma processCompletions_frame {c : ℕ} {done rest : List Op}
    (h : s.processCompletions c done rest = some s') :
    entries s' = entries s ∧ s'.fifo.length ≤ s.fifo.length ∧
      ∃ new, s'.completed = s.completed ++ new := by
  rw [NodeRw.State.processCompletions] at h
  split at h
  · split at h
    · cases h
      exact ⟨rfl, le_rfl, done, rfl⟩
    · cases h
  · cases h
    exact ⟨rfl, le_rfl, [], (List.append_nil _).symm⟩

/-- The thread takes entries over in their order, and what is completed stays so. -/
lemma run_frame {done rest : List Op} (h : s.run done rest = some s') :
    entries s' = entries s ∧ s'.fifo.length ≤ s.fifo.length ∧
      ∃ new, s'.completed = s.completed ++ new := by
  have hsame : ∀ s₁ : NodeRw.State S, s₁.dequeued = s.dequeued → s₁.fifo = s.fifo →
      s₁.completed = s.completed → entries s₁ = entries s ∧ s₁.fifo.length ≤ s.fifo.length ∧
        ∃ new, s₁.completed = s.completed ++ new := by
    intro s₁ hdequeued hfifo hcompleted
    refine ⟨by rw [entries, entries, hdequeued, hfifo], by rw [hfifo], [], ?_⟩
    rw [hcompleted, List.append_nil]
  rw [NodeRw.State.run] at h
  split at h
  · cases h
    exact hsame _ rfl rfl rfl
  · cases h
    exact hsame _ rfl rfl rfl
  · split at h
    · cases h
      exact hsame _ rfl rfl rfl
    · split at h
      · cases h
        exact hsame _ rfl rfl rfl
      · cases h
        exact hsame _ rfl rfl rfl
  · split at h
    · cases h
      exact hsame _ rfl rfl rfl
    next batch fifo hfifo =>
      cases h
      refine ⟨?_, ?_, [], (List.append_nil _).symm⟩
      · rw [entries, entries, hfifo, List.flatMap_cons, List.append_assoc]
      · rw [hfifo]
        exact Nat.le_succ _
  · cases h
    exact hsame _ rfl rfl rfl
  · split at h
    · obtain ⟨s₁, hproc, rfl⟩ := Option.map_eq_some_iff.1 h
      have hframe := processCompletions_frame hproc
      exact hframe
    · cases h
      exact hsame _ rfl rfl rfl
  · split at h
    · split at h
      · exact processCompletions_frame h
      · cases h
        exact hsame _ rfl rfl rfl
    · cases h
      exact hsame _ rfl rfl rfl
  · cases h
  · cases h

/-- The completed operations are among those of the entries. -/
lemma completed_subperm (h : NodeRw.Inv s) (v : ℕ) :
    (s.completed.filter fun op => op.req.valid = v).Subperm
      (((entries s).filter fun io => io.valid = v).map S.op) := by
  have hsub : s.completed.Subperm s.submitted :=
    ((List.sublist_append_left _ _).subperm).trans h.accounts.completed.symm.subperm
  refine (hsub.filter _).trans (List.Sublist.subperm ?_)
  have hops : s.submitted.Sublist (S.ops s.dequeued) := by
    rw [← h.accounts.submitted]
    exact List.sublist_append_left _ _
  have hall : (S.ops s.dequeued).Sublist ((entries s).map S.op) := by
    refine List.Sublist.map _ (List.filter_sublist.trans ?_)
    exact List.sublist_append_left _ _
  have hfilter := (hops.trans hall).filter fun op => decide (op.req.valid = v)
  rwa [List.filter_map] at hfilter

end Reader

/-! ### The invariant -/

namespace Load

variable {S : NodeRw.Setup} (K : Load S)

/-- How many entries the caller has looked at. -/
def looked : Pc → ℕ
  | .enqueue i => i
  | _ => K.nodes.length

/-- A label as it is on the disks. -/
def label (idx sectorSlot : ℕ) : Node :=
  nodeRead S.config S.numControllers S.blockOffset K.disk (S.config.nodeId (K.node idx).1 (K.node idx).2)
    (S.config.nodePos ((K.node idx).2 % S.config.nodesPerPage) sectorSlot)

lemma reverseL_label {idx sectorSlot : ℕ} (hidx : idx < K.nodes.length)
    (hslot : sectorSlot < S.config.parallelSectors) :
    (K.label idx sectorSlot).reverseL = K.fileGetNode idx sectorSlot := by
  have hmem : K.node idx ∈ K.nodes := by
    rw [node, List.getD_eq_getElem _ _ hidx]
    exact List.getElem_mem hidx
  obtain ⟨hlayer, hnode⟩ := K.nodes_lt _ hmem
  exact K.sameLabels _ hlayer _ hnode _ hslot

/-- What has been requested. -/
structure Requests (s : State S) : Prop where
  rw : NodeRw.Inv s.rw
  ours : ((entries s.rw).filter fun io => io.valid = K.valid) = s.requested.map K.request
  others : ∀ io ∈ entries s.rw, io.valid ≠ K.valid → K.nodes.length ≤ io.buf
  looked_le : K.looked s.pc ≤ K.nodes.length
  requested : s.requested.Sublist (List.range (K.looked s.pc))

structure Inv (s : State S) : Prop where
  requests : K.Requests s
  /-- The pages of completed reads, until they are used. -/
  filled : s.pc ≠ .done → ∀ op ∈ s.rw.completed, op.req.valid = K.valid → s.pages op.req.buf =
    nodeRead S.config S.numControllers S.blockOffset K.disk op.req.node
  /-- When `load_nodes` returns, each entry was requested once and read once. -/
  done : s.pc = .done → (s.rw.completed.filter fun op => op.req.valid = K.valid).Perm
    ((List.range K.nodes.length).map fun i => S.op (K.request i))
  calls_eq_nil : s.pc ≠ .done → s.calls = []
  /-- `get_node` reverses the node where it is. -/
  pages : s.pc = .done → ∀ i < K.nodes.length, ∀ x < S.config.parallelSectors,
    s.pages i (S.config.nodePos ((K.node i).2 % S.config.nodesPerPage) x) =
      Node.reverseL^[s.calls.count (i, x)] (K.label i x)

variable {K} {s s' : State S}

lemma Requests.mem_range (h : K.Requests s) {i : ℕ} (hi : i ∈ s.requested) : i < K.nodes.length :=
  (List.mem_range.1 (h.requested.subset hi)).trans_le h.looked_le

/-- The request of a completed operation. -/
lemma Requests.completed_req (h : K.Requests s) {op : Op} (hop : op ∈ s.rw.completed) :
    (op.req.valid = K.valid → ∃ i < K.nodes.length, op = S.op (K.request i)) ∧
      (op.req.valid ≠ K.valid → K.nodes.length ≤ op.req.buf) := by
  have hmem := (completed_subperm h.rw op.req.valid).subset
    (List.mem_filter.2 ⟨hop, decide_eq_true rfl⟩)
  obtain ⟨io, hio, rfl⟩ := List.mem_map.1 hmem
  constructor
  · intro hvalid
    have hio' : io ∈ (entries s.rw).filter fun io => io.valid = K.valid :=
      List.mem_filter.2 ⟨(List.mem_filter.1 hio).1, decide_eq_true hvalid⟩
    rw [h.ours] at hio'
    obtain ⟨i, hi, rfl⟩ := List.mem_map.1 hio'
    exact ⟨i, h.mem_range hi, rfl⟩
  · intro hvalid
    exact h.others io (List.mem_filter.1 hio).1 hvalid

lemma Requests.completed_subperm (h : K.Requests s) :
    (s.rw.completed.filter fun op => op.req.valid = K.valid).Subperm
      (s.requested.map fun i => S.op (K.request i)) := by
  have hsub := NodeReader.completed_subperm h.rw K.valid
  rwa [h.ours, List.map_map] at hsub

lemma Requests.length_requested_le (h : K.Requests s) : s.requested.length ≤ K.nodes.length := by
  have := h.requested.length_le
  rw [List.length_range] at this
  exact this.trans h.looked_le

/-- The pages of the slot while reads complete. -/
lemma foldl_fillPage {new : List Op}
    (hnew : ∀ op ∈ new, (op.req.valid = K.valid → ∃ i < K.nodes.length, op = S.op (K.request i)) ∧
      (op.req.valid ≠ K.valid → K.nodes.length ≤ op.req.buf))
    (pages : ℕ → Page) {i : ℕ} (hi : i < K.nodes.length) :
    new.foldl K.fillPage pages i = if S.op (K.request i) ∈ new then
      nodeRead S.config S.numControllers S.blockOffset K.disk (K.request i).node else pages i := by
  induction new generalizing pages with
  | nil => rfl
  | cons op new ih =>
    rw [List.foldl_cons, ih fun op' hop' => hnew op' (List.mem_cons_of_mem _ hop')]
    by_cases hmem : S.op (K.request i) ∈ new
    · rw [if_pos hmem, if_pos (List.mem_cons_of_mem _ hmem)]
    · rw [if_neg hmem]
      obtain ⟨hours, hothers⟩ := hnew op (List.mem_cons_self ..)
      by_cases hvalid : op.req.valid = K.valid
      · obtain ⟨j, hj, rfl⟩ := hours hvalid
        have hfill : K.fillPage pages (S.op (K.request j)) = Function.update pages j
            (nodeRead S.config S.numControllers S.blockOffset K.disk (K.request j).node) := rfl
        rw [hfill]
        by_cases hij : i = j
        · subst hij
          rw [Function.update_self, if_pos (List.mem_cons_self ..)]
        · have hne : S.op (K.request i) ≠ S.op (K.request j) := by
            intro heq
            exact hij (congrArg (fun op : Op => op.req.buf) heq)
          rw [Function.update_of_ne hij, if_neg]
          intro hcons
          exact (List.mem_cons.1 hcons).elim hne hmem
      · have hne : op.req.buf ≠ i := (hi.trans_le (hothers hvalid)).ne'
        have hfill : K.fillPage pages op i = pages i := by
          rw [fillPage]
          split
          · exact Function.update_of_ne hne.symm ..
          · rfl
        rw [hfill, if_neg]
        intro hcons
        rcases List.mem_cons.1 hcons with rfl | hcons
        · exact hvalid rfl
        · exact hmem hcons

lemma requests_init (hspdk : ∀ n < queueSize, S.accepts n = true) (E : Entry K) : K.Requests E.init where
  rw := NodeRw.inv_of_reachable hspdk E.reachable
  ours := by
    refine List.filter_eq_nil_iff.2 fun io hio => ?_
    simpa using (E.others io hio).1
  others io hio _ := (E.others io hio).2
  looked_le := Nat.zero_le _
  requested := List.nil_sublist _

lemma inv_init (hspdk : ∀ n < queueSize, S.accepts n = true) (E : Entry K) : K.Inv E.init where
  requests := requests_init hspdk E
  filled := by
    intro _ op hop hvalid
    obtain ⟨i, hi, -⟩ := List.mem_map.1 ((requests_init hspdk E).completed_subperm.subset
      (List.mem_filter.2 ⟨hop, decide_eq_true hvalid⟩))
    cases hi
  done := by
    rintro ⟨⟩
  calls_eq_nil _ := rfl
  pages := by
    rintro ⟨⟩

/-! ### Steps -/

/-- When all reads of the call are completed, later ones are of other calls. -/
lemma Inv.new_others (h : K.Inv s) (hdone : s.pc = .done) (hreq : K.Requests s') {new : List Op}
    (hnew : s'.rw.completed = s.rw.completed ++ new) : ∀ op ∈ new, op.req.valid ≠ K.valid := by
  have hlen := hreq.completed_subperm.length_le
  have hold := (h.done hdone).length_eq
  have hle := hreq.length_requested_le
  rw [hnew, List.length_map, List.filter_append, List.length_append, hold, List.length_map,
    List.length_range] at hlen
  have hnil : (new.filter fun op => op.req.valid = K.valid) = [] :=
    List.eq_nil_of_length_eq_zero (by omega)
  intro op hop hvalid
  exact List.filter_eq_nil_iff.1 hnil op hop (decide_eq_true hvalid)

lemma Inv.reader (hspdk : ∀ n < queueSize, S.accepts n = true) (h : K.Inv s) {done rest : List Op}
    (hstep : K.step s (.reader done rest) = some s') : K.Inv s' := by
  obtain ⟨rw', hrun, rfl⟩ := Option.map_eq_some_iff.1 hstep
  obtain ⟨hentries, -, new, hnew⟩ := run_frame hrun
  have hdrop : rw'.completed.drop s.rw.completed.length = new := by
    rw [hnew, List.drop_left]
  have hreq : K.Requests { s with rw := rw', pages := new.foldl K.fillPage s.pages } := by
    refine ⟨h.requests.rw.run hspdk hrun, ?_, ?_, h.requests.looked_le, h.requests.requested⟩
    · rw [hentries]
      exact h.requests.ours
    · rw [hentries]
      exact h.requests.others
  have hops := fun op (hop : op ∈ new) =>
    hreq.completed_req (hnew ▸ List.mem_append_right s.rw.completed hop)
  rw [hdrop]
  refine ⟨hreq, ?_, ?_, h.calls_eq_nil, ?_⟩
  · intro hpc op hop hvalid
    obtain ⟨i, hi, rfl⟩ := (hreq.completed_req hop).1 hvalid
    refine (foldl_fillPage hops s.pages hi).trans ?_
    split
    · rfl
    next hmem =>
      have hold : S.op (K.request i) ∈ s.rw.completed := by
        have hop' : S.op (K.request i) ∈ s.rw.completed ++ new := hnew ▸ hop
        exact (List.mem_append.1 hop').resolve_right hmem
      exact h.filled hpc _ hold hvalid
  · intro hpc
    have hothers := h.new_others hpc hreq hnew
    show (rw'.completed.filter _).Perm _
    have hnil : (new.filter fun op => op.req.valid = K.valid) = [] :=
      List.filter_eq_nil_iff.2 (by simpa using hothers)
    rw [hnew, List.filter_append, hnil, List.append_nil]
    exact h.done hpc
  · intro hpc i hi x hx
    have hothers := h.new_others hpc hreq hnew
    have hpage : new.foldl K.fillPage s.pages i = s.pages i := by
      rw [foldl_fillPage hops s.pages hi, if_neg]
      intro hmem
      exact hothers _ hmem rfl
    show (new.foldl K.fillPage s.pages i) _ = _
    rw [hpage]
    exact h.pages hpc i hi x hx

/-- `enqueue` of the request of an entry. -/
lemma entries_enqueue (i : ℕ) : entries { s.rw with fifo := s.rw.fifo ++ [fun _ => K.request i] }
    = entries s.rw ++ [K.request i] := by
  have hone : ∀ n, n = 1 → (List.ofFn fun _ : Fin n => K.request i) = [K.request i] := by
    rintro n rfl
    rfl
  rw [entries, entries, List.flatMap_append, List.flatMap_singleton, hone _ K.batchSize_eq,
    List.append_assoc]

lemma Inv.load (hspdk : ∀ n < queueSize, S.accepts n = true) (h : K.Inv s)
    (hstep : K.step s .load = some s') : K.Inv s' := by
  have hreq := h.requests
  change K.load s = some s' at hstep
  rw [Load.load] at hstep
  split at hstep
  next i hpc =>
    have hsub := hreq.requested
    have hne : s.pc ≠ .done := by
      rw [hpc]
      rintro ⟨⟩
    rw [hpc] at hsub
    have hle : (List.range i).Sublist (List.range (i + 1)) := List.range_sublist.2 (Nat.le_succ i)
    split at hstep
    next hi =>
      split at hstep
      · cases hstep
        refine ⟨⟨hreq.rw, hreq.ours, hreq.others, hi, hsub.trans hle⟩, fun _ => h.filled hne, ?_,
          fun _ => h.calls_eq_nil hne, ?_⟩
        · rintro ⟨⟩
        · rintro ⟨⟩
      · cases hstep
        refine ⟨⟨?_, ?_, ?_, hi, ?_⟩, fun _ => h.filled hne, ?_, fun _ => h.calls_eq_nil hne, ?_⟩
        · exact hreq.rw.step hspdk (a := .enqueue fun _ => K.request i) rfl
        · rw [entries_enqueue, List.filter_append, hreq.ours, List.map_append]
          refine congrArg (_ ++ ·) ?_
          exact List.filter_cons_of_pos (decide_eq_true rfl)
        · rw [entries_enqueue]
          intro io hio hvalid
          rcases List.mem_append.1 hio with hio | hio
          · exact hreq.others io hio hvalid
          · rw [List.mem_singleton.1 hio] at hvalid
            exact absurd rfl hvalid
        · show (s.requested ++ [i]).Sublist (List.range (i + 1))
          rw [List.range_succ]
          exact hsub.append (List.Sublist.refl _)
        · rintro ⟨⟩
        · rintro ⟨⟩
    next hi =>
      cases hstep
      have hlooked := hreq.looked_le
      rw [hpc] at hlooked
      refine ⟨⟨hreq.rw, hreq.ours, hreq.others, le_rfl, ?_⟩, fun _ => h.filled hne, ?_,
        fun _ => h.calls_eq_nil hne, ?_⟩
      · exact hsub.trans (List.range_sublist.2 hlooked)
      · rintro ⟨⟩
      · rintro ⟨⟩
  next hpc =>
    have hne : s.pc ≠ .done := by
      rw [hpc]
      rintro ⟨⟩
    split at hstep
    · cases hstep
      exact h
    next hvalid =>
      cases hstep
      -- as many reads have completed as the list is long, so none was skipped
      have hcount : K.nodes.length ≤ (s.rw.completed.filter fun op => op.req.valid = K.valid).length := by
        rw [hreq.rw.accounts.valid, List.countP_eq_length_filter] at hvalid
        exact Nat.le_of_not_lt hvalid
      have hlen := hreq.completed_subperm.length_le
      have hsub := hreq.requested
      rw [hpc] at hsub
      have hall : s.requested = List.range K.nodes.length := by
        refine hsub.eq_of_length_le ?_
        rw [List.length_map] at hlen
        exact List.length_range.trans_le (hcount.trans hlen)
      have hperm : (s.rw.completed.filter fun op => op.req.valid = K.valid).Perm
          ((List.range K.nodes.length).map fun i => S.op (K.request i)) := by
        rw [← hall]
        refine hreq.completed_subperm.perm_of_length_le ?_
        rw [hall, List.length_map, List.length_range]
        exact hcount
      refine ⟨⟨hreq.rw, hreq.ours, hreq.others, le_rfl, hsub⟩, ?_, fun _ => hperm, ?_, ?_⟩
      · intro hdone
        exact absurd rfl hdone
      · intro hdone
        exact absurd rfl hdone
      · intro _ i hi x _
        have hmem := hperm.symm.subset (List.mem_map.2 ⟨i, List.mem_range.2 hi, rfl⟩)
        have hpage := h.filled hne _ (List.mem_filter.1 hmem).1 rfl
        show s.pages i _ = _
        rw [h.calls_eq_nil hne]
        exact congrFun hpage _
  next => cases hstep

lemma nodePos_inj {C : Config} {i x y : ℕ} (h : C.nodePos i x = C.nodePos i y) : x = y := by
  rw [Config.nodePos, Config.nodePos] at h
  exact Nat.add_left_cancel (Nat.eq_of_mul_eq_mul_right (by decide) h)

/-- What `get_node` returns, and the calls after it. -/
lemma getNode_inversion {idx sectorSlot : ℕ} (hstep : K.step s (.getNode idx sectorSlot) = some s') :
    s.pc = .done ∧ idx < K.nodes.length ∧ sectorSlot < S.config.parallelSectors ∧
      s' = { s with
        pages := (SupraSeal.getNode S.config K.nodes s.pages idx sectorSlot).2
        calls := s.calls ++ [(idx, sectorSlot)]
        results := s.results ++ [(SupraSeal.getNode S.config K.nodes s.pages idx sectorSlot).1] } := by
  rw [step] at hstep
  split at hstep
  next hguard =>
    cases hstep
    exact ⟨hguard.1, hguard.2.1, hguard.2.2, rfl⟩
  next => cases hstep

lemma Inv.getNode (h : K.Inv s) {idx sectorSlot : ℕ}
    (hstep : K.step s (.getNode idx sectorSlot) = some s') : K.Inv s' := by
  obtain ⟨hdone, hidx, hslot, rfl⟩ := getNode_inversion hstep
  have hreq := h.requests
  refine ⟨⟨hreq.rw, hreq.ours, hreq.others, hreq.looked_le, hreq.requested⟩, ?_, h.done, ?_, ?_⟩
  · intro hne
    exact absurd hdone hne
  · intro hne
    exact absurd hdone hne
  · intro _ i hi x hx
    have hold := h.pages hdone i hi x hx
    simp only [SupraSeal.getNode, List.count_append, List.count_singleton]
    by_cases hi' : i = idx
    · subst hi'
      rw [Function.update_self]
      by_cases hx' : x = sectorSlot
      · subst hx'
        simp only [Load.node] at hold
        simp only [Load.node, Function.update_self, hold, beq_self_eq_true, if_true]
        exact (Function.iterate_succ_apply' ..).symm
      · have hpos : S.config.nodePos ((K.node i).2 % S.config.nodesPerPage) x ≠
            S.config.nodePos ((K.node i).2 % S.config.nodesPerPage) sectorSlot := mt nodePos_inj hx'
        have hcall : ((i, sectorSlot) == (i, x)) = false := by simpa using Ne.symm hx'
        rw [hcall]
        exact (Function.update_of_ne hpos ..).trans hold
    · have hcall : ((idx, sectorSlot) == (i, x)) = false := by
        simpa using fun heq => absurd heq.symm hi'
      rw [Function.update_of_ne hi', hcall]
      exact hold

lemma Inv.step (hspdk : ∀ n < queueSize, S.accepts n = true) (h : K.Inv s) {a : Action}
    (hstep : K.step s a = some s') : K.Inv s' := by
  cases a with
  | reader done rest => exact h.reader hspdk hstep
  | load => exact h.load hspdk hstep
  | getNode idx sectorSlot => exact h.getNode hstep

/-! ### The claim of the readers -/

/-- `load_nodes` has requested what it looked at, each entry once; when it returns, each was read once,
and `get_node` has returned what it returns for files. -/
def Agrees (K : Load S) (s : State S) : Prop :=
  s.requested = List.range (K.looked s.pc) ∧
    (s.pc = .done → (s.rw.completed.filter fun op => op.req.valid = K.valid).Perm
      ((List.range K.nodes.length).map fun i => S.op (K.request i))) ∧
    s.results = s.calls.map fun c => K.fileGetNode c.1 c.2

/-- Before the step: the queue has room when `load_nodes` looks at it, and `get_node` has reversed the
node an even number of times, or that makes no difference. -/
def Meets (K : Load S) (s : State S) : Action → Prop
  | .reader _ _ => True
  | .load => ∀ i < K.nodes.length, s.pc = .enqueue i → s.rw.fifo.length ≠ fifoCapacity
  | .getNode idx sectorSlot => Even (s.calls.count (idx, sectorSlot)) ∨
      (K.label idx sectorSlot).reverseL = K.label idx sectorSlot

lemma reverseL_involutive : Function.Involutive Node.reverseL := Node.reverseL_reverseL

/-- What `get_node` returns next. -/
lemma Inv.getNode_result (h : K.Inv s) {idx sectorSlot : ℕ} (hdone : s.pc = .done)
    (hidx : idx < K.nodes.length) (hslot : sectorSlot < S.config.parallelSectors) :
    (SupraSeal.getNode S.config K.nodes s.pages idx sectorSlot).1
      = (Node.reverseL^[s.calls.count (idx, sectorSlot)] (K.label idx sectorSlot)).reverseL :=
  congrArg Node.reverseL (h.pages hdone idx hidx sectorSlot hslot)

/-- It is the node of the file exactly when the condition is met. -/
lemma getNode_eq_file_iff {idx sectorSlot : ℕ} (n : ℕ) (hidx : idx < K.nodes.length)
    (hslot : sectorSlot < S.config.parallelSectors) :
    (Node.reverseL^[n] (K.label idx sectorSlot)).reverseL = K.fileGetNode idx sectorSlot ↔
      Even n ∨ (K.label idx sectorSlot).reverseL = K.label idx sectorSlot := by
  rw [← K.reverseL_label hidx hslot, reverseL_involutive.injective.eq_iff]
  rcases Nat.even_or_odd n with heven | hodd
  · rw [reverseL_involutive.iterate_even heven]
    simp [heven]
  · rw [reverseL_involutive.iterate_odd hodd]
    simp [Nat.not_even_iff_odd.2 hodd]

lemma Agrees.step (hinv : K.Inv s) (h : K.Agrees s) (hinv' : K.Inv s') {a : Action}
    (hstep : K.step s a = some s') : K.Agrees s' ↔ K.Meets s a := by
  obtain ⟨hreq, -, hresults⟩ := h
  cases a with
  | reader done rest =>
    obtain ⟨rw', hrun, rfl⟩ := Option.map_eq_some_iff.1 hstep
    exact iff_of_true ⟨hreq, hinv'.done, hresults⟩ trivial
  | load =>
    change K.load s = some s' at hstep
    rw [Load.load] at hstep
    split at hstep
    next i hpc =>
      rw [hpc] at hreq
      split at hstep
      next hi =>
        split at hstep
        next hfull =>
          cases hstep
          refine iff_of_false ?_ ?_
          · rintro ⟨hreq', -⟩
            have hlen := congrArg List.length (hreq.symm.trans hreq')
            rw [List.length_range, List.length_range] at hlen
            exact absurd hlen (Nat.succ_ne_self i).symm
          · intro hmeets
            exact hmeets i hi hpc hfull
        next hroom =>
          cases hstep
          refine iff_of_true ⟨?_, hinv'.done, hresults⟩ fun _ _ _ => hroom
          show s.requested ++ [i] = List.range (i + 1)
          rw [hreq, List.range_succ]
          rfl
      next hi =>
        cases hstep
        have hlooked := hinv.requests.looked_le
        rw [hpc] at hlooked
        have hend : i = K.nodes.length := le_antisymm hlooked (Nat.le_of_not_lt hi)
        refine iff_of_true ⟨?_, hinv'.done, hresults⟩ ?_
        · exact hreq.trans (congrArg List.range hend)
        · intro j hj hpc'
          rw [hpc] at hpc'
          cases hpc'
          exact absurd hj hi
    next hpc =>
      have hmeets : K.Meets s .load := by
        intro i _ hpc'
        rw [hpc] at hpc'
        cases hpc'
      rw [hpc] at hreq
      split at hstep
      · cases hstep
        refine iff_of_true ⟨?_, hinv'.done, hresults⟩ hmeets
        rw [hpc]
        exact hreq
      · cases hstep
        exact iff_of_true ⟨hreq, hinv'.done, hresults⟩ hmeets
    next => cases hstep
  | getNode idx sectorSlot =>
    obtain ⟨hdone, hidx, hslot, rfl⟩ := getNode_inversion hstep
    have hresult := hinv.getNode_result hdone hidx hslot
    have hiff := getNode_eq_file_iff (K := K) (s.calls.count (idx, sectorSlot)) hidx hslot
    rw [← hresult] at hiff
    refine Iff.trans ?_ hiff
    constructor
    · rintro ⟨-, -, hresults'⟩
      dsimp only at hresults'
      rw [hresults, List.map_append] at hresults'
      have hlast := List.append_cancel_left hresults'
      exact List.singleton_inj.1 hlast
    · intro hfile
      refine ⟨hreq, hinv'.done, ?_⟩
      show s.results ++ [_] = _
      rw [hresults, List.map_append, hfile]
      rfl

/-- With room for the whole list at the start, no entry is skipped. -/
theorem meets_load (E : Entry K) (hfits : E.rw.fifo.length + K.nodes.length ≤ fifoCapacity)
    (h : Reachable K.step E.init s) : K.Meets s .load := by
  have hlen : ∀ i, s.pc = .enqueue i → s.rw.fifo.length ≤ E.rw.fifo.length + i := by
    refine h.invariant (P := fun s => ∀ i, s.pc = .enqueue i → s.rw.fifo.length ≤ E.rw.fifo.length + i)
      ?_ ?_
    · rintro i ⟨⟩
      exact le_rfl
    · intro s a s' hs hstep i hpc
      cases a with
      | reader done rest =>
        obtain ⟨rw', hrun, rfl⟩ := Option.map_eq_some_iff.1 hstep
        exact (run_frame hrun).2.1.trans (hs i hpc)
      | load =>
        change K.load s = some s' at hstep
        rw [Load.load] at hstep
        split at hstep
        next j hj =>
          split at hstep
          · split at hstep
            · cases hstep
              cases hpc
              exact (hs j hj).trans (Nat.le_succ _)
            · cases hstep
              cases hpc
              have := hs j hj
              rw [List.length_append, List.length_singleton]
              exact Nat.succ_le_succ this
          · cases hstep
            cases hpc
        next hwait =>
          split at hstep
          · cases hstep
            exact hs i hpc
          · cases hstep
            cases hpc
        next => cases hstep
      | getNode idx sectorSlot =>
        obtain ⟨hdone, -, -, rfl⟩ := getNode_inversion hstep
        exact hs i hpc
  intro i hi hpc
  have := hlen i hpc
  omega

end Load

/-! ### One node -/

/-- The disks after PC1 hold the labels that the files hold in their own byte order. -/
lemma sameLabels_pc1Write {C : Config} {numControllers blockOffset : ℕ} {labels : ℕ → ℕ → ℕ → Node}
    {written : List ℕ} {disk : Disk}
    (hw : ∀ m < C.numLayers * (C.numNodes / C.nodesPerPage), m ∈ written) {layer node x : ℕ}
    (hlayer : layer < C.numLayers) (hnode : node < C.numNodes) (hx : x < C.parallelSectors) :
    (nodeRead C numControllers blockOffset (pc1Write C numControllers blockOffset labels written disk)
      (C.nodeId layer node) (C.nodePos (node % C.nodesPerPage) x)).reverseL
        = (labels layer node x).reverseL := by
  rw [nodeRead_pc1Write (.inl (hw _ (page_lt hlayer hnode))), read_node hnode hx]

end NodeReader

end SupraSeal
