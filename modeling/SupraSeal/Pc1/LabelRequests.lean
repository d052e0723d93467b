import SupraSeal.Pc1.LabelSystem
import SupraSeal.Pc1.ParentPages

/-!
# Pages that are read

As long as the reads are accounted for, every request under way is for a parent of the node that holds
its entry, and what it fetches is the page of that parent. So when no read of an entry is pending, its
pages hold the labels of the parents that were not in the node buffer.

The labels that a page should hold are a parameter here.
-/

namespace SupraSeal

open Orchestrator

/-- A page holds the labels of the nodes of page `m`, for all sectors. -/
def HoldsPage (P : Setup) (label : ℕ → ℕ → Node) (page : ℕ → ℕ → Node) (m : ℕ) : Prop :=
  ∀ i < P.C.nodesPerPage, ∀ x < P.C.parallelSectors, page i x = label (m * P.C.nodesPerPage + i) x

lemma HoldsPage.node {P : Setup} {label : ℕ → ℕ → Node} {page : ℕ → ℕ → Node} {id x : ℕ}
    (h : HoldsPage P label page (id / P.C.nodesPerPage)) (hx : x < P.C.parallelSectors) :
    page (id % P.C.nodesPerPage) x = label id x := by
  rw [h _ (Nat.mod_lt _ P.C.nodesPerPage_pos) x hx, Nat.div_add_mod']

/-- A request is for a parent of node `n`, whose entry is held, and the page of the parent is on
disk. -/
structure ReadRequest.For (P : Setup) (o : Orchestrator) (written : ℕ → Bool) (n : ℕ)
    (r : ReadRequest) : Prop where
  tail : o.tailNodeParents ≤ n
  lt : n < o.parentIter.node
  slot : r.slot = n % parentBufferBatches
  node : r.node = P.G.parentNode n (r.page + 1)
  written : written (r.node / P.C.nodesPerPage) = true

/-- The invariant of the requests and of the pages they fill. -/
structure RequestInv (P : Setup) (label : ℕ → ℕ → Node) (s : LabelPc1) : Prop where
  inFlight : ((s.reads ++ s.fetched).map ReadRequest.key).Perm s.threads.readsInFlight
  source : ∀ r ∈ s.reads ++ s.fetched, ∃ n, r.For P s.threads.orch s.threads.written n
  fetched : ∀ r ∈ s.fetched,
    HoldsPage P label (s.memory.parentBuffer r.slot r.page) (r.node / P.C.nodesPerPage)
  arrived : ∀ n, s.threads.orch.tailNodeParents ≤ n → n < s.threads.orch.parentIter.node → n ≠ 0 →
    ∀ j < pageBatchSize,
    (s.threads.orch.sys.parentBufferIo (n % parentBufferBatches) j).type = .read →
      n % parentBufferBatches ∈ s.threads.orch.sys.parentReadFifo ∨
        (n % parentBufferBatches, j) ∈ s.threads.readsInFlight ∨
        HoldsPage P label (s.memory.parentBuffer (n % parentBufferBatches) j)
          (P.G.parentNode n (j + 1) / P.C.nodesPerPage)

section

variable {P : Setup} {cn : ℕ → ℕ} {o o' : Orchestrator} {written written' : ℕ → Bool} {n n' : ℕ}
  {r r' : ReadRequest}

/-- Requests of one page are for the same node. -/
lemma ReadRequest.For.node_eq (hc : CursorInv P cn o) (h : r.For P o written n)
    (h' : r'.For P o written n') (hkey : r.key = r'.key) : n = n' ∧ r.node = r'.node := by
  obtain ⟨hslot, hpage⟩ := Prod.mk.inj hkey
  have hn : n = n' := hc.parentRing.slot_inj h.tail (h.lt.le.trans (node_le_reserved o)) h'.tail
    (h'.lt.le.trans (node_le_reserved o)) (by rw [← h.slot, ← h'.slot, hslot])
  refine ⟨hn, ?_⟩
  rw [h.node, h'.node, hn, hpage]

lemma ReadRequest.For.mono (h : r.For P o written n) (htail : o'.tailNodeParents ≤ n)
    (hnode : o.parentIter.node ≤ o'.parentIter.node)
    (hwritten : ∀ m, written m = true → written' m = true) : r.For P o' written' n :=
  ⟨htail, h.lt.trans_le hnode, h.slot, h.node, hwritten _ h.written⟩

/-- What a step of the orchestrator does to the requests: those of entries that are held stay, and the
entry of a new node joins the queue. -/
lemma requests_of_step (hc : CursorInv P cn o) (h : o.step P cn = some o') :
    (∀ n, o.tailNodeParents ≤ n → n < o.parentIter.node →
      o'.sys.parentBufferIo (n % parentBufferBatches) =
        o.sys.parentBufferIo (n % parentBufferBatches)) ∧
    o.sys.parentReadFifo ⊆ o'.sys.parentReadFifo ∧
    (o'.parentIter.node = o.parentIter.node ∨
      o'.parentIter.node = o.parentIter.node + 1 ∧ o.parentIter.node < o.reserved ∧
        (o.parentIter.node ≠ 0 →
          o.parentIter.node % parentBufferBatches ∈ o'.sys.parentReadFifo)) := by
  cases hpc : o.pc <;> simp only [Orchestrator.step, hpc] at h
  case readNodes rb i =>
    have hb := hc.batch rb i hpc
    cases h
    rw [readNode_eq hc.iter]
    have hfifo : (afterNode P rb i o).sys.parentReadFifo =
      o.sys.parentReadFifo ++ if o.parentIter.node = 0 then [] else [rb.parentBufferId] := rfl
    refine ⟨?_, ?_, .inr ⟨rfl, ?_, ?_⟩⟩
    · intro n hn hlt
      show (afterNode P rb i o).sys.parentBufferIo _ = _
      rw [parentBufferIo_afterNode,
        fillEntries_of_ne (hc.slot_ne hpc hn (hlt.le.trans (node_le_reserved o)) hlt.ne)]
    · show _ ⊆ (afterNode P rb i o).sys.parentReadFifo
      rw [hfifo]
      exact List.subset_append_left _ _
    · have hlt := hb.lt
      rw [reserved, hpc, OrchPc.pending]
      omega
    · intro h0
      show _ ∈ (afterNode P rb i o).sys.parentReadFifo
      rw [hfifo, if_neg h0, hb.slot]
      exact List.mem_append_right _ (List.mem_singleton_self _)
  case writeNodes r =>
    split_ifs at h <;> cases h
    · refine ⟨fun _ _ _ => ?_, ?_, .inl rfl⟩
      all_goals
        simp only [Orchestrator.writeNodes]
        split_ifs <;> first | rfl | exact List.Subset.refl _
    · exact ⟨fun _ _ _ => rfl, List.Subset.refl _, .inl rfl⟩
  case finished => simp at h
  case exited => simp at h
  all_goals
    split_ifs at h <;> cases h <;>
      exact ⟨fun _ _ _ => rfl, List.Subset.refl _, .inl rfl⟩

end

namespace RequestInv

open LabelPc1

variable {P : Setup} {label : ℕ → ℕ → Node} {s : LabelPc1} {t : Pc1} {mem : LabelMemory}

lemma init {replicaIds : ℕ → BitVec 32} :
    RequestInv P label (LabelPc1.init P replicaIds mem) where
  inFlight := List.Perm.refl _
  source := by simp [LabelPc1.init]
  fetched := by simp [LabelPc1.init]
  arrived n _ hn := absurd hn (Nat.not_lt_zero n)

/-- A request that is submitted is seen by the threads. -/
lemma mem_inFlight (hr : RequestInv P label s) {r : ReadRequest} (h : r ∈ s.reads ++ s.fetched) :
    (r.slot, r.page) ∈ s.threads.readsInFlight :=
  hr.inFlight.mem_iff.mp (List.mem_map_of_mem h)

/-- Threads that do not touch the requests, and memory outside the parent buffer. -/
lemma frame (hr : RequestInv P label s) (hpages : mem.parentBuffer = s.memory.parentBuffer)
    {saved : List (ℕ × ℕ)} (hflight : t.readsInFlight = s.threads.readsInFlight)
    (htail : t.orch.tailNodeParents = s.threads.orch.tailNodeParents)
    (hiter : t.orch.parentIter = s.threads.orch.parentIter)
    (hio : t.orch.sys.parentBufferIo = s.threads.orch.sys.parentBufferIo)
    (hfifo : t.orch.sys.parentReadFifo = s.threads.orch.sys.parentReadFifo)
    (hwritten : ∀ m, s.threads.written m = true → t.written m = true) :
    RequestInv P label { s with threads := t, memory := mem, saved := saved } := by
  refine ⟨hflight ▸ hr.inFlight, ?_, ?_, ?_⟩
  · intro r hmem
    obtain ⟨n, hn⟩ := hr.source r hmem
    exact ⟨n, hn.mono (htail ▸ hn.tail) (hiter ▸ le_rfl) hwritten⟩
  · show ∀ r ∈ s.fetched, HoldsPage P label (mem.parentBuffer r.slot r.page) _
    rw [hpages]
    exact hr.fetched
  · show ∀ n, t.orch.tailNodeParents ≤ n → n < t.orch.parentIter.node → n ≠ 0 →
      ∀ j < pageBatchSize, (t.orch.sys.parentBufferIo (n % parentBufferBatches) j).type = .read →
        n % parentBufferBatches ∈ t.orch.sys.parentReadFifo ∨ _ ∈ t.readsInFlight ∨
          HoldsPage P label (mem.parentBuffer (n % parentBufferBatches) j) _
    rw [hpages, htail, hiter, hio, hfifo, hflight]
    exact hr.arrived

/-- A step of the orchestrator. An entry is released only when none of its reads is pending. -/
lemma orchestrator (hs : Pc1.Inv P s.threads) (hr : RequestInv P label s) {o : Orchestrator}
    (ha : AccInv o s.threads.readsInFlight)
    (h : s.threads.orch.step P (fun k => (s.threads.coords k).coordinatorNode) = some o) :
    RequestInv P label { s with threads := { s.threads with orch := o } } := by
  have hc := hs.cursor
  obtain ⟨hio, hfifo, hnode⟩ := requests_of_step hc h
  have htail := tailNodeParents_le_of_step hc h
  refine ⟨hr.inFlight, ?_, hr.fetched, ?_⟩
  · intro r hmem
    obtain ⟨n, hn⟩ := hr.source r hmem
    obtain ⟨n', htail', hlt', hslot⟩ := Pc1.held_of_mem ha (hr.mem_inFlight hmem)
    have hle : n' ≤ s.threads.orch.reserved := by
      have := node_le_reserved s.threads.orch
      omega
    obtain rfl := hc.parentRing.slot_inj hn.tail (hn.lt.le.trans (node_le_reserved _))
      (htail.trans htail') hle (hn.slot.symm.trans hslot)
    exact ⟨n, hn.mono htail' (Pc1.node_le_of_step hc h) fun _ => id⟩
  · intro n hn hlt h0 j hj hread
    have hlt : n < o.parentIter.node := hlt
    have hread : (o.sys.parentBufferIo (n % parentBufferBatches) j).type = .read := hread
    rcases Nat.lt_or_ge n s.threads.orch.parentIter.node with hold | hnew
    · rw [hio n (htail.trans hn) hold] at hread
      exact (hr.arrived n (htail.trans hn) hold h0 j hj hread).imp_left fun hmem => hfifo hmem
    · obtain heq | ⟨heq, -, hmem⟩ := hnode
      · omega
      · obtain rfl : n = s.threads.orch.parentIter.node := by omega
        exact .inl (hmem h0)

/-- A request that is taken from the queue. -/
lemma mem_batchRequests {sys : SystemBuffers} {slot : ℕ}
    (hw : ∀ j, (sys.parentBufferIo slot j).type ≠ .write) {r : ReadRequest} :
    r ∈ batchRequests sys slot ↔ r.slot = slot ∧ r.page < pageBatchSize ∧
      (sys.parentBufferIo slot r.page).type = .read ∧
        r.node = (sys.parentBufferIo slot r.page).node := by
  have htype : ∀ j, (sys.parentBufferIo slot j).type ≠ .nop ↔
      (sys.parentBufferIo slot j).type = .read := by
    intro j
    have hwj := hw j
    cases h : (sys.parentBufferIo slot j).type <;> simp_all
  rw [batchRequests, List.mem_map]
  constructor
  · rintro ⟨j, hj, rfl⟩
    obtain ⟨hj, hread⟩ := List.mem_filter.mp hj
    exact ⟨rfl, List.mem_range.mp hj, (htype j).mp (of_decide_eq_true hread), rfl⟩
  · rintro ⟨rfl, hj, hread, hnode⟩
    refine ⟨r.page, List.mem_filter.mpr ⟨List.mem_range.mpr hj, ?_⟩, ?_⟩
    · exact decide_eq_true ((htype _).mpr hread)
    · rw [← hnode]

/-- An entry in the queue that has a read is held, by a node after the first. -/
lemma held_of_queued (hs : Pc1.Inv P s.threads) (hread : Pc1.ReaderInv P s.threads) {slot : ℕ}
    {fifo : List ℕ} (hfifo : s.threads.orch.sys.parentReadFifo = slot :: fifo) {j : ℕ}
    (hj : j < pageBatchSize)
    (htype : (s.threads.orch.sys.parentBufferIo slot j).type = .read) :
    ∃ n, s.threads.orch.tailNodeParents ≤ n ∧ n < s.threads.orch.parentIter.node ∧
      slot = n % parentBufferBatches ∧ n ≠ 0 := by
  have hcount : 0 < s.threads.orch.sys.readCount slot :=
    List.countP_pos_iff.mpr ⟨j, List.mem_range.mpr hj, decide_eq_true htype⟩
  have hqueue : 0 < s.threads.orch.sys.parentReadFifo.count slot := by
    rw [hfifo, List.count_cons_self]
    exact Nat.succ_pos _
  have hpos := Nat.mul_pos hqueue hcount
  obtain ⟨n, htail, hlt, rfl⟩ := hread.acc.held slot (by rw [pendingReads]; omega)
  refine ⟨n, htail, hlt, rfl, ?_⟩
  rintro rfl
  -- the queue holds no entry of the first node, and a later node of its slot is not read yet
  obtain ⟨d, hd⟩ := hread.fifo
  have hmem : 0 % parentBufferBatches ∈ s.threads.orch.sys.parentReadFifo := by
    rw [hfifo]
    exact List.mem_cons_self ..
  rw [hd.fifo, List.mem_map] at hmem
  obtain ⟨m, hm, heq⟩ := hmem
  obtain ⟨hle, hm⟩ := List.mem_range'_1.mp hm
  have hlt' : m < s.threads.orch.parentIter.node := by
    have := hd.le
    omega
  obtain rfl := hs.cursor.parentRing.slot_inj htail (hlt.le.trans (node_le_reserved _))
    (htail.trans (Nat.zero_le m)) (hlt'.le.trans (node_le_reserved _)) heq.symm
  exact hd.pos hlt.ne' (Nat.le_zero.mp hle)

lemma map_key_batchRequests (sys : SystemBuffers) (slot : ℕ) :
    (batchRequests sys slot).map ReadRequest.key = Pc1.batchReads sys slot := by
  rw [batchRequests, Pc1.batchReads, List.map_map]
  rfl

/-- Taking an entry from the queue submits the reads of the node that holds it. -/
lemma readerDequeue (hs : Pc1.Inv P s.threads) (hread : Pc1.ReaderInv P s.threads)
    (hp : PageInv P s.threads.orch s.threads.written) (hr : RequestInv P label s) {slot : ℕ}
    {fifo : List ℕ} (hfifo : s.threads.orch.sys.parentReadFifo = slot :: fifo) :
    RequestInv P label { s with
      threads := { s.threads with
        orch := { s.threads.orch with sys := { s.threads.orch.sys with parentReadFifo := fifo } }
        readsInFlight := s.threads.readsInFlight ++ Pc1.batchReads s.threads.orch.sys slot }
      reads := s.reads ++ batchRequests s.threads.orch.sys slot } := by
  have hw := hread.acc.noWrite slot
  constructor
  · show ((s.reads ++ batchRequests s.threads.orch.sys slot ++ s.fetched).map _).Perm _
    rw [List.map_append, List.map_append, map_key_batchRequests]
    have hperm := hr.inFlight.append_right (Pc1.batchReads s.threads.orch.sys slot)
    rw [List.map_append] at hperm
    refine List.Perm.trans ?_ hperm
    rw [List.append_assoc, List.append_assoc]
    exact List.perm_append_comm.append_left _
  · intro r hmem
    have hmem : r ∈ s.reads ++ batchRequests s.threads.orch.sys slot ++ s.fetched := hmem
    rw [List.append_assoc, List.mem_append, List.mem_append] at hmem
    rcases hmem with hmem | hmem | hmem
    · obtain ⟨n, hn⟩ := hr.source r (List.mem_append_left _ hmem)
      exact ⟨n, hn.tail, hn.lt, hn.slot, hn.node, hn.written⟩
    · obtain ⟨rfl, hpage, htype, hnode⟩ := (mem_batchRequests hw).mp hmem
      obtain ⟨n, htail, hlt, hslot, h0⟩ := held_of_queued hs hread hfifo hpage htype
      rw [hslot] at htype hnode
      obtain ⟨hparent, hwritten⟩ := hp.request n htail hlt h0 _ hpage htype
      refine ⟨n, htail, hlt, hslot, hnode.trans hparent, ?_⟩
      rw [hnode, hparent]
      exact hwritten
    · obtain ⟨n, hn⟩ := hr.source r (List.mem_append_right _ hmem)
      exact ⟨n, hn.tail, hn.lt, hn.slot, hn.node, hn.written⟩
  · exact hr.fetched
  · intro n hn hlt h0 j hj htype
    show _ ∈ fifo ∨ _ ∈ s.threads.readsInFlight ++ Pc1.batchReads s.threads.orch.sys slot ∨ _
    rcases hr.arrived n hn hlt h0 j hj htype with hmem | hmem | hpage
    · rw [hfifo, List.mem_cons] at hmem
      rcases hmem with heq | hmem
      · refine .inr (.inl (List.mem_append_right _ ?_))
        rw [← map_key_batchRequests, List.mem_map]
        refine ⟨⟨slot, j, (s.threads.orch.sys.parentBufferIo slot j).node⟩,
          (mem_batchRequests hw).mpr ⟨rfl, hj, heq ▸ htype, rfl⟩, ?_⟩
        rw [heq]
        rfl
      · exact .inl hmem
    · exact .inr (.inl (List.mem_append_left _ hmem))
    · exact .inr (.inr hpage)

/-- The page of a request arrives: that of the parent, which is on disk. -/
lemma fetch (hs : Pc1.Inv P s.threads) (hr : RequestInv P label s)
    (hdisk : ∀ m, s.threads.written m = true → HoldsPage P label (s.memory.disk m) m)
    {r : ReadRequest} (hmem : r ∈ s.reads) :
    RequestInv P label { s with
      memory := s.memory.fetch P r
      reads := s.reads.erase r
      fetched := s.fetched ++ [r] } := by
  have hperm : (s.reads.erase r ++ (s.fetched ++ [r])).Perm (s.reads ++ s.fetched) := by
    rw [← List.append_assoc]
    refine (List.perm_append_singleton r _).trans ?_
    exact (List.perm_cons_erase hmem).symm.append_right s.fetched
  obtain ⟨n, hn⟩ := hr.source r (List.mem_append_left _ hmem)
  have hcome := hdisk _ hn.written
  have hpage : ∀ slot page node, (r.key = (slot, page) → r.node = node) →
      (HoldsPage P label (s.memory.parentBuffer slot page) (node / P.C.nodesPerPage) ∨
        r.key = (slot, page)) →
      HoldsPage P label ((s.memory.fetch P r).parentBuffer slot page) (node / P.C.nodesPerPage) := by
    intro slot page node hnode hold
    show HoldsPage P label (setEntry s.memory.parentBuffer r.slot r.page _ slot page) _
    by_cases hkey : r.key = (slot, page)
    · obtain ⟨rfl, rfl⟩ := Prod.mk.inj hkey
      rw [setEntry, Function.update_self, Function.update_self, ← hnode rfl]
      exact hcome
    · have hsame : setEntry s.memory.parentBuffer r.slot r.page (s.memory.disk
          (r.node / P.C.nodesPerPage)) slot page = s.memory.parentBuffer slot page := by
        by_cases hslot : slot = r.slot
        · subst hslot
          have hne : page ≠ r.page := by
            rintro rfl
            exact hkey rfl
          rw [setEntry, Function.update_self, Function.update_of_ne hne]
        · rw [setEntry, Function.update_of_ne hslot]
      rw [hsame]
      exact hold.resolve_right hkey
  constructor
  · exact (hperm.map _).trans hr.inFlight
  · intro r' hmem'
    exact hr.source r' (hperm.mem_iff.mp hmem')
  · intro r' hmem'
    have hmem' : r' ∈ s.fetched ++ [r] := hmem'
    rw [List.mem_append, List.mem_singleton] at hmem'
    rcases hmem' with hmem' | rfl
    · obtain ⟨n', hn'⟩ := hr.source r' (List.mem_append_right _ hmem')
      exact hpage _ _ _ (fun hkey => (hn.node_eq hs.cursor hn' hkey).2)
        (.inl (hr.fetched r' hmem'))
    · exact hpage _ _ _ (fun _ => rfl) (.inr rfl)
  · intro n' hn' hlt h0 j hj htype
    refine (hr.arrived n' hn' hlt h0 j hj htype).imp_right fun h => h.imp_right fun hold => ?_
    refine hpage _ _ _ (fun hkey => ?_) (.inl hold)
    obtain ⟨hslot, rfl⟩ := Prod.mk.inj hkey
    obtain rfl := hs.cursor.parentRing.slot_inj hn.tail (hn.lt.le.trans (node_le_reserved _)) hn'
      (hlt.le.trans (node_le_reserved _)) (hn.slot.symm.trans hslot)
    exact hn.node

/-- A read completes after its page has arrived. -/
lemma readComplete (hs : Pc1.Inv P s.threads) (hr : RequestInv P label s) {slot j : ℕ}
    (hready : s.transferred (.readComplete slot j) = true) :
    RequestInv P label { s with
      threads := { s.threads with
        orch := { s.threads.orch with
          sys := { s.threads.orch.sys with
            parentBuffer := s.threads.orch.sys.parentBuffer.incrValid slot 1 } }
        readsInFlight := s.threads.readsInFlight.erase (slot, j) }
      fetched := s.fetched.eraseP fun r => r.key = (slot, j) } := by
  obtain ⟨r, hmem, hkey⟩ := List.any_eq_true.mp hready
  obtain ⟨r, l₁, l₂, -, hkey, hsplit, herase⟩ :=
    List.exists_of_eraseP (p := fun r => decide (r.key = (slot, j))) hmem hkey
  have hkey : r.key = (slot, j) := of_decide_eq_true hkey
  have hmem : r ∈ s.fetched := by
    rw [hsplit]
    exact List.mem_append_right _ (List.mem_cons_self ..)
  have hsub : ∀ r' ∈ s.fetched.eraseP fun r => r.key = (slot, j), r' ∈ s.fetched :=
    fun r' h => List.mem_of_mem_eraseP h
  constructor
  · show ((s.reads ++ s.fetched.eraseP _).map _).Perm (s.threads.readsInFlight.erase (slot, j))
    rw [← hkey]
    refine List.Perm.trans ?_ (hr.inFlight.erase r.key)
    have hcons : (s.reads ++ s.fetched).Perm
        (r :: (s.reads ++ s.fetched.eraseP fun r => r.key = (slot, j))) := by
      rw [herase, hsplit, ← List.append_assoc, ← List.append_assoc]
      exact List.perm_middle
    have herased := (hcons.map ReadRequest.key).erase r.key
    rw [List.map_cons, List.erase_cons_head] at herased
    rw [hkey] at herased ⊢
    exact herased.symm
  · intro r' hmem'
    have hmem' : r' ∈ s.reads ++ s.fetched.eraseP _ := hmem'
    rw [List.mem_append] at hmem'
    obtain ⟨n, hn⟩ := hr.source r' (List.mem_append.mpr (hmem'.imp_right (hsub r')))
    exact ⟨n, hn.tail, hn.lt, hn.slot, hn.node, hn.written⟩
  · exact fun r' hmem' => hr.fetched r' (hsub r' hmem')
  · intro n hn hlt h0 j' hj htype
    show _ ∨ _ ∈ s.threads.readsInFlight.erase (slot, j) ∨ _
    refine (hr.arrived n hn hlt h0 j' hj htype).imp_right fun h => ?_
    rcases h with hmem' | hpage
    · by_cases heq : (n % parentBufferBatches, j') = (slot, j)
      · right
        obtain ⟨n', hn'⟩ := hr.source r (List.mem_append_right _ hmem)
        obtain ⟨hslot, rfl⟩ := Prod.mk.inj (hkey.trans heq.symm)
        obtain rfl := hs.cursor.parentRing.slot_inj hn'.tail (hn'.lt.le.trans (node_le_reserved _)) hn
          (hlt.le.trans (node_le_reserved _)) (hn'.slot.symm.trans hslot)
        rw [← hn'.node, ← hslot]
        exact hr.fetched r hmem
      · exact .inl ((List.mem_erase_of_ne heq).mpr hmem')
    · exact .inr hpage

/-- What an entry without pending reads holds of a parent on disk. -/
lemma holdsPage (hread : Pc1.ReaderInv P s.threads) (hr : RequestInv P label s) {n : ℕ}
    (hn : s.threads.orch.tailNodeParents ≤ n) (hlt : n < s.threads.orch.parentIter.node)
    (h0 : n ≠ 0)
    (hvalid : pageBatchSize ≤ s.threads.orch.sys.parentBuffer.valid (n % parentBufferBatches))
    {j : ℕ} (hj : j < pageBatchSize)
    (htype : (s.threads.orch.sys.parentBufferIo (n % parentBufferBatches) j).type = .read) :
    HoldsPage P label (s.memory.parentBuffer (n % parentBufferBatches) j)
      (P.G.parentNode n (j + 1) / P.C.nodesPerPage) := by
  have hexact := hread.acc.exact n hn hlt
  have hzero : pendingReads s.threads.orch s.threads.readsInFlight (n % parentBufferBatches) = 0 := by
    omega
  obtain ⟨hqueue, hflight⟩ := Nat.add_eq_zero_iff.mp hzero
  rcases hr.arrived n hn hlt h0 j hj htype with hmem | hmem | hpage
  · have hcount : 0 < s.threads.orch.sys.readCount (n % parentBufferBatches) :=
      List.countP_pos_iff.mpr ⟨j, List.mem_range.mpr hj, decide_eq_true htype⟩
    rcases Nat.mul_eq_zero.mp hqueue with h | h
    · exact absurd hmem (List.count_eq_zero.mp h)
    · exact absurd h hcount.ne'
  · have hnone := List.countP_eq_zero.mp hflight _ hmem
    exact absurd (decide_eq_true rfl) hnone
  · exact hpage

end RequestInv

end SupraSeal
