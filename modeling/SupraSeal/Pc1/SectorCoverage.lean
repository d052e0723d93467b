import Mathlib.Data.List.Nodup
import SupraSeal.Nvme.NodeLayout
import SupraSeal.Pc1.System
import SupraSeal.Sealing.Topology

/-!
# The sectors of the hashers

`do_pc1` of `pc1/pc1.cpp` and the constructor of `coordinator_t` give each hasher its first sector and
its replica id buffer. Both come from the list of coordinators, and the number of sectors of a parallel
node from the `sectors` of the entry.
-/

namespace SupraSeal

namespace Topology

/-! ### The threads -/

/-- What a hasher thread is started with: its sector and its replica id buffer. -/
structure HasherThread where
  coordId : ℕ
  thrCount : ℕ
  offsetId : ℕ
  replicaIdBuf : ℕ
  deriving DecidableEq

/-- The loop of the constructor of `coordinator_t`, from thread `i` on. -/
def spawnHashers (coordId replicaIdBuffers : ℕ) : ℕ → ℕ → ℕ → List HasherThread
  | 0, _, _ => []
  | count + 1, i, sector =>
    ⟨coordId, i, sector, replicaIdBuffers + i⟩ ::
      spawnHashers coordId replicaIdBuffers count (i + 1) (sector + nodesPerHasher)

/-- The loop of `do_pc1` over the coordinators. -/
def spawnCoordinators : List Coordinator → ℕ → ℕ → ℕ → List HasherThread
  | [], _, _, _ => []
  | c :: coordinators, coordId, sector, hasherCount =>
    spawnHashers coordId hasherCount c.numHashers 0 sector ++
      spawnCoordinators coordinators (coordId + 1) (sector + c.numSectors) (hasherCount + c.numHashers)

/-- All hasher threads. -/
def threads (config : SectorConfig) : List HasherThread :=
  spawnCoordinators config.coordinators 0 0 0

/-! ### The replica ids -/

/-- `replica_id_bufs[i].ids[j][k]`, for the entries that the loop of `do_pc1` fills. -/
def replicaIdBufs (htonl : ℕ → ℕ) (replicaIds : ℕ → ℕ) (i j k : ℕ) : ℕ :=
  htonl (replicaIds (i * nodesPerHasher * nodeWords + j * nodeWords + k))

/-- The words of `replica_ids` that the loop reads. -/
def replicaIdReads (config : SectorConfig) : List ℕ :=
  (List.range config.numHashers).flatMap fun i =>
    (List.range nodesPerHasher).flatMap fun j =>
      (List.range nodeWords).map fun k => i * nodesPerHasher * nodeWords + j * nodeWords + k

/-- Every sector is hashed by one hasher, with the replica id of that sector, and nothing is accessed
behind the `parallelSectors` entries of the node, of `replica_id_bufs` or of `replica_ids`. -/
structure SectorsCovered (parallelSectors : ℕ) (config : SectorConfig) : Prop where
  hashed : ∀ x < parallelSectors, ∃! p : HasherThread × ℕ,
    p.1 ∈ threads config ∧ p.2 < nodesPerHasher ∧ p.1.offsetId + p.2 = x
  nodup : (threads config).Nodup
  writes_lt : ∀ h ∈ threads config, ∀ lane < nodesPerHasher, h.offsetId + lane < parallelSectors
  ownId : ∀ h ∈ threads config, ∀ lane < nodesPerHasher, ∀ k < nodeWords, ∀ htonl replicaIds,
    replicaIdBufs htonl replicaIds h.replicaIdBuf lane k =
      htonl (replicaIds ((h.offsetId + lane) * nodeWords + k))
  filled_lt : ∀ i < config.numHashers, i < parallelSectors
  bufs_lt : ∀ h ∈ threads config, h.replicaIdBuf < config.numHashers
  ids_lt : ∀ idx ∈ replicaIdReads config, idx < parallelSectors * nodeWords

variable {config : SectorConfig} {parallelSectors : ℕ}

/-! ### The offsets -/

lemma spawnHashers_map (coordId buffers count i sector : ℕ) :
    (spawnHashers coordId buffers count i sector).map (fun h => (h.offsetId, h.replicaIdBuf)) =
      (List.range count).map fun n => (sector + nodesPerHasher * n, buffers + (i + n)) := by
  induction count generalizing i sector with
  | zero => rfl
  | succ count ih =>
    rw [spawnHashers, List.map_cons, ih, List.range_succ_eq_map, List.map_cons, List.map_map]
    refine congrArg₂ List.cons rfl (List.map_congr_left ?_)
    intro n _
    simp only [Function.comp_apply, Nat.succ_eq_add_one, Prod.mk.injEq]
    constructor
    · rw [Nat.mul_succ, Nat.add_assoc, Nat.add_comm nodesPerHasher]
    · rw [Nat.add_assoc i, Nat.add_comm 1 n]

/-- The offsets that are accumulated over the coordinators follow each other without a gap. -/
lemma spawnCoordinators_map (coordinators : List Coordinator) (coordId hasherCount : ℕ) :
    (spawnCoordinators coordinators coordId (nodesPerHasher * hasherCount) hasherCount).map
        (fun h => (h.offsetId, h.replicaIdBuf)) =
      (List.range' hasherCount (coordinators.map Coordinator.numHashers).sum).map fun n =>
        (nodesPerHasher * n, n) := by
  induction coordinators generalizing coordId hasherCount with
  | nil => rfl
  | cons c coordinators ih =>
    have hsector : nodesPerHasher * hasherCount + c.numSectors =
        nodesPerHasher * (hasherCount + c.numHashers) := by
      rw [Coordinator.numSectors, Nat.mul_add, Nat.mul_comm c.numHashers]
    rw [spawnCoordinators, List.map_append, hsector, ih, spawnHashers_map, List.map_cons, List.sum_cons,
      ← List.range'_append_1, List.map_append]
    congr 1
    rw [List.range_eq_range', ← Nat.add_zero hasherCount, ← List.map_add_range', List.map_map]
    refine List.map_congr_left ?_
    intro n _
    simp only [Function.comp_apply, Nat.add_zero, Nat.zero_add, Nat.mul_add]

/-- The hasher threads: the `n`-th has sector `2 * n` and buffer `n`. -/
lemma threads_map (config : SectorConfig) :
    (threads config).map (fun h => (h.offsetId, h.replicaIdBuf)) =
      (List.range config.numHashers).map fun n => (nodesPerHasher * n, n) := by
  rw [List.range_eq_range']
  exact spawnCoordinators_map config.coordinators 0 0

lemma thread_of_mem {h : HasherThread} (hh : h ∈ threads config) :
    h.replicaIdBuf < config.numHashers ∧ h.offsetId = nodesPerHasher * h.replicaIdBuf := by
  have hmem := List.mem_map_of_mem (f := fun h : HasherThread => (h.offsetId, h.replicaIdBuf)) hh
  rw [threads_map] at hmem
  obtain ⟨n, hn, heq⟩ := List.mem_map.mp hmem
  obtain ⟨hoffset, hbuf⟩ := Prod.mk.inj heq
  rw [← hbuf, ← hoffset]
  exact ⟨List.mem_range.mp hn, rfl⟩

lemma exists_thread {n : ℕ} (hn : n < config.numHashers) :
    ∃ h ∈ threads config, h.offsetId = nodesPerHasher * n := by
  have hmem : (nodesPerHasher * n, n) ∈ (List.range config.numHashers).map fun n =>
      (nodesPerHasher * n, n) := List.mem_map.mpr ⟨n, List.mem_range.mpr hn, rfl⟩
  rw [← threads_map] at hmem
  obtain ⟨h, hh, heq⟩ := List.mem_map.mp hmem
  exact ⟨h, hh, (Prod.mk.inj heq).1⟩

lemma nodup_threads_map (config : SectorConfig) :
    ((threads config).map fun h => (h.offsetId, h.replicaIdBuf)).Nodup := by
  rw [threads_map]
  refine List.nodup_range.map ?_
  intro n n' heq
  exact (Prod.mk.inj heq).2

/-- A sector determines the hasher and the lane. -/
lemma thread_unique {h h' : HasherThread} (hh : h ∈ threads config) (hh' : h' ∈ threads config)
    {lane lane' : ℕ} (hlane : lane < nodesPerHasher) (hlane' : lane' < nodesPerHasher)
    (heq : h.offsetId + lane = h'.offsetId + lane') : h = h' ∧ lane = lane' := by
  obtain ⟨-, hoffset⟩ := thread_of_mem hh
  obtain ⟨-, hoffset'⟩ := thread_of_mem hh'
  rw [hoffset, hoffset', nodesPerHasher] at heq
  rw [nodesPerHasher] at hlane hlane'
  have hbuf : h.replicaIdBuf = h'.replicaIdBuf := by omega
  refine ⟨List.inj_on_of_nodup_map (nodup_threads_map config) hh hh' ?_, by omega⟩
  rw [hoffset, hoffset', hbuf]

/-! ### The coverage -/

lemma sectorsCovered_of_eq (hsectors : config.numSectors = parallelSectors) :
    SectorsCovered parallelSectors config := by
  rw [SectorConfig.numSectors, nodesPerHasher] at hsectors
  refine ⟨?_, (nodup_threads_map config).of_map, ?_, ?_, ?_, fun h hh => (thread_of_mem hh).1, ?_⟩
  · intro x hx
    have hlt : x / nodesPerHasher < config.numHashers := by
      refine Nat.div_lt_of_lt_mul ?_
      rw [nodesPerHasher]
      omega
    obtain ⟨h, hh, hoffset⟩ := exists_thread hlt
    refine ⟨(h, x % nodesPerHasher), ⟨hh, Nat.mod_lt _ (by decide), ?_⟩, ?_⟩
    · rw [hoffset, Nat.div_add_mod]
    · rintro ⟨h', lane'⟩ ⟨hh', hlane', hx'⟩
      obtain ⟨rfl, hlane⟩ := thread_unique hh' hh hlane' (Nat.mod_lt x (by decide : 0 < nodesPerHasher))
        (hx'.trans (by rw [hoffset, Nat.div_add_mod]))
      exact Prod.ext rfl hlane
  · intro h hh lane hlane
    obtain ⟨hbuf, hoffset⟩ := thread_of_mem hh
    rw [hoffset, nodesPerHasher]
    rw [nodesPerHasher] at hlane
    omega
  · intro h hh lane _ k _ htonl replicaIds
    obtain ⟨-, hoffset⟩ := thread_of_mem hh
    rw [replicaIdBufs, hoffset, Nat.add_mul, Nat.mul_comm nodesPerHasher]
  · intro i hi
    omega
  · intro idx hidx
    obtain ⟨i, hi, hidx⟩ := List.mem_flatMap.mp hidx
    obtain ⟨j, hj, hidx⟩ := List.mem_flatMap.mp hidx
    obtain ⟨k, hk, rfl⟩ := List.mem_map.mp hidx
    have hi := List.mem_range.mp hi
    have hj := List.mem_range.mp hj
    have hk := List.mem_range.mp hk
    calc i * nodesPerHasher * nodeWords + j * nodeWords + k
        < i * nodesPerHasher * nodeWords + j * nodeWords + nodeWords := Nat.add_lt_add_left hk _
      _ = (i * nodesPerHasher + j + 1) * nodeWords := by rw [Nat.add_mul, Nat.add_mul, Nat.one_mul]
      _ ≤ parallelSectors * nodeWords := by
          refine Nat.mul_le_mul_right _ ?_
          rw [nodesPerHasher] at hj ⊢
          omega

/-- The sectors are covered exactly when the hashers of the entry add up to its sectors. -/
theorem sectorsCovered_iff {root : TopologySettings} {t : Topology} (hread : read root = some t)
    (hget : t.getSectorConfig parallelSectors = some config) :
    SectorsCovered parallelSectors config ↔ config.numSectors = config.sectors := by
  rw [(getSectorConfig_checked hread hget).sectors]
  refine ⟨?_, sectorsCovered_of_eq⟩
  intro hcovered
  have hle : config.numSectors ≤ parallelSectors := by
    rw [SectorConfig.numSectors]
    cases hn : config.numHashers with
    | zero => exact (Nat.zero_mul _).le.trans (Nat.zero_le _)
    | succ n =>
      obtain ⟨h, hh, hoffset⟩ := exists_thread (by omega : n < config.numHashers)
      have hlast := hcovered.writes_lt h hh 1 (by decide)
      rw [hoffset, nodesPerHasher] at hlast
      rw [nodesPerHasher]
      omega
  refine hle.antisymm ?_
  by_contra hlt
  -- the first sector behind those of the hashers
  obtain ⟨⟨h, lane⟩, ⟨hh, hlane, hx⟩, -⟩ := hcovered.hashed config.numSectors (Nat.lt_of_not_le hlt)
  have hbuf : h.replicaIdBuf < config.numHashers := (thread_of_mem hh).1
  have hoffset := (thread_of_mem hh).2
  simp only [SectorConfig.numSectors, nodesPerHasher] at hx hlane hoffset
  omega

/-- The entry of the example file for 64 sectors. -/
def settings64 : TopologySettings where
  nvme := some ["0000:44:00.0"]
  hashersPerCore := some 2
  sectorConfigs := some [⟨some 64, some [⟨some 8, some 14⟩, ⟨some 16, some 14⟩, ⟨some 24, some 4⟩]⟩]

theorem sectorsCovered_64 : ∃ t config, read settings64 = some t ∧ t.getSectorConfig 64 = some config ∧
    SectorsCovered 64 config := by
  have hread : read settings64 = some (⟨_, [(64, _)]⟩ : Topology) := rfl
  exact ⟨_, _, hread, rfl, (sectorsCovered_iff hread rfl).mpr rfl⟩

/-- An entry for four sectors with a single hasher, which is accepted. -/
def settingsShort : TopologySettings where
  nvme := some ["0000:44:00.0"]
  hashersPerCore := some 2
  sectorConfigs := some [⟨some 4, some [⟨some 8, some 1⟩]⟩]

/-- The last two of the four sectors are not hashed. -/
theorem not_sectorsCovered_short : ∃ t config, read settingsShort = some t ∧
    t.getSectorConfig 4 = some config ∧ ¬ SectorsCovered 4 config := by
  refine ⟨_, _, rfl, rfl, ?_⟩
  intro hcovered
  obtain ⟨⟨h, lane⟩, ⟨hh, hlane, hx⟩, -⟩ := hcovered.hashed 3 (by decide)
  obtain ⟨hbuf, hoffset⟩ := thread_of_mem hh
  have hone : h.replicaIdBuf < 1 := hbuf
  simp only [nodesPerHasher] at hx hlane hoffset
  omega

/-! ### The system of the threads -/

lemma mem_spawnHashers {h : HasherThread} {coordId buffers count i sector : ℕ}
    (hh : h ∈ spawnHashers coordId buffers count i sector) :
    h.coordId = coordId ∧ ∃ n < count, h.thrCount = i + n ∧ h.offsetId = sector + nodesPerHasher * n := by
  induction count generalizing i sector with
  | zero => cases hh
  | succ count ih =>
    rcases List.mem_cons.mp hh with rfl | hh
    · exact ⟨rfl, 0, Nat.succ_pos count, rfl, rfl⟩
    · obtain ⟨hid, n, hn, hthr, hoffset⟩ := ih hh
      refine ⟨hid, n + 1, Nat.succ_lt_succ hn, ?_, ?_⟩
      · rw [hthr, Nat.add_assoc, Nat.add_comm 1 n]
      · rw [hoffset, Nat.mul_succ, Nat.add_assoc, Nat.add_comm nodesPerHasher]

/-- The offsets by coordinator and thread. -/
lemma mem_spawnCoordinators {h : HasherThread} {coordinators : List Coordinator}
    {coordId sector hasherCount : ℕ}
    (hh : h ∈ spawnCoordinators coordinators coordId sector hasherCount) :
    ∃ k, h.coordId = coordId + k ∧ k < coordinators.length ∧
      h.thrCount < (coordinators.map Coordinator.numHashers).getD k 0 ∧
      h.offsetId = sector + nodesPerHasher * ((coordinators.map Coordinator.numHashers).take k).sum +
        nodesPerHasher * h.thrCount := by
  induction coordinators generalizing coordId sector hasherCount with
  | nil => cases hh
  | cons c coordinators ih =>
    rcases List.mem_append.mp hh with hh | hh
    · obtain ⟨hid, n, hn, hthr, hoffset⟩ := mem_spawnHashers hh
      rw [Nat.zero_add] at hthr
      refine ⟨0, hid, Nat.succ_pos _, hthr ▸ hn, ?_⟩
      rw [hoffset, hthr, List.take_zero, List.sum_nil, Nat.mul_zero, Nat.add_zero]
    · obtain ⟨k, hid, hk, hthr, hoffset⟩ := ih hh
      refine ⟨k + 1, ?_, Nat.succ_lt_succ hk, hthr, ?_⟩
      · rw [hid, Nat.add_assoc, Nat.add_comm 1 k]
      · rw [hoffset, Coordinator.numSectors, List.map_cons, List.take_succ_cons, List.sum_cons,
          Nat.mul_add, Nat.mul_comm c.numHashers, Nat.add_assoc sector]

/-- With the hashers of an entry, the system of the threads has the sectors of the hashers that `do_pc1`
starts. -/
theorem threads_hasherSector (P : Setup) (hP : config.coordinators.map Coordinator.numHashers = P.hashers)
    {h : HasherThread} (hh : h ∈ threads config) :
    h.coordId < P.numCoordinators ∧ h.thrCount < P.numHashers h.coordId ∧
      h.offsetId = Pc1.hasherSector P h.coordId h.thrCount := by
  obtain ⟨k, hid, hk, hthr, hoffset⟩ := mem_spawnCoordinators hh
  rw [Nat.zero_add] at hid
  rw [hP] at hthr hoffset
  rw [hid]
  refine ⟨?_, hthr, ?_⟩
  · show k < P.hashers.length
    rwa [← hP, List.length_map]
  · rw [hoffset, Nat.zero_add]
    rfl

end Topology

end SupraSeal
