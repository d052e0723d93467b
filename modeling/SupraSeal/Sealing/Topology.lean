import Mathlib.Data.Int.Notation
import SupraSeal.Sealing.Constants

/-!
# Topology

The part of `topology_t` of `sealing/topology_t.hpp` that reads the hashers from the configuration
file. A setting that is missing ends the reading and keeps what was read before; a check that fails
ends the process.
-/

namespace SupraSeal

/-! ### The file -/

/-- An entry of `coordinators`. -/
structure CoordinatorSetting where
  core : Option ℤ
  hashers : Option ℤ

/-- An entry of `sector_configs`. -/
structure SectorSetting where
  sectors : Option ℤ
  coordinators : Option (List CoordinatorSetting)

/-- The settings of the file that are read up to `sector_configs`. -/
structure TopologySettings where
  nvme : Option (List String)
  hashersPerCore : Option ℤ
  sectorConfigs : Option (List SectorSetting)

/-! ### The topology -/

namespace Topology

/-- `MAX_HASHERS_PER_COORD`. -/
def maxHashersPerCoord : ℕ := 14

/-- `topology_t::coordinator_t`. -/
structure Coordinator where
  hashersPerCore : ℕ
  core : ℤ
  numHashers : ℕ

def Coordinator.numSectors (c : Coordinator) : ℕ := c.numHashers * nodesPerHasher

/-- `sector_config_t`. -/
structure SectorConfig where
  hashersPerCore : ℕ
  sectors : ℕ
  coordinators : List Coordinator

def SectorConfig.numHashers (c : SectorConfig) : ℕ := (c.coordinators.map Coordinator.numHashers).sum

def SectorConfig.numSectors (c : SectorConfig) : ℕ := c.numHashers * nodesPerHasher

end Topology

/-- `topology_t`. -/
structure Topology where
  nvmeAddrs : List String
  sectorConfigs : List (ℕ × Topology.SectorConfig)

namespace Topology

/-- The cast of an `int` to `size_t`. -/
def toSize (x : ℤ) : ℕ := (x % 2 ^ 64).toNat

/-- The loop over `coordinators`: nothing when the process ends, and no list when a setting is
missing. -/
def readCoordinators (hashersPerCore : ℕ) : List CoordinatorSetting → Option (Option (List Coordinator))
  | [] => some (some [])
  | s :: settings =>
    match s.core, s.hashers with
    | some core, some hashers =>
      if toSize hashers ≤ maxHashersPerCoord then
        (readCoordinators hashersPerCore settings).map
          (·.map (⟨hashersPerCore, core, toSize hashers⟩ :: ·))
      else none
    | _, _ => some none

/-- `insert` of the map, which keeps the entry that is there. -/
def insert (sectorConfigs : List (ℕ × SectorConfig)) (config : SectorConfig) : List (ℕ × SectorConfig) :=
  if (sectorConfigs.lookup config.sectors).isSome then sectorConfigs
  else sectorConfigs ++ [(config.sectors, config)]

/-- The loop over `sector_configs`. -/
def readSectorConfigs (hashersPerCore : ℕ) :
    List SectorSetting → List (ℕ × SectorConfig) → Option (List (ℕ × SectorConfig))
  | [], sectorConfigs => some sectorConfigs
  | s :: settings, sectorConfigs =>
    match s.sectors, s.coordinators with
    | some sectors, some coordinators =>
      match readCoordinators hashersPerCore coordinators with
      | none => none
      | some none => some sectorConfigs
      | some (some coordinators) =>
        readSectorConfigs hashersPerCore settings
          (insert sectorConfigs ⟨hashersPerCore, toSize sectors, coordinators⟩)
    | _, _ => some sectorConfigs

/-- The constructor of `topology_t`. -/
def read (root : TopologySettings) : Option Topology :=
  match root.nvme with
  | none => some ⟨[], []⟩
  | some nvme =>
    match root.hashersPerCore with
    | none => some ⟨nvme, []⟩
    | some hashersPerCore =>
      if toSize hashersPerCore ≠ 1 ∧ toSize hashersPerCore ≠ 2 then none
      else
        match root.sectorConfigs with
        | none => some ⟨nvme, []⟩
        | some settings =>
          (readSectorConfigs (toSize hashersPerCore) settings []).map fun sectorConfigs =>
            ⟨nvme, sectorConfigs⟩

/-- `get_sector_config`. -/
def getSectorConfig (t : Topology) (parallelSectors : ℕ) : Option SectorConfig :=
  t.sectorConfigs.lookup parallelSectors

/-! ### What is checked -/

/-- What an entry of `sector_configs` satisfies. -/
structure Checked (entry : ℕ × SectorConfig) : Prop where
  sectors : entry.2.sectors = entry.1
  hashers : ∀ c ∈ entry.2.coordinators, c.numHashers ≤ maxHashersPerCoord

variable {hashersPerCore : ℕ}

lemma readCoordinators_hashers {settings : List CoordinatorSetting} {coordinators : List Coordinator}
    (h : readCoordinators hashersPerCore settings = some (some coordinators)) :
    ∀ c ∈ coordinators, c.numHashers ≤ maxHashersPerCoord := by
  induction settings generalizing coordinators with
  | nil =>
    obtain rfl := Option.some.inj (Option.some.inj h)
    exact nofun
  | cons s settings ih =>
    rw [readCoordinators] at h
    split at h
    · split_ifs at h with hle
      obtain ⟨_, hrest, hmap⟩ := Option.map_eq_some_iff.mp h
      obtain ⟨rest, rfl, rfl⟩ := Option.map_eq_some_iff.mp hmap
      intro c hc
      rcases List.mem_cons.mp hc with rfl | hc
      · exact hle
      · exact ih hrest c hc
    · cases h

lemma readSectorConfigs_checked {settings : List SectorSetting}
    {sectorConfigs sectorConfigs' : List (ℕ × SectorConfig)}
    (h : readSectorConfigs hashersPerCore settings sectorConfigs = some sectorConfigs')
    (hchecked : ∀ e ∈ sectorConfigs, Checked e) : ∀ e ∈ sectorConfigs', Checked e := by
  induction settings generalizing sectorConfigs with
  | nil =>
    obtain rfl := Option.some.inj h
    exact hchecked
  | cons s settings ih =>
    rw [readSectorConfigs] at h
    split at h
    · split at h
      · cases h
      · obtain rfl := Option.some.inj h
        exact hchecked
      · rename_i hread
        refine ih h ?_
        intro e he
        rw [insert] at he
        split_ifs at he
        · exact hchecked e he
        · rcases List.mem_append.mp he with he | he
          · exact hchecked e he
          · rw [List.mem_singleton.mp he]
            exact ⟨rfl, readCoordinators_hashers hread⟩
    · obtain rfl := Option.some.inj h
      exact hchecked

/-- The entry for a number of sectors names that number, and the number of hashers of a coordinator is
bounded. Nothing relates the two. -/
lemma getSectorConfig_checked {root : TopologySettings} {t : Topology} {parallelSectors : ℕ}
    {config : SectorConfig} (hread : read root = some t)
    (hget : t.getSectorConfig parallelSectors = some config) : Checked (parallelSectors, config) := by
  have hchecked : ∀ e ∈ t.sectorConfigs, Checked e := by
    simp only [read] at hread
    split at hread
    · obtain rfl := Option.some.inj hread
      exact nofun
    · split at hread
      · obtain rfl := Option.some.inj hread
        exact nofun
      · split_ifs at hread
        split at hread
        · obtain rfl := Option.some.inj hread
          exact nofun
        · obtain ⟨sectorConfigs, hconfigs, rfl⟩ := Option.map_eq_some_iff.mp hread
          exact readSectorConfigs_checked hconfigs nofun
  obtain ⟨_, _, hsplit, -⟩ := List.lookup_eq_some_iff.mp hget
  exact hchecked _ (hsplit ▸ List.mem_append_right _ (List.mem_cons_self ..))

end Topology

end SupraSeal
