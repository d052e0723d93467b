import SupraSeal.Sealing.Constants

/-!
# Sector parameters

`SectorParameters` of `sealing/sector_parameters.hpp`, for the sector sizes that the library
supports, and the sealing configuration of a number of sectors of that size.
-/

namespace SupraSeal

/-- `SectorSizeLg`. -/
inductive SectorSize
  | sector2KB
  | sector4KB
  | sector16KB
  | sector32KB
  | sector8MB
  | sector16MB
  | sector512MB
  | sector1GB
  | sector32GB
  | sector64GB
  deriving DecidableEq

namespace SectorSize

def lg : SectorSize → ℕ
  | sector2KB => 11
  | sector4KB => 12
  | sector16KB => 14
  | sector32KB => 15
  | sector8MB => 23
  | sector16MB => 24
  | sector512MB => 29
  | sector1GB => 30
  | sector32GB => 35
  | sector64GB => 36

def oneKB : ℕ := 1024

def oneMB : ℕ := oneKB * 1024

def oneGB : ℕ := oneMB * 1024

variable (s : SectorSize)

/-- Bytes of a sector. -/
def sectorSize : ℕ := 1 <<< s.lg

def nodeBits : ℕ := s.lg - nodeSizeLg

def numLayers : ℕ := if s.sectorSize ≤ oneGB then 2 else 11

def numLeaves : ℕ := s.sectorSize / nodeSize

/-- `tree_d_levels_`. -/
def treeDLevels : ℕ := Nat.log2 s.numLeaves

def treeRCSubArity : ℕ :=
  if s.sectorSize = 2 * oneKB ∨ s.sectorSize = 8 * oneMB ∨ s.sectorSize = 512 * oneMB then 0
  else if s.sectorSize = 4 * oneKB ∨ s.sectorSize = 16 * oneMB ∨ s.sectorSize = 1 * oneGB then 2
  else 8

def treeRCTopArity : ℕ :=
  if s.sectorSize = 32 * oneKB ∨ s.sectorSize = 64 * oneGB then 2 else 0

/-- Files that tree C and tree R are split into. -/
def treeRCFiles : ℕ :=
  if s.treeRCTopArity = 0 ∧ s.treeRCSubArity = 0 then 1
  else if s.treeRCTopArity > 0 then s.treeRCTopArity * s.treeRCSubArity
  else s.treeRCSubArity

lemma treeRCFiles_eq : s.treeRCFiles =
    match s with
    | sector2KB | sector8MB | sector512MB => 1
    | sector4KB | sector16MB | sector1GB => 2
    | sector16KB | sector32GB => 8
    | sector32KB | sector64GB => 16 := by
  cases s <;> decide

/-- `tree_r_discard_rows_`. -/
def treeRDiscardRows : ℕ := if s.sectorSize ≤ 32 * oneKB then 1 else 2

/-- `GetNumTreeRLabels`. -/
def treeRLabels : ℕ := 8 ^ (s.treeRDiscardRows + 1)

/-- The assertions of `GetNumTreeRCLevels`. -/
def TreeRCUniform : Prop := s.treeRCTopArity = 0 ∧ s.treeRCSubArity ≠ 2

/-- `GetNumTreeRCLevels`. -/
def treeRCLevels : ℕ := Nat.log2 s.numLeaves / Nat.log2 8

instance : Decidable s.TreeRCUniform := inferInstanceAs (Decidable (_ ∧ _))

lemma treeRCUniform_iff : s.TreeRCUniform ↔
    s = sector2KB ∨ s = sector16KB ∨ s = sector8MB ∨ s = sector512MB ∨ s = sector32GB := by
  cases s <;> decide

lemma treeRCFiles_pos : 0 < s.treeRCFiles := by
  rw [s.treeRCFiles_eq]
  cases s <;> decide

lemma nodeSizeLg_le_lg : nodeSizeLg ≤ s.lg := by
  cases s <;> decide

lemma numLeaves_eq : s.numLeaves = 2 ^ s.nodeBits := by
  rw [numLeaves, sectorSize, nodeSize, nodeBits, Nat.one_shiftLeft,
    Nat.pow_div s.nodeSizeLg_le_lg (by decide)]

lemma numLeaves_eq_treeDLevels : s.numLeaves = 2 ^ s.treeDLevels := by
  rw [treeDLevels, numLeaves_eq, Nat.log2_two_pow]

lemma treeDLevels_eq : s.treeDLevels =
    match s with
    | sector2KB => 6
    | sector4KB => 7
    | sector16KB => 9
    | sector32KB => 10
    | sector8MB => 18
    | sector16MB => 19
    | sector512MB => 24
    | sector1GB => 25
    | sector32GB => 30
    | sector64GB => 31 := by
  rw [treeDLevels, numLeaves_eq, Nat.log2_two_pow]
  cases s <;> rfl

lemma numLayers_pos : 0 < s.numLayers := by
  rw [numLayers]
  split_ifs <;> decide

/-- `sealing_config_t` for `2 ^ lgSectors` sectors, at least two. -/
def config {lgSectors : ℕ} (h1 : 1 ≤ lgSectors) (h7 : lgSectors ≤ 7) : Config where
  nodeBits := s.nodeBits
  numLayers := s.numLayers
  lgParallelSectors := lgSectors
  sectors_le := h7
  page_le_layer := by
    have hbits : 6 ≤ s.nodeBits := by
      cases s <;> decide
    omega

end SectorSize

end SupraSeal
