import Osnos.Base.Prog

/-! The volume layout that `fat_init` reads from the boot sector. Sectors are
byte functions; only the offsets below 512 are ever stored or read. -/
namespace Osnos.Fat

abbrev Sector := Nat → UInt8
def rd16 (p : Sector) (o : Nat) : Nat := (p o).toNat + 256 * (p (o + 1)).toNat

def rd32 (p : Sector) (o : Nat) : Nat :=
  (p o).toNat + 256 * (p (o + 1)).toNat + 65536 * (p (o + 2)).toNat +
    16777216 * (p (o + 3)).toNat

theorem rd32_lt (p : Sector) (o : Nat) : rd32 p o < 2 ^ 32 := by
  have b₀ := (p o).toNat_lt
  have b₁ := (p (o + 1)).toNat_lt
  have b₂ := (p (o + 2)).toNat_lt
  have b₃ := (p (o + 3)).toNat_lt
  simp only [rd32]
  omega

structure Bpb where
  bytesPerSector : Nat
  sectorsPerCluster : Nat
  reservedSectors : Nat
  numFats : Nat
  rootEntries : Nat
  totalSectors : Nat
  fatSizeSectors : Nat
  deriving DecidableEq

variable (b : Bpb)

namespace Bpb

def fatLba : Nat := b.reservedSectors
def rootDirLba : Nat := b.fatLba + b.numFats * b.fatSizeSectors
def rootDirSectors : Nat := (b.rootEntries * 32 + 511) / 512
def dataLba : Nat := b.rootDirLba + b.rootDirSectors
def dataSectors : Nat := (b.totalSectors + 2 ^ 32 - b.dataLba) % 2 ^ 32
def totalClusters : Nat := b.dataSectors / b.sectorsPerCluster
def maxEntries : Nat := min (b.fatSizeSectors * 512 / 2) 65525
def clusterSize : Nat := b.sectorsPerCluster * 512

def clusterToLba (cluster : Nat) : Nat :=
  b.dataLba + (cluster - 2) * b.sectorsPerCluster

structure Ranged (b : Bpb) : Prop where
  spc : b.sectorsPerCluster < 256
  reserved : b.reservedSectors < 65536
  fats : b.numFats < 256
  entries : b.rootEntries < 65536
  total : b.totalSectors < 2 ^ 32
  fatSize : b.fatSizeSectors < 65536

def Accepted : Prop :=
  b.bytesPerSector = 512 ∧ b.sectorsPerCluster ≠ 0 ∧ b.reservedSectors ≠ 0 ∧ b.numFats ≠ 0 ∧
    b.fatSizeSectors ≠ 0 ∧ b.rootEntries ≠ 0 ∧ b.totalSectors ≠ 0 ∧
    ¬ (b.totalClusters < 4085 ∨ b.totalClusters ≥ 65525)

instance (b : Bpb) : Decidable b.Accepted := by unfold Accepted; infer_instance

end Bpb

/-- A mounted layout: every BPB that passed the checks, and nothing else. -/
structure Geometry extends Bpb where
  ranged : toBpb.Ranged
  accepted : toBpb.Accepted

namespace Geometry

variable (g : Geometry)

theorem spc_pos : 0 < g.sectorsPerCluster := Nat.pos_of_ne_zero g.accepted.2.1

theorem numFats_pos : 0 < g.numFats := Nat.pos_of_ne_zero g.accepted.2.2.2.1

theorem fatSize_pos : 0 < g.fatSizeSectors := Nat.pos_of_ne_zero g.accepted.2.2.2.2.1

theorem clusterSize_pos : 0 < g.clusterSize := by
  have h := g.spc_pos
  simp only [Bpb.clusterSize]
  omega

theorem fats_le : g.numFats * g.fatSizeSectors ≤ 255 * 65535 :=
  Nat.mul_le_mul (Nat.le_of_lt_succ g.ranged.fats) (Nat.le_of_lt_succ g.ranged.fatSize)

theorem dataLba_lt : g.dataLba < 2 ^ 25 := by
  have hf := g.fats_le
  have hr := g.ranged.reserved
  have he := g.ranged.entries
  simp only [Bpb.dataLba, Bpb.rootDirLba, Bpb.fatLba, Bpb.rootDirSectors]
  omega

end Geometry

end Osnos.Fat
