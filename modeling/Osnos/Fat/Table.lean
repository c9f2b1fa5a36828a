import Osnos.Fat.Geometry

/-! The block device, the FAT sector cache and the allocation table.
The driver's static variables and the disk it talks to are one state record. -/
namespace Osnos.Fat

/-- What a block write is for. The code does not record it; the model does, so
that a run can be asked where each kind of write went. -/
inductive Purpose where
  | fat | data | dirent
  deriving DecidableEq, Repr

/-- `blockOk n lba` says whether the `n`-th request, for sector `lba`, completes:
the drive is present, the sector is in range and the drive reports no error. -/
structure State where
  fs : Option Geometry
  fatCacheSec : Nat
  fatCacheBuf : Sector
  disk : Nat → Sector
  blockOk : Nat → Nat → Bool
  requests : Nat
  writes : List (Purpose × Nat)

abbrev Driver (α : Type) : Type := Prog State α
def noSector : Nat := 0xFFFFFFFF

def blockAtaReadSector (lba : Nat) : Driver (Option Sector) := do
  let s ← get
  set { s with requests := s.requests + 1 }
  if s.blockOk s.requests lba then return some (s.disk lba)
  return none

/-- False when the write failed; the sector is then as it was. -/
def blockAtaWriteSector (purpose : Purpose) (lba : Nat) (buf : Sector) : Driver Bool := do
  let s ← get
  let s := { s with requests := s.requests + 1, writes := (purpose, lba) :: s.writes }
  if s.blockOk (s.requests - 1) lba then
    set { s with disk := Function.update s.disk lba buf }
    return true
  set s
  return false

def fatCacheInvalidate (sec : Nat) : Driver Unit :=
  modify fun s => if s.fatCacheSec = sec then { s with fatCacheSec := noSector } else s

section
variable (g : Geometry)

/-- The FAT entry of a cluster, through the one-sector cache; `none` is `-1`. -/
def fatGetEntry (cluster : Nat) : Driver (Option Nat) := do
  let sec := g.fatLba + cluster * 2 / 512
  let s ← get
  if s.fatCacheSec ≠ sec then
    match ← blockAtaReadSector sec with
    | none => return none
    | some buf =>
      modify fun s => { s with fatCacheBuf := buf, fatCacheSec := sec }
      return some (rd16 buf (cluster * 2 % 512))
  return some (rd16 s.fatCacheBuf (cluster * 2 % 512))

def put16 (buf : Sector) (o v : Nat) : Sector :=
  Function.update (Function.update buf o (UInt8.ofNat v)) (o + 1) (UInt8.ofNat (v / 256))

/-- The loop over the FAT copies from `fatIdx` on; `n` copies are left. -/
def fatSetEntryFrom (cluster value : Nat) : Nat → Nat → Driver Int
  | 0, _ => return 0
  | n + 1, fatIdx => do
    let sec := g.fatLba + fatIdx * g.fatSizeSectors + cluster * 2 / 512
    match ← blockAtaReadSector sec with
    | none => return -1
    | some buf =>
      if !(← blockAtaWriteSector .fat sec (put16 buf (cluster * 2 % 512) value)) then return -1
      fatCacheInvalidate sec
      fatSetEntryFrom cluster value n (fatIdx + 1)

def fatSetEntry (cluster value : Nat) : Driver Int := fatSetEntryFrom g cluster value g.numFats 0

/-- The scan of `fat_alloc_cluster` from entry `c` on, with `n` entries left and
the sector last read. -/
def fatAllocClusterFrom : Nat → Nat → Nat → Sector → Driver Nat
  | 0, _, _, _ => return 0
  | n + 1, c, cachedSec, buf => do
    let sec := g.fatLba + c * 2 / 512
    let claim (buf : Sector) : Driver Nat := do
      if rd16 buf (c * 2 % 512) = 0 then
        if (← fatSetEntry g c 0xFFFF) ≠ 0 then return 0
        return c
      fatAllocClusterFrom n (c + 1) sec buf
    if sec ≠ cachedSec then
      match ← blockAtaReadSector sec with
      | none => return 0
      | some buf => claim buf
    else claim buf

/-- The first free cluster, now marked as the end of a chain; 0 when there is none. -/
def fatAllocCluster : Driver Nat :=
  fatAllocClusterFrom g (g.maxEntries - 2) 2 noSector (fun _ => 0)

def fatFreeChainLoop : Nat → Nat → Driver Int
  | 0, _ => Prog.diverge
  | n + 1, cur => do
    if cur < 2 ∨ cur ≥ 0xFFF8 then return 0
    match ← fatGetEntry g cur with
    | none => return -1
    | some next =>
      if (← fatSetEntry g cur 0) ≠ 0 then return -1
      fatFreeChainLoop n next

/-- A round clears the entry it leaves, so a chain that loops is cut; no walk
takes more rounds than there are 16-bit cluster numbers. -/
def fatFreeChain (first : Nat) : Driver Int := fatFreeChainLoop g 65537 first

def fatAllocChainLoop : Nat → Nat → Nat → Driver (Int × Nat)
  | 0, first, _ => return (0, first)
  | n + 1, first, prev => do
    let c ← fatAllocCluster g
    if c = 0 then
      if first ≠ 0 then let _ ← fatFreeChain g first
      return (-28, 0)
    if first = 0 then fatAllocChainLoop n c c
    else if (← fatSetEntry g prev c) ≠ 0 then
      let _ ← fatFreeChain g first
      return (-5, 0)
    else fatAllocChainLoop n first c

def fatAllocChain (count : Nat) : Driver (Int × Nat) :=
  if count = 0 then return (0, 0) else fatAllocChainLoop g count 0 0

end

end Osnos.Fat
