import Osnos.Fat.Dir

/-! File contents: reading a range, filling a fresh chain, growing the tail. A C
buffer is a byte function with a length beside it; 32-bit sums that can wrap do. -/
namespace Osnos.Fat

def asInt (n : Nat) : Int := if n < 2 ^ 31 then n else (n : Int) - 2 ^ 32

section
variable (g : Geometry)

def skipClusters : Nat → Nat → Driver (Option Nat)
  | 0, cluster => return some cluster
  | n + 1, cluster => do
    if cluster < 2 ∨ cluster ≥ 0xFFF8 then return none
    match ← fatGetEntry g cluster with
    | none => return none
    | some next => skipClusters n next

def readSectors (lbaStart len : Nat) : Nat → Nat → Nat → List UInt8 → Driver (Option (List UInt8))
  | 0, _, _, out => return some out
  | n + 1, secIn, secOff, out => do
    if ¬ out.length < len then return some out
    match ← blockAtaReadSector (lbaStart + secIn) with
    | none => return none
    | some sbuf =>
      let chunk := min (512 - secOff) (len - out.length)
      readSectors lbaStart len n (secIn + 1) 0
        (out ++ (List.range chunk).map fun i => sbuf (secOff + i))

def readClusters (len : Nat) : Nat → Nat → Nat → List UInt8 → Driver (Option (List UInt8))
  | 0, _, _, _ => Prog.diverge
  | n + 1, cluster, inClusterOff, out => do
    if ¬ out.length < len then return some out
    if cluster < 2 ∨ cluster ≥ 0xFFF8 then return some out
    let secIn := inClusterOff / 512
    match ← readSectors (g.clusterToLba cluster) len (g.sectorsPerCluster - secIn) secIn
        (inClusterOff % 512) out with
    | none => return none
    | some out =>
      if out.length < len then
        match ← fatGetEntry g cluster with
        | none => return none
        | some next => readClusters len n next 0 out
      else readClusters len n cluster 0 out

def readRange (de : Dirent) (off len : Nat) : Driver (Option (List UInt8)) := do
  if de.isDir then return none
  if off ≥ de.size then return some []
  let len := min len (de.size - off)
  if len = 0 then return some []
  match ← skipClusters g (off / g.clusterSize) de.firstCluster with
  | none => return none
  | some cluster => readClusters g len (len + 1) cluster (off % g.clusterSize) []

def sectorOf (src : Nat → UInt8) (written chunk : Nat) : Sector := fun k =>
  if k < chunk then src (written + k) else 0

def writeSectors (lbaStart : Nat) (src : Nat → UInt8) (len : Nat) :
    Nat → Nat → Nat → Driver (Option Nat)
  | 0, _, written => return some written
  | n + 1, s, written => do
    if ¬ written < len then return some written
    let chunk := min 512 (len - written)
    if !(← blockAtaWriteSector .data (lbaStart + s) (sectorOf src written chunk)) then return none
    writeSectors lbaStart src len n (s + 1) (written + chunk)

def writeDataLoop (src : Nat → UInt8) (len : Nat) : Nat → Nat → Nat → Driver Int
  | 0, _, _ => Prog.diverge
  | n + 1, cluster, written => do
    if ¬ written < len then return 0
    if cluster < 2 ∨ cluster ≥ 0xFFF8 then return -5
    match ← writeSectors (g.clusterToLba cluster) src len g.sectorsPerCluster 0 written with
    | none => return -5
    | some written =>
      if written < len then
        match ← fatGetEntry g cluster with
        | none => return -5
        | some next => writeDataLoop src len n next written
      else writeDataLoop src len n cluster written

def writeDataIntoChain (first : Nat) (src : Nat → UInt8) (len : Nat) : Driver Int :=
  writeDataLoop g src len (len + 1) first 0

def putSlot (buf : Sector) (off : Nat) (raw : Slot) : Sector := fun i =>
  if off ≤ i ∧ i < off + 32 then raw (i - off) else buf i

def readModifyWriteDirent (lba off : Nat) (raw : Slot) : Driver Int := do
  match ← blockAtaReadSector lba with
  | none => return -5
  | some buf =>
    if ← blockAtaWriteSector .dirent lba (putSlot buf off raw) then return 0
    return -5

def put32 (buf : Sector) (o v : Nat) : Sector := put16 (put16 buf o v) (o + 2) (v / 65536)

/-- The walk of `fat_extend_existing` to the last cluster, with the bytes before
it. A walk that has taken more rounds than there are cluster numbers never ends. -/
def tailWalk : Nat → Nat → Nat → Driver (Option (Nat × Nat))
  | 0, _, _ => Prog.diverge
  | n + 1, cluster, before => do
    match ← fatGetEntry g cluster with
    | none => return none
    | some next =>
      if next ≥ 0xFFF8 then return some (cluster, before)
      if next < 2 then return none
      tailWalk n next ((before + g.clusterSize) % 2 ^ 32)

def putBytes (sbuf : Sector) (inSec : Nat) (src : Nat → UInt8) (srcOff can : Nat) : Sector :=
  fun i => if inSec ≤ i ∧ i < inSec + can then src (srcOff + (i - inSec)) else sbuf i

def fillTail (lba0 : Nat) (src : Nat → UInt8) (toLast : Nat) :
    Nat → Nat → Nat → Nat → Driver Bool
  | 0, _, _, _ => Prog.diverge
  | n + 1, secOff, inSec, srcOff => do
    if ¬ srcOff < toLast then return true
    match ← blockAtaReadSector (lba0 + secOff) with
    | none => return false
    | some sbuf =>
      let can := min (512 - inSec) (toLast - srcOff)
      if !(← blockAtaWriteSector .data (lba0 + secOff) (putBytes sbuf inSec src srcOff can)) then
        return false
      fillTail lba0 src toLast n (secOff + 1) 0 (srcOff + can)

def bumpSize (de : Dirent) (size : Nat) : Driver Int := do
  match ← blockAtaReadSector de.direntLba with
  | none => return -5
  | some sb =>
    let raw : Slot := fun i => sb (de.direntOffset + i)
    readModifyWriteDirent de.direntLba de.direntOffset (put32 raw 28 size)

/-- `(len + cluster_size - 1) / cluster_size` in 32-bit arithmetic. -/
def clustersFor (len : Nat) : Nat := (len + g.clusterSize - 1) % 2 ^ 32 / g.clusterSize

def fillLast (lastCluster tailOff : Nat) (buf : Nat → UInt8) (toLast : Nat) : Driver Bool := do
  if toLast > 0 then
    fillTail (g.clusterToLba lastCluster) buf toLast (toLast + 1) (tailOff / 512) (tailOff % 512) 0
  else return true

def extendChain (lastCluster : Nat) (buf : Nat → UInt8) (toLast remaining : Nat) : Driver Int := do
  if ¬ remaining > 0 then return 0
  let (rc, newChain) ← fatAllocChain g (clustersFor g remaining)
  if rc ≠ 0 then return rc
  if (← fatSetEntry g lastCluster newChain) ≠ 0 then
    let _ ← fatFreeChain g newChain
    return -5
  writeDataIntoChain g newChain (fun i => buf (toLast + i)) remaining

def fatExtendExisting (de : Dirent) (buf : Nat → UInt8) (len : Nat) : Driver Int := do
  if len = 0 then return 0
  match ← tailWalk g 65537 de.firstCluster 0 with
  | none => return -5
  | some (lastCluster, bytesBeforeLast) =>
    let tailOff := de.size - bytesBeforeLast
    let spaceInLast := g.clusterSize - tailOff
    let toLast := min len spaceInLast
    if !(← fillLast g lastCluster tailOff buf toLast) then return -5
    let rc ← extendChain g lastCluster buf toLast (len - toLast)
    if rc ≠ 0 then return rc
    bumpSize de ((de.size + len) % 2 ^ 32)

end

def fatReadFile (de : Dirent) (off len : Nat) : Driver (Int × List UInt8) := do
  match ← mounted with
  | none => return (-1, [])
  | some g =>
    match ← readRange g de off len with
    | none => return (-1, [])
    | some out => return (asInt out.length, out)

end Osnos.Fat
