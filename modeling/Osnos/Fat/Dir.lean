import Osnos.Fat.Name
import Osnos.Fat.Table

/-! Directory slots, iteration and path lookup. A directory is named by its first
cluster; 0 is the fixed root region. Slot indices are 32-bit, so a scan that has
looked at `2 ^ 32` slots has looked at every index and repeats itself for ever. -/
namespace Osnos.Fat

def scanRounds : Nat := 2 ^ 32

inductive Located where
  | found (slot : Slot) (lba off : Nat)
  | past
  | ioError

def slotIn (buf : Sector) (i : Nat) : Slot := fun k => if k < 32 then buf (i * 32 + k) else 0

section
variable (g : Geometry)

/-- `n` steps along the chain. The inner option is the "truly ended" result 1. -/
def dirWalk : Nat → Nat → Driver (Option (Option Nat))
  | 0, cluster => return some (if cluster < 2 ∨ cluster ≥ 0xFFF8 then none else some cluster)
  | n + 1, cluster => do
    if cluster < 2 ∨ cluster ≥ 0xFFF8 then return some none
    match ← fatGetEntry g cluster with
    | none => return none
    | some next => dirWalk n next

def dirSlotLocate (dir idx : Nat) : Driver Located := do
  if dir = 0 then
    if idx ≥ g.rootDirSectors * 16 then return .past
    let lba := g.rootDirLba + idx / 16
    match ← blockAtaReadSector lba with
    | none => return .ioError
    | some buf => return .found (slotIn buf (idx % 16)) lba (idx % 16 * 32)
  let entriesPerCluster := g.sectorsPerCluster * 16
  match ← dirWalk g (idx / entriesPerCluster) dir with
  | none => return .ioError
  | some none => return .past
  | some (some cluster) =>
    let inCluster := idx % entriesPerCluster
    let lba := g.clusterToLba cluster + inCluster / 16
    match ← blockAtaReadSector lba with
    | none => return .ioError
    | some buf => return .found (slotIn buf (inCluster % 16)) lba (inCluster % 16 * 32)

/-- As above, and the first byte 0 is the end of the directory. -/
def readDirSlot (dir idx : Nat) : Driver Located := do
  match ← dirSlotLocate g dir idx with
  | .found slot lba off => if slot 0 = 0 then return .past else return .found slot lba off
  | r => return r

def decodeEntry (accum : LfnAccum) (slot : Slot) (lba off : Nat) : Dirent :=
  let de := parseDirent slot lba off
  match accum.finalize (name11 slot) with
  | some long => { de with name := long }
  | none => de

def fatReaddirLoop (dir : Nat) : Nat → LfnAccum → Nat → Driver (Option (Dirent × Nat))
  | 0, _, _ => Prog.diverge
  | n + 1, accum, idx => do
    match ← readDirSlot g dir idx with
    | .past => return none
    | .ioError => return none
    | .found slot lba off =>
      let idx := (idx + 1) % 2 ^ 32
      if slot 0 = 0xE5 then fatReaddirLoop dir n accum.reset idx
      else if isLfnSlot slot then fatReaddirLoop dir n (accum.consume slot) idx
      else if isVolSlot slot then fatReaddirLoop dir n accum.reset idx
      else return some (decodeEntry accum slot lba off, idx)

def readdirFrom (dir cursor : Nat) : Driver (Option (Dirent × Nat)) :=
  fatReaddirLoop g dir scanRounds .empty cursor

def dirFindLoop (dir : Nat) (want : List UInt8) : Nat → Nat → Driver (Option Dirent)
  | 0, _ => Prog.diverge
  | n + 1, cursor => do
    match ← readdirFrom g dir cursor with
    | none => return none
    | some (ent, next) =>
      if nameIequal ent.name want then return some ent
      else if nameIequal ent.shortName want then return some ent
      else dirFindLoop dir want n next

def dirFindByName (dir : Nat) (want : List UInt8) : Driver (Option Dirent) :=
  dirFindLoop g dir want scanRounds 0

end

def rootSentinel : Dirent := ⟨[47], [], true, 0, 0, 0, 0⟩
def dropSlashes (path : List UInt8) : List UInt8 := path.dropWhile (· = 47)

/-- The next component, cut after 63 bytes, and what is left after the slashes
that follow it. The cut-off rest of a longer component is a component of its own. -/
def takeComponent (path : List UInt8) : List UInt8 × List UInt8 :=
  let comp := (path.takeWhile (· ≠ 47)).take 63
  (comp, dropSlashes (path.drop comp.length))

/-- The component loop of `fat_lookup`. The path is shorter after every round. -/
def lookupLoop (g : Geometry) : Nat → Dirent → List UInt8 → Driver (Option Dirent)
  | 0, _, _ => Prog.diverge
  | n + 1, cur, path => do
    if path = [] then return some cur
    let (comp, rest) := takeComponent path
    if comp = [] then lookupLoop g n cur rest
    else if !cur.isDir then return none
    else match ← dirFindByName g cur.firstCluster comp with
      | none => return none
      | some next => lookupLoop g n next rest

def lookupFrom (g : Geometry) (path : List UInt8) : Driver (Option Dirent) :=
  let path := dropSlashes path
  lookupLoop g (path.length + 1) rootSentinel path

def mounted : Driver (Option Geometry) := do return (← get).fs

def fatReaddir (dir : Dirent) (cursor : Nat) : Driver (Option (Dirent × Nat)) := do
  match ← mounted with
  | none => return none
  | some g => if !dir.isDir then return none else readdirFrom g dir.firstCluster cursor

def fatLookup (path : List UInt8) : Driver (Option Dirent) := do
  match ← mounted with
  | none => return none
  | some g => lookupFrom g path

end Osnos.Fat
