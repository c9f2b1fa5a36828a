import Osnos.Fat.Entry

/-! The public write operations of the driver. Result codes are the errno values
of the source with their sign: -2 ENOENT, -5 EIO, -17 EEXIST, -20 ENOTDIR,
-21 EISDIR, -22 EINVAL, -28 ENOSPC, -39 ENOTEMPTY. -/
namespace Osnos.Fat

/-- `write_target_t`: an existing file, or the parent and the name of a new one. -/
inductive WriteTarget where
  | existing (de : Dirent)
  | fresh (parent : Nat) (naming : EntryNaming)

/-- Marks the 8.3 slot at `idx` deleted, then the `count` slots before it. A
failure on one of these is not reported. -/
def deleteGroup (g : Geometry) (dir idx : Nat) (count : Nat) : Nat → Driver Unit
  | 0 => return ()
  | n + 1 => do
    let _ ← deleteSlotByIdx g dir (idx - count + (count - (n + 1)))
    deleteGroup g dir idx count n

section
variable (g : Geometry)

def resolveWriteTarget (path : List UInt8) : Driver (Except Int WriteTarget) := do
  match ← lookupFrom g path with
  | some de =>
    if de.isDir then return .error (-21)
    if de.direntLba = 0 then return .error (-22)
    return .ok (.existing de)
  | none =>
    match splitParentBase path with
    | none => return .error (-22)
    | some (parentPath, base) =>
      match ← lookupFrom g parentPath with
      | none => return .error (-2)
      | some parent =>
        if !parent.isDir then return .error (-20)
        match ← computeEntryNaming g parent.firstCluster base with
        | .error rc => return .error rc
        | .ok naming => return .ok (.fresh parent.firstCluster naming)

def replaceChain (de : Dirent) (newChain len : Nat) : Driver Int := do
  match ← blockAtaReadSector de.direntLba with
  | none =>
    let _ ← fatFreeChain g newChain
    return -5
  | some sb =>
    let raw : Slot := fun i => sb (de.direntOffset + i)
    let rc ← readModifyWriteDirent de.direntLba de.direntOffset
      (put32 (put16 raw 26 newChain) 28 len)
    if rc ≠ 0 then
      let _ ← fatFreeChain g newChain
      return rc
    if de.firstCluster ≥ 2 ∧ de.firstCluster < 0xFFF8 then
      let _ ← fatFreeChain g de.firstCluster
    return 0

def writePath (path : List UInt8) (buf : Nat → UInt8) (len : Nat) : Driver Int := do
  match ← resolveWriteTarget g path with
  | .error rc => return rc
  | .ok target =>
    let (rc, newChain) ← fatAllocChain g (clustersFor g len)
    if rc ≠ 0 then return rc
    let rc ← if len > 0 then writeDataIntoChain g newChain buf len else pure 0
    if rc ≠ 0 then
      let _ ← fatFreeChain g newChain
      return rc
    match target with
    | .existing de => replaceChain g de newChain len
    | .fresh parent naming =>
      let rc ← writeEntryWithNaming g parent naming
        (buildDirentRaw naming.alias11 0x20 newChain len)
      if rc ≠ 0 then
        let _ ← fatFreeChain g newChain
      return rc

def appendPath (path : List UInt8) (buf : Nat → UInt8) (len : Nat) : Driver Int := do
  if len = 0 then return 0
  match ← lookupFrom g path with
  | none => writePath g path buf len
  | some de =>
    if de.isDir then return -21
    if de.size = 0 ∨ de.firstCluster < 2 then writePath g path buf len
    else fatExtendExisting g de buf len

/-- The part that unlink and rmdir share once the entry has been checked: find it
in the parent that the path names, free its chain, delete its slots. -/
def removeEntry (path : List UInt8) (de : Dirent) : Driver Int := do
  match splitParentBase path with
  | none => return -22
  | some (parentPath, _) =>
    match ← lookupFrom g parentPath with
    | none => return -5
    | some parent =>
      match ← locateTargetAndLfn g parent.firstCluster de.direntLba de.direntOffset with
      | none => return -5
      | some (targetIdx, lfnCount) =>
        if (← fatFreeChain g de.firstCluster) ≠ 0 then return -5
        if (← deleteSlotByIdx g parent.firstCluster targetIdx) ≠ 0 then return -5
        deleteGroup g parent.firstCluster targetIdx lfnCount lfnCount
        return 0

def unlinkPath (path : List UInt8) : Driver Int := do
  match ← lookupFrom g path with
  | none => return -2
  | some de =>
    if de.isDir then return -21
    if de.direntLba = 0 then return -22
    removeEntry g path de

def dotSector (dirCluster parent : Nat) : Sector := fun i =>
  if i < 32 then buildDirentRaw (pad 11 [46]) 0x10 dirCluster 0 i
  else if i < 64 then buildDirentRaw (pad 11 [46, 46]) 0x10 parent 0 (i - 32)
  else 0

def mkdirPath (path : List UInt8) : Driver Int := do
  match ← lookupFrom g path with
  | some _ => return -17
  | none =>
    match splitParentBase path with
    | none => return -22
    | some (parentPath, base) =>
      match ← lookupFrom g parentPath with
      | none => return -2
      | some parent =>
        if !parent.isDir then return -20
        match ← computeEntryNaming g parent.firstCluster base with
        | .error rc => return rc
        | .ok naming =>
          let dirCluster ← fatAllocCluster g
          if dirCluster = 0 then return -28
          let lbaStart := g.clusterToLba dirCluster
          if !(← blockAtaWriteSector .data lbaStart (dotSector dirCluster parent.firstCluster)) then
            let _ ← fatFreeChain g dirCluster
            return -5
          if !(← zeroSectors (g.sectorsPerCluster - 1) (lbaStart + 1)) then
            let _ ← fatFreeChain g dirCluster
            return -5
          let rc ← writeEntryWithNaming g parent.firstCluster naming
            (buildDirentRaw naming.alias11 0x10 dirCluster 0)
          if rc ≠ 0 then
            let _ ← fatFreeChain g dirCluster
          return rc

end

def whenMounted (op : Geometry → Driver Int) : Driver Int := do
  match ← mounted with
  | none => return -5
  | some g => op g

def fatWritePath (path : List UInt8) (buf : Nat → UInt8) (len : Nat) : Driver Int :=
  whenMounted fun g => writePath g path buf len

def fatAppendPath (path : List UInt8) (buf : Nat → UInt8) (len : Nat) : Driver Int :=
  whenMounted fun g => appendPath g path buf len

def fatUnlinkPath (path : List UInt8) : Driver Int := whenMounted fun g => unlinkPath g path
def fatMkdirPath (path : List UInt8) : Driver Int := whenMounted fun g => mkdirPath g path

end Osnos.Fat
