import Osnos.Fat.File

/-! Names for new entries and the slots they are installed in. -/
namespace Osnos.Fat

def buildDirentRaw (alias11 : List UInt8) (attr : UInt8) (firstCluster size : Nat) : Slot :=
  put32 (put16 (fun i => if i < 11 then alias11.getD i 0 else if i = 11 then attr else 0)
    26 firstCluster) 28 size

/-- Parent path and last component; both are cut to their 64-byte buffers, the
component silently, the parent with an error. -/
def splitParentBase (path : List UInt8) : Option (List UInt8 × List UInt8) :=
  let path := dropSlashes path
  if path = [] then none
  else
    let base := path.rtakeWhile (· ≠ 47)
    if base.length = path.length then some ([47], path.take 62)
    else
      let parentLen := path.length - base.length - 1
      if parentLen + 2 > 64 then none
      else if base = [] then none
      else some (47 :: path.take parentLen, base.take 62)

def aliasChar (c : UInt8) : UInt8 :=
  let c := upcase c
  if (65 ≤ c ∧ c ≤ 90) ∨ (48 ≤ c ∧ c ≤ 57) then c else 95

def aliasBase (longName : List UInt8) : List UInt8 :=
  let base := if 46 ∈ longName then (longName.rdropWhile (· ≠ 46)).dropLast else longName
  let filtered := ((base.filter fun c => c ≠ 32 ∧ c ≠ 46).map aliasChar).take 6
  if filtered = [] then [70] else filtered

def aliasExt (longName : List UInt8) : List UInt8 :=
  let ext := if 46 ∈ longName then longName.rtakeWhile (· ≠ 46) else []
  ((ext.filter fun c => c ≠ 32).map aliasChar).take 3

def digit (n : Nat) : UInt8 := UInt8.ofNat (48 + n)

def aliasOf (longName : List UInt8) (n : Nat) : List UInt8 :=
  let suffix := if n < 10 then [digit n] else [digit (n / 10), digit (n % 10)]
  pad 8 ((aliasBase longName).take (6 - suffix.length) ++ 126 :: suffix) ++ pad 3 (aliasExt longName)

/-- `entry_naming_t`; the long name is empty where the entry has none. -/
structure EntryNaming where
  alias11 : List UInt8
  needsLfn : Bool
  longName : List UInt8
  nLfnSlots : Nat

def lfnChar (longName : List UInt8) (seq i : Nat) : Nat :=
  let idx := (seq - 1) * 13 + i
  if idx < longName.length then (longName.getD idx 0).toNat
  else if idx = longName.length then 0 else 0xFFFF

def buildLfnSlot (longName : List UInt8) (seq : Nat) (isLast : Bool) (cksum : UInt8) : Slot :=
  lfnCharByteOffsets.zipIdx.foldl (fun out oi => put16 out oi.1 (lfnChar longName seq oi.2))
    (fun k => if k = 0 then UInt8.ofNat (if isLast then seq + 0x40 else seq)
      else if k = 11 then 0x0F else if k = 13 then cksum else 0)

section
variable (g : Geometry)

def deleteSlotByIdx (dir idx : Nat) : Driver Int := do
  match ← dirSlotLocate g dir idx with
  | .found _ lba off =>
    match ← blockAtaReadSector lba with
    | none => return -1
    | some sb =>
      if ← blockAtaWriteSector .dirent lba (Function.update sb off 0xE5) then return 0
      return -1
  | _ => return -1

structure LfnRun where
  count : Nat
  active : Bool
  cksum : UInt8

def LfnRun.step (r : LfnRun) (slot : Slot) : LfnRun :=
  if slot 0 ≠ 0xE5 ∧ isLfnSlot slot then
    if slot 0 &&& 0x40 ≠ 0 then ⟨1, true, slot 13⟩
    else if r.active ∧ slot 13 = r.cksum then { r with count := r.count + 1 }
    else { r with active := false, count := 0 }
  else { r with active := false, count := 0 }

def locateLoop (parent targetLba targetOff : Nat) :
    Nat → LfnRun → Nat → Driver (Option (Nat × Nat))
  | 0, _, _ => Prog.diverge
  | n + 1, run, idx => do
    match ← dirSlotLocate g parent idx with
    | .found slot lba off =>
      if lba = targetLba ∧ off = targetOff then
        if run.active ∧ run.cksum = lfnChecksum11 (name11 slot) then return some (idx, run.count)
        return some (idx, 0)
      locateLoop parent targetLba targetOff n (run.step slot) ((idx + 1) % 2 ^ 32)
    | _ => return none

/-- Slot index of the entry at a position, and how many LFN slots before it are its own. -/
def locateTargetAndLfn (parent targetLba targetOff : Nat) : Driver (Option (Nat × Nat)) :=
  locateLoop g parent targetLba targetOff scanRounds ⟨0, false, 0⟩ 0

def findFreeLoop (dir count : Nat) :
    Nat → List (Nat × Nat) → Nat → Driver (Except Int (List (Nat × Nat)))
  | 0, _, _ => Prog.diverge
  | n + 1, run, idx => do
    match ← dirSlotLocate g dir idx with
    | .ioError => return .error (-5)
    | .past => return .error (-28)
    | .found slot lba off =>
      if slot 0 = 0xE5 ∨ slot 0 = 0 then
        let run := run ++ [(lba, off)]
        if run.length = count then return .ok run
        findFreeLoop dir count n run ((idx + 1) % 2 ^ 32)
      else findFreeLoop dir count n [] ((idx + 1) % 2 ^ 32)

def findFreeDirSlotsRun (dir count : Nat) : Driver (Except Int (List (Nat × Nat))) :=
  findFreeLoop g dir count scanRounds [] 0

def dirHas83Loop (dir : Nat) (alias11 : List UInt8) : Nat → Nat → Driver Bool
  | 0, _ => Prog.diverge
  | n + 1, idx => do
    match ← readDirSlot g dir idx with
    | .found slot _ _ =>
      if direntIsValid slot ∧ name11 slot = alias11 then return true
      dirHas83Loop dir alias11 n ((idx + 1) % 2 ^ 32)
    | _ => return false

def dirHas83 (dir : Nat) (alias11 : List UInt8) : Driver Bool :=
  dirHas83Loop g dir alias11 scanRounds 0

def genShortAliasFrom (parent : Nat) (longName : List UInt8) : Nat → Nat → Driver (Except Int (List UInt8))
  | 0, _ => return .error (-28)
  | k + 1, n => do
    if ← dirHas83 g parent (aliasOf longName n) then genShortAliasFrom parent longName k (n + 1)
    else return .ok (aliasOf longName n)

def genShortAlias (parent : Nat) (longName : List UInt8) : Driver (Except Int (List UInt8)) :=
  genShortAliasFrom g parent longName 99 1

def computeEntryNaming (parent : Nat) (base : List UInt8) : Driver (Except Int EntryNaming) := do
  match nameTo83 base with
  | some alias11 => return .ok ⟨alias11, false, [], 0⟩
  | none =>
    if base.length = 0 ∨ base.length > 63 then return .error (-22)
    match ← genShortAlias g parent base with
    | .error rc => return .error rc
    | .ok alias11 =>
      if (base.length + 12) / 13 > 5 then return .error (-22)
      return .ok ⟨alias11, true, base, (base.length + 12) / 13⟩

def lastOfDir : Nat → Nat → Driver (Option Nat)
  | 0, _ => Prog.diverge
  | n + 1, cur => do
    if cur < 2 ∨ cur ≥ 0xFFF8 then return none
    match ← fatGetEntry g cur with
    | none => return none
    | some next => if next ≥ 0xFFF8 then return some cur else lastOfDir n next

def zeroSectors : Nat → Nat → Driver Bool
  | 0, _ => return true
  | n + 1, lba => do
    if !(← blockAtaWriteSector .data lba (fun _ => 0)) then return false
    zeroSectors n (lba + 1)

def extendDirChain (dir : Nat) : Driver Int := do
  if dir = 0 then return -28
  match ← lastOfDir g 65537 dir with
  | none => return -5
  | some cur =>
    let newC ← fatAllocCluster g
    if newC = 0 then return -28
    if !(← zeroSectors g.sectorsPerCluster (g.clusterToLba newC)) then return -5
    if (← fatSetEntry g cur newC) ≠ 0 then return -5
    return 0

def growAndFind (dir count : Nat) : Nat → Driver (Except Int (List (Nat × Nat)))
  | 0 => return .error (-28)
  | n + 1 => do
    let ext ← extendDirChain g dir
    if ext ≠ 0 then return .error ext
    match ← findFreeDirSlotsRun g dir count with
    | .error rc => if rc = -28 then growAndFind dir count n else return .error rc
    | .ok run => return .ok run

def reserveSlots (dir count : Nat) : Driver (Except Int (List (Nat × Nat))) := do
  match ← findFreeDirSlotsRun g dir count with
  | .ok run => return .ok run
  | .error rc => if rc = -28 ∧ dir ≠ 0 then growAndFind g dir count 4 else return .error rc

end

def rollbackSlots : List (Nat × Nat) → Driver Unit
  | [] => return ()
  | (lba, off) :: rest => do
    match ← blockAtaReadSector lba with
    | none => rollbackSlots rest
    | some sb =>
      let _ ← blockAtaWriteSector .dirent lba (Function.update sb off 0xE5)
      rollbackSlots rest

def writeLfnSlots (naming : EntryNaming) (cksum : UInt8) (slots : List (Nat × Nat)) :
    Nat → Nat → Driver Int
  | 0, _ => return 0
  | n + 1, i => do
    let (lba, off) := slots.getD i (0, 0)
    let raw := buildLfnSlot naming.longName (naming.nLfnSlots - i) (i = 0) cksum
    if (← readModifyWriteDirent lba off raw) ≠ 0 then
      rollbackSlots (slots.take i)
      return -5
    writeLfnSlots naming cksum slots n (i + 1)

def writeEntryWithNaming (g : Geometry) (parent : Nat) (naming : EntryNaming) (direntRaw : Slot) :
    Driver Int := do
  let totalSlots := if naming.needsLfn then naming.nLfnSlots + 1 else 1
  match ← reserveSlots g parent totalSlots with
  | .error rc => return rc
  | .ok slots =>
    if naming.needsLfn then
      let rc ← writeLfnSlots naming (lfnChecksum11 naming.alias11) slots naming.nLfnSlots 0
      if rc ≠ 0 then return rc
    let (lba, off) := slots.getD (totalSlots - 1) (0, 0)
    if (← readModifyWriteDirent lba off direntRaw) ≠ 0 then
      if naming.needsLfn then rollbackSlots (slots.take naming.nLfnSlots)
      return -5
    return 0

end Osnos.Fat
