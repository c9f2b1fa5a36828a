import Osnos.Fat.Files
import Osnos.Vfs.Regular

/-! `fs/fat_vfs.c`: the operations of the mount at `/sd`, and what they do to a regular file
on a sound volume. -/
namespace Osnos.Fat
open Osnos.Vfs (Path Bytes Stat Status bytesOf)
open List Prog

abbrev FAT_MOUNT_PREFIX : Path := ['/', 's', 'd']

def stripMount (path : Path) : Option (List UInt8) :=
  if !(FAT_MOUNT_PREFIX.isPrefixOf path) then none
  else
    match path.drop FAT_MOUNT_PREFIX.length with
    | [] => some [47]
    | '/' :: rest => some (('/' :: rest).map fun c => UInt8.ofNat c.toNat)
    | _ => none

def fatRcToStatus (rc : Int) : Nat := if 0 ≤ rc then 0 else (-rc).toNat

def fatVfsStat (path : Path) : Driver (Except Nat Stat) := do
  match stripMount path with
  | none => return .error Status.enoent.code
  | some rel =>
    match ← fatLookup rel with
    | none => return .error Status.enoent.code
    | some de => return .ok (if de.isDir then ⟨.dir, 0⟩ else ⟨.reg, de.size⟩)

def readEntry (de : Dirent) (off bufSize : Nat) : Driver (Except Nat Bytes) := do
  if de.isDir then return .error Status.eisdir.code
  if off ≥ de.size then return .ok []
  let avail := (de.size - off) % 2 ^ 32
  let len := if avail < bufSize then avail else bufSize % 2 ^ 32
  let r ← fatReadFile de (off % 2 ^ 32) len
  if r.1 < 0 then return .error Status.eio.code
  return .ok r.2

def fatVfsRead (path : Path) (off bufSize : Nat) : Driver (Except Nat Bytes) := do
  match stripMount path with
  | none => return .error Status.enoent.code
  | some rel =>
    match ← fatLookup rel with
    | none => return .error Status.enoent.code
    | some de => readEntry de off bufSize

/-- The shape of `fat_vfs_write` and `fat_vfs_append`. -/
def fatVfsPut (op : List UInt8 → Nat → Driver Int) (path : Path) (bufSize : Nat) : Driver Nat := do
  match stripMount path with
  | none => return Status.enoent.code
  | some rel =>
    if 0xFFFFFFFF < bufSize then return Status.einval.code
    return fatRcToStatus (← op rel bufSize)

def fatVfsWrite (path : Path) (buf : Nat → UInt8) (bufSize : Nat) : Driver Nat :=
  fatVfsPut (fun rel len => fatWritePath rel buf len) path bufSize

def fatVfsAppend (path : Path) (buf : Nat → UInt8) (bufSize : Nat) : Driver Nat :=
  fatVfsPut (fun rel len => fatAppendPath rel buf len) path bufSize

/-- The path leads to a regular file with these bytes, on a volume that is well formed
and a drive that answers every request. -/
def Contains (g : Geometry) (path : Path) (s : State) (c : Bytes) : Prop :=
  ∃ V, Holds g V s ∧ WellFormed g V ∧ ∃ rel de pos slot old, stripMount path = some rel ∧
    FileAt g V rel de pos slot old ∧ fileBytes g V slot = c

/-- An append that the driver's arithmetic can do, or that is too long for it at once. -/
def AppendRoom (g : Geometry) (s : State) (c : Bytes) (n : Nat) : Prop :=
  n < 2 ^ 32 → AppendFits g (view g s.disk) c.length n

section
variable {g : Geometry} {V V' : Vol} {path : List UInt8} {de : Dirent} {pos : Pos} {slot slot' : Slot}
  {old new : List Nat}

theorem FileAt.rewritten (f : FileAt g V path de pos slot old) (wf : WellFormed g V)
    (step : EntryStep g V V' pos slot (some slot') old new) :
    ∃ de' old', FileAt g V' path de' pos slot' old' := by
  have look := step.lookup_put wf path
  rw [f.look, Option.map_some] at look
  have here : de.pos = pos := f.of.pos
  have at_pos : (de.retarget pos slot').pos = pos := by
    rw [Dirent.retarget, if_pos here]
    exact here
  obtain ⟨pos', found, old', f'⟩ := fileAt_of_lookup (step.wellFormed wf) look
    ((EntryStep.retarget_isDir de).trans f.isDir)
  obtain rfl : pos' = pos := f'.of.pos.symm.trans at_pos
  have node : Node g V' pos' slot' := (step.node_iff wf).2 (.inr ⟨rfl, rfl⟩)
  obtain rfl : found = slot' := f'.node.slotAt.trans node.slotAt.symm
  exact ⟨_, old', f'⟩

theorem FileAt.size_eq (f : FileAt g V path de pos slot old) :
    (fileBytes g V slot).length = de.size := by
  rw [fileBytes_eq f.chain f.is_file, f.of.size]
  simp [slice]

theorem FileAt.readEntry_does (f : FileAt g V path de pos slot old) {off n : Nat}
    (bound : (fileBytes g V slot).length < 2 ^ 32)
    (fits : min n ((fileBytes g V slot).length - off) < 2 ^ 31) :
    Does (Holds g) V (readEntry de off n)
    (.ok (((fileBytes g V slot).drop off).take n)) V := by
  have size := f.size_eq
  rw [readEntry]
  simp only [f.isDir, Bool.false_eq_true, if_false]
  by_cases past : off ≥ de.size
  · rw [if_pos past, drop_of_length_le (by omega), take_nil]
    exact .pure _
  -- neither the offset nor the length loses bits, and the count is no negative number
  have avail : (de.size - off) % 2 ^ 32 = de.size - off := Nat.mod_eq_of_lt (by omega)
  have low : off % 2 ^ 32 = off := Nat.mod_eq_of_lt (by omega)
  have len : (if de.size - off < n then de.size - off else n % 2 ^ 32) = min n (de.size - off) := by
    split
    · omega
    · rw [Nat.mod_eq_of_lt (by omega)]
      omega
  have slice : ((fileBytes g V slot).drop off).take (min n (de.size - off)) =
      ((fileBytes g V slot).drop off).take n := by
    rw [← size, ← length_drop, ← take_take, take_length]
  have read := f.fatReadFile_does off (min n (de.size - off))
  rw [slice] at read
  have count : ¬ asInt (((fileBytes g V slot).drop off).take n).length < 0 := by
    rw [asInt, if_pos (by rw [length_take, length_drop]; omega)]
    omega
  rw [if_neg past]
  simp only [avail, low, len]
  refine .bind read ?_
  simp only [count, if_false]
  exact .pure _

theorem fatRcToStatus_eq_zero {rc : Int} (code : rc ≤ 0) : fatRcToStatus rc = 0 ↔ rc = 0 := by
  unfold fatRcToStatus
  split <;> omega

end

namespace Contains

variable {g : Geometry} {path : Path} {s : State} {c : Bytes} (contains : Contains g path s c)
include contains

theorem length_lt : c.length < 2 ^ 32 := by
  obtain ⟨V, _, _, _, _, _, _, _, _, f, rfl⟩ := contains
  rw [f.size_eq, f.of.size]
  exact rd32_lt _ _

theorem fatVfsStat_ok :
    ∃ s', fatVfsStat path s = some (.ok ⟨.reg, c.length⟩, s') ∧ Contains g path s' c ∧
      ∀ n, AppendRoom g s c n → AppendRoom g s' c n := by
  obtain ⟨V, hs, wf, rel, de, pos, slot, old, strip, f, rfl⟩ := contains
  obtain ⟨s', run, hs'⟩ := fatLookup_does wf rel s hs
  rw [f.look] at run
  refine ⟨s', ?_, ⟨V, hs', wf, rel, de, pos, slot, old, strip, f, rfl⟩, fun n room => ?_⟩
  · rw [f.size_eq, fatVfsStat, strip]
    dsimp only
    rw [bind_some run]
    simp only [f.isDir, Bool.false_eq_true, if_false]
    rfl
  · unfold AppendRoom at room ⊢
    rw [hs.view] at room
    rwa [hs'.view]

theorem fatVfsRead_ok {off n : Nat} (fits : min n (c.length - off) < 2 ^ 31) :
    ∃ s', fatVfsRead path off n s = some
    (.ok ((c.drop off).take n), s') ∧ Contains g path s' c := by
  have bound := contains.length_lt
  obtain ⟨V, hs, wf, rel, de, pos, slot, old, strip, f, rfl⟩ := contains
  obtain ⟨s₁, look, hs₁⟩ := fatLookup_does wf rel s hs
  rw [f.look] at look
  obtain ⟨s', read, hs'⟩ := f.readEntry_does bound fits s₁ hs₁
  refine ⟨s', ?_, V, hs', wf, rel, de, pos, slot, old, strip, f, rfl⟩
  rw [fatVfsRead, strip]
  dsimp only
  rw [bind_some look]
  exact read

theorem fatVfsPut_ok (run : List UInt8 → Nat → Driver Int)
    (op : Buffer → FileOp) (buf : Nat → UInt8) {n : Nat} {after : Bytes}
    (runs : ∀ rel (b : Buffer), b.bytes = buf → run rel b.len = (op b).run rel)
    (result : ∀ b : Buffer, b.bytes = buf → b.len = n → (op b).result c = some after)
    (fits : ∀ b : Buffer, b.bytes = buf → b.len = n → (op b).Fits g (view g s.disk) c.length) :
    ∃ e s', fatVfsPut run path n s = some (e, s') ∧
      Contains g path s' (if e = 0 then after else c) := by
  obtain ⟨V, hs, wf, rel, de, pos, slot, old, strip, f, rfl⟩ := id contains
  rw [fatVfsPut, strip]
  dsimp only
  by_cases long : 0xFFFFFFFF < n
  · rw [if_pos long]
    exact ⟨_, s, rfl, contains⟩
  rw [if_neg long]
  let b : Buffer := ⟨buf, n, by omega⟩
  have room := fits b rfl rfl
  rw [hs.view, f.size_eq, f.of.size] at room
  obtain ⟨rc, V', entry, new, does, out⟩ := f.op_outcome wf (op b) room
  obtain ⟨s', ran, hs'⟩ := does s hs
  have wf' := out.step.wellFormed wf
  rw [← runs rel b rfl] at ran
  refine ⟨fatRcToStatus rc, s', ?_, V', hs', wf', rel, ?_⟩
  · rw [bind_some ran]
    rfl
  by_cases done : rc = 0
  · rw [if_pos ((fatRcToStatus_eq_zero out.code).2 done)]
    have bytes := out.done done
    rw [result b rfl rfl] at bytes
    obtain ⟨slot', rfl, contents⟩ := Option.map_eq_some_iff.1 bytes
    obtain ⟨de', old', f'⟩ := f.rewritten wf out.step
    exact ⟨de', pos, slot', old', strip, f', contents⟩
  · rw [if_neg fun zero => done ((fatRcToStatus_eq_zero out.code).1 zero)]
    obtain ⟨_, rfl, bytes⟩ := out.failed done
    obtain ⟨de', old', f'⟩ := f.rewritten wf out.step
    exact ⟨de', pos, slot, old', strip, f', bytes⟩

theorem fatVfsWrite_ok (buf : Nat → UInt8) (n : Nat) :
    ∃ e s', fatVfsWrite path buf n s = some (e, s') ∧
      Contains g path s' (if e = 0 then bytesOf buf n else c) := by
  refine contains.fatVfsPut_ok _ .write buf ?_ ?_ fun _ _ _ => trivial
  · rintro rel b rfl
    rfl
  · rintro b rfl rfl
    rfl

theorem fatVfsAppend_ok (buf : Nat → UInt8) {n : Nat} (room : AppendRoom g s c n) :
    ∃ e s', fatVfsAppend path buf n s = some (e, s') ∧
      Contains g path s' (if e = 0 then c ++ bytesOf buf n else c) := by
  refine contains.fatVfsPut_ok _ .append buf ?_ ?_ ?_
  · rintro rel b rfl
    rfl
  · rintro b rfl rfl
    rfl
  · rintro b _ rfl
    exact room b.small

end Contains

end Osnos.Fat
