import Osnos.Base.Cursor
import Osnos.Fd.Pool
import Osnos.Vfs.Regular

/-! `sys_read`, `sys_write` and `sys_lseek` of `micro/syscall.c` through a descriptor from 3
upwards. Descriptions of pipes, sockets and terminals branch off before this code; they have
no entry in the pool here. -/
namespace Osnos.Fd
open Osnos.Vfs

abbrev OSNOS_MAX_FDS : Nat := 16
abbrev O_RDONLY : UInt32 := 0
abbrev O_WRONLY : UInt32 := 1
abbrev O_ACCMODE : UInt32 := 3
abbrev O_APPEND : UInt32 := 1024
abbrev OSNOS_EBADF : Nat := 9
abbrev OSNOS_ENOMEM : Nat := 12
abbrev OSNOS_EFAULT : Nat := 14
abbrev OSNOS_EISDIR : Nat := 21
abbrev OSNOS_EINVAL : Nat := 22
abbrev OSNOS_EFBIG : Nat := 27
abbrev SYS_WRITE_RMW_MAX : Nat := 4 * 1024 * 1024

/-- A descriptor that is none of the three standard ones. -/
abbrev FileFd := { fd : Fin OSNOS_MAX_FDS // 3 ≤ fd.val }

/-- `osnos_ofd_t`, as far as a file or directory uses it. -/
structure OpenFile where
  flags : UInt32
  isDir : Bool
  isChr : Bool
  offset : Nat
  path : Path

def OpenFile.access (f : OpenFile) : UInt32 := f.flags &&& O_ACCMODE
def OpenFile.appends (f : OpenFile) : Bool := f.flags &&& O_APPEND ≠ 0
def OpenFile.seek (f : OpenFile) (pos : Nat) : OpenFile := { f with offset := pos }

section
variable (f : OpenFile) (pos : Nat)

@[simp] theorem OpenFile.seek_access : (f.seek pos).access = f.access := rfl
@[simp] theorem OpenFile.seek_isDir : (f.seek pos).isDir = f.isDir := rfl
@[simp] theorem OpenFile.seek_isChr : (f.seek pos).isChr = f.isChr := rfl
@[simp] theorem OpenFile.seek_offset : (f.seek pos).offset = pos := rfl
@[simp] theorem OpenFile.seek_path : (f.seek pos).path = f.path := rfl

end

structure Machine (σ : Type) where
  fds : FileFd → Option OfdIdx
  pool : Pool OpenFile
  store : σ

/-- What a call returns: an errno, the bytes in the buffer, a count or a position. -/
inductive Reply
  | error (errno : Nat)
  | data (bytes : Bytes)
  | count (n : Nat)
  | position (pos : Int)

/-- A call with its arguments. A buffer may be NULL; `memory` is what `kmalloc` gives
the call if it asks for a scratch buffer. -/
inductive FileCall
  | read (buf : Bool) (count : Nat)
  | write (buf : Option (Nat → UInt8)) (count : Nat) (memory : Option (Nat → UInt8))
  | lseek (offset : Int) (whence : Nat)

section
variable {β σ α : Type}

def Machine.fdGet (m : Machine σ) (fd : FileFd) : Option (OfdIdx × OpenFile) :=
  (m.fds fd).bind fun o => (m.pool.backend o).map fun f => (o, f)

def onStore : Prog σ α → Prog (Machine σ) α := Prog.focus Machine.store fun s m => { m with store := s }

def setOffset (o : OfdIdx) (value : Nat) : Prog (Machine σ) PUnit :=
  modify fun m => { m with pool := m.pool.amend o fun f => f.seek (value % 2 ^ 64) }

variable (v : Tree β σ)

def sysRead (fd : FileFd) (buf : Bool) (count : Nat) : Prog (Machine σ) Reply := do
  if !buf ∧ 0 < count then return .error OSNOS_EFAULT
  match (← get).fdGet fd with
  | none => return .error OSNOS_EBADF
  | some (o, f) =>
    if f.isDir then return .error OSNOS_EISDIR
    if f.access = O_WRONLY then return .error OSNOS_EBADF
    if f.isChr then
      -- each read of a device is a fresh batch
      match ← onStore (v.vfsRead f.path 1024) with
      | .error e => return .error e
      | .ok got => return .data (got.take count)
    match ← onStore (v.vfsReadAt f.path f.offset buf count) with
    | .error e => return .error e
    | .ok got =>
      setOffset o (f.offset + got.length)
      return .data got

def existing (f : OpenFile) : Except Nat Stat → Option Nat
  | .error _ => some 0
  | .ok st =>
    match st.type with
    | .dir => none
    | .chr => some f.offset
    | .reg => some st.size

def appendAt (o : OfdIdx) (path : Path) (buf : Nat → UInt8) (off count : Nat) :
    Prog (Machine σ) Reply := do
  let s ← onStore (v.vfsAppend path buf count)
  if s ≠ 0 then return .error s
  setOffset o (off + count)
  return .count count

/-- The scratch buffer when the loops of the slow path are through: `old` is what
`vfs_read` left in it. -/
def spliced (scratch : Nat → UInt8) (old : Bytes) (existing off : Nat) (buf : Nat → UInt8)
    (count : Nat) : Nat → UInt8 := fun i =>
  if off ≤ i ∧ i < off + count then buf (i - off)
  else if existing ≤ i ∧ i < off then 0
  else if old.length ≤ i ∧ i < existing then 0
  else old[i]?.getD (scratch i)

def readOld (path : Path) (existing total : Nat) : Prog (Machine σ) (Except Nat Bytes) :=
  if 0 < existing then onStore (v.vfsRead path total) else pure (.ok [])

def rewriteAt (o : OfdIdx) (path : Path) (buf : Nat → UInt8) (existing off count : Nat)
    (memory : Option (Nat → UInt8)) : Prog (Machine σ) Reply := do
  let total := max ((off + count) % 2 ^ 64) existing
  if SYS_WRITE_RMW_MAX < total then return .error OSNOS_EFBIG
  match memory with
  | none => return .error OSNOS_ENOMEM
  | some scratch =>
    match ← readOld v path existing total with
    | .error e => return .error e
    | .ok old =>
      let s ← onStore (v.vfsWrite path (spliced scratch old existing off buf count) total)
      if s ≠ 0 then return .error s
      setOffset o (off + count)
      return .count count

def sysWrite (fd : FileFd) (buf : Option (Nat → UInt8)) (count : Nat)
    (memory : Option (Nat → UInt8)) : Prog (Machine σ) Reply := do
  if buf.isNone ∧ 0 < count then return .error OSNOS_EFAULT
  match (← get).fdGet fd with
  | none => return .error OSNOS_EBADF
  | some (o, f) =>
    if f.access = O_RDONLY then return .error OSNOS_EBADF
    if count = 0 then return .count 0
    match existing f (← onStore (v.vfsStat f.path)) with
    | none => return .error OSNOS_EISDIR
    | some size =>
      let off := if f.appends then size else f.offset
      let src := buf.getD fun _ => 0
      if off = size then appendAt v o f.path src off count
      else rewriteAt v o f.path src size off count memory

def int64 (n : Int) : Int := n.bmod (2 ^ 64)

theorem int64_eq {n : Int} (low : -2 ^ 63 ≤ n) (high : n < 2 ^ 63) : int64 n = n :=
  Int.bmod_eq_of_le (by omega) (by omega)

def seekBase (f : OpenFile) : Nat → Prog (Machine σ) (Except Nat Int)
  | 0 => return .ok 0
  | 1 => return .ok (int64 f.offset)
  | 2 => do
    match ← onStore (v.vfsStat f.path) with
    | .error e => return .error e
    | .ok st => return .ok (int64 st.size)
  | _ => return .error OSNOS_EINVAL

def sysLseek (fd : FileFd) (offset : Int) (whence : Nat) : Prog (Machine σ) Reply := do
  match (← get).fdGet fd with
  | none => return .error OSNOS_EBADF
  | some (o, f) =>
    match ← seekBase v f whence with
    | .error e => return .error e
    | .ok base =>
      let newOffset := int64 (base + offset)
      if newOffset < 0 then return .error OSNOS_EINVAL
      setOffset o newOffset.toNat
      return .position newOffset

def FileCall.exec (fd : FileFd) : FileCall → Prog (Machine σ) Reply
  | .read buf count => sysRead v fd buf count
  | .write buf count memory => sysWrite v fd buf count memory
  | .lseek offset whence => sysLseek v fd offset whence

end

end Osnos.Fd
