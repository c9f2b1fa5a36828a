import Osnos.Base.Prog
import Osnos.Vfs.Backend

/-! `vfs_ops_t` as far as the calls on an open file use it, the functions of `fs/vfs.c` that
find the backend of a path, and what such a call counts on for a regular file. -/
namespace Osnos.Vfs

def Status.code : Status → Nat
  | .ok => 0
  | .enoent => 2
  | .eio => 5
  | .eexist => 17
  | .enotdir => 20
  | .eisdir => 21
  | .einval => 22
  | .enospc => 28
  | .erofs => 30
  | .enametoolong => 36

def bytesOf (buf : Nat → UInt8) (n : Nat) : Bytes := (List.range n).map buf

@[simp] theorem bytesOf_length (buf : Nat → UInt8) (n : Nat) : (bytesOf buf n).length = n := by
  simp [bytesOf]

/-- `vfs_ops_t` of each backend. A status is its number, 0 for success. -/
structure FileOps (β σ : Type) where
  stat : File β → Prog σ (Except Nat Stat)
  read : File β → Nat → Nat → Prog σ (Except Nat Bytes)
  write : File β → (Nat → UInt8) → Nat → Prog σ Nat
  append : File β → (Nat → UInt8) → Nat → Prog σ Nat

/-- The mount table and what stands behind it; `depth` bounds the aliases on a way. -/
structure Tree (β σ : Type) where
  ops : FileOps β σ
  mounts : Mounts β
  depth : Nat

namespace Tree

variable {β σ α : Type} (v : Tree β σ)

def call (op : File β → Prog σ α) (fail : Nat → α) (path : Path) : Prog σ α :=
  (v.mounts.dispatch op (fun e => pure (fail e.code)) v.depth path).getD Prog.diverge

def vfsStat (path : Path) : Prog σ (Except Nat Stat) := v.call v.ops.stat .error path

/-- `vfs_read_at`; `buf` says whether there is a buffer. -/
def vfsReadAt (path : Path) (off : Nat) (buf : Bool) (n : Nat) : Prog σ (Except Nat Bytes) :=
  if checkPath path ≠ .ok then pure (.error (checkPath path).code)
  else if !buf then pure (.error Status.einval.code)
  else v.call (fun f => v.ops.read f off n) .error path

def vfsRead (path : Path) (n : Nat) : Prog σ (Except Nat Bytes) := v.vfsReadAt path 0 true n

def vfsWrite (path : Path) (buf : Nat → UInt8) (n : Nat) : Prog σ Nat :=
  v.call (fun f => v.ops.write f buf n) id path

def vfsAppend (path : Path) (buf : Nat → UInt8) (n : Nat) : Prog σ Nat :=
  v.call (fun f => v.ops.append f buf n) id path

def serves (path : Path) : Option (File β) :=
  (v.mounts.dispatch some (fun _ => none) v.depth path).join

variable {v} {path : Path} {f : File β} (served : v.serves path = some f)
include served

theorem call_served (op : File β → Prog σ α) (fail : Nat → α) : v.call op fail path = op f := by
  rw [call, Mounts.dispatch_served served]
  rfl

theorem checkPath_served : checkPath path = .ok := by
  obtain ⟨r, returned, rfl⟩ : ∃ r, v.mounts.dispatch some (fun _ => none) v.depth path = some r ∧
      r = some f := ⟨_, Option.join_eq_some_iff.1 served, rfl⟩
  obtain ⟨_, names, _⟩ | ⟨_, _, impossible, _⟩ := Mounts.dispatch_cases returned
  · exact names.checked
  · cases impossible

theorem vfsReadAt_served (off n : Nat) : v.vfsReadAt path off true n = v.ops.read f off n := by
  simp only [vfsReadAt, checkPath_served served, ne_eq, not_true_eq_false, if_false, Bool.not_true,
    Bool.false_eq_true]
  exact call_served served _ _

theorem vfsReadAt_unbuffered (off n : Nat) :
    v.vfsReadAt path off false n = pure (.error Status.einval.code) := by
  simp [vfsReadAt, checkPath_served served]

end Tree

/-- A regular file in a store: how one sees its contents there, which reads and appends
its backend has room for in its own arithmetic, and what the operations then do. -/
structure RegularFile {β σ : Type} (ops : FileOps β σ) (f : File β) where
  holds : σ → Bytes → Prop
  readFits : Bytes → Nat → Nat → Prop
  appendFits : σ → Bytes → Nat → Prop
  bounded : ∀ {s c}, holds s c → c.length < 2 ^ 63
  small : ∀ {c off n}, n < 2 ^ 31 → readFits c off n
  stat_ok : ∀ {s c}, holds s c → ∃ s', ops.stat f s = some (.ok ⟨.reg, c.length⟩, s') ∧
    holds s' c ∧ ∀ n, appendFits s c n → appendFits s' c n
  read_ok : ∀ {s c} off n, holds s c → readFits c off n →
    ∃ s', ops.read f off n s = some (.ok ((c.drop off).take n), s') ∧ holds s' c
  write_ok : ∀ {s c} buf n, holds s c →
    ∃ e s', ops.write f buf n s = some (e, s') ∧ holds s' (if e = 0 then bytesOf buf n else c)
  append_ok : ∀ {s c} buf n, holds s c → appendFits s c n →
    ∃ e s', ops.append f buf n s = some (e, s') ∧ holds s' (if e = 0 then c ++ bytesOf buf n else c)

end Osnos.Vfs
