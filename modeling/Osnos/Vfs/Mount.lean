import Osnos.Base.Index
import Mathlib.Tactic

/-! `fs/vfs.c` and `fs/aliasfs.c`: a path is served by the mount with the longest matching
mountpoint. An alias mount stores nothing: it rewrites the path and asks the table again, so
that one file can be reached through several mounts. -/
namespace Osnos.Vfs

abbrev OSNOS_PATH_MAX : Nat := 128
abbrev VFS_MAX_MOUNTS : Nat := 16
abbrev Path := List Char

/-- `osnos_status_t`, as far as the file systems return it. -/
inductive Status
  | ok
  | enoent
  | eio
  | eexist
  | enotdir
  | eisdir
  | einval
  | enospc
  | erofs
  | enametoolong
deriving DecidableEq, Repr

/-- `aliasfs_t`; the two lengths are those of the texts. -/
structure Alias where
  mountPrefix : Path
  targetPrefix : Path

inductive Ops (β : Type)
  | backend (b : β)
  | aliasfs (a : Alias)

structure Mount (β : Type) where
  mountpoint : Path
  ops : Ops β

/-- `mounts`; `none` is a slot with `used = false`. -/
abbrev Mounts (β : Type) := Fin VFS_MAX_MOUNTS → Option (Mount β)

/-- A path in a backend. Two mounts of one backend share its files. -/
structure File (β : Type) where
  backend : β
  path : Path
deriving DecidableEq

def checkPath (path : Path) : Status :=
  if path.head? ≠ some '/' then .einval
  else if OSNOS_PATH_MAX < path.length + 1 then .enametoolong
  else .ok

def separated (path : Path) (n : Nat) : Bool :=
  (path.drop n).head? == none || (path.drop n).head? == some '/'

/-- The tests `find_mount` makes of one mountpoint: `/dev` does not serve `/devfs`. -/
def covers (mountpoint path : Path) : Bool :=
  mountpoint.isPrefixOf path && (decide (mountpoint.length ≤ 1) || separated path mountpoint.length)

def Alias.translate (a : Alias) (path : Path) : Option Path :=
  if !(a.mountPrefix.isPrefixOf path) then none
  else if !(separated path a.mountPrefix.length) then none
  else if OSNOS_PATH_MAX ≤ a.targetPrefix.length then none
  else
    let out := a.targetPrefix ++ path.drop a.mountPrefix.length
    if OSNOS_PATH_MAX < out.length + 1 then none else some out

variable {i : Fin VFS_MAX_MOUNTS} {path : Path}

namespace Mounts

variable {β α : Type} (t : Mounts β)

/-- One round of `find_mount`'s scan; the mount found so far carries `best_len`. -/
def better (path : Path) (best : Option (Fin VFS_MAX_MOUNTS × Mount β)) (i : Fin VFS_MAX_MOUNTS) :
    Option (Fin VFS_MAX_MOUNTS × Mount β) :=
  match t i with
  | none => best
  | some m =>
    if covers m.mountpoint path && decide (best.elim 0 (·.2.mountpoint.length) < m.mountpoint.length)
    then some (i, m) else best

def findMount (path : Path) : Option (Fin VFS_MAX_MOUNTS × Mount β) :=
  (List.finRange VFS_MAX_MOUNTS).foldl (t.better path) none

/-- The shape of `vfs_read_at`, `vfs_write` and `vfs_unlink`: the path is checked, its
mount found, and the operation of the mount called. That of an alias mount enters the
table again with the translated path; the first argument bounds how often. -/
def dispatch (call : File β → α) (fail : Status → α) : Nat → Path → Option α
  | 0, _ => none
  | depth + 1, path =>
    if checkPath path ≠ .ok then some (fail (checkPath path))
    else
      match t.findMount path with
      | none => some (fail .enoent)
      | some (_, m) =>
        match m.ops with
        | .backend b => some (call ⟨b, path⟩)
        | .aliasfs a =>
          match a.translate path with
          | none => some (fail .enoent)
          | some path' => dispatch call fail depth path'

inductive Names : Path → File β → Prop
  | backend {path : Path} {i : Fin VFS_MAX_MOUNTS} {m : Mount β} {b : β}
      (checked : checkPath path = .ok) (found : t.findMount path = some (i, m))
      (ops : m.ops = .backend b) : Names path ⟨b, path⟩
  | aliased {path path' : Path} {i : Fin VFS_MAX_MOUNTS} {m : Mount β} {a : Alias} {f : File β}
      (checked : checkPath path = .ok) (found : t.findMount path = some (i, m))
      (ops : m.ops = .aliasfs a) (translated : a.translate path = some path')
      (rest : Names path' f) : Names path f

/-- The two paths meet in one mount of a backend, each alias on the way being shared:
`vfs_move` then ends in the backend's own rename. -/
inductive Renames : Path → Path → Prop
  | backend {src dst : Path} {i : Fin VFS_MAX_MOUNTS} {m : Mount β} {b : β}
      (source : t.findMount src = some (i, m)) (target : t.findMount dst = some (i, m))
      (ops : m.ops = .backend b) : Renames src dst
  | aliased {src dst src' dst' : Path} {i : Fin VFS_MAX_MOUNTS} {m : Mount β} {a : Alias}
      (source : t.findMount src = some (i, m)) (target : t.findMount dst = some (i, m))
      (ops : m.ops = .aliasfs a) (here : a.translate src = some src')
      (there : a.translate dst = some dst') (rest : Renames src' dst') : Renames src dst

variable {t}

theorem Names.checked {f : File β} (names : t.Names path f) : checkPath path = .ok := by
  cases names with
  | backend checked | aliased checked => exact checked

theorem Names.found {f : File β} (names : t.Names path f) :
    ∃ i m, t.findMount path = some (i, m) := by
  cases names with
  | backend _ found | aliased _ found => exact ⟨_, _, found⟩

theorem names_backend {m : Mount β} {b : β} {f : File β}
    (found : t.findMount path = some (i, m)) (ops : m.ops = .backend b) (names : t.Names path f) :
    f = ⟨b, path⟩ := by
  cases names with
  | backend _ found' ops' =>
    cases found.symm.trans found'
    cases ops.symm.trans ops'
    rfl
  | aliased _ found' ops' =>
    cases found.symm.trans found'
    cases ops.symm.trans ops'

theorem names_aliased {m : Mount β} {a : Alias} {f : File β}
    (found : t.findMount path = some (i, m)) (ops : m.ops = .aliasfs a) (names : t.Names path f) :
    ∃ path', a.translate path = some path' ∧ t.Names path' f := by
  cases names with
  | backend _ found' ops' =>
    cases found.symm.trans found'
    cases ops.symm.trans ops'
  | aliased _ found' ops' translated rest =>
    cases found.symm.trans found'
    cases ops.symm.trans ops'
    exact ⟨_, translated, rest⟩

theorem names_aliased_iff {path' : Path} {m : Mount β} {a : Alias}
    (checked : checkPath path = .ok) (found : t.findMount path = some (i, m))
    (ops : m.ops = .aliasfs a) (translated : a.translate path = some path') (f : File β) :
    t.Names path f ↔ t.Names path' f := by
  constructor
  · intro names
    obtain ⟨_, translated', rest⟩ := names_aliased found ops names
    rw [translated] at translated'
    cases translated'
    exact rest
  · exact fun rest => .aliased checked found ops translated rest

theorem Names.unique {f g : File β} (first : t.Names path f) (second : t.Names path g) : f = g := by
  induction first with
  | backend _ found ops => exact (names_backend found ops second).symm
  | aliased checked found ops translated _ ih =>
    exact ih ((names_aliased_iff checked found ops translated g).1 second)

/-- A dispatched call that returns was made on the file the path stands for, or it failed
before it reached a backend and the path stands for nothing. -/
theorem dispatch_cases {call : File β → α} {fail : Status → α} {depth : Nat} {r : α}
    (returned : t.dispatch call fail depth path = some r) :
    (∃ f, t.Names path f ∧ r = call f) ∨ ∃ e, e ≠ .ok ∧ r = fail e ∧ ∀ f, ¬t.Names path f := by
  induction depth generalizing path with
  | zero => cases returned
  | succ depth ih =>
    unfold dispatch at returned
    split at returned
    next bad =>
      cases returned
      exact .inr ⟨_, bad, rfl, fun f names => bad names.checked⟩
    rename_i good
    have checked := not_not.1 good
    split at returned
    next missing =>
      cases returned
      refine .inr ⟨.enoent, nofun, rfl, fun f names => ?_⟩
      obtain ⟨i, m, found⟩ := names.found
      rw [missing] at found
      cases found
    rename_i found
    split at returned
    next ops =>
      cases returned
      exact .inl ⟨_, .backend checked found ops, rfl⟩
    rename_i ops
    split at returned
    next untranslated =>
      cases returned
      refine .inr ⟨.enoent, nofun, rfl, fun f names => ?_⟩
      obtain ⟨path', translated, _⟩ := names_aliased found ops names
      rw [untranslated] at translated
      cases translated
    next translated =>
      have same := names_aliased_iff checked found ops translated
      obtain ⟨f, names, eq⟩ | ⟨e, bad, eq, unnamed⟩ := ih returned
      · exact .inl ⟨f, (same f).2 names, eq⟩
      · exact .inr ⟨e, bad, eq, fun f names => unnamed f ((same f).1 names)⟩

theorem dispatch_named {call : File β → α} {fail : Status → α} {depth : Nat} {r : α}
    {f : File β} (names : t.Names path f) (returned : t.dispatch call fail depth path = some r) :
    r = call f := by
  obtain ⟨g, names', eq⟩ | ⟨_, _, _, unnamed⟩ := dispatch_cases returned
  · rw [names.unique names']
    exact eq
  · exact absurd names (unnamed f)

theorem dispatch_served {depth : Nat} {f : File β}
    (served : (t.dispatch some (fun _ => none) depth path).join = some f) {call : File β → α}
    {fail : Status → α} : t.dispatch call fail depth path = some (call f) := by
  induction depth generalizing path with
  | zero => cases served
  | succ depth ih =>
    unfold dispatch at served ⊢
    split at served
    · cases served
    rename_i checked
    rw [if_neg checked]
    split at served
    · cases served
    split at served
    · cases served
      rfl
    split at served
    · cases served
    · exact ih served

theorem findMount_serves {m : Mount β}
    (found : t.findMount path = some (i, m)) : t i = some m ∧ covers m.mountpoint path := by
  have scan : ∀ (is : List (Fin VFS_MAX_MOUNTS)) (best : Option (Fin VFS_MAX_MOUNTS × Mount β)),
      (∀ j m', best = some (j, m') → t j = some m' ∧ covers m'.mountpoint path) →
      is.foldl (t.better path) best = some (i, m) →
      t i = some m ∧ covers m.mountpoint path := by
    intro is
    induction is with
    | nil => exact fun best good eq => good i m eq
    | cons j is ih =>
      intro best good eq
      refine ih _ ?_ eq
      intro k m' step
      unfold better at step
      split at step
      · exact good k m' step
      rename_i present
      split at step
      next taken =>
        cases step
        exact ⟨present, (Bool.and_eq_true _ _ ▸ taken).1⟩
      · exact good k m' step
  exact scan _ none nofun found

theorem findMount_slot {path' : Path} {m m' : Mount β}
    (found : t.findMount path = some (i, m)) (found' : t.findMount path' = some (i, m')) :
    m = m' :=
  Option.some.inj ((findMount_serves found).1.symm.trans (findMount_serves found').1)

end Mounts

end Osnos.Vfs
