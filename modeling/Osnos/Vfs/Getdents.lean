import Osnos.Base.Prog
import Osnos.Vfs.Ramfs

/-! `sys_getdents` of `micro/syscall.c` over `vfs_readdir` of `fs/vfs.c`: the position in a
directory is a cursor that the mount list or the backend understands. -/
namespace Osnos.Getdents
open List Vfs Ramfs

abbrev OSNOS_NAME_MAX : Nat := 64

structure Dirent where
  name : Path
  type : NodeType
  deriving DecidableEq

/-- `vfs_readdir` at one path, while nothing changes: the entry at a cursor and the next cursor. -/
abbrev Readdir := Nat → Except Status (Dirent × Nat)

/-- The name under which a path one level below `dir` is listed. -/
def childName (dir name : Path) : Option Path :=
  let base := (if dir = ['/'] then [] else dir) ++ ['/']
  let rest := name.drop base.length
  if base.isPrefixOf name ∧ rest ≠ [] ∧ '/' ∉ rest then some (rest.take (OSNOS_NAME_MAX - 1)) else none

/-- `vfs_readdir` of the root: the mounts one level below it. -/
def readdirRoot (mountpoints : List Path) : Readdir := fun cursor =>
  match (mountpoints.filterMap (childName ['/']))[cursor]? with
  | none => .error .enoent
  | some name => .ok (⟨name, .dir⟩, cursor + 1)

def childEntry (dir : Path) (slot : Option Slot) : Option Dirent :=
  slot.bind fun slot => (childName dir slot.name).map fun name =>
    ⟨name, if slot.node = .dir then .dir else .reg⟩

/-- `ramfs_iter_child` over the slots from `i` on. -/
def iterChild (dir : Path) : List (Option Slot) → Nat → Option (Dirent × Nat)
  | [], _ => none
  | slot :: slots, i =>
    match childEntry dir slot with
    | none => iterChild dir slots (i + 1)
    | some e => some (e, i + 1)

/-- `ramfs_vfs_readdir`. -/
def readdirRamfs (slots : List (Option Slot)) (dir : Path) : Readdir := fun cursor =>
  match iterChild dir (slots.drop cursor) cursor with
  | none => .error .enoent
  | some found => .ok found

def reclen (e : Dirent) : Nat := (8 + 8 + 2 + 1 + e.name.length + 1 + 7) / 8 * 8

/-- The loop of `sys_getdents` with `room` bytes of the buffer left. -/
def getdentsLoop (rd : Readdir) (cursor room : Nat) (recs : List Dirent) :
    Except Status (List Dirent × Nat) :=
  match rd cursor with
  | .error .enoent => .ok (recs, cursor)
  | .error s => if recs = [] then .error s else .ok (recs, cursor)
  | .ok (e, next) =>
    if room < reclen e then .ok (recs, cursor)
    else getdentsLoop rd next (room - reclen e) (recs ++ [e])
termination_by room
decreasing_by simp only [reclen] at *; omega

/-- From `cursor` on the entries are read one after the other, up to the end. -/
inductive Lists (rd : Readdir) : Nat → List Dirent → Prop
  | nil {cursor : Nat} (ends : rd cursor = .error .enoent) : Lists rd cursor []
  | cons {cursor next : Nat} {e : Dirent} {es : List Dirent} (here : rd cursor = .ok (e, next))
      (rest : Lists rd next es) : Lists rd cursor (e :: es)

/-- An unchanging directory: the entries that reading it lists, and those that it has besides. -/
structure Dir where
  readdir : Readdir
  listed : List Dirent
  unlisted : List Dirent
  lists : Lists readdir 0 listed

def Dir.entries (d : Dir) : List Dirent := d.listed ++ d.unlisted

theorem lists_root (mountpoints before rest : List Path)
    (all : mountpoints.filterMap (childName ['/']) = before ++ rest) :
    Lists (readdirRoot mountpoints) before.length (rest.map (⟨·, .dir⟩)) := by
  induction rest generalizing before with
  | nil => exact .nil (by simp [readdirRoot, all])
  | cons name rest ih =>
    have next := ih (before ++ [name]) (by simp [all])
    rw [length_append] at next
    exact .cons (by simp [readdirRoot, all]) next

theorem lists_ramfs (slots before rest : List (Option Slot)) (dir : Path)
    (all : slots = before ++ rest) :
    Lists (readdirRamfs slots dir) before.length (rest.filterMap (childEntry dir)) := by
  induction rest generalizing before with
  | nil => exact .nil (by simp [readdirRamfs, all, iterChild])
  | cons slot rest ih =>
    have next := ih (before ++ [slot]) (by simp [all])
    rw [length_append] at next
    cases child : childEntry dir slot with
    | some e =>
      rw [filterMap_cons_some child]
      exact .cons (by simp [readdirRamfs, all, iterChild, child]) next
    | none =>
      -- the scan passes over the slot
      have same : readdirRamfs slots dir before.length = readdirRamfs slots dir (before.length + 1) := by
        simp [readdirRamfs, all, iterChild, child, drop_append, drop_of_length_le]
      rw [filterMap_cons_none child]
      generalize rest.filterMap (childEntry dir) = es at next
      cases next with
      | nil ends => exact .nil (same.trans ends)
      | cons here rest => exact .cons (same.trans here) rest

def slots (files : Files) : List (Option Slot) := (finRange RAMFS_MAX_FILES).map files

def Dir.ramfs (files : Files) (path : Path) : Dir where
  readdir := readdirRamfs (slots files) path
  listed := (slots files).filterMap (childEntry path)
  unlisted := []
  lists := lists_ramfs _ [] _ path rfl

/-- The root lists the mounts below it, but not what the file system mounted there has. -/
def Dir.root (mountpoints : List Path) (files : Files) : Dir where
  readdir := readdirRoot mountpoints
  listed := (mountpoints.filterMap (childName ['/'])).map (⟨·, .dir⟩)
  unlisted := ((slots files).filterMap (childEntry ['/'])).filter fun e =>
    e.name ∉ mountpoints.filterMap (childName ['/'])
  lists := lists_root mountpoints [] _ rfl

/-- An open directory: its cursor and the entries its readers got. -/
structure Session where
  cursor : Nat := 0
  got : List Dirent := []

variable (d : Dir) (s : Session) (size : Nat)

def call : Except Status (List Dirent × Nat) := getdentsLoop d.readdir s.cursor size []

def step : Session :=
  match call d s size with
  | .error _ => s
  | .ok (recs, cursor) => ⟨cursor, s.got ++ recs⟩

def exec (size : Nat) (s : Session) : Option (Unit × Session) := some ((), step d s size)

/-- The call goes on where the last one stopped, and returns nothing only at the end. -/
def Complete : Prop :=
  ∃ recs cursor, call d s size = .ok (recs, cursor) ∧ s.got ++ recs <+: d.entries ∧
    (recs = [] → s.got = d.entries)

/-- The buffer holds the next record, and at the end no entry is missing. -/
def HoldsNext : Prop :=
  (∀ e next, d.readdir s.cursor = .ok (e, next) → reclen e ≤ size) ∧
    (d.readdir s.cursor = .error .enoent → d.unlisted = [])

variable {d s size}

theorem getdentsLoop_spec {rd : Readdir} {cursor : Nat} {es : List Dirent}
    (lists : Lists rd cursor es) (room : Nat) (recs : List Dirent) :
    ∃ taken rest cursor', getdentsLoop rd cursor room recs = .ok (recs ++ taken, cursor') ∧
      es = taken ++ rest ∧ Lists rd cursor' rest ∧
      (taken = [] ↔ ∀ e next, rd cursor = .ok (e, next) → room < reclen e) := by
  induction lists generalizing room recs with
  | @nil cursor ends =>
    refine ⟨[], [], cursor, ?_, rfl, .nil ends, by simp [ends]⟩
    rw [getdentsLoop, ends, append_nil]
  | @cons cursor next e es here rest ih =>
    rw [getdentsLoop, here]
    by_cases full : room < reclen e
    · refine ⟨[], e :: es, cursor, ?_, rfl, .cons here rest, by simpa using full⟩
      simp [full]
    obtain ⟨taken, rest', cursor', eq, split, lists', -⟩ := ih (room - reclen e) (recs ++ [e])
    refine ⟨e :: taken, rest', cursor', ?_, by rw [split]; rfl, lists', by simpa using full⟩
    simpa [full] using eq

def Inv (d : Dir) (s : Session) : Prop :=
  ∃ rest, d.listed = s.got ++ rest ∧ Lists d.readdir s.cursor rest

theorem complete_iff (inv : Inv d s) : Complete d s size ↔ HoldsNext d s size := by
  obtain ⟨rest, all, lists⟩ := inv
  obtain ⟨taken, rest', cursor', eq, split, -, nothing⟩ := getdentsLoop_spec lists size []
  rw [nil_append] at eq
  have front : s.got ++ taken <+: d.entries := ⟨rest' ++ d.unlisted, by simp [Dir.entries, all, split]⟩
  have complete : Complete d s size ↔ (taken = [] → s.got = d.entries) := by
    rw [Complete, call, eq]
    exact ⟨fun ⟨_, _, same, _, last⟩ => by cases same; exact last,
      fun last => ⟨taken, cursor', rfl, front, last⟩⟩
  have got_all : s.got = d.entries ↔ rest = [] ∧ d.unlisted = [] := by
    simp [Dir.entries, all]
  rw [complete, got_all, HoldsNext]
  cases lists with
  | nil ends => simp [ends, (append_eq_nil_iff.1 split.symm).1]
  | @cons _ next e es here _ =>
    have fits : taken = [] ↔ size < reclen e := by simpa [here] using nothing
    simp [here, fits]

theorem inv_step (inv : Inv d s) : Inv d (step d s size) := by
  obtain ⟨_, all, lists⟩ := inv
  obtain ⟨_, rest', _, eq, split, lists', -⟩ := getdentsLoop_spec lists size []
  rw [step, call, eq]
  exact ⟨rest', by rw [all, split]; simp, lists'⟩

end Osnos.Getdents
