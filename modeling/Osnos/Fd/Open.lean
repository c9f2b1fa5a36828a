import Osnos.Fd.Stores

/-! `sys_open` of `micro/syscall.c` and `fd_alloc` of `micro/fd.c`. The file is created or
emptied before a descriptor is asked for. -/
namespace Osnos.Fd
open Osnos.Vfs

abbrev O_CREAT : UInt32 := 0o100
abbrev O_EXCL : UInt32 := 0o200
abbrev O_TRUNC : UInt32 := 0o1000
abbrev OSNOS_ENOENT : Nat := 2
abbrev OSNOS_EEXIST : Nat := 17
abbrev OSNOS_EMFILE : Nat := 24
abbrev OSNOS_ENAMETOOLONG : Nat := 36
def wants (flags what : UInt32) : Bool := flags &&& what != 0

/-- `resolve_path` into a buffer of `OSNOS_PATH_MAX` bytes, for a task in `cwd`. -/
def resolvePath (cwd path : Path) : Except Nat Path :=
  if path.head? = some '/' then
    if path.length < OSNOS_PATH_MAX then .ok path else .error OSNOS_ENAMETOOLONG
  else
    let base := (if cwd = [] then ['/'] else cwd).take (OSNOS_PATH_MAX - 1)
    if base.getLast? ≠ some '/' ∧ OSNOS_PATH_MAX - 1 ≤ base.length then .error OSNOS_ENAMETOOLONG
    else
      let full := (if base.getLast? ≠ some '/' then base ++ ['/'] else base) ++ path
      if full.length < OSNOS_PATH_MAX then .ok full else .error OSNOS_ENAMETOOLONG

def isDir : Except Nat Stat → Bool
  | .ok st => st.type = .dir
  | .error _ => false

def refusal (looked : Except Nat Stat) (flags : UInt32) : Option Nat :=
  if !looked.isOk && !wants flags O_CREAT then some OSNOS_ENOENT
  else if looked.isOk && wants flags O_CREAT && wants flags O_EXCL then some OSNOS_EEXIST
  else if isDir looked && (flags &&& O_ACCMODE != O_RDONLY) then some OSNOS_EISDIR
  else if isDir looked && (wants flags O_CREAT || wants flags O_TRUNC) then some OSNOS_EISDIR
  else none

def empties (looked : Except Nat Stat) (flags : UInt32) : Bool :=
  (!looked.isOk && wants flags O_CREAT) || (wants flags O_TRUNC && !isDir looked)

def fileFds : List FileFd :=
  (List.finRange OSNOS_MAX_FDS).filterMap fun fd => if h : 3 ≤ fd.val then some ⟨fd, h⟩ else none

section
variable {β σ : Type}

def Machine.fdAlloc (m : Machine σ) : Option (FileFd × OfdIdx) :=
  (fileFds.find? fun fd => (m.fds fd).isNone).bind fun fd => m.pool.ofdAlloc.map fun o => (fd, o)

def installFd (looked : Except Nat Stat) (path : Path) (flags : UInt32) :
    Prog (Machine σ) Reply := do
  let m ← get
  match m.fdAlloc with
  | none => return .error OSNOS_EMFILE
  | some (fd, o) =>
    let isChr := match looked with
      | .ok st => decide (st.type = .chr)
      | .error _ => false
    set { m with
      fds := Function.update m.fds fd (some o)
      pool := m.pool.install o (some ⟨flags, isDir looked, isChr, 0, path⟩) }
    return .count fd.val.val

variable (v : Tree β σ)

def openAt (path : Path) (flags : UInt32) : Prog (Machine σ) Reply := do
  let looked ← onStore (v.vfsStat path)
  match refusal looked flags with
  | some e => return .error e
  | none =>
    if empties looked flags then
      let s ← onStore (v.vfsWrite path (fun _ => 0) 0)
      if s ≠ 0 then return .error s
      installFd looked path flags
    else installFd looked path flags

/-- `sys_open`. The outcome of `try_open_pty` is given: it answers for the terminals and may
take a descriptor, and no file system is within its reach. -/
def sysOpen (pty : Path → Option (Reply × (FileFd → Option OfdIdx) × Pool OpenFile)) (cwd : Path)
    (path : Option Path) (flags : UInt32) : Prog (Machine σ) Reply := do
  match path with
  | none => return .error OSNOS_EFAULT
  | some path =>
    match pty path with
    | some (reply, fds, pool) =>
      modify fun m => { m with fds := fds, pool := pool }
      return reply
    | none =>
      match resolvePath cwd path with
      | .error e => return .error e
      | .ok path => openAt v path flags

/-- The call has come to `vfs_write`, which leaves `s` behind. -/
structure Emptied (m : Machine σ) (path : Path) (flags : UInt32) (s₁ : σ) (status : Nat) (s : σ) :
    Prop where
  looked : ∃ looked, v.vfsStat path m.store = some (looked, s₁) ∧
    refusal looked flags = none ∧ empties looked flags = true
  wrote : v.vfsWrite path (fun _ => 0) 0 s₁ = some (status, s)

variable {v} {m m' : Machine σ} {path : Path} {flags : UInt32} {e : Nat}

theorem onStore_some {α : Type} {x : Prog σ α} {a : α} (run : onStore x m = some (a, m')) :
    ∃ s, x m.store = some (a, s) ∧ m' = { m with store := s } := by
  obtain ⟨⟨a', s⟩, ran, eq⟩ := Option.map_eq_some_iff.1 run
  cases eq
  exact ⟨s, ran, rfl⟩

theorem installFd_error {looked : Except Nat Stat}
    (run : installFd looked path flags m = some (.error e, m')) : m' = m ∧ m.fdAlloc = none := by
  unfold installFd at run
  rw [Prog.bind_some (Prog.get_apply m)] at run
  cases alloc : m.fdAlloc with
  | none =>
    rw [alloc] at run
    cases run
    exact ⟨rfl, rfl⟩
  | some =>
    rw [alloc] at run
    cases run

/-- An open that fails has only looked, or it has come to the write; then the write failed,
or there was no descriptor after it. -/
theorem openAt_error (run : openAt v path flags m = some (.error e, m')) :
    (∃ looked, v.vfsStat path m.store = some (looked, m'.store) ∧
        ¬(refusal looked flags = none ∧ empties looked flags)) ∨
      ∃ s₁ status, Emptied v m path flags s₁ status m'.store ∧ (status ≠ 0 ∨ m.fdAlloc = none) := by
  unfold openAt at run
  obtain ⟨⟨looked, m₁⟩, ran, run⟩ := Option.bind_eq_some_iff.1 run
  obtain ⟨s₁, stat, rfl⟩ := onStore_some ran
  dsimp only at run
  cases refused : refusal looked flags with
  | some =>
    rw [refused] at run
    cases run
    exact .inl ⟨looked, stat, by simp [refused]⟩
  | none =>
    rw [refused] at run
    dsimp only at run
    split at run
    next creates =>
      obtain ⟨⟨status, m₂⟩, ran, run⟩ := Option.bind_eq_some_iff.1 run
      obtain ⟨s₂, wrote, rfl⟩ := onStore_some ran
      have emptied : Emptied v m path flags s₁ status s₂ :=
        ⟨⟨looked, stat, refused, creates⟩, wrote⟩
      dsimp only at run
      split at run
      next failed =>
        cases run
        exact .inr ⟨s₁, _, emptied, .inl failed⟩
      · obtain ⟨rfl, full⟩ := installFd_error run
        exact .inr ⟨s₁, status, emptied, .inr full⟩
    next plain =>
      obtain ⟨rfl, -⟩ := installFd_error run
      exact .inl ⟨looked, stat, fun both => plain both.2⟩

theorem vfsStat_looks {φ : Type} {files : σ → φ}
    (looks : ∀ f s r s', v.ops.stat f s = some (r, s') → files s' = files s) {s s' : σ}
    {r : Except Nat Stat} (stat : v.vfsStat path s = some (r, s')) : files s' = files s := by
  unfold Tree.vfsStat Tree.call at stat
  cases reached : v.mounts.dispatch v.ops.stat (fun e => pure (.error e.code)) v.depth path with
  | none =>
    rw [reached] at stat
    cases stat
  | some =>
    rw [reached, Option.getD_some] at stat
    obtain ⟨f, -, rfl⟩ | ⟨status, -, rfl, -⟩ := Mounts.dispatch_cases reached
    · exact looks f s r s' stat
    · cases stat
      rfl

/-- For every tree of file systems whose `stat` operations change no file: a failing `sys_open`
has changed a file exactly if it had come to create or empty one, `vfs_write` did change
something, and then it failed all the same or no descriptor was left. -/
theorem failed_open_changes_iff {φ : Type} {files : σ → φ}
    (looks : ∀ f s r s', v.ops.stat f s = some (r, s') → files s' = files s)
    {pty : Path → Option (Reply × (FileFd → Option OfdIdx) × Pool OpenFile)} {cwd : Path}
    {name : Option Path} (run : sysOpen v pty cwd name flags m = some (.error e, m')) :
    files m'.store ≠ files m.store ↔
      ∃ given path s₁ status s₂, name = some given ∧ pty given = none ∧
        resolvePath cwd given = .ok path ∧ Emptied v m path flags s₁ status s₂ ∧
        files s₂ ≠ files s₁ ∧ (status ≠ 0 ∨ m.fdAlloc = none) := by
  unfold sysOpen at run
  cases name with
  | none =>
    cases run
    exact ⟨fun changed => absurd rfl changed, fun ⟨_, _, _, _, _, impossible, _⟩ => nomatch impossible⟩
  | some given =>
    dsimp only at run
    cases terminal : pty given with
    | some p =>
      obtain ⟨_, _, _⟩ := p
      rw [terminal] at run
      cases run
      refine ⟨fun changed => absurd rfl changed, ?_⟩
      rintro ⟨_, _, _, _, _, ⟨⟩, none, _⟩
      cases terminal.symm.trans none
    | none =>
      rw [terminal] at run
      cases resolved : resolvePath cwd given with
      | error =>
        rw [resolved] at run
        cases run
        refine ⟨fun changed => absurd rfl changed, ?_⟩
        rintro ⟨_, _, _, _, _, ⟨⟩, -, ok, _⟩
        cases resolved.symm.trans ok
      | ok path =>
        rw [resolved] at run
        obtain ⟨looked, stat, only⟩ | ⟨s₁, status, emptied, failed⟩ := openAt_error run
        · refine ⟨fun changed => absurd (vfsStat_looks looks stat) changed, ?_⟩
          rintro ⟨_, _, _, _, _, ⟨⟩, -, ok, ⟨⟨looked', stat', refused, creates⟩, -⟩, -⟩
          cases resolved.symm.trans ok
          cases stat.symm.trans stat'
          exact absurd ⟨refused, creates⟩ only
        obtain ⟨⟨looked, stat, refused, creates⟩, wrote⟩ := emptied
        have same := vfsStat_looks looks stat
        constructor
        · intro changed
          exact ⟨given, path, s₁, status, m'.store, rfl, terminal, resolved,
            ⟨⟨looked, stat, refused, creates⟩, wrote⟩, fun eq => changed (eq.trans same), failed⟩
        rintro ⟨_, _, s₁', status', s₂, ⟨⟩, -, ok, ⟨⟨looked', stat', -⟩, wrote'⟩, differs, -⟩ eq
        cases resolved.symm.trans ok
        cases stat.symm.trans stat'
        cases wrote.symm.trans wrote'
        exact differs (eq.trans same.symm)

end

def ramRoot : Mounts Medium := fun i => if i = 0 then some ⟨['/'], .backend .ramfs⟩ else none

/-- An empty RAM file system and a task whose descriptors all refer to one description. -/
def fullMachine : Machine Stores where
  fds _ := some 0
  pool o := if o = 0 then some ⟨13, some ⟨0, false, false, 0, ['/', 'a']⟩⟩ else none
  store := ⟨fun _ => none, cardMachine.store.card⟩

def openNew : Prog (Machine Stores) Reply :=
  sysOpen (tree ramRoot 1) (fun _ => none) [] (some ['/', 'f']) (O_CREAT ||| O_WRONLY)

theorem storeOps_looks (f : File Medium) (s : Stores) (r : Except Nat Stat) (s' : Stores)
    (stat : storeOps.stat f s = some (r, s')) : s'.ram = s.ram := by
  obtain ⟨medium, _⟩ := f
  cases medium with
  | ramfs =>
    cases stat
    rfl
  | fat =>
    obtain ⟨p, -, eq⟩ := Option.map_eq_some_iff.1 stat
    cases eq
    rfl

def leftBehind : Option (Nat × Option Vfs.Node) :=
  (openNew fullMachine).bind fun r =>
    match r.1 with
    | .error e => some (e, r.2.store.ram.node ['/', 'f'])
    | _ => none

theorem openNew_error : ∃ m', openNew fullMachine = some (.error OSNOS_EMFILE, m') ∧
    m'.store.ram.node ['/', 'f'] = some (.file []) := by
  have evaluated : leftBehind = some (OSNOS_EMFILE, some (.file [])) := by decide +kernel
  obtain ⟨⟨reply, m'⟩, run, left⟩ := Option.bind_eq_some_iff.1 evaluated
  cases reply with
  | error =>
    obtain ⟨rfl, file⟩ := Prod.mk.inj (Option.some.inj left)
    exact ⟨m', run, file⟩
  | _ => cases left

theorem failed_open_changes_new :
    ∃ m' path s₁ status s₂, openNew fullMachine = some (.error OSNOS_EMFILE, m') ∧
      Emptied (tree ramRoot 1) fullMachine path (O_CREAT ||| O_WRONLY) s₁ status s₂ ∧
      s₂.ram ≠ s₁.ram := by
  obtain ⟨m', run, created⟩ := openNew_error
  have changed : m'.store.ram ≠ fullMachine.store.ram := by
    intro same
    rw [same] at created
    exact absurd created (by decide)
  obtain ⟨_, path, s₁, status, s₂, -, -, -, emptied, differs, -⟩ :=
    (failed_open_changes_iff storeOps_looks run).1 changed
  exact ⟨m', path, s₁, status, s₂, run, emptied, differs⟩

/-- The open of a new file returns `EMFILE`, and the file is there. -/
theorem failed_open_creates :
    fullMachine.store.ram.node ['/', 'f'] = none ∧
      ∃ m', openNew fullMachine = some (.error OSNOS_EMFILE, m') ∧
        m'.store.ram.node ['/', 'f'] = some (.file []) :=
  ⟨by decide, openNew_error⟩

end Osnos.Fd
