import Osnos.Fd.File
import Osnos.Pipes.Ends

/-! `sys_read`, `sys_write` and `sys_close` of `micro/syscall.c`: what the number decides,
and what the open file description behind it. The functions that the description is handed
to are parameters. -/
namespace Osnos.Fd.Numbers
open Osnos.Pipes (PipeIdx Side)

/-- `osnos_ofd_t`, as far as it is looked at before it is handed on. -/
structure Desc where
  isSpecial : Bool := false
  isPipe : Bool := false
  pipeRef : Option PipeIdx := none
  pipeSide : Side := .reader

def Desc.pipeEnd (d : Desc) (side : Side) : Option PipeIdx :=
  if d.isPipe ∧ d.pipeSide = side then d.pipeRef else none

structure Task where
  fds : Fin OSNOS_MAX_FDS → Option OfdIdx
  pool : Pool Desc
  stdinRedir : Bool := false
  stdoutRedir : Bool := false

def Task.fdGet (t : Task) (fd : Int) : Option (OfdIdx × Desc) :=
  if fd < 0 ∨ OSNOS_MAX_FDS ≤ fd then none
  else (t.fds (Fin.ofNat _ fd.toNat)).bind fun o => (t.pool.backend o).map fun d => (o, d)

structure Args where
  buf : Nat
  count : Nat

/-- What one direction leads to: `pipe_read`, the file of a redirection, `stdin_pop` and the
wait behind it, and the sockets, terminals and files; or what stands for them in a write. -/
structure Way (σ : Type) where
  pipe : PipeIdx → Args → Prog σ Int
  redir : Args → Prog σ Int
  terminal : Option OfdIdx → Args → Prog σ Int
  rest : OfdIdx → Args → Prog σ Int

structure Ops (σ : Type) where
  reading : Way σ
  writing : Way σ
  teardown : OfdIdx → Prog σ PUnit

def err (e : Nat) : Int := -e

section
variable {σ : Type} (ops : Ops σ) (w : Way σ) (side : Side) (t : Task)

def Way.common (a : Args) : Option (OfdIdx × Desc) → Prog σ Int
  | none => pure (err OSNOS_EBADF)
  | some (o, d) =>
    if d.isSpecial then pure (err OSNOS_EBADF)
    else if d.isPipe then
      match d.pipeEnd side with
      | none => pure (err OSNOS_EBADF)
      | some p => w.pipe p a
    else w.rest o a

def Way.standard (redirected : Bool) (a : Args) (f : Option (OfdIdx × Desc)) : Prog σ Int :=
  match f.bind fun f => f.2.pipeEnd side with
  | some p => w.pipe p a
  | none =>
    if redirected then w.redir a
    else if f.all fun f => f.2.isSpecial then w.terminal (f.map Prod.fst) a
    else w.common side a f

def sysRead (fd : Int) (a : Args) : Prog σ Int :=
  if a.buf = 0 ∧ 0 < a.count then pure (err OSNOS_EFAULT)
  else if fd = 0 then ops.reading.standard .reader t.stdinRedir a (t.fdGet fd)
  else if fd = 1 ∨ fd = 2 then pure (err OSNOS_EBADF)
  else ops.reading.common .reader a (t.fdGet fd)

def sysWrite (fd : Int) (a : Args) : Prog σ Int :=
  if a.buf = 0 ∧ 0 < a.count then pure (err OSNOS_EFAULT)
  else if fd = 0 then pure (err OSNOS_EBADF)
  else if fd = 1 ∨ fd = 2 then ops.writing.standard .writer t.stdoutRedir a (t.fdGet fd)
  else ops.writing.common .writer a (t.fdGet fd)

/-- The last reference to a description is gone: its backend is torn down. -/
def release (o : OfdIdx) : Prog σ PUnit :=
  if (t.pool.ofdUnref o).1.isSome then ops.teardown o else pure ⟨⟩

def sysClose (fd : Int) : Prog σ (Int × Task) :=
  match t.fdGet fd with
  | none => pure (err OSNOS_EBADF, t)
  | some (o, d) =>
    if d.isSpecial ∧ fd < 3 then pure (err OSNOS_EBADF, t)
    else do
      release ops t o
      return (0, { t with
        fds := Function.update t.fds (Fin.ofNat _ fd.toNat) none, pool := (t.pool.ofdUnref o).2 })

def closed (fd : Int) (s : σ) : Option (Int × Pool Desc × σ) :=
  (sysClose ops t fd s).map fun r => (r.1.1, r.1.2.pool, r.2)

end

/-- The two numbers cannot be told apart, whatever the functions behind the calls do. -/
structure Alike (t : Task) (fd fd' : Int) : Prop where
  read : ∀ (σ : Type) (ops : Ops σ), sysRead ops t fd = sysRead ops t fd'
  write : ∀ (σ : Type) (ops : Ops σ), sysWrite ops t fd = sysWrite ops t fd'
  close : ∀ (σ : Type) (ops : Ops σ), closed ops t fd = closed ops t fd'

inductive Route
  | refused | redirected | terminal | described
  deriving DecidableEq

def Desc.route (d : Desc) (side : Side) : Route :=
  if d.isSpecial ∨ d.isPipe ∧ d.pipeEnd side = none then .refused else .described

def Desc.standardRoute (d : Desc) (side : Side) (redirected : Bool) : Route :=
  if (d.pipeEnd side).isSome then .described
  else if redirected then .redirected
  else if d.isSpecial then .terminal
  else d.route side

def readRoute (t : Task) (d : Desc) (fd : Int) : Route :=
  if fd = 0 then d.standardRoute .reader t.stdinRedir
  else if fd = 1 ∨ fd = 2 then .refused
  else d.route .reader

def writeRoute (t : Task) (d : Desc) (fd : Int) : Route :=
  if fd = 0 then .refused
  else if fd = 1 ∨ fd = 2 then d.standardRoute .writer t.stdoutRedir
  else d.route .writer

section
variable {σ : Type} {ops : Ops σ} {w : Way σ} {side : Side} {t : Task} {fd : Int} {a : Args}
  {o : OfdIdx} {d : Desc}

def Way.follow (w : Way σ) (side : Side) (a : Args) (o : OfdIdx) (d : Desc) : Route → Prog σ Int
  | .refused => pure (err OSNOS_EBADF)
  | .redirected => w.redir a
  | .terminal => w.terminal (some o) a
  | .described => (d.pipeEnd side).elim (w.rest o a) (w.pipe · a)

theorem pipeEnd_isPipe {p : PipeIdx} (found : d.pipeEnd side = some p) : d.isPipe := by
  unfold Desc.pipeEnd at found
  split at found
  next here =>
    exact here.1
  · cases found

theorem common_eq : w.common side a (some (o, d)) = w.follow side a o d (d.route side) := by
  unfold Way.common Desc.route
  cases special : d.isSpecial with
  | true => simp [special, Way.follow]
  | false =>
    cases found : d.pipeEnd side with
    | some => simp [special, Way.follow, found, pipeEnd_isPipe found]
    | none => cases pipe : d.isPipe <;> simp [special, pipe, Way.follow, found]

theorem standard_eq (redirected : Bool) : w.standard side redirected a (some (o, d)) =
    w.follow side a o d (d.standardRoute side redirected) := by
  unfold Way.standard Desc.standardRoute
  cases found : d.pipeEnd side with
  | some => simp [Way.follow, found]
  | none =>
    cases redirected with
    | true => simp [Way.follow, found]
    | false => cases special : d.isSpecial <;> simp [Way.follow, found, special, common_eq]

theorem sysRead_eq (found : t.fdGet fd = some (o, d)) (usable : ¬(a.buf = 0 ∧ 0 < a.count)) :
    sysRead ops t fd a = ops.reading.follow .reader a o d (readRoute t d fd) := by
  unfold sysRead readRoute
  rw [if_neg usable, found, standard_eq, common_eq]
  split_ifs <;> rfl

theorem sysWrite_eq (found : t.fdGet fd = some (o, d)) (usable : ¬(a.buf = 0 ∧ 0 < a.count)) :
    sysWrite ops t fd a = ops.writing.follow .writer a o d (writeRoute t d fd) := by
  unfold sysWrite writeRoute
  rw [if_neg usable, found, standard_eq, common_eq]
  split_ifs <;> rfl

theorem closed_eq (found : t.fdGet fd = some (o, d)) : closed ops t fd = fun s =>
    if d.isSpecial ∧ fd < 3 then some (err OSNOS_EBADF, t.pool, s)
    else (release ops t o s).map fun r => (0, (t.pool.ofdUnref o).2, r.2) := by
  funext s
  unfold closed sysClose
  rw [found]
  dsimp only
  split
  · rfl
  · rw [Prog.bind_apply]
    cases release ops t o s <;> rfl

end

def probe : Ops PUnit :=
  let way : Way PUnit := ⟨fun _ _ => pure 3, fun _ => pure 1, fun _ _ => pure 2, fun _ _ => pure 3⟩
  ⟨way, way, fun _ => pure ⟨⟩⟩

theorem probe_injective {side : Side} {a : Args} {o : OfdIdx} {d : Desc} {r r' : Route}
    (same : probe.reading.follow side a o d r = probe.reading.follow side a o d r') : r = r' := by
  have answers : ∀ r : Route, probe.reading.follow side a o d r ⟨⟩ = some
      (match r with | .refused => -9 | .redirected => 1 | .terminal => 2 | .described => 3, ⟨⟩) := by
    intro r
    cases r with
    | described => cases found : d.pipeEnd side <;> simp [Way.follow, found, probe]
    | _ => rfl
  have same := congrFun same ⟨⟩
  rw [answers r, answers r'] at same
  cases r <;> cases r' <;> first | rfl | cases same

theorem probe_closed {t : Task} {fd : Int} {o : OfdIdx} {d : Desc}
    (found : t.fdGet fd = some (o, d)) : (closed probe t fd ⟨⟩).map Prod.fst =
      some (if d.isSpecial ∧ fd < 3 then err OSNOS_EBADF else 0) := by
  have released : release probe t o ⟨⟩ = some (⟨⟩, ⟨⟩) := by
    unfold release
    split <;> rfl
  rw [closed_eq found]
  dsimp only
  rw [released]
  split <;> rfl

theorem probe_standard (side : Side) (redirected : Bool) (a : Args) :
    probe.reading.standard side redirected a none ≠ pure (err OSNOS_EBADF) := by
  intro same
  cases redirected with
  | true =>
    have same : some ((1 : Int), PUnit.unit) = some (-9, ⟨⟩) := congrFun same ⟨⟩
    exact absurd same (by decide)
  | false =>
    have same : some ((2 : Int), PUnit.unit) = some (-9, ⟨⟩) := congrFun same ⟨⟩
    exact absurd same (by decide)

section
variable {t : Task} {fd fd' : Int} {o : OfdIdx} {d : Desc}

theorem alike_iff (found : t.fdGet fd = some (o, d)) (found' : t.fdGet fd' = some (o, d)) :
    Alike t fd fd' ↔ readRoute t d fd = readRoute t d fd' ∧ writeRoute t d fd = writeRoute t d fd' ∧
      (d.isSpecial → (fd < 3 ↔ fd' < 3)) := by
  constructor
  · intro alike
    refine ⟨?_, ?_, fun special => ?_⟩
    · have same := congrFun (alike.read PUnit probe) ⟨1, 1⟩
      rw [sysRead_eq found (by decide), sysRead_eq found' (by decide)] at same
      exact probe_injective same
    · have same := congrFun (alike.write PUnit probe) ⟨1, 1⟩
      rw [sysWrite_eq found (by decide), sysWrite_eq found' (by decide)] at same
      exact probe_injective same
    · have same := congrArg (Option.map Prod.fst) (congrFun (alike.close PUnit probe) ⟨⟩)
      rw [probe_closed found, probe_closed found'] at same
      by_cases low : fd < 3 <;> by_cases low' : fd' < 3
      · exact iff_of_true low low'
      · simp [special, low, low', err] at same
      · simp [special, low, low', err] at same
      · exact iff_of_false low low'
  · rintro ⟨reads, writes, closes⟩
    refine ⟨fun σ ops => ?_, fun σ ops => ?_, fun σ ops => ?_⟩
    · funext a
      by_cases null : a.buf = 0 ∧ 0 < a.count
      · simp only [sysRead, if_pos null]
      · rw [sysRead_eq found null, sysRead_eq found' null, reads]
    · funext a
      by_cases null : a.buf = 0 ∧ 0 < a.count
      · simp only [sysWrite, if_pos null]
      · rw [sysWrite_eq found null, sysWrite_eq found' null, writes]
    · rw [closed_eq found, closed_eq found']
      simp only [and_congr_right closes]

def Refuses (call : (σ : Type) → Ops σ → Args → Prog σ Int) : Prop :=
  ∀ (σ : Type) (ops : Ops σ) (a : Args), ¬(a.buf = 0 ∧ 0 < a.count) →
    call σ ops a = pure (err OSNOS_EBADF)

theorem read_refused_iff (bad : t.fdGet fd = none) :
    Refuses (fun _ ops a => sysRead ops t fd a) ↔ fd ≠ 0 := by
  constructor
  · rintro refuses rfl
    have same := refuses PUnit probe ⟨1, 1⟩ (by decide)
    simp only [sysRead, bad] at same
    exact probe_standard _ _ _ same
  · intro other σ ops a null
    simp only [sysRead, if_neg null, if_neg other, bad]
    split <;> rfl

theorem write_refused_iff (bad : t.fdGet fd = none) :
    Refuses (fun _ ops a => sysWrite ops t fd a) ↔ fd ≠ 1 ∧ fd ≠ 2 := by
  rw [← not_or]
  constructor
  · intro refuses standard
    have same := refuses PUnit probe ⟨1, 1⟩ (by decide)
    have other : fd ≠ 0 := by omega
    simp only [sysWrite, bad, if_neg other, if_pos standard] at same
    exact probe_standard _ _ _ same
  · intro other σ ops a null
    simp only [sysWrite, if_neg null, if_neg other, bad]
    split <;> rfl

end

/-- Two numbers of one description act alike exactly if they send reads and writes the same way
and, for a special description, both or none of them is standard. A number without a description
is refused, but for reads from 0 and writes to 1 and 2, which find the terminal. -/
theorem same_description_alike_iff (t : Task) :
    (∀ fd fd' o d, t.fdGet fd = some (o, d) → t.fdGet fd' = some (o, d) →
      (Alike t fd fd' ↔ readRoute t d fd = readRoute t d fd' ∧
        writeRoute t d fd = writeRoute t d fd' ∧ (d.isSpecial = true → (fd < 3 ↔ fd' < 3)))) ∧
    ∀ fd, t.fdGet fd = none →
      (Refuses (fun _ ops a => sysRead ops t fd a) ↔ fd ≠ 0) ∧
      (Refuses (fun _ ops a => sysWrite ops t fd a) ↔ fd ≠ 1 ∧ fd ≠ 2) ∧
      ∀ (σ : Type) (ops : Ops σ), sysClose ops t fd = pure (err OSNOS_EBADF, t) := by
  refine ⟨fun fd fd' o d found found' => alike_iff found found', fun fd bad =>
    ⟨read_refused_iff bad, write_refused_iff bad, fun σ ops => ?_⟩⟩
  unfold sysClose
  rw [bad]

def errno : Pipes.Errno → Nat
  | .EBADF => 9
  | .EPIPE => 32
  | .EAGAIN => 11
  | .ENFILE => 23
  | .EMFILE => 24
  | .EFAULT => 14

def readPipe (p : PipeIdx) (a : Args) : Prog Pipes.Table Int := fun t =>
  match t.read p a.count with
  | (.ok bytes, t) => some (bytes.length, t)
  | (.error e, t) => some (err (errno e), t)

def pipesOnly : Ops Pipes.Table :=
  let way : Way Pipes.Table :=
    ⟨readPipe, fun _ => Prog.diverge, fun _ _ => Prog.diverge, fun _ _ => Prog.diverge⟩
  ⟨way, way, fun _ => Prog.diverge⟩

/-- The descriptors 1 and 3 stand for the read end of the first pipe, which has one byte. -/
def redirected : Task where
  fds fd := if fd = 1 ∨ fd = 3 then some 0 else none
  pool := Function.update (fun _ => none) 0
    (some ⟨2, some { isPipe := true, pipeRef := some 0 }⟩)

theorem same_description_alike_redirected : ¬Alike redirected 1 3 := by
  intro alike
  have routes := ((same_description_alike_iff redirected).1 1 3 0
    { isPipe := true, pipeRef := some 0 } rfl rfl).1 alike
  exact absurd routes.1 (by decide)

def oneByte : Pipes.Table := ((Pipes.Table.create fun _ => {}).2.write 0 [65]).2

/-- The byte can be read through the one, and the other is no descriptor to read from. -/
theorem dup_onto_stdout_unreadable :
    redirected.fdGet 1 = redirected.fdGet 3 ∧
      (sysRead pipesOnly redirected 3 ⟨4096, 1⟩ oneByte).map Prod.fst = some 1 ∧
      (sysRead pipesOnly redirected 1 ⟨4096, 1⟩ oneByte).map Prod.fst = some (err OSNOS_EBADF) := by
  refine ⟨rfl, ?_, rfl⟩
  decide +kernel

end Osnos.Fd.Numbers
