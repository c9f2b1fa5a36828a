import Osnos.Pipes.Pipe
import Osnos.Base.Prog

/-! `sys_pipe` and the calls on its two descriptors. Descriptors are duplicated by counting
references to their open file description, so each side of a pipe counts one reference as
long as any descriptor of that side is open. -/
namespace Osnos.Pipes
open Osnos.Fd Function Pool

inductive Side
  | reader | writer
  deriving DecidableEq, Repr

structure World where
  session : Session := {}
  pool : Pool (PipeIdx × Side) := fun _ => none

/-- `room`s say whether the task has free descriptors, `fault` whether the pair of them
cannot be copied to the caller. -/
inductive Call
  | pipe (room₁ room₂ fault : Bool)
  | openOther (room : Bool)
  | write (o : OfdIdx) (data : List UInt8)
  | read (o : OfdIdx) (n : Nat)
  | dup (o : OfdIdx)
  | close (o : OfdIdx)

def Pipe.refs (p : Pipe) : Side → Nat
  | .reader => p.refR
  | .writer => p.refW

def Side.close (p : PipeIdx) : Side → Op
  | .reader => .closeReader p
  | .writer => .closeWriter p

namespace World

variable (w : World)

def apply (ops : List Op) : World := { w with session := w.session.run ops }

/-- `sys_pipe`. The failing paths close both sides again. -/
def sysPipe (room₁ room₂ fault : Bool) : Except Errno (OfdIdx × OfdIdx) × World :=
  match w.session.pipes.create.1 with
  | none => (.error .ENFILE, w)
  | some p =>
    match w.pool.fdAlloc room₁ with
    | none => (.error .EMFILE, w.apply [.create, .closeReader p, .closeWriter p])
    | some r =>
      match (w.pool.install r none).fdAlloc room₂ with
      | none => (.error .EMFILE, w.apply [.create, .closeReader p, .closeWriter p])
      | some o =>
        if fault then
          (.error .EFAULT, w.apply [.create, .closeReader p, .closeWriter p, .closeReader p,
            .closeWriter p])
        else (.ok (r, o), { w.apply [.create] with
          pool := (w.pool.install r (some (p, .reader))).install o (some (p, .writer)) })

def sysWrite (o : OfdIdx) (data : List UInt8) : Except Errno Nat × World :=
  match w.pool.backend o with
  | some (p, .writer) => ((w.session.pipes.write p data).1, w.apply [.write p data])
  | _ => (.error .EBADF, w)

def sysRead (o : OfdIdx) (n : Nat) : Except Errno (List UInt8) × World :=
  match w.pool.backend o with
  | some (p, .reader) => ((w.session.pipes.read p n).1, w.apply [.read p n])
  | _ => (.error .EBADF, w)

def sysClose (o : OfdIdx) : World :=
  match w.pool.ofdUnref o with
  | (none, pool) => { w with pool := pool }
  | (some (p, side), pool) => { w.apply [side.close p] with pool := pool }

def openOther (room : Bool) : World :=
  match w.pool.fdAlloc room with
  | none => w
  | some o => { w with pool := w.pool.install o none }

def step : Call → World
  | .pipe room₁ room₂ fault => (w.sysPipe room₁ room₂ fault).2
  | .openOther room => w.openOther room
  | .write o data => (w.sysWrite o data).2
  | .read o n => (w.sysRead o n).2
  | .dup o => { w with pool := w.pool.ofdRef o }
  | .close o => w.sysClose o

def run (cs : List Call) : World := cs.foldl step w

end World

structure Counted (w : World) : Prop where
  sound : w.session.Sound
  once : ∀ o o' b, w.pool.backend o = some b → w.pool.backend o' = some b → o = o'
  one : ∀ o p side, w.pool.backend o = some (p, side) → (w.session.pipes p).refs side = 1
  zero : ∀ p side, (∀ o, w.pool.backend o ≠ some (p, side)) → (w.session.pipes p).refs side = 0

variable {s : Session} {w : World} {p q : PipeIdx} {side side' : Side}

theorem create_refs (created : s.pipes.create.1 = some p) :
    ((s.step .create).pipes q).refs side = if q = p then 1 else (s.pipes q).refs side := by
  dsimp only [Session.step]
  unfold Table.create at created ⊢
  split at created
  · cases created
  cases created
  change (update s.pipes p _ q).refs side = _
  rw [update_apply]
  split
  · cases side <;> rfl
  · rfl

theorem write_refs (data : List UInt8) :
    ((s.step (.write p data)).pipes q).refs side = (s.pipes q).refs side := by
  change ((s.pipes.write p data).2 q).refs side = _
  unfold Table.write
  split
  · rfl
  split
  · rfl
  split
  · rfl
  split
  · rfl
  dsimp only
  rw [update_apply]
  split
  next here =>
    subst here
    cases side <;> rfl
  · rfl

theorem read_refs (n : Nat) : ((s.step (.read p n)).pipes q).refs side = (s.pipes q).refs side := by
  change ((s.pipes.read p n).2 q).refs side = _
  unfold Table.read
  split
  · rfl
  split
  · rfl
  split
  · split <;> rfl
  dsimp only
  rw [update_apply]
  split
  next here =>
    subst here
    cases side <;> rfl
  · rfl

theorem freeIfOrphan_refs (p : Pipe) : p.freeIfOrphan.refs side = p.refs side := by
  unfold Pipe.freeIfOrphan
  split
  · cases side <;> rfl
  · rfl

theorem close_refs (sound : s.Sound) : ((s.step (side.close p)).pipes q).refs side' =
      if q = p ∧ side' = side then (s.pipes q).refs side' - 1 else (s.pipes q).refs side' := by
  have unused : (s.pipes p).used = false → (s.pipes p).refs side = 0 := fun off => by
    have both := (sound.lawful p).free.1 off
    cases side with
    | reader => exact both.2
    | writer => exact both.1
  cases side
  case' reader =>
    change ((s.pipes.closeReader p) q).refs side' = _
    unfold Table.closeReader
  case' writer =>
    change ((s.pipes.closeWriter p) q).refs side' = _
    unfold Table.closeWriter
  all_goals
    split
    next off =>
      split
      next here =>
        obtain ⟨rfl, rfl⟩ := here
        rw [unused off]
      · rfl
    rw [update_apply]
    by_cases here : q = p
    · subst here
      rw [if_pos rfl, freeIfOrphan_refs]
      cases side' <;> simp [Pipe.refs]
    · rw [if_neg here, if_neg fun both => here both.1]

theorem Counted.same (counted : Counted w) {w' : World} (sound : w'.session.Sound)
    (pool : ∀ o, w'.pool.backend o = w.pool.backend o)
    (refs : ∀ q side, (w'.session.pipes q).refs side = (w.session.pipes q).refs side) :
    Counted w' where
  sound := sound
  once o o' b held held' := by
    rw [pool] at held held'
    exact counted.once o o' b held held'
  one o p side held := by
    rw [pool] at held
    rw [refs]
    exact counted.one o p side held
  zero p side none_held := by
    rw [refs]
    refine counted.zero p side fun o held => none_held o ?_
    rw [pool]
    exact held

theorem create_close_refs (sound : s.Sound) (created : s.pipes.create.1 = some p) (q : PipeIdx)
    (side : Side) :
    ((s.run [.create, .closeReader p, .closeWriter p]).pipes q).refs side =
      (s.pipes q).refs side := by
  have made := step_sound sound .create
  have read := step_sound made (.closeReader p)
  have free := (sound.lawful p).handed_out created
  change (((((s.step .create).step (.closeReader p)).step (.closeWriter p)).pipes q).refs side) = _
  rw [show Op.closeWriter p = Side.writer.close p from rfl, close_refs read,
    show Op.closeReader p = Side.reader.close p from rfl, close_refs made, create_refs created]
  by_cases here : q = p
  · subst here
    cases side with
    | reader => simp [Pipe.refs, free.2]
    | writer => simp [Pipe.refs, free.1]
  · simp [here]

theorem close_zero_refs (sound : s.Sound) (none_left : (s.pipes p).refs side = 0) (q : PipeIdx)
    (side' : Side) : ((s.step (side.close p)).pipes q).refs side' = (s.pipes q).refs side' := by
  rw [close_refs sound]
  split
  next here =>
    obtain ⟨rfl, rfl⟩ := here
    rw [none_left]
  · rfl

/-- The last two closes find the pipe unused. -/
theorem create_close_again_refs (sound : s.Sound) (created : s.pipes.create.1 = some p) (q : PipeIdx)
    (side : Side) :
    ((s.run [.create, .closeReader p, .closeWriter p, .closeReader p, .closeWriter p]).pipes q).refs
      side = (s.pipes q).refs side := by
  have free := (sound.lawful p).handed_out created
  have back := create_close_refs sound created
  have closed := run_sound [.create, .closeReader p, .closeWriter p] sound
  have again : ∀ q side, ((Session.step _ (Side.reader.close p)).pipes q).refs side = _ :=
    close_zero_refs closed ((back p .reader).trans free.2)
  have finally_same : ∀ q side, ((Session.step _ (Side.writer.close p)).pipes q).refs side = _ :=
    close_zero_refs (step_sound closed (Side.reader.close p))
      ((again p .writer).trans ((back p .writer).trans free.1))
  exact (finally_same q side).trans ((again q side).trans (back q side))

theorem once_install {pool : Fd.Pool (PipeIdx × Side)} {o : OfdIdx} {b : PipeIdx × Side}
    (once : ∀ o₁ o₂ b, pool.backend o₁ = some b → pool.backend o₂ = some b → o₁ = o₂)
    (unheld : ∀ o', pool.backend o' ≠ some b) (o₁ o₂ : OfdIdx) (b' : PipeIdx × Side)
    (h₁ : (pool.install o (some b)).backend o₁ = some b')
    (h₂ : (pool.install o (some b)).backend o₂ = some b') : o₁ = o₂ := by
  rw [install_backend] at h₁ h₂
  split_ifs at h₁ h₂ with at_o at_o' at_o'
  · rw [at_o, at_o']
  · cases h₁
    exact absurd h₂ (unheld o₂)
  · cases h₂
    exact absurd h₁ (unheld o₁)
  · exact once o₁ o₂ b' h₁ h₂

theorem opened_counted (counted : Counted w) (created : w.session.pipes.create.1 = some p)
    {room₁ room₂ : Bool} {r o : OfdIdx} (room_r : w.pool.fdAlloc room₁ = some r)
    (room_o : (w.pool.install r none).fdAlloc room₂ = some o) : Counted { w.apply [.create] with
      pool := (w.pool.install r (some (p, .reader))).install o (some (p, .writer)) } := by
  have free := (counted.sound.lawful p).handed_out created
  have unheld : ∀ o' side, w.pool.backend o' ≠ some (p, side) := fun o' side held => by
    have one := counted.one o' p side held
    cases side with
    | reader => cases one.symm.trans free.2
    | writer => cases one.symm.trans free.1
  have different : r ≠ o := by
    rintro rfl
    have unused := fdAlloc_unused room_o
    rw [install, update_self] at unused
    cases unused
  have ends : ∀ o', ((w.pool.install r (some (p, .reader))).install o (some (p, .writer))).backend
      o' = if o' = o then some (p, .writer) else if o' = r then some (p, .reader)
        else w.pool.backend o' := fun o' => by
    rw [install_backend, install_backend]
  refine ⟨step_sound counted.sound .create, ?_, fun o' q side held => ?_, fun q side none_held => ?_⟩
  · refine once_install (once_install counted.once fun o' => unheld o' .reader) fun o' => ?_
    rw [install_backend]
    split
    · simp
    · exact unheld o' .writer
  · change ((w.session.step .create).pipes q).refs side = 1
    rw [ends] at held
    rw [create_refs created]
    split_ifs at held ⊢ with other
    all_goals first | rfl | exact counted.one o' q side held | (cases held; exact absurd rfl other)
  · change ((w.session.step .create).pipes q).refs side = 0
    rw [create_refs created]
    split
    next here =>
      subst here
      cases side with
      | reader => exact absurd (by rw [ends, if_neg different, if_pos rfl]) (none_held r)
      | writer => exact absurd (by rw [ends, if_pos rfl]) (none_held o)
    next other =>
      refine counted.zero q side fun o' held => none_held o' ?_
      have not_r : o' ≠ r := by
        rintro rfl
        rw [fdAlloc_free room_r] at held
        cases held
      have not_o : o' ≠ o := by
        rintro rfl
        have free_o := fdAlloc_free room_o
        rw [install_backend, if_neg not_r, held] at free_o
        cases free_o
      rw [ends, if_neg not_o, if_neg not_r, held]

theorem pipe_counted (counted : Counted w) (room₁ room₂ fault : Bool) :
    Counted (w.step (.pipe room₁ room₂ fault)) := by
  change Counted (w.sysPipe room₁ room₂ fault).2
  unfold World.sysPipe
  split
  · exact counted
  rename_i p created
  have sound := counted.sound
  have undone : Counted (w.apply [.create, .closeReader p, .closeWriter p]) :=
    counted.same (run_sound _ sound) (fun _ => rfl) (create_close_refs sound created)
  split
  · exact undone
  rename_i r room_r
  split
  · exact undone
  rename_i o room_o
  split
  · exact counted.same (run_sound _ sound) (fun _ => rfl) (create_close_again_refs sound created)
  · exact opened_counted counted created room_r room_o

theorem close_counted (counted : Counted w) (o : OfdIdx) : Counted (w.step (.close o)) := by
  change Counted (w.sysClose o)
  unfold World.sysClose
  rcases ofdUnref_cases (p := w.pool) o with ⟨nothing, same⟩ | ⟨⟨p, side⟩, held, last, given⟩
  · generalize w.pool.ofdUnref o = r at nothing same
    obtain ⟨b, pool⟩ := r
    cases nothing
    exact counted.same counted.sound same fun _ _ => rfl
  generalize w.pool.ofdUnref o = r at last given
  obtain ⟨b, pool⟩ := r
  cases last
  have refs : ∀ q side', ((w.session.step (side.close p)).pipes q).refs side' =
      if q = p ∧ side' = side then (w.session.pipes q).refs side' - 1
      else (w.session.pipes q).refs side' := fun q side' => close_refs counted.sound
  have before : ∀ o' b, pool.backend o' = some b → o' ≠ o ∧ w.pool.backend o' = some b := by
    intro o' b still
    rw [given] at still
    split at still
    · cases still
    next other =>
      exact ⟨other, still⟩
  refine ⟨step_sound counted.sound _, fun o₁ o₂ b h₁ h₂ => ?_, fun o' q side' still => ?_,
    fun q side' none_held => ?_⟩
  · exact counted.once o₁ o₂ b (before o₁ b h₁).2 (before o₂ b h₂).2
  · obtain ⟨other, was⟩ := before o' _ still
    change ((w.session.step (side.close p)).pipes q).refs side' = 1
    rw [refs, if_neg]
    · exact counted.one o' q side' was
    · rintro ⟨rfl, rfl⟩
      exact other (counted.once o' o _ was held)
  change ((w.session.step (side.close p)).pipes q).refs side' = 0
  rw [refs]
  split
  next here =>
    obtain ⟨rfl, rfl⟩ := here
    rw [counted.one o q side' held]
  rename_i other
  refine counted.zero q side' fun o' was => none_held o' ?_
  have not_o : o' ≠ o := by
    rintro rfl
    cases held.symm.trans was
    exact other ⟨rfl, rfl⟩
  rw [given, if_neg not_o, was]

theorem step_counted (counted : Counted w) (c : Call) : Counted (w.step c) := by
  cases c with
  | pipe room₁ room₂ fault => exact pipe_counted counted room₁ room₂ fault
  | openOther room =>
    change Counted (w.openOther room)
    unfold World.openOther
    split
    · exact counted
    rename_i o taken
    refine counted.same counted.sound (fun o' => ?_) fun _ _ => rfl
    rw [install_backend]
    split
    next here =>
      rw [here, fdAlloc_free taken]
    · rfl
  | write o data =>
    change Counted (w.sysWrite o data).2
    unfold World.sysWrite
    split
    next p _ =>
      exact counted.same (run_sound [.write p data] counted.sound) (fun _ => rfl) fun q side =>
        write_refs data
    · exact counted
  | read o n =>
    change Counted (w.sysRead o n).2
    unfold World.sysRead
    split
    next p _ =>
      exact counted.same (run_sound [.read p n] counted.sound) (fun _ => rfl) fun q side =>
        read_refs n
    · exact counted
  | dup o => exact counted.same counted.sound (ofdRef_backend o) fun _ _ => rfl
  | close o => exact close_counted counted o

theorem run_counted (cs : List Call) (counted : Counted w) : Counted (w.run cs) := by
  induction cs generalizing w with
  | nil => exact counted
  | cons c _ ih => exact ih (step_counted counted c)

theorem init_counted : Counted {} :=
  ⟨init_sound, nofun, nofun, fun p side _ => by cases side <;> rfl⟩

/-- Every slot is lawful in every state that creations, writes, reads, duplications and closes
lead to; through system calls its counts are the open file descriptions of each side. -/
theorem pipes_lawful :
    (∀ ops p, Lawful (Session.run {} ops) p) ∧
      ∀ cs, Counted (World.run {} cs) ∧ ∀ p, Lawful (World.run {} cs).session p := by
  refine ⟨fun ops p => (run_sound ops init_sound).lawful p, fun cs => ?_⟩
  have counted := run_counted cs init_counted
  exact ⟨counted, counted.sound.lawful⟩

/-- Calls of length zero: a read returns none though a writer is left, and a write does not
fail though no reader is left. -/
theorem zero_length_calls :
    let s := Session.run {} [.create]
    let t := Session.run {} [.create, .closeReader 0]
    (s.pipes.read 0 0).1 = .ok [] ∧ (s.pipes 0).refW = 1 ∧
      (t.pipes.write 0 []).1 = .ok 0 ∧ (t.pipes 0).refR = 0 := by
  refine ⟨by rfl, by decide +kernel, by rfl, by decide +kernel⟩

end Osnos.Pipes
