import Osnos.Base.Ring
import Osnos.Fd.Pool

/-! `micro/pipe.c`: a ring of bytes and a reference count for each side. -/
namespace Osnos.Pipes
open Osnos.Fd Function List Ring

abbrev PIPE_BUF_SIZE : Nat := 4096
abbrev MAX_PIPES : Nat := 16

theorem pipe_buf_pos : 0 < PIPE_BUF_SIZE := by decide

abbrev PipeIdx := Fin MAX_PIPES

/-- `pipe_t`. The ring's head is the read cursor `tail` of the source, its tail the write
cursor `head`, its count the fill level. -/
structure Pipe where
  ring : Ring UInt8 PIPE_BUF_SIZE := Ring.empty 0 pipe_buf_pos
  refW : Nat := 0
  refR : Nat := 0
  used : Bool := false

inductive Errno
  | EBADF | EPIPE | EAGAIN | ENFILE | EMFILE | EFAULT
  deriving DecidableEq, Repr

abbrev Table := PipeIdx → Pipe

namespace Table

variable (t : Table)

def create : Option PipeIdx × Table :=
  match (List.finRange MAX_PIPES).find? fun p => !(t p).used with
  | none => (none, t)
  | some p =>
    (some p, update t p ⟨(t p).ring.clear, 1, 1, true⟩)

def write (p : PipeIdx) (data : List UInt8) : Except Errno Nat × Table :=
  if (t p).used = false then (.error .EBADF, t)
  else if data.length = 0 then (.ok 0, t)
  else if (t p).refR = 0 then (.error .EPIPE, t)
  else if PIPE_BUF_SIZE - (t p).ring.count = 0 then (.error .EAGAIN, t)
  else (.ok (min data.length (PIPE_BUF_SIZE - (t p).ring.count)),
    update t p { t p with ring := (t p).ring.enqueue data })

def read (p : PipeIdx) (n : Nat) : Except Errno (List UInt8) × Table :=
  if (t p).used = false then (.error .EBADF, t)
  else if n = 0 then (.ok [], t)
  else if (t p).ring.count = 0 then
    if (t p).refW = 0 then (.ok [], t) else (.error .EAGAIN, t)
  else (.ok ((t p).ring.dequeue n).1,
    update t p { t p with ring := ((t p).ring.dequeue n).2 })

end Table

/-- `pipe_free_if_orphan`. The source leaves the cursors, which `pipe_create` resets before
anything reads them. -/
def Pipe.freeIfOrphan (p : Pipe) : Pipe :=
  if p.refW = 0 ∧ p.refR = 0 then { p with used := false, ring := p.ring.clear } else p

namespace Table

variable (t : Table)

def closeWriter (p : PipeIdx) : Table :=
  if (t p).used = false then t
  else update t p { t p with refW := (t p).refW - 1 }.freeIfOrphan

def closeReader (p : PipeIdx) : Table :=
  if (t p).used = false then t
  else update t p { t p with refR := (t p).refR - 1 }.freeIfOrphan

def dupWriter (p : PipeIdx) : Table :=
  if (t p).used = false then t else update t p { t p with refW := (t p).refW + 1 }

def dupReader (p : PipeIdx) : Table :=
  if (t p).used = false then t else update t p { t p with refR := (t p).refR + 1 }

end Table

inductive Op
  | create
  | write (p : PipeIdx) (data : List UInt8)
  | read (p : PipeIdx) (n : Nat)
  | dupWriter (p : PipeIdx)
  | dupReader (p : PipeIdx)
  | closeWriter (p : PipeIdx)
  | closeReader (p : PipeIdx)

structure Session where
  pipes : Table := fun _ => {}
  accepted : PipeIdx → List UInt8 := fun _ => []
  returned : PipeIdx → List UInt8 := fun _ => []

def accepted (data : List UInt8) : Except Errno Nat → List UInt8
  | .ok n => data.take n
  | .error _ => []

def returned : Except Errno (List UInt8) → List UInt8
  | .ok l => l
  | .error _ => []

namespace Session

variable (s : Session)

def restart : Option PipeIdx × Table → Session
  | (none, t) => { s with pipes := t }
  | (some p, t) => ⟨t, update s.accepted p [], update s.returned p []⟩

def step : Op → Session
  | .create => s.restart s.pipes.create
  | .write p data =>
    { s with
      pipes := (s.pipes.write p data).2
      accepted := update s.accepted p
        (s.accepted p ++ Pipes.accepted data (s.pipes.write p data).1) }
  | .read p n =>
    { s with
      pipes := (s.pipes.read p n).2
      returned := update s.returned p
        (s.returned p ++ Pipes.returned (s.pipes.read p n).1) }
  | .dupWriter p => { s with pipes := s.pipes.dupWriter p }
  | .dupReader p => { s with pipes := s.pipes.dupReader p }
  | .closeWriter p => { s with pipes := s.pipes.closeWriter p }
  | .closeReader p => { s with pipes := s.pipes.closeReader p }

def run (ops : List Op) : Session := ops.foldl step s

end Session

structure Sound (p : Pipe) (accepted returned : List UInt8) : Prop where
  counted : p.used = true ↔ 0 < p.refW ∨ 0 < p.refR
  ordered : returned <+: accepted
  held : p.used = true → accepted = returned ++ p.ring.contents

section
variable {p : Pipe} {accepted returned : List UInt8}

theorem Sound.recount (sound : Sound p accepted returned) (used : p.used) {w r : Nat}
    (some_left : 0 < w ∨ 0 < r) : Sound { p with refW := w, refR := r } accepted returned :=
  ⟨iff_of_true used some_left, sound.ordered, sound.held⟩

theorem Sound.freeIfOrphan (sound : Sound p accepted returned) (used : p.used) (w r : Nat) :
    Sound (Pipe.freeIfOrphan { p with refW := w, refR := r }) accepted returned := by
  unfold Pipe.freeIfOrphan
  split
  next orphan =>
    obtain ⟨no_writer, no_reader⟩ := orphan
    dsimp only at no_writer no_reader
    refine ⟨?_, sound.ordered, nofun⟩
    simp [no_writer, no_reader]
  next held =>
    refine sound.recount used ?_
    dsimp only at held
    omega

theorem Sound.stream {accepted' returned' : List UInt8} (sound : Sound p accepted returned)
    {ring : Ring UInt8 PIPE_BUF_SIZE} (order : accepted' = returned' ++ ring.contents) :
    Sound { p with ring := ring } accepted' returned' :=
  ⟨sound.counted, ⟨ring.contents, order.symm⟩, fun _ => order⟩

end

def Session.Sound (s : Session) : Prop :=
  ∀ p, Pipes.Sound (s.pipes p) (s.accepted p) (s.returned p)

variable {s : Session}

section
variable (sound : s.Sound)
include sound

theorem Session.Sound.update {p : PipeIdx} {pipe : Pipe}
    {accepted returned : List UInt8} (here : Pipes.Sound pipe accepted returned) :
    Session.Sound ⟨update s.pipes p pipe, update s.accepted p accepted,
      update s.returned p returned⟩ := by
  intro q
  by_cases same : q = p
  · subst same
    simpa using here
  · simpa [same] using sound q

theorem Session.Sound.updatePipe {p : PipeIdx} {pipe : Pipe}
    (here : Pipes.Sound pipe (s.accepted p) (s.returned p)) :
    Session.Sound { s with pipes := Function.update s.pipes p pipe } := by
  have moved := sound.update (p := p) here
  rwa [update_eq_self, update_eq_self] at moved

theorem create_sound : (s.step .create).Sound := by
  change (s.restart s.pipes.create).Sound
  unfold Table.create
  split
  · exact sound
  · exact sound.update ⟨by simp, prefix_rfl, fun _ => rfl⟩

theorem write_sound (p : PipeIdx) (data : List UInt8) : (s.step (.write p data)).Sound := by
  have nothing : Session.Sound { s with
      accepted := update s.accepted p (s.accepted p ++ []) } := by
    rwa [append_nil, update_eq_self]
  dsimp only [Session.step]
  unfold Table.write
  split
  · exact nothing
  rename_i used
  split
  next empty =>
    rw [length_eq_zero_iff] at empty
    exact nothing
  split
  · exact nothing
  split
  · exact nothing
  have before := (sound p).held (by simpa using used)
  have order : s.accepted p ++ data.take (PIPE_BUF_SIZE - (s.pipes p).ring.count) =
      s.returned p ++ ((s.pipes p).ring.enqueue data).contents := by
    rw [enqueue_contents, before, append_assoc]
  have moved := sound.update (p := p) ((sound p).stream order)
  rw [update_eq_self] at moved
  have taken : data.take (min data.length (PIPE_BUF_SIZE - (s.pipes p).ring.count)) =
      data.take (PIPE_BUF_SIZE - (s.pipes p).ring.count) := by
    rw [take_eq_take_iff]
    omega
  dsimp only [Pipes.accepted]
  rw [taken]
  exact moved

theorem read_sound (p : PipeIdx) (n : Nat) : (s.step (.read p n)).Sound := by
  have nothing : Session.Sound { s with
      returned := update s.returned p (s.returned p ++ []) } := by
    rwa [append_nil, update_eq_self]
  dsimp only [Session.step]
  unfold Table.read
  split
  · exact nothing
  rename_i used
  split
  · exact nothing
  split
  · split <;> exact nothing
  have before := (sound p).held (by simpa using used)
  obtain ⟨front, back⟩ := dequeue_contents n (s.pipes p).ring
  have order : s.accepted p = (s.returned p ++ ((s.pipes p).ring.dequeue n).1) ++
      ((s.pipes p).ring.dequeue n).2.contents := by
    rw [front, back, append_assoc, take_append_drop, before]
  have moved := sound.update (p := p) ((sound p).stream order)
  rw [update_eq_self] at moved
  exact moved

theorem step_sound (op : Op) : (s.step op).Sound := by
  cases op with
  | create => exact create_sound sound
  | write p data => exact write_sound sound p data
  | read p n => exact read_sound sound p n
  | dupWriter p | dupReader p =>
    dsimp only [Session.step, Table.dupWriter, Table.dupReader]
    split
    · exact sound
    next used =>
      exact sound.updatePipe ((sound p).recount (by simpa using used) (by simp))
  | closeWriter p | closeReader p =>
    dsimp only [Session.step, Table.closeWriter, Table.closeReader]
    split
    · exact sound
    next used =>
      exact sound.updatePipe ((sound p).freeIfOrphan (by simpa using used) _ _)

end

theorem run_sound (ops : List Op) (sound : s.Sound) : (s.run ops).Sound := by
  induction ops generalizing s with
  | nil => exact sound
  | cons op _ ih => exact ih (step_sound sound op)

theorem init_sound : Session.Sound {} := fun _ => ⟨by simp, prefix_rfl, nofun⟩

structure Lawful (s : Session) (p : PipeIdx) : Prop where
  in_order : s.returned p <+: s.accepted p
  eof : (s.pipes p).used = true → ∀ n, 0 < n →
    ((s.pipes.read p n).1 = .ok [] ↔ (s.pipes p).refW = 0 ∧ s.returned p = s.accepted p)
  broken : (s.pipes p).used = true → ∀ data, data ≠ [] →
    ((s.pipes.write p data).1 = .error .EPIPE ↔ (s.pipes p).refR = 0)
  free : (s.pipes p).used = false ↔ (s.pipes p).refW = 0 ∧ (s.pipes p).refR = 0
  handed_out : s.pipes.create.1 = some p → (s.pipes p).refW = 0 ∧ (s.pipes p).refR = 0

theorem Session.Sound.lawful (sound : s.Sound) (p : PipeIdx) : Lawful s p := by
  have free : (s.pipes p).used = false ↔ (s.pipes p).refW = 0 ∧ (s.pipes p).refR = 0 := by
    have counted := (sound p).counted
    cases used : (s.pipes p).used with
    | false =>
      rw [used] at counted
      simp only [Bool.false_eq_true, false_iff] at counted
      simp only [true_iff]
      omega
    | true =>
      have live := counted.1 used
      simp only [Bool.true_eq_false, false_iff]
      omega
  refine ⟨(sound p).ordered, fun used n positive => ?_, fun used data nonempty => ?_, free,
    fun created => free.1 ?_⟩
  · have held := (sound p).held used
    have drained : s.returned p = s.accepted p ↔ (s.pipes p).ring.count = 0 := by
      rw [held, ← contents_eq_nil]
      simp
    unfold Table.read
    rw [if_neg (by simp [used]), if_neg (by omega), drained]
    split
    next empty =>
      split
      next no_writer =>
        exact iff_of_true rfl ⟨no_writer, empty⟩
      next writer =>
        exact iff_of_false nofun fun both => writer both.1
    next some_left =>
      refine iff_of_false (fun returns => ?_) fun both => some_left both.2
      have front := (dequeue_contents n (s.pipes p).ring).1
      rw [Except.ok.inj returns] at front
      have short := congrArg length front
      rw [length_take, contents_length, length_nil] at short
      omega
  · unfold Table.write
    rw [if_neg (by simp [used]), if_neg (by simpa using nonempty)]
    split
    next no_reader =>
      exact iff_of_true rfl no_reader
    rename_i reader
    split
    all_goals exact iff_of_false nofun reader
  · unfold Table.create at created
    split at created
    · cases created
    next q found =>
      cases created
      simpa using find?_some found

end Osnos.Pipes
