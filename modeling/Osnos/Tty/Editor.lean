import Osnos.Tty.Console
import Osnos.Base.Prog

/-! `tty_input` in canonical mode and `sys_read`, against a line editor without limits. -/
namespace Osnos.Tty
open List

inductive Edit
  | char (c : UInt8) | erase | kill | enter | eof
  deriving DecidableEq, Repr

def Termios.edit (t : Termios) (c : UInt8) : Edit :=
  if (c ≠ 0 ∧ c = t.verase) ∨ c = 8 then .erase
  else if c ≠ 0 ∧ c = t.vkill then .kill
  else if c = newline then .enter
  else if c ≠ 0 ∧ c = t.veof then .eof
  else .char c

structure Typed where
  finished : List UInt8 := []
  line : List UInt8 := []

def Typed.edit (t : Typed) : Edit → Typed
  | .char c => { t with line := t.line ++ [c] }
  | .erase => { t with line := t.line.dropLast }
  | .kill => { t with line := [] }
  | .enter => ⟨t.finished ++ t.line ++ [newline], []⟩
  | .eof => ⟨t.finished ++ t.line, []⟩

namespace Console
variable {t : Console}

/-- The edit a key stands for, if it reaches the line. -/
def edit (t : Console) (c : UInt8) : Option Edit :=
  ((t.translate c).filter fun c => (t.signalOf c).isNone).map t.termios.edit

/-- `sys_read` on the console; `none` if the caller sleeps and tries again. -/
def sysRead (t : Console) (count : Nat) : Option (List UInt8) × Console :=
  let r := t.ttyRead count
  (if r.1 = [] ∧ count ≠ 0 then none else some r.1, r.2)

theorem flush_contents (room : t.read.count + t.line.length ≤ TTY_READ_BUF) :
    t.flush.read.contents = t.read.contents ++ t.line := by
  suffices ∀ (l : List UInt8) (r : Ring UInt8 TTY_READ_BUF), r.count + l.length ≤ TTY_READ_BUF →
      l.foldl readBufPush r = l.foldl Ring.push r by
    rw [flush, this _ _ room, Ring.foldl_push_contents _ room]
  intro l
  induction l with
  | nil => simp
  | cons c l ih =>
    intro r room
    rw [length_cons] at room
    have pushed : readBufPush r c = r.push c := if_neg (by omega)
    rw [foldl_cons, foldl_cons, pushed, ih _ (by rw [Ring.push_count c (by omega)]; omega)]

/-- While the line is short and fits the read buffer, a character does what its edit says. -/
theorem lineInput_edits (short : t.line.length < TTY_LINE_BUF - 1)
    (fits : t.read.count + t.line.length < TTY_READ_BUF) (got : List UInt8) (c : UInt8) :
    (⟨got ++ (t.lineInput c).read.contents, (t.lineInput c).line⟩ : Typed) =
      Typed.edit ⟨got ++ t.read.contents, t.line⟩ (t.termios.edit c) := by
  unfold lineInput Termios.edit
  by_cases erase : c ≠ 0 ∧ c = t.termios.verase
  · rw [if_pos erase, if_pos (.inl erase)]
    rfl
  by_cases back : c = 8
  · rw [if_neg erase, if_pos back, if_pos (.inr back)]
    rfl
  rw [if_neg erase, if_neg back, if_neg (not_or.2 ⟨erase, back⟩)]
  by_cases kill : c ≠ 0 ∧ c = t.termios.vkill
  · rw [if_pos kill, if_pos kill]
    rfl
  rw [if_neg kill, if_neg kill, append, dif_pos short]
  by_cases enter : c = newline
  · simp only [enter, if_true, Typed.edit]
    rw [flush_contents (by simp; omega)]
    simp [flush]
  simp only [enter, if_false]
  by_cases eof : c ≠ 0 ∧ c = t.termios.veof
  · simp only [if_pos eof, getLast?_concat, if_true, dropLast, dropLast_concat, Typed.edit]
    rw [flush_contents (by simp only; omega), append_assoc]
    rfl
  · simp only [if_neg eof, Typed.edit]

theorem lineInput_termios (c : UInt8) : (t.lineInput c).termios = t.termios := by
  unfold lineInput append
  dsimp only
  split_ifs <;> rfl

theorem input_eq (canonical : t.termios.icanon) (c : UInt8) :
    (t.input c).2 = (((t.translate c).filter fun c => (t.signalOf c).isNone).map
      t.lineInput).getD t := by
  unfold input
  cases t.translate c with
  | none => rfl
  | some c =>
    cases signal : t.signalOf c with
    | some => simp [Option.filter_some, signal]
    | none => simp [Option.filter_some, signal, canonical]

inductive Event
  | key (c : UInt8) | read (count : Nat)

structure Session where
  console : Console
  got : List UInt8 := []
  typed : Typed := {}

namespace Session
variable (s : Session)

def start (t : Termios) : Session := { console := { init with termios := { t with icanon := true } } }

def step : Event → Session
  | .key c =>
    { s with
      console := (s.console.input c).2
      typed := ((s.console.edit c).map s.typed.edit).getD s.typed }
  | .read n =>
    { s with
      console := (s.console.sysRead n).2
      got := s.got ++ (s.console.sysRead n).1.getD [] }

def exec (e : Event) (s : Session) : Option (Unit × Session) := some ((), s.step e)

/-- The finished lines are with the readers or wait for them, and the rest is being typed. -/
def Edited : Prop := (⟨s.got ++ s.console.read.contents, s.console.line⟩ : Typed) = s.typed

def Ends : Event → Prop
  | .key c => s.console.edit c = some .eof ∧ s.console.line = [] ∧ s.console.read.contents = []
  | .read _ => False

/-- The lines are as edited, and the end of file wakes a reader with nothing. -/
def Kept (e : Event) : Prop :=
  (s.step e).Edited ∧ (s.Ends e → ((s.step e).console.sysRead 1).1 = some [])

/-- The line is short and the backlog leaves room for it, and no one waits for an end of file. -/
def Room : Event → Prop
  | .read _ => True
  | .key c => s.console.line.length < TTY_LINE_BUF - 1 ∧
      s.console.read.count + s.console.line.length < TTY_READ_BUF ∧ ¬ s.Ends (.key c)

def Inv (s : Session) : Prop := s.Edited ∧ s.console.termios.icanon = true

variable {s}

theorem read_edited (edited : s.Edited) (n : Nat) : (s.step (.read n)).Edited := by
  have parts := s.console.read.dequeue_contents n
  have returned : (s.console.sysRead n).1.getD [] = s.console.read.contents.take n := by
    rw [← parts.1, sysRead]
    dsimp only
    split
    next nothing =>
      exact nothing.1.symm
    · rfl
  rw [Edited, step, returned, append_assoc]
  simp only [sysRead, ttyRead, parts.2, take_append_drop]
  exact edited

theorem key_edited (inv : s.Inv) {c : UInt8} (room : s.Room (.key c)) : (s.step (.key c)).Inv := by
  obtain ⟨edited, canonical⟩ := inv
  have eq := input_eq canonical c
  rw [Inv, Edited, step, eq, edit]
  cases (s.console.translate c).filter fun c => (s.console.signalOf c).isNone with
  | none => exact ⟨edited, canonical⟩
  | some d =>
    refine ⟨(lineInput_edits room.1 room.2.1 s.got d).trans ?_, ?_⟩
    · rw [edited]
      rfl
    · exact (congrArg Termios.icanon (lineInput_termios d)).trans canonical

theorem room_kept (inv : s.Inv) {e : Event} (room : s.Room e) : s.Kept e ∧ (s.step e).Inv := by
  cases e with
  | read n =>
    have edited := read_edited inv.1 n
    exact ⟨⟨edited, False.elim⟩, edited, inv.2⟩
  | key =>
    have inv := key_edited inv room
    exact ⟨⟨inv.1, fun ends => absurd ends room.2.2⟩, inv⟩

theorem typed_lines_read (t : Termios) (es : List Event) (s : Session) :
    Prog.Runs exec (fun s e => s.Room e ∧ s.Kept e) (start t) es s ↔
      Prog.Runs exec Room (start t) es s := by
  have one (s : Session) (e : Event) : Inv s → (s.Room e ∧ s.Kept e ↔ s.Room e) :=
    fun inv => and_iff_left_of_imp fun room => (room_kept inv room).1
  refine Prog.Runs.congr one ?_ ⟨rfl, rfl⟩
  rintro s e a s' inv ⟨room, -⟩ run
  cases run
  exact (room_kept inv room).2

/-- A reader asleep at the prompt is not woken by an end of file, and a line of 255
characters comes without its newline. -/
theorem end_of_file_unheard :
    (start {}).Ends (.key 4) ∧ (((start {}).step (.key 4)).console.sysRead 1).1 = none ∧
    let line : List UInt8 := List.replicate 255 97
    let s := ((line ++ [13]).map Event.key).foldl step (start {})
    s.typed.finished = line ++ [newline] ∧ s.console.read.contents = line := by
  unfold Ends
  decide +kernel

end Session
end Console

end Osnos.Tty
