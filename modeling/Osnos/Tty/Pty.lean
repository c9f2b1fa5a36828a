import Osnos.Base.Ring

/-! `micro/pty.c`: a pair of rings between the master and the slave side, with a line that
is being typed in between. -/
namespace Osnos.Tty

abbrev PTY_BUF_SIZE : Nat := 4096
abbrev PTY_CANON_BUF : Nat := 256

/-- The flags and control characters of a `struct osnos_termios` that the terminals look at. -/
structure Termios where
  icrnl : Bool := true
  inlcr : Bool := false
  igncr : Bool := false
  isig : Bool := true
  icanon : Bool := true
  echo : Bool := true
  vintr : UInt8 := 0x03
  vsusp : UInt8 := 0x1a
  verase : UInt8 := 0x7f
  vkill : UInt8 := 0x15
  veof : UInt8 := 0x04
  deriving DecidableEq, Repr

inductive Errno
  | EAGAIN | EBADF
  deriving DecidableEq, Repr

abbrev PtyRing := Ring UInt8 PTY_BUF_SIZE
def newline : UInt8 := 10

def ringWrite (r : PtyRing) (src : List UInt8) : Except Errno Nat × PtyRing :=
  if PTY_BUF_SIZE - r.count = 0 then (.error .EAGAIN, r)
  else (.ok (min src.length (PTY_BUF_SIZE - r.count)), r.enqueue src)

def ringRead (r : PtyRing) (n : Nat) : Except Errno (List UInt8) × PtyRing :=
  if r.count = 0 then (.error .EAGAIN, r) else (.ok (r.dequeue n).1, (r.dequeue n).2)

/-- `pty_pair_t`. `canon` is `canon_buf` up to `canon_level`. -/
structure Pty where
  used : Bool
  m2s : PtyRing
  s2m : PtyRing
  termios : Termios
  canon : List UInt8
  masterRefs : Nat
  slaveRefs : Nat
  slaveWasOpened : Bool
  canon_fits : canon.length ≤ PTY_CANON_BUF

namespace Pty

def unused : Pty where
  used := false
  m2s := .empty 0 (by decide)
  s2m := .empty 0 (by decide)
  termios := {}
  canon := []
  masterRefs := 0
  slaveRefs := 0
  slaveWasOpened := false
  canon_fits := Nat.zero_le _

variable (p : Pty)

def canonLineReady : Bool := p.canon.contains newline
def canonLine : List UInt8 := p.canon.takeWhile (· != newline) ++ [newline]

-- the line leaves the buffer whole, whether or not the ring had room for all of it
def canonFlushLine : Pty :=
  if p.canonLineReady then
    let r := ringWrite p.m2s p.canonLine
    match r.1 with
    | .error _ => p
    | .ok _ =>
      { p with
        m2s := r.2
        canon := p.canon.drop p.canonLine.length
        canon_fits := by
          have := p.canon_fits
          rw [List.length_drop]
          omega }
  else p

def slaveRead (n : Nat) : Except Errno (List UInt8) × Pty :=
  if p.used = false then (.error .EBADF, p)
  else if p.masterRefs = 0 ∧ p.m2s.count = 0 ∧ p.canon.length = 0 then (.ok [], p)
  else
    let p :=
      if p.termios.icanon ∧ p.m2s.count = 0 ∧ p.canonLineReady then p.canonFlushLine else p
    let r := ringRead p.m2s n
    (r.1, { p with m2s := r.2 })

def masterRead (n : Nat) : Except Errno (List UInt8) × Pty :=
  if p.used = false then (.error .EBADF, p)
  else if p.slaveWasOpened ∧ p.slaveRefs = 0 ∧ p.s2m.count = 0 then (.ok [], p)
  else
    let r := ringRead p.s2m n
    (r.1, { p with s2m := r.2 })

def masterReadable : Bool :=
  if p.used = false then false
  else if p.s2m.count > 0 then true
  else p.slaveWasOpened && decide (p.slaveRefs = 0)

def slaveReadable : Bool :=
  if p.used = false then false
  else if p.m2s.count > 0 then true
  else if p.termios.icanon = false then false
  else if p.canonLineReady then true
  else decide (p.masterRefs = 0)

variable {p}

theorem ringRead_again {r : PtyRing} {n : Nat} : (ringRead r n).1 = .error .EAGAIN ↔ r.count = 0 := by
  unfold ringRead
  split <;> simp [*]

theorem masterReadable_iff (n : Nat) :
    (p.masterReadable ↔ (p.masterRead n).1 ≠ .error .EAGAIN) ↔ p.used := by
  unfold masterReadable masterRead
  cases p.used with
  | false => simp
  | true =>
    simp only [Bool.true_eq_false, if_false, iff_true]
    by_cases data : p.s2m.count = 0
    · by_cases eof : p.slaveWasOpened ∧ p.slaveRefs = 0
      · simp [data, eof.1, eof.2]
      · have read : ringRead p.s2m n = (.error .EAGAIN, p.s2m) := if_pos data
        simp [data, read, eof]
    · have read : (ringRead p.s2m n).1 ≠ .error .EAGAIN := ringRead_again.not.2 data
      simpa [data, Nat.pos_of_ne_zero data] using read

theorem canonFlushLine_count (ready : p.canonLineReady) (empty : p.m2s.count = 0) :
    p.canonFlushLine.m2s.count ≠ 0 := by
  have written : ringWrite p.m2s p.canonLine =
      (.ok (min p.canonLine.length PTY_BUF_SIZE), p.m2s.enqueue p.canonLine) := by
    rw [ringWrite, empty]
    rfl
  rw [canonFlushLine, if_pos ready, written]
  dsimp only
  have contents := p.m2s.enqueue_contents p.canonLine
  rw [Ring.contents_eq_nil.2 empty, empty, List.nil_append] at contents
  rw [← Ring.contents_length, contents, List.length_take, canonLine, List.length_append]
  simp

/-- The slave's test agrees with its read unless the master is gone and either the terminal is
raw, so that its end of file is not seen, or an unfinished line is left, so that the end of
file does not come. -/
theorem slaveReadable_iff (n : Nat) :
    (p.slaveReadable ↔ (p.slaveRead n).1 ≠ .error .EAGAIN) ↔
      p.used = true ∧ ¬ (p.masterRefs = 0 ∧ p.m2s.count = 0 ∧
        (p.termios.icanon = false ∧ p.canon = [] ∨
          p.termios.icanon = true ∧ p.canon ≠ [] ∧ p.canonLineReady = false)) := by
  unfold slaveReadable slaveRead
  cases p.used with
  | false => simp
  | true =>
    simp only [Bool.true_eq_false, if_false, true_and, List.length_eq_zero_iff]
    by_cases data : p.m2s.count = 0
    · have empty : (ringRead p.m2s n).1 = .error .EAGAIN := ringRead_again.2 data
      cases canon : p.termios.icanon with
      | false => by_cases gone : p.masterRefs = 0 <;> by_cases line : p.canon = [] <;>
          simp [data, gone, line, empty]
      | true =>
        cases ready : p.canonLineReady with
        | true =>
          have some_line : p.canon ≠ [] := by
            rintro none_typed
            simp [canonLineReady, none_typed] at ready
          have flushed : (ringRead p.canonFlushLine.m2s n).1 ≠ .error .EAGAIN :=
            ringRead_again.not.2 (canonFlushLine_count ready data)
          simpa [data, some_line] using flushed
        | false => by_cases gone : p.masterRefs = 0 <;> by_cases line : p.canon = [] <;>
            simp [data, gone, line, empty]
    · have read : (ringRead p.m2s n).1 ≠ .error .EAGAIN := ringRead_again.not.2 data
      simpa [data, Nat.pos_of_ne_zero data] using read

end Pty

end Osnos.Tty
