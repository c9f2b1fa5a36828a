import Osnos.Tty.Pty
import Osnos.Sched.Calls

/-! `micro/tty.c`: characters typed at the keyboard are turned into signals or gathered into
lines, and wait in a ring that drops its oldest character when it is full. -/
namespace Osnos.Tty

abbrev TTY_READ_BUF : Nat := 256
abbrev TTY_LINE_BUF : Nat := 256

/-- The state of `tty.c`. `line` is `line_buf` up to `line_len`. -/
structure Console where
  termios : Termios := {}
  read : Ring UInt8 TTY_READ_BUF := .empty 0 (by decide)
  line : List UInt8 := []
  line_fits : line.length < TTY_LINE_BUF := by decide

namespace Console

def init : Console := {}

variable (t : Console)

def readBufPush (r : Ring UInt8 TTY_READ_BUF) (c : UInt8) : Ring UInt8 TTY_READ_BUF :=
  if r.count ≥ TTY_READ_BUF then ((r.pop.map Prod.snd).getD r).push c else r.push c

/-- The translation of carriage returns; `none` is a character that is dropped. -/
def translate (c : UInt8) : Option UInt8 :=
  if t.termios.icrnl ∧ c = 13 then some 10
  else if t.termios.inlcr ∧ c = 10 then some 13
  else if t.termios.igncr ∧ c = 13 then none
  else some c

/-- The signal a character stands for; a control character of 0 is switched off. -/
def signalOf (c : UInt8) : Option Sched.Key :=
  if t.termios.isig = false ∨ c = 0 then none
  else if c = t.termios.vintr then some .intr
  else if c = t.termios.vsusp then some .susp
  else none

def flush : Console :=
  { t with read := t.line.foldl readBufPush t.read, line := [], line_fits := by decide }

def dropLast : Console :=
  { t with
    line := t.line.dropLast
    line_fits := by
      have := t.line_fits
      rw [List.length_dropLast]
      omega }

def append (c : UInt8) : Console :=
  if room : t.line.length < TTY_LINE_BUF - 1 then
    { t with
      line := t.line ++ [c]
      line_fits := by
        rw [List.length_append, List.length_singleton]
        omega }
  else t

/-- A character of a line. The end-of-file character is appended like any other and then
backed out, so on a full line the last character is only lost if it is one itself. -/
def lineInput (c : UInt8) : Console :=
  if c ≠ 0 ∧ c = t.termios.verase then t.dropLast
  else if c = 8 then t.dropLast
  else if c ≠ 0 ∧ c = t.termios.vkill then { t with line := [], line_fits := by decide }
  else
    let t := t.append c
    if c = newline then t.flush
    else if c ≠ 0 ∧ c = t.termios.veof then
      (if t.line.getLast? = some c then t.dropLast else t).flush
    else t

/-- `tty_input`, without the echo on the screen. The kernel acts on the key. -/
def input (c : UInt8) : Sched.Key × Console :=
  match t.translate c with
  | none => (.plain, t)
  | some c =>
    match t.signalOf c with
    | some key => (key, t)
    | none =>
      (.plain, if t.termios.icanon then t.lineInput c else { t with read := readBufPush t.read c })

def ttyRead (max : Nat) : List UInt8 × Console :=
  ((t.read.dequeue max).1, { t with read := (t.read.dequeue max).2 })

def readable : Bool := decide (t.read.count > 0)

variable {t}

theorem ttyRead_eq_nil (n : Nat) : (t.ttyRead (n + 1)).1 = [] ↔ t.readable = false := by
  have contents := (t.read.dequeue_contents (n + 1)).1
  rw [ttyRead, contents, List.take_eq_nil_iff, readable, Ring.contents_eq_nil]
  simp

end Console

end Osnos.Tty
