import Osnos.Net.Run
import Osnos.Pipes.Ends
import Osnos.Tty.Console
import Osnos.Unix.Sock

/-! `fd_readable`, which poll and select ask, against `sys_read` and `sys_accept` of
`syscall.c`, for every kind of descriptor that can make its reader wait. -/
namespace Osnos.Fd
open Pipes (PipeIdx)

abbrev PtyIdx := Fin 8

inductive PtySide
  | master | slave
  deriving DecidableEq, Repr

/-- The character devices of a terminal, read through the file system. `/dev/tty` is one of
them only under another name: `sys_open` makes that very path a `special` description. -/
inductive Node
  | tty | ttyS0
  deriving DecidableEq, Repr

inductive Backend
  | special
  | inet (sd : Net.Sd)
  | unix (i : Unix.Idx)
  | pipe (p : PipeIdx) (side : Pipes.Side)
  | pty (i : PtyIdx) (side : PtySide)
  | device (node : Node)
  deriving DecidableEq

structure Desc where
  backend : Backend
  nonblock : Bool := false
  writeOnly : Bool := false

/-- Everything behind the descriptors. `interrupted` is the caller's `kill_pending`, `serial`
what the UART has received. -/
structure Sys where
  inet : Net.Table := Net.World.boot.table
  unix : Unix.Table := {}
  pipes : Pipes.Table := fun _ => {}
  ptys : PtyIdx → Tty.Pty := fun _ => .unused
  console : Tty.Console := .init
  serial : List UInt8 := []
  interrupted : Bool := false

abbrev Errno := Unix.Errno

inductive Answer
  | data (bytes : List UInt8)
  | child (b : Backend)
  | error (e : Errno)
  | blocked
  deriving DecidableEq

def Answer.Waits (a : Answer) : Prop := a = .error .EAGAIN ∨ a = .blocked
instance (a : Answer) : Decidable a.Waits := inferInstanceAs (Decidable (_ ∨ _))

def ofPipe : Pipes.Errno → Errno
  | .EBADF => .EBADF
  | .EPIPE => .EPIPE
  | .EAGAIN => .EAGAIN
  | .ENFILE => .ENFILE
  | .EMFILE => .EMFILE
  | .EFAULT => .EFAULT

def ofTty : Tty.Errno → Errno
  | .EAGAIN => .EAGAIN
  | .EBADF => .EBADF

def Answer.of {ε : Type} (code : ε → Errno) : Except ε (List UInt8) → Answer
  | .ok bytes => .data bytes
  | .error e => .error (code e)

theorem Answer.of_waits {ε : Type} {code : ε → Errno} {r : Except ε (List UInt8)} {again : ε}
    (only : ∀ e, code e = .EAGAIN ↔ e = again) : (of code r).Waits ↔ r = .error again := by
  cases r with
  | ok => simp [of, Waits]
  | error e => simp [of, Waits, only e]

theorem ofPipe_again (e : Pipes.Errno) : ofPipe e = .EAGAIN ↔ e = .EAGAIN := by
  cases e <;> simp [ofPipe]

theorem ofTty_again (e : Tty.Errno) : ofTty e = .EAGAIN ↔ e = .EAGAIN := by
  cases e <;> simp [ofTty]

end Osnos.Fd

namespace Osnos

def Net.Sock.readable (s : Net.Sock) : Bool :=
  if s.used = false then false
  else match s.type with
    | .dgram | .raw => !s.rx.isEmpty
    | .stream =>
      match s.tcpState with
      | .listen => decide (s.acceptQ.count > 0)
      | .established | .closeWait | .finWait1 | .finWait2 =>
        decide (s.tcpRx.count > 0) || s.peerFin
      | _ => false

def Unix.Sock.readable (s : Unix.Sock) : Bool :=
  if s.state = .unused then false
  else if s.state = .listening then decide (s.backlog.count > 0)
  else if s.rx.available > 0 then true
  else decide (s.state = .disconnected)

end Osnos

namespace Osnos.Fd.Sys
open Pipes (PipeIdx)
open Answer

variable (s : Sys)

/-- `fd_readable`. A pipe has no test of its own and falls through with the regular files. -/
def fdReadable (fd : Nat) (d : Desc) : Bool :=
  match d.backend with
  | .special => if fd = 0 then s.console.readable else false
  | .inet sd => (s.inet.socks sd).readable
  | .unix i => (s.unix.socks i).readable
  | .pty i .master => (s.ptys i).masterReadable
  | .pty i .slave => (s.ptys i).slaveReadable
  | .pipe .. | .device _ => true

/-- `stdin_pop` and the wait that follows it. -/
def readStdin (nonblock : Bool) (count : Nat) : Answer × Sys :=
  let r := s.console.ttyRead count
  if r.1 ≠ [] then (.data r.1, { s with console := r.2 })
  else if count = 0 then (.data [], s)
  else if nonblock ∨ s.interrupted then (.error .EAGAIN, s)
  else (.blocked, s)

def readPipe (p : PipeIdx) (count : Nat) : Answer × Sys :=
  let r := s.pipes.read p count
  (.of ofPipe r.1, { s with pipes := r.2 })

def readInet (sd : Net.Sd) (count : Nat) : Answer × Sys :=
  let r := s.inet.recv sd count s.interrupted
  let s' := { s with inet := r.2.2 }
  match r.1 with
  | .again => (.error .EAGAIN, s')
  | .ok _ => (.data r.2.1, s')
  | .error => (.error .EBADF, s')

def readPty (i : PtyIdx) (side : PtySide) (count : Nat) : Answer × Sys :=
  let r := match side with
    | .master => (s.ptys i).masterRead count
    | .slave => (s.ptys i).slaveRead count
  (.of ofTty r.1, { s with ptys := Function.update s.ptys i r.2 })

/-- `tty_dev_read` and `ttyS0_read` into a scratch buffer; what the caller has no room for is
gone. -/
def readDevice (node : Node) (count : Nat) : Answer × Sys :=
  let r := match node with
    | .tty => ((s.console.ttyRead 1024).1, { s with console := (s.console.ttyRead 1024).2 })
    | .ttyS0 => (s.serial.take 1024, { s with serial := s.serial.drop 1024 })
  if r.1 = [] then (.error .EAGAIN, r.2) else (.data (r.1.take count), r.2)

/-- `sys_read`; `fault` says whether a local socket cannot copy to the buffer. The redirection
of standard input to a file is left out, since nothing calls `proc_execve_redir`. -/
def sysRead (fd : Nat) (d : Desc) (count : Nat) (fault : Bool) : Answer × Sys :=
  if fd = 0 ∧ d.backend = .special then s.readStdin d.nonblock count
  else if fd = 1 ∨ fd = 2 then (.error .EBADF, s)
  else match d.backend with
    | .special | .pipe _ .writer => (.error .EBADF, s)
    | .pipe p .reader => s.readPipe p count
    | .unix i =>
      let r := s.unix.recv i count fault
      (.of id r.1, { s with unix := r.2 })
    | .inet sd => s.readInet sd count
    | .pty i side => s.readPty i side count
    | .device node => if d.writeOnly then (.error .EBADF, s) else s.readDevice node count

/-- `sys_accept`; `room` says whether there is a descriptor for the child. -/
def sysAccept (d : Desc) (room : Bool) : Answer × Sys :=
  match d.backend with
  | .unix i =>
    match s.unix.accept i with
    | (.error e, _) => (.error e, s)
    | (.ok c, t) =>
      if room then (.child (.unix c), { s with unix := t })
      else (.error .EMFILE, { s with unix := t.close c })
  | .inet sd =>
    match s.inet.accept sd s.interrupted with
    | (.again, _) => (.error .EAGAIN, s)
    | (.error, _) => (.error .EBADF, s)
    | (.ok c, t) =>
      if room then (.child (.inet (Fin.ofNat 8 c)), { s with inet := t })
      else (.error .EMFILE, { s with inet := (t.close (Fin.ofNat 8 c)).2 })
  | _ => (.error .EBADF, s)

/-- A listener is waited for with `accept`, everything else with `read`. -/
def listener : Backend → Bool
  | .inet sd => (s.inet.socks sd).used && decide ((s.inet.socks sd).type = .stream) &&
      decide ((s.inet.socks sd).tcpState = .listen)
  | .unix i => decide (s.unix.state i = .listening)
  | _ => false

def attempt (fd : Nat) (d : Desc) (count : Nat) (fault room : Bool) : Answer :=
  if s.listener d.backend then (s.sysAccept d room).1 else (s.sysRead fd d count fault).1

variable {s}

theorem readStdin_waits {nonblock : Bool} (n : Nat) :
    (s.readStdin nonblock (n + 1)).1.Waits ↔ s.console.readable = false := by
  rw [← Tty.Console.ttyRead_eq_nil n]
  unfold readStdin
  by_cases none_left : (s.console.ttyRead (n + 1)).1 = []
  · by_cases now : nonblock ∨ s.interrupted = true <;>
      simp [none_left, now, Waits]
  · simp [none_left, Waits]

theorem readPipe_waits {p : PipeIdx} (n : Nat) : (s.readPipe p (n + 1)).1.Waits ↔
      (s.pipes p).used = true ∧ (s.pipes p).ring.count = 0 ∧ (s.pipes p).refW ≠ 0 := by
  refine (of_waits ofPipe_again).trans ?_
  unfold Pipes.Table.read
  cases (s.pipes p).used <;> by_cases none_left : (s.pipes p).ring.count = 0 <;>
    by_cases gone : (s.pipes p).refW = 0 <;> simp [none_left, gone]

theorem readDevice_waits {node : Node} (n : Nat) : (s.readDevice node (n + 1)).1.Waits ↔
      match node with
      | .tty => s.console.readable = false
      | .ttyS0 => s.serial = [] := by
  cases node with
  | tty =>
    rw [← Tty.Console.ttyRead_eq_nil 1023]
    unfold readDevice
    by_cases none_left : (s.console.ttyRead 1024).1 = [] <;> simp [none_left, Waits]
  | ttyS0 =>
    unfold readDevice
    by_cases none_left : s.serial = [] <;> simp [none_left, Waits]

end Osnos.Fd.Sys

namespace Osnos

theorem Net.Table.recvfrom_zero {t : Net.Table} {sd : Net.Sd} (interrupted : Bool) (n : Nat)
    (used : (t.socks sd).used) (kind : (t.socks sd).type = .dgram) :
    (t.recvfrom sd (n + 1) interrupted).1 = .ok 0 ↔
      interrupted = false ∧ (t.socks sd).localPort ≠ 0 ∧
        ∀ g ∈ (t.socks sd).rx.head?, g.data = [] := by
  unfold recvfrom
  by_cases unbound : (t.socks sd).localPort = 0#16
  · simp [used, kind, unbound]
  cases interrupted with
  | true => simp [used, kind]
  | false =>
    cases queued : (t.socks sd).rx with
    | nil => simp [used, kind, unbound, queued]
    | cons g => cases bytes : g.data <;> simp [used, kind, unbound, queued, bytes]

theorem Net.Table.recv_again {t : Net.Table} {sd : Net.Sd} {interrupted : Bool} {n : Nat} :
    (t.recv sd (n + 1) interrupted).1 = .again ↔ (t.socks sd).used ∧ interrupted = false ∧
        match (t.socks sd).type with
        | .raw => False
        | .dgram => (t.socks sd).localPort ≠ 0 ∧ ∀ g ∈ (t.socks sd).rx.head?, g.data = []
        | .stream => (t.socks sd).tcpRx.count = 0 ∧ (t.socks sd).peerFin = false ∧
            (t.socks sd).tcpState ≠ .closed := by
  cases used : (t.socks sd).used with
  | false =>
    rw [recv, used]
    simp
  | true =>
    cases kind : (t.socks sd).type with
    | raw => simp [recv, used, kind]
    | dgram =>
      have never : (t.recvfrom sd (n + 1) interrupted).1 ≠ .again := by
        unfold recvfrom
        dsimp only
        repeat' split
        all_goals simp
      have again : (t.recv sd (n + 1) interrupted).1 = .again ↔
          (t.recvfrom sd (n + 1) interrupted).1 = .ok 0 := by
        by_cases nothing : (t.recvfrom sd (n + 1) interrupted).1 = .ok 0
        · simp [recv, used, kind, nothing]
        · simp [recv, used, kind, nothing, never]
      rw [again, recvfrom_zero interrupted n used kind]
      simp
    | stream =>
      cases interrupted with
      | true => simp [recv, used, kind]
      | false =>
        by_cases empty : (t.socks sd).tcpRx.count = 0
        · by_cases closed : (t.socks sd).tcpState = .closed <;>
            cases fin : (t.socks sd).peerFin <;> simp [recv, used, kind, empty, closed, fin]
        · simp [recv, used, kind, empty, Nat.pos_of_ne_zero empty]

/-- When `sock_readable` is right about the next call. A caller that is being killed is sent
away by every call; a datagram with no bytes looks like none to `read`; raw sockets cannot be
read at all; and a connection that is opening or closing is never reported. -/
def Net.Sock.Told (s : Net.Sock) (interrupted : Bool) : Prop :=
  s.used = true ∧
    match s.type with
    | .raw => s.rx ≠ []
    | .dgram =>
      match s.rx with
      | [] => s.localPort ≠ 0 ∧ interrupted = false
      | d :: _ => d.data = [] → s.localPort = 0 ∨ interrupted = true
    | .stream =>
      match s.tcpState with
      | .listen => interrupted = true → s.acceptQ.count ≠ 0
      | .established | .closeWait | .finWait1 | .finWait2 =>
        interrupted = true → s.tcpRx.count ≠ 0 ∨ s.peerFin = true
      | .closed => False
      | _ => interrupted = false ∧ s.tcpRx.count = 0 ∧ s.peerFin = false

/-- A local socket has to be in use and, unless bytes are left in it, no longer unbound. -/
def Unix.Sock.Told (s : Unix.Sock) : Prop :=
  s.state ≠ .unused ∧ (s.state = .unbound → s.rx.available ≠ 0)

/-- The master of a slave is gone and either the terminal is raw, so that the end of file is
not seen, or an unfinished line is left, so that it does not come. -/
def Tty.Pty.Told (p : Tty.Pty) : Fd.PtySide → Prop
  | .master => p.used = true
  | .slave => p.used = true ∧ ¬ (p.masterRefs = 0 ∧ p.m2s.count = 0 ∧
      (p.termios.icanon = false ∧ p.canon = [] ∨
        p.termios.icanon = true ∧ p.canon ≠ [] ∧ p.canonLineReady = false))

def Pipes.Pipe.Told (p : Pipes.Pipe) : Pipes.Side → Prop
  | .writer => True
  | .reader => p.used = true → p.ring.count = 0 → p.refW = 0

end Osnos

namespace Osnos.Fd.Sys
open Pipes (PipeIdx)
open Answer

variable (s : Sys)

def Fed : Node → Prop
  | .tty => s.console.readable = true
  | .ttyS0 => s.serial ≠ []

/-- The descriptors 1 and 2 cannot be read, whatever they stand for, and a terminal can be read
through descriptor 0 only. -/
def Told (fd : Nat) (d : Desc) : Prop :=
  if (fd = 1 ∨ fd = 2) ∧ s.listener d.backend = false then s.fdReadable fd d = true
  else match d.backend with
    | .special => fd = 0
    | .inet sd => (s.inet.socks sd).Told s.interrupted
    | .unix i => (s.unix.socks i).Told
    | .pipe p side => (s.pipes p).Told side
    | .pty i side => (s.ptys i).Told side
    | .device node => d.writeOnly = true ∨ s.Fed node

variable {s} {fd : Nat} {d : Desc}

theorem accept_inet {sd : Net.Sd} {room : Bool} (kind : d.backend = .inet sd)
    (listening : s.listener d.backend) :
    (s.fdReadable fd d ↔ ¬ (s.sysAccept d room).1.Waits) ↔
      (s.inet.socks sd).Told s.interrupted := by
  rw [kind] at listening
  simp only [listener, Bool.and_eq_true, decide_eq_true_eq] at listening
  obtain ⟨⟨used, stream⟩, listen⟩ := listening
  simp only [fdReadable, sysAccept, kind, Net.Sock.readable, Net.Sock.Told, Net.Table.accept,
    used, stream, listen]
  cases s.interrupted with
  | true => simp [Waits, Nat.pos_iff_ne_zero]
  | false =>
    cases popped : (s.inet.socks sd).acceptQ.pop with
    | none =>
      have empty := Ring.contents_eq_nil.1 (Ring.pop_none.1 popped)
      simp [Waits, empty]
    | some =>
      cases room <;> simp [Waits, Nat.pos_iff_ne_zero, Ring.count_of_pop popped]

theorem accept_unix {i : Unix.Idx} (room : Bool) (kind : d.backend = .unix i)
    (listening : s.listener d.backend) :
    s.fdReadable fd d = true ↔ ¬ (s.sysAccept d room).1.Waits := by
  rw [kind] at listening
  have state : (s.unix.socks i).state = .listening := of_decide_eq_true listening
  simp only [fdReadable, sysAccept, kind, Unix.Sock.readable, Unix.Table.accept, Unix.Table.state,
    state]
  cases popped : (s.unix.socks i).backlog.pop with
  | none =>
    have empty := Ring.contents_eq_nil.1 (Ring.pop_none.1 popped)
    simp [Waits, empty]
  | some =>
    cases room <;> simp [Waits, Nat.pos_iff_ne_zero, Ring.count_of_pop popped]

theorem readInet_waits {sd : Net.Sd} (n : Nat) :
    (s.readInet sd n).1.Waits ↔ (s.inet.recv sd n s.interrupted).1 = .again := by
  unfold readInet
  cases reply : (s.inet.recv sd n s.interrupted).1 <;> simp [Waits, reply]

theorem read_inet {sd : Net.Sd} (kind : d.backend = .inet sd)
    (other : s.listener d.backend = false) (n : Nat) :
    (s.fdReadable fd d ↔ ¬ (s.readInet sd (n + 1)).1.Waits) ↔
      (s.inet.socks sd).Told s.interrupted := by
  rw [kind] at other
  simp only [readInet_waits, Net.Table.recv_again, fdReadable, kind, Net.Sock.readable,
    Net.Sock.Told]
  simp only [listener] at other
  cases used : (s.inet.socks sd).used with
  | false => simp
  | true =>
    cases type : (s.inet.socks sd).type with
    | raw => simp
    | dgram =>
      cases (s.inet.socks sd).rx <;> cases s.interrupted <;>
        by_cases unbound : (s.inet.socks sd).localPort = 0#16 <;> simp [unbound]
    | stream =>
      have not_listen : (s.inet.socks sd).tcpState ≠ .listen := by simpa [used, type] using other
      cases state : (s.inet.socks sd).tcpState with
      | listen => exact absurd state not_listen
      | _ =>
        by_cases empty : (s.inet.socks sd).tcpRx.count = 0 <;> cases s.interrupted <;>
          cases (s.inet.socks sd).peerFin <;> simp [empty, Nat.pos_iff_ne_zero]

theorem read_unix {i : Unix.Idx} {fault : Bool} (kind : d.backend = .unix i)
    (other : s.listener d.backend = false) (n : Nat) :
    (s.fdReadable fd d ↔ ¬ (of id (s.unix.recv i (n + 1) fault).1).Waits) ↔
      (s.unix.socks i).Told := by
  rw [kind] at other
  have not_listening : (s.unix.socks i).state ≠ .listening := of_decide_eq_false other
  have waits : (of id (s.unix.recv i (n + 1) fault).1).Waits ↔
      (s.unix.recv i (n + 1) fault).1 = .error .EAGAIN := of_waits fun _ => Iff.rfl
  simp only [waits, fdReadable, kind, Unix.Sock.readable, Unix.Sock.Told]
  unfold Unix.Table.recv Unix.Table.state
  cases state : (s.unix.socks i).state with
  | listening => exact absurd state not_listening
  | _ =>
    by_cases empty : (s.unix.socks i).rx.available = 0 <;> cases fault <;>
      simp [empty, Nat.pos_iff_ne_zero]

theorem read_pty {i : PtyIdx} {side : PtySide} (kind : d.backend = .pty i side) (n : Nat) :
    (s.fdReadable fd d ↔ ¬ (s.readPty i side (n + 1)).1.Waits) ↔
      (s.ptys i).Told side := by
  simp only [fdReadable, kind, readPty, of_waits ofTty_again]
  cases side with
  | master => exact Tty.Pty.masterReadable_iff (n + 1)
  | slave => exact Tty.Pty.slaveReadable_iff (n + 1)

/-- The test and the call agree in exactly the states that `Told` lists. -/
theorem readable_exact_iff (s : Sys) (fd : Nat) (d : Desc) (n : Nat) (fault room : Bool) :
    (s.fdReadable fd d = true ↔ ¬ (s.attempt fd d (n + 1) fault room).Waits) ↔ s.Told fd d := by
  unfold attempt Told
  cases listens : s.listener d.backend with
  | true =>
    simp only [Bool.true_eq_false, and_false, if_false, if_true]
    cases kind : d.backend with
    | inet => exact accept_inet kind listens
    | unix i =>
      have state : (s.unix.socks i).state = .listening := by
        rw [kind] at listens
        exact of_decide_eq_true listens
      simp [accept_unix room kind listens, Unix.Sock.Told, state]
    | _ => simp [kind, listener] at listens
  | false =>
    simp only [and_true, Bool.false_eq_true, if_false]
    by_cases output : fd = 1 ∨ fd = 2
    · have refused : (s.sysRead fd d (n + 1) fault).1 = .error .EBADF := by
        have nonzero : fd ≠ 0 := by omega
        simp [sysRead, nonzero, output]
      simp [refused, output, Waits]
    unfold sysRead
    cases kind : d.backend with
    | special =>
      by_cases stdin : fd = 0
      · simp [fdReadable, kind, stdin, readStdin_waits]
      · simp [fdReadable, kind, stdin, output, Waits]
    | inet sd => simpa [kind, output] using read_inet kind listens n
    | unix i => simpa [kind, output] using read_unix kind listens n
    | pty i side => simpa [kind, output] using read_pty kind n
    | pipe p side =>
      cases side with
      | writer => simp [fdReadable, kind, output, Waits, Pipes.Pipe.Told]
      | reader => simp [fdReadable, kind, output, readPipe_waits, Pipes.Pipe.Told]
    | device node =>
      cases locked : d.writeOnly with
      | true => simp [fdReadable, kind, output, Waits]
      | false => cases node <;> simp [fdReadable, kind, output, readDevice_waits, Fed]

def piped : Sys where
  pipes := (Pipes.World.sysPipe {} true true false).2.session.pipes

/-- The read end of a pipe that was just made counts as readable, and a read gives EAGAIN. -/
theorem fresh_pipe_counts_readable :
    (Pipes.World.sysPipe {} true true false).2.pool.backend 0 = some (0, .reader) ∧
      piped.fdReadable 3 { backend := .pipe 0 .reader } = true ∧
      piped.attempt 3 { backend := .pipe 0 .reader } 1 false true = .error .EAGAIN := by
  decide +kernel

end Osnos.Fd.Sys
