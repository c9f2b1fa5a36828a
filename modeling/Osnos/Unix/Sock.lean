import Osnos.Base.Gap
import Osnos.Base.Prog
import Osnos.Fd.Pool

/-! `micro/unix_sock.c` with the calls of `syscall.c` and `fd.c` that use it: a table of
AF_UNIX stream sockets and a table of bound paths, both of fixed size. -/
namespace Osnos.Unix
open Osnos.Fd

abbrev UNIX_SOCK_MAX : Nat := 32
abbrev UNIX_BIND_MAX : Nat := 16
abbrev UNIX_BACKLOG_MAX : Nat := 8
abbrev UNIX_BUF_BYTES : Nat := 4096
abbrev OSNOS_UNIX_PATH_MAX : Nat := 108
abbrev Idx := Fin UNIX_SOCK_MAX
abbrev BindIdx := Fin UNIX_BIND_MAX

/-- A C string that fits `char path[OSNOS_UNIX_PATH_MAX]`. The system calls copy every
path into such an array, so `os_strlcpy` cuts nothing off. -/
structure Path where
  bytes : List UInt8
  fits : bytes.length < OSNOS_UNIX_PATH_MAX
  deriving DecidableEq

def Path.empty : Path := ⟨[], by decide⟩

inductive SockState
  | unused | unbound | listening | connected | disconnected
  deriving DecidableEq, Repr

/-- `unix_sock_t`, without its type, which is always SOCK_STREAM. -/
structure Sock where
  state : SockState := .unused
  path : Path := .empty
  backlog : Ring Idx UNIX_BACKLOG_MAX := Ring.empty 0 (by decide)
  peer : Option Idx := none
  rx : Gap UInt8 UNIX_BUF_BYTES := Gap.empty 0 (by decide)

/-- `unix_bind_entry_t` of a used entry. -/
structure Bind where
  sock : Idx
  path : Path
  deriving DecidableEq

structure Table where
  socks : Idx → Sock := fun _ => {}
  binds : BindIdx → Option Bind := fun _ => none

inductive Errno
  | EBADF | EINVAL | EADDRINUSE | ENFILE | EMFILE | EISCONN | ENOENT | ECONNREFUSED | EAGAIN
  | ENOTCONN | EPIPE | EFAULT
  deriving DecidableEq, Repr

/-- `reset_sock`. The received bytes stay in their cells. -/
def Sock.reset (s : Sock) : Sock where
  backlog := s.backlog.clear
  rx := s.rx.clear

def Sock.disconnect (s : Sock) : Sock := { s with state := .disconnected }

namespace Table

variable (t : Table)

def put (i : Idx) (s : Sock) : Table := { t with socks := Function.update t.socks i s }
def edit (i : Idx) (f : Sock → Sock) : Table := t.put i (f (t.socks i))
def state (i : Idx) : SockState := (t.socks i).state
def pending (i : Idx) : List Idx := (t.socks i).backlog.contents

def allocSock : Option Idx :=
  (List.finRange UNIX_SOCK_MAX).find? fun i => decide (t.state i = .unused)

def findBind (path : Path) : Option BindIdx :=
  (List.finRange UNIX_BIND_MAX).find? fun b => decide ((t.binds b).map Bind.path = some path)

def allocBind : Option BindIdx :=
  (List.finRange UNIX_BIND_MAX).find? fun b => (t.binds b).isNone

def create : Except Errno Idx × Table :=
  match t.allocSock with
  | none => (.error .EMFILE, t)
  | some i => (.ok i, t.put i { (t.socks i).reset with state := .unbound })

def bind (i : Idx) (path : Path) : Except Errno Unit × Table :=
  if t.state i = .unused then (.error .EBADF, t)
  else if t.state i ≠ .unbound then (.error .EINVAL, t)
  else if path = .empty then (.error .EINVAL, t)
  else if (t.findBind path).isSome then (.error .EADDRINUSE, t)
  else match t.allocBind with
    | none => (.error .ENFILE, t)
    | some b =>
      (.ok (), { t.edit i fun s => { s with path := path } with
        binds := Function.update t.binds b (some ⟨i, path⟩) })

def listen (i : Idx) : Except Errno Unit × Table :=
  if t.state i = .unused then (.error .EBADF, t)
  else if (t.socks i).path = .empty then (.error .EINVAL, t)
  else if t.state i ≠ .unbound ∧ t.state i ≠ .listening then (.error .EINVAL, t)
  else (.ok (), t.edit i fun s => { s with state := .listening })

/-- The pair that `unix_sock_connect` makes of a client and a fresh server socket, which
goes to the end of the listener's backlog. -/
def pair (client server listener : Idx) : Table :=
  ((t.put server { (t.socks server).reset with state := .connected, peer := some client }).edit
    client fun s => { s with state := .connected, peer := some server }).edit
      listener fun s => { s with backlog := s.backlog.push server }

def connect (i : Idx) (path : Path) : Except Errno Unit × Table :=
  if t.state i = .unused then (.error .EBADF, t)
  else if t.state i ≠ .unbound then (.error .EISCONN, t)
  else if path = .empty then (.error .EINVAL, t)
  else match (t.findBind path).bind t.binds with
    | none => (.error .ENOENT, t)
    | some entry =>
      if t.state entry.sock ≠ .listening then (.error .ECONNREFUSED, t)
      else if UNIX_BACKLOG_MAX ≤ (t.socks entry.sock).backlog.count then (.error .ECONNREFUSED, t)
      else match t.allocSock with
        | none => (.error .ENFILE, t)
        | some server => (.ok (), t.pair i server entry.sock)

def accept (i : Idx) : Except Errno Idx × Table :=
  if t.state i = .unused then (.error .EBADF, t)
  else if t.state i ≠ .listening then (.error .EINVAL, t)
  else match (t.socks i).backlog.pop with
    | none => (.error .EAGAIN, t)
    | some (server, rest) => (.ok server, t.edit i fun s => { s with backlog := rest })

/-- `unix_sock_recv`; `fault` says whether `copy_to_user` fails. -/
def recv (i : Idx) (len : Nat) (fault : Bool) : Except Errno (List UInt8) × Table :=
  if t.state i = .unused then (.error .EBADF, t)
  else if t.state i ≠ .connected ∧ t.state i ≠ .disconnected then (.error .ENOTCONN, t)
  else if len = 0 then (.ok [], t)
  else if (t.socks i).rx.available = 0 then
    if t.state i = .disconnected then (.ok [], t) else (.error .EAGAIN, t)
  else
    let n := min (t.socks i).rx.available len
    if fault then (.error .EFAULT, t)
    else (.ok ((t.socks i).rx.peek n), t.edit i fun s => { s with rx := s.rx.advance n })

def sendTo (peer : Idx) (data : List UInt8) (fault : Bool) : Except Errno Nat × Table :=
  if t.state peer ≠ .connected then (.error .EPIPE, t)
  else if data.length = 0 then (.ok 0, t)
  else if (t.socks peer).rx.room = 0 then (.error .EAGAIN, t)
  else
    let n := min (t.socks peer).rx.room data.length
    if fault then (.error .EFAULT, t)
    else (.ok n, t.edit peer fun s => { s with rx := s.rx.write (data.take n) })

/-- `unix_sock_send`; `fault` says whether `copy_from_user` fails. -/
def send (i : Idx) (data : List UInt8) (fault : Bool) : Except Errno Nat × Table :=
  if t.state i = .unused then (.error .EBADF, t)
  else if t.state i ≠ .connected then (.error .EPIPE, t)
  else match (t.socks i).peer with
    | none => (.error .EPIPE, t)
    | some peer => t.sendTo peer data fault

def unbind (i : Idx) : Table :=
  { t with binds := fun b => if (t.binds b).map Bind.sock = some i then none else t.binds b }

def hangUp (peer : Option Idx) : Table :=
  match peer with
  | none => t
  | some c => if t.state c = .connected then t.edit c Sock.disconnect else t

def reject (p : Idx) : Table :=
  if t.state p = .unused then t
  else (t.edit p Sock.disconnect).hangUp (t.socks p).peer

def closeListener (i : Idx) : Table := (t.pending i).foldl reject (t.unbind i)

def close (i : Idx) : Table :=
  if t.state i = .unused then t
  else
    let t₁ := if t.state i = .listening then t.closeListener i else t
    let t₂ := if t₁.state i = .connected then t₁.hangUp (t₁.socks i).peer else t₁
    t₂.edit i Sock.reset

end Table

structure World where
  table : Table := {}
  pool : Pool Idx := fun _ => none

/-- A call on an open file description. `room` says whether the task has a free
descriptor, `fault` whether the buffer of the call is not accessible. -/
inductive Call
  | socket (room : Bool)
  | openOther (room : Bool)
  | bind (o : OfdIdx) (path : Path)
  | listen (o : OfdIdx)
  | connect (o : OfdIdx) (path : Path)
  | accept (o : OfdIdx) (room : Bool)
  | send (o : OfdIdx) (data : List UInt8) (fault : Bool)
  | recv (o : OfdIdx) (len : Nat) (fault : Bool)
  | dup (o : OfdIdx)
  | close (o : OfdIdx)

inductive Reply
  | error (e : Errno)
  | done
  | fd (o : OfdIdx)
  | count (n : Nat)
  | data (bytes : List UInt8)
  deriving DecidableEq

namespace World

variable (w : World)

def reply {α : Type} (answer : α → Reply) (r : Except Errno α × Table) : Reply × World :=
  match r.1 with
  | .error e => (.error e, { w with table := r.2 })
  | .ok a => (answer a, { w with table := r.2 })

def onSocket (o : OfdIdx) (call : Idx → Reply × World) : Reply × World :=
  match w.pool.backend o with
  | none => (.error .EBADF, w)
  | some i => call i

def adopt (room : Bool) (i : Idx) (t : Table) : Reply × World :=
  match w.pool.fdAlloc room with
  | none => (.error .EMFILE, { w with table := t.close i })
  | some o => (.fd o, ⟨t, w.pool.install o (some i)⟩)

def sysSocket (room : Bool) : Reply × World :=
  match w.table.create with
  | (.error e, _) => (.error e, w)
  | (.ok i, t) => w.adopt room i t

def sysAccept (room : Bool) (i : Idx) : Reply × World :=
  match w.table.accept i with
  | (.error e, _) => (.error e, w)
  | (.ok child, t) => w.adopt room child t

def openOther (room : Bool) : Reply × World :=
  match w.pool.fdAlloc room with
  | none => (.error .EMFILE, w)
  | some o => (.fd o, { w with pool := w.pool.install o none })

/-- A descriptor is closed; the last one of an open file description closes the socket. -/
def sysClose (o : OfdIdx) : Reply × World :=
  match w.pool.ofdUnref o with
  | (none, pool) => (.done, { w with pool := pool })
  | (some i, pool) => (.done, ⟨w.table.close i, pool⟩)

def step : Call → Reply × World
  | .socket room => w.sysSocket room
  | .openOther room => w.openOther room
  | .bind o path => w.onSocket o fun i => w.reply (fun _ => .done) (w.table.bind i path)
  | .listen o => w.onSocket o fun i => w.reply (fun _ => .done) (w.table.listen i)
  | .connect o path => w.onSocket o fun i => w.reply (fun _ => .done) (w.table.connect i path)
  | .accept o room => w.onSocket o (w.sysAccept room)
  | .send o data fault => w.onSocket o fun i => w.reply .count (w.table.send i data fault)
  | .recv o len fault => w.onSocket o fun i => w.reply .data (w.table.recv i len fault)
  | .dup o => (.done, { w with pool := w.pool.ofdRef o })
  | .close o => w.sysClose o

end World

def exec (c : Call) : Prog World Reply := fun w => some (w.step c)

theorem exec_step {c : Call} {w w' : World} {r : Reply} (run : exec c w = some (r, w')) :
    w' = (w.step c).2 := by
  rw [Option.some.inj run]

end Osnos.Unix
