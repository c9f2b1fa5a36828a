import Osnos.Net.Socket

/-! The receive queue of a datagram socket, filled by `sock_deliver_udp` and drained through
`recvfrom`, `recv` and `read`. -/
namespace Osnos.Net
open List

structure Inbox where
  localPort : Port
  /-- `rx`, SOCK_RX_QUEUE_DEPTH slots. -/
  rx : Ring Dgram 8

/-- What `recvfrom` and `read` fail with. -/
inductive RecvErrno
  | EAGAIN | EBADF
  deriving DecidableEq, Repr

structure Received where
  bytes : List Byte
  sender : Option (Ip × Port)
  deriving DecidableEq

abbrev RecvResult := Except RecvErrno Received

/-- How the user asks: `recvfrom` with an address, `recv` of the library, or `read`. -/
inductive Via
  | recvfrom | recv | read
  deriving DecidableEq, Repr

def Dgram.cut (d : Dgram) : Dgram := { d with data := d.data.take 1024 }

namespace Inbox
variable (s : Inbox)

def deliver (d : Dgram) : Inbox :=
  if s.rx.count ≥ 8 then s else { s with rx := s.rx.push d.cut }

inductive Taken
  | error
  | count (bytes : List Byte) (sender : Option (Ip × Port))

/-- `sock_recvfrom`; `interrupted` is `poll_interrupted()`. -/
def sockRecvfrom (len : Nat) (interrupted : Bool) : Taken × Inbox :=
  if s.localPort = 0 then (.error, s)
  else if interrupted then (.error, s)
  else
    match s.rx.pop with
    | some (d, rx) => (.count (d.data.take len) (some (d.srcIp, d.srcPort)), { s with rx := rx })
    | none => (.count [] none, s)

/-- `sys_recvfrom`; without a datagram `src_ip` and `src_port` are still 0. -/
def sysRecvfrom (len : Nat) (address interrupted : Bool) : RecvResult × Inbox :=
  let r := s.sockRecvfrom len interrupted
  match r.1 with
  | .error => (.error .EBADF, r.2)
  | .count bytes sender =>
    (.ok { bytes, sender := if address then some (sender.getD (0, 0)) else none }, r.2)

/-- `sock_recv` turns a count of 0 into -2, which `sys_read` makes EAGAIN. -/
def sysRead (len : Nat) (interrupted : Bool) : RecvResult × Inbox :=
  let r := s.sockRecvfrom len interrupted
  match r.1 with
  | .error => (.error .EBADF, r.2)
  | .count bytes _ =>
    if bytes.length = 0 then (.error .EAGAIN, r.2) else (.ok { bytes, sender := none }, r.2)

def receive (via : Via) (len : Nat) (interrupted : Bool) : RecvResult × Inbox :=
  match via with
  | .recvfrom => s.sysRecvfrom len true interrupted
  | .recv => s.sysRecvfrom len false interrupted
  | .read => s.sysRead len interrupted

end Inbox

abbrev DgramQueue := List Dgram

namespace DgramQueue

def deliver (q : DgramQueue) (d : Dgram) : DgramQueue := if q.length ≥ 8 then q else q ++ [d]

def receive (q : DgramQueue) (via : Via) (len : Nat) : RecvResult × DgramQueue :=
  match q with
  | [] => (.error .EAGAIN, [])
  | d :: q =>
    (.ok { bytes := d.data.take len
           sender := match via with
             | .recvfrom => some (d.srcIp, d.srcPort)
             | .recv | .read => none }, q)

end DgramQueue

inductive DgramOp
  | deliver (d : Dgram)
  | receive (via : Via) (len : Nat) (interrupted : Bool)

def Inbox.step (s : Inbox) : DgramOp → Inbox
  | .deliver d => s.deliver d
  | .receive via len interrupted => (s.receive via len interrupted).2

/-- The queue after the same datagrams and the same receives; those of a socket that is not
bound, or of a task that is being killed, take nothing. -/
def DgramQueue.step (port : Port) (q : DgramQueue) : DgramOp → DgramQueue
  | .deliver d => q.deliver d
  | .receive via len interrupted =>
    if port = 0 ∨ interrupted then q else (q.receive via len).2

structure Inbox.Holds (s : Inbox) (port : Port) (q : DgramQueue) : Prop where
  port : s.localPort = port
  contents : s.rx.contents = q.map Dgram.cut

namespace Inbox.Holds
variable {s : Inbox} {port : Port} {q : DgramQueue}

theorem pop_cons {d : Dgram} (holds : s.Holds port (d :: q)) :
    ∃ rx, s.rx.pop = some (d.cut, rx) ∧ rx.contents = q.map Dgram.cut := by
  cases popped : s.rx.pop with
  | none =>
    have := (Ring.pop_none.1 popped).symm.trans holds.contents
    cases this
  | some p =>
    have front : s.rx.contents = p.1 :: p.2.contents := Ring.pop_contents popped
    have split := front.symm.trans holds.contents
    obtain ⟨first, rest⟩ := List.cons_eq_cons.1 split
    exact ⟨p.2, by rw [← first], rest⟩

theorem pop_nil (holds : s.Holds port []) : s.rx.pop = none := Ring.pop_none.2 holds.contents

variable (holds : s.Holds port q)
include holds

theorem count : s.rx.count = q.length := by
  rw [← Ring.contents_length, holds.contents, length_map]

theorem deliver (d : Dgram) : (s.deliver d).Holds port (q.deliver d) := by
  unfold Inbox.deliver DgramQueue.deliver
  rw [holds.count]
  split
  · exact holds
  rename_i room
  have room : s.rx.count < 8 := by
    rw [holds.count]
    omega
  exact ⟨holds.port, by simp [Ring.push_contents _ room, holds.contents]⟩

theorem sockRecvfrom (len : Nat) {interrupted : Bool}
    (running : ¬ (port = 0 ∨ interrupted)) :
    (s.sockRecvfrom len interrupted).2.Holds port (q.receive .recvfrom len).2 ∧
      (s.sockRecvfrom len interrupted).1 =
        match q with
        | [] => .count [] none
        | d :: _ => .count (d.cut.data.take len) (some (d.srcIp, d.srcPort)) := by
  obtain ⟨bound, alive⟩ := not_or.1 running
  unfold Inbox.sockRecvfrom
  rw [if_neg (holds.port ▸ bound), if_neg alive]
  cases q with
  | nil =>
    rw [holds.pop_nil]
    exact ⟨holds, rfl⟩
  | cons =>
    obtain ⟨_, popped, rest⟩ := holds.pop_cons
    rw [popped]
    exact ⟨⟨holds.port, rest⟩, rfl⟩

theorem refused (via : Via) (len : Nat) {interrupted : Bool}
    (stopped : port = 0 ∨ interrupted) :
    s.receive via len interrupted = (.error .EBADF, s) := by
  have error : s.sockRecvfrom len interrupted = (.error, s) := by
    unfold Inbox.sockRecvfrom
    rw [holds.port]
    rcases stopped with unbound | killed
    · rw [if_pos unbound]
    · rw [if_pos killed, ite_self]
  cases via <;> simp [Inbox.receive, sysRecvfrom, sysRead, error]

theorem step (op : DgramOp) : (s.step op).Holds port (q.step port op) := by
  cases op with
  | deliver d => exact holds.deliver d
  | receive via len interrupted =>
    change (s.receive via len interrupted).2.Holds _ _
    rw [DgramQueue.step]
    split
    next stopped =>
      rw [holds.refused via len stopped]
      exact holds
    rename_i running
    obtain ⟨after, _⟩ := holds.sockRecvfrom len running
    have same : (q.receive via len).2 = (q.receive .recvfrom len).2 := by cases q <;> rfl
    rw [same]
    cases via with
    | recvfrom | recv =>
      simp only [Inbox.receive, sysRecvfrom]
      split <;> exact after
    | read =>
      simp only [Inbox.receive, sysRead]
      split
      · exact after
      · split <;> exact after

theorem run (ops : List DgramOp) :
    (ops.foldl Inbox.step s).Holds port (ops.foldl (DgramQueue.step port) q) := by
  induction ops generalizing s q with
  | nil => exact holds
  | cons op _ ih => exact ih (holds.step op)

end Inbox.Holds

theorem Dgram.cut_take_iff (d : Dgram) (len : Nat) :
    d.cut.data.take len = d.data.take len ↔ d.data.length ≤ 1024 ∨ len ≤ 1024 := by
  rw [cut, take_take]
  constructor
  · intro same
    have := congrArg length same
    simp only [length_take] at this
    omega
  · rintro (short | short)
    · rw [← take_take, take_of_length_le short]
    · rw [Nat.min_eq_left short]

/-- What a receive must meet for its answer to be the right one: the socket is bound and the
task not being killed; an empty queue is asked by `read`; and the oldest datagram fits its
slot, and a `read` of it has a byte to return. -/
def Answerable (port : Port) (q : DgramQueue) (via : Via) (len : Nat) (interrupted : Bool) : Prop :=
  ¬ (port = 0 ∨ interrupted = true) ∧
    match q with
    | [] => via = .read
    | d :: _ => (d.data.length ≤ 1024 ∨ len ≤ 1024) ∧ (via = .read → d.data ≠ [] ∧ len ≠ 0)

theorem Inbox.Holds.answer_iff {s : Inbox} {port : Port} {q : DgramQueue} (holds : s.Holds port q)
    (via : Via) (len : Nat) (interrupted : Bool) :
    (s.receive via len interrupted).1 = (q.receive via len).1 ↔
      Answerable port q via len interrupted := by
  by_cases stopped : port = 0 ∨ interrupted = true
  · rw [holds.refused via len stopped]
    refine iff_of_false ?_ fun answerable => answerable.1 stopped
    cases q <;> exact nofun
  obtain ⟨_, taken⟩ := holds.sockRecvfrom len stopped
  unfold Answerable
  rw [and_iff_right stopped]
  cases q with
  | nil => cases via <;> simp [Inbox.receive, sysRecvfrom, sysRead, taken, DgramQueue.receive]
  | cons d q =>
    have empty : (d.cut.data.take len).length = 0 ↔ d.data = [] ∨ len = 0 := by
      simp [Dgram.cut, length_eq_zero_iff]
      tauto
    dsimp only
    rw [← d.cut_take_iff len]
    cases via with
    | recvfrom | recv => simp [Inbox.receive, sysRecvfrom, taken, DgramQueue.receive]
    | read =>
      simp only [Inbox.receive, sysRead, taken, DgramQueue.receive, empty]
      split
      next nothing =>
        exact iff_of_false nofun fun fine => (not_or.2 (fine.2 trivial)) nothing
      next some_bytes =>
        simpa using fun _ => not_or.1 some_bytes

def Inbox.bound (port : Port) : Inbox where
  localPort := port
  rx := .empty ⟨0, 0, []⟩ (by norm_num)

/-- After any datagrams and receives the ring holds the queue, and the next receive answers
as the queue would exactly if it is answerable. -/
theorem datagrams_received (port : Port) (ops : List DgramOp) (via : Via) (len : Nat)
    (interrupted : Bool) :
    (ops.foldl Inbox.step (.bound port)).Holds port (ops.foldl (DgramQueue.step port) []) ∧
      (((ops.foldl Inbox.step (.bound port)).receive via len interrupted).1 =
          (DgramQueue.receive (ops.foldl (DgramQueue.step port) []) via len).1 ↔
        Answerable port (ops.foldl (DgramQueue.step port) []) via len interrupted) := by
  have start : (Inbox.bound port).Holds port [] := ⟨rfl, rfl⟩
  exact ⟨start.run ops, (start.run ops).answer_iff via len interrupted⟩

/-- With nothing queued `recvfrom` returns a datagram of no bytes from 0.0.0.0:0; an empty
datagram that has come is EAGAIN for `read`, which takes it out of the queue. -/
theorem nothing_read_as_datagram :
    ((Inbox.bound 53).receive .recvfrom 100 false).1 = .ok ⟨[], some (0, 0)⟩ ∧
      (((Inbox.bound 53).deliver ⟨0x0A000202, 99, []⟩).receive .read 100 false).1 = .error .EAGAIN ∧
      (((Inbox.bound 53).deliver ⟨0x0A000202, 99, []⟩).receive .read 100 false).2.rx.contents = [] ∧
      ¬ Answerable 53 [] .recvfrom 100 false := by
  refine ⟨rfl, by decide, rfl, ?_⟩
  rintro ⟨_, wrong⟩
  cases wrong

end Osnos.Net
