import Osnos.Base.RingEdit
import Osnos.Sched.Table

/-! `micro/ipc.c`: one circular array of messages for the whole system. `Sched` keeps only
the receivers of the queued messages; here is the array itself, and the ordered list that it
stands for. -/
namespace Osnos.Ipc
open Osnos.Sched Ring

def IPC_DATA_SIZE : Nat := 1024

/-- `ipc_msg_t`; `dest` is its field `to`. -/
structure Message where
  sender : UInt64 := 0
  dest : Nat := 0
  type : UInt32 := 0
  arg0 : UInt64 := 0
  arg1 : UInt64 := 0
  data : Fin IPC_DATA_SIZE → UInt8 := fun _ => 0

def Message.isFor (pid : Nat) (m : Message) : Bool := m.dest == pid
abbrev Queue := Ring Message Kernel.IPC_QUEUE_SIZE

namespace Queue

def init : Queue := Ring.empty {} (by decide)

/-- `ipc_send`, without the wake-up: the message is stored with the receiver it was
routed to. -/
def ipcSend (q : Queue) (k : Kernel) (m : Message) : Kernel.SendStatus × Queue :=
  match k.ipcRoute m.dest with
  | none => (.noTarget, q)
  | some pid =>
    if Kernel.IPC_QUEUE_SIZE ≤ q.count then (.again, q)
    else (.ok, q.push { m with dest := pid })

def ipcHasForPid (q : Queue) (pid : Nat) : Bool :=
  if pid = 0 then false
  else (q.locate (Message.isFor pid)).isSome

def ipcDropForPid (q : Queue) (pid : Nat) : Queue :=
  if pid = 0 ∨ q.count = 0 then q
  else q.compact fun m => !m.isFor pid

def ipcRecv (q : Queue) (pid : Nat) : Option Message × Queue :=
  if q.count = 0 then (none, q)
  else match found : q.locate (Message.isFor pid) with
    | none => (none, q)
    | some i => (some (q.cells (q.slot i)), q.removeAt i (Ring.locate_lt found))

end Queue

namespace Mailbox

def send (l : List Message) (k : Kernel) (m : Message) : Kernel.SendStatus × List Message :=
  match k.ipcRoute m.dest with
  | none => (.noTarget, l)
  | some pid =>
    if Kernel.IPC_QUEUE_SIZE ≤ l.length then (.again, l)
    else (.ok, l ++ [{ m with dest := pid }])

def recv (l : List Message) (pid : Nat) : Option Message × List Message :=
  (l.find? (Message.isFor pid), l.eraseP (Message.isFor pid))

def drop (l : List Message) (pid : Nat) : List Message := l.filter fun m => !m.isFor pid
def has (l : List Message) (pid : Nat) : Bool := (recv l pid).1.isSome

end Mailbox

/-- The calls of `ipc.c`. Each send sees the task and service tables as they are then. -/
inductive Call
  | send (k : Kernel) (m : Message)
  | recv (pid : Nat)
  | drop (pid : Nat)
  | has (pid : Nat)

inductive Reply
  | sent (s : Kernel.SendStatus)
  | received (m : Option Message)
  | dropped
  | found (b : Bool)

def Queue.call (q : Queue) : Call → Reply × Queue
  | .send k m => (.sent (q.ipcSend k m).1, (q.ipcSend k m).2)
  | .recv pid => (.received (q.ipcRecv pid).1, (q.ipcRecv pid).2)
  | .drop pid => (.dropped, q.ipcDropForPid pid)
  | .has pid => (.found (q.ipcHasForPid pid), q)

def Mailbox.call (l : List Message) : Call → Reply × List Message
  | .send k m => (.sent (send l k m).1, (send l k m).2)
  | .recv pid => (.received (recv l pid).1, (recv l pid).2)
  | .drop pid => (.dropped, drop l pid)
  | .has pid => (.found (has l pid), l)

def replies {σ : Type} (call : σ → Call → Reply × σ) : σ → List Call → List Reply × σ
  | s, [] => ([], s)
  | s, c :: cs =>
    let (r, s') := call s c
    let (rs, t) := replies call s' cs
    (r :: rs, t)

structure Holds (q : Queue) (l : List Message) : Prop where
  contents : q.contents = l
  addressed : ∀ m ∈ l, m.dest ≠ 0

theorem ipcRoute_ne_zero {k : Kernel} {dest pid : Nat} (routed : k.ipcRoute dest = some pid) :
    pid ≠ 0 := by
  unfold Kernel.ipcRoute at routed
  split at routed
  next service =>
    cases routed
    exact service
  split at routed
  · cases routed
  rename_i nonzero
  split at routed
  · cases routed
  split at routed
  · cases routed
  · cases routed
    exact nonzero

variable {q : Queue} {l : List Message}

section
variable (holds : Holds q l)
include holds

theorem Holds.length : q.count = l.length := by
  rw [← holds.contents, contents_length]

theorem Holds.not_for_zero : ∀ m ∈ l, m.isFor 0 = false := by
  intro m member
  simpa [Message.isFor] using holds.addressed m member

theorem send_holds (k : Kernel) (m : Message) : (q.ipcSend k m).1 = (Mailbox.send l k m).1 ∧
      Holds (q.ipcSend k m).2 (Mailbox.send l k m).2 := by
  unfold Queue.ipcSend Mailbox.send
  rw [holds.length]
  split
  · exact ⟨rfl, holds⟩
  rename_i pid routed
  split
  · exact ⟨rfl, holds⟩
  rename_i room
  refine ⟨rfl, ?_, fun n member => ?_⟩
  · rw [push_contents _ (by rw [holds.length]; omega), holds.contents]
  rcases List.mem_append.1 member with old | new
  · exact holds.addressed n old
  · rw [List.mem_singleton.1 new]
    exact ipcRoute_ne_zero routed

theorem recv_holds (pid : Nat) : (q.ipcRecv pid).1 = (Mailbox.recv l pid).1 ∧
      Holds (q.ipcRecv pid).2 (Mailbox.recv l pid).2 := by
  unfold Queue.ipcRecv Mailbox.recv
  have fewer : ∀ m ∈ l.eraseP (Message.isFor pid), m.dest ≠ 0 := fun m member =>
    holds.addressed m (List.mem_of_mem_eraseP member)
  split
  next none_left =>
    have nil : l = [] := by rw [← holds.contents, contents_eq_nil, none_left]
    subst nil
    exact ⟨rfl, holds⟩
  split
  next absent =>
    have missing := locate_none absent
    rw [holds.contents] at missing
    refine ⟨missing.symm, ?_⟩
    rw [List.eraseP_of_forall_not (by simpa using missing)]
    exact holds
  next i found =>
    have first := locate_find? found
    rw [holds.contents] at first
    refine ⟨first.symm, ?_, fewer⟩
    rw [removeAt_locate found, holds.contents]

theorem drop_holds (pid : Nat) : Holds (q.ipcDropForPid pid) (Mailbox.drop l pid) := by
  have fewer : ∀ m ∈ Mailbox.drop l pid, m.dest ≠ 0 := fun m member =>
    holds.addressed m (List.mem_of_mem_filter member)
  unfold Queue.ipcDropForPid
  split
  next nothing =>
    refine ⟨?_, fewer⟩
    rw [holds.contents]
    symm
    refine List.filter_eq_self.2 fun m member => ?_
    rcases nothing with zero | none_left
    · rw [zero, holds.not_for_zero m member]
      rfl
    · rw [← holds.contents, Ring.contents_eq_nil.2 none_left] at member
      cases member
  · refine ⟨?_, fewer⟩
    rw [compact_contents, holds.contents]
    rfl

theorem has_holds (pid : Nat) : q.ipcHasForPid pid = Mailbox.has l pid := by
  unfold Queue.ipcHasForPid Mailbox.has Mailbox.recv
  split
  next zero =>
    subst zero
    rw [List.find?_eq_none.2 fun m member => by simp [holds.not_for_zero m member]]
    rfl
  rw [← holds.contents]
  cases found : q.locate (Message.isFor pid) with
  | none =>
    rw [locate_none found]
    rfl
  | some =>
    rw [locate_find? found]
    rfl

theorem call_holds (c : Call) :
    (q.call c).1 = (Mailbox.call l c).1 ∧ Holds (q.call c).2 (Mailbox.call l c).2 := by
  cases c with
  | send k m =>
    obtain ⟨status, after⟩ := send_holds holds k m
    exact ⟨congrArg Reply.sent status, after⟩
  | recv pid =>
    obtain ⟨message, after⟩ := recv_holds holds pid
    exact ⟨congrArg Reply.received message, after⟩
  | drop pid => exact ⟨rfl, drop_holds holds pid⟩
  | has pid => exact ⟨congrArg Reply.found (has_holds holds pid), holds⟩

end

theorem replies_hold (cs : List Call) {q : Queue} {l : List Message} (holds : Holds q l) :
    (replies Queue.call q cs).1 = (replies Mailbox.call l cs).1 ∧
      Holds (replies Queue.call q cs).2 (replies Mailbox.call l cs).2 := by
  induction cs generalizing q l with
  | nil => exact ⟨rfl, holds⟩
  | cons c _ ih =>
    obtain ⟨same, after⟩ := call_holds holds c
    obtain ⟨others, last⟩ := ih after
    exact ⟨congrArg₂ List.cons same others, last⟩

/-- The array answers every sequence of calls as the ordered list does, and its
elements from the read index on are the list's. -/
theorem queue_refines_list (cs : List Call) :
    (replies Queue.call Queue.init cs).1 = (replies Mailbox.call [] cs).1 ∧
      (replies Queue.call Queue.init cs).2.contents = (replies Mailbox.call [] cs).2 := by
  have start : Holds Queue.init [] := ⟨rfl, fun m member => by cases member⟩
  obtain ⟨same, last⟩ := replies_hold cs start
  exact ⟨same, last.contents⟩

end Osnos.Ipc
