import Osnos.Base.Index
import Mathlib.Tactic
import Mathlib.Data.Fintype.Basic

/-! `micro/task.c`, `micro/ipc.c` and `micro/service.c`: sixteen slots, the wake-ups that
look at them, and the message queue whose sends wake its receiver. -/
namespace Osnos.Sched
open Function

abbrev Word := UInt64
abbrev Slot := Fin 16

inductive TaskState
  | unused | ready | running | blocked | stopped | zombie | dead
  deriving DecidableEq, Repr

/-- The five words `iretq` pops and the fifteen general registers. A system call
and a timer interrupt push one; `saved_iret_*` and `saved_r*` hold one. -/
structure Context where
  rip : Word := 0
  cs : Word := 0
  rflags : Word := 0
  rsp : Word := 0
  ss : Word := 0
  rax : Word := 0
  rbx : Word := 0
  rcx : Word := 0
  rdx : Word := 0
  rsi : Word := 0
  rdi : Word := 0
  rbp : Word := 0
  r8 : Word := 0
  r9 : Word := 0
  r10 : Word := 0
  r11 : Word := 0
  r12 : Word := 0
  r13 : Word := 0
  r14 : Word := 0
  r15 : Word := 0
  deriving DecidableEq, Repr

/-- `wait_change`: a stop or a continue that no `wait4` has reported yet. -/
inductive WaitChange
  | none | stopped | continued
  deriving DecidableEq, Repr

/-- The call a task went to sleep in. The kernel has no such field: it tells
the calls apart by what they left in the task record, and this one records which
call that was. No function below reads it. -/
inductive Call
  | none
  | nanosleep (deadline : Nat)
  | wait4 (pid : Int) (options : UInt32)
  | vfork (child : Nat)
  | restart (nr : Word)
  | server
  deriving DecidableEq, Repr

/-- `task_t`, without what no modelled function reads (name, working directory,
FPU state, heap and mapping bounds, terminal settings, descriptors). Signal masks
are predicates on the signal's number, `1` to `31`. -/
structure Task where
  pid : Nat := 0
  state : TaskState := .unused
  pml4 : Option Nat := none
  userEntry : Word := 0
  userStackTop : Word := 0
  exitCode : Int := 0
  parentPid : Nat := 0
  pgid : Nat := 0
  sid : Nat := 0
  waitingForPid : Int := 0
  waitOptions : UInt32 := 0
  waitStatusPtr : Word := 0
  waitChange : WaitChange := .none
  saHandler : Nat → Word := fun _ => 0
  saRestorer : Nat → Word := fun _ => 0
  sigPending : Nat → Bool := fun _ => false
  killPending : Bool := false
  stopPending : Bool := false
  savedValid : Bool := false
  saved : Context := {}
  wakeupAt : Nat := 0
  vforkWaiter : Nat := 0
  call : Call := .none

/-- A status word that an exiting, stopping or continuing child stores through its
parent's `wait_status_ptr`. -/
structure StatusWrite where
  slot : Slot
  ptr : Word
  status : Int
  deriving DecidableEq, Repr

/-- The kernel's scheduling state. `current` is `none` for index `-1`. The queue
keeps the receiver of each message. `statusWrites` lists the status words stored
so far, newest first; it is not part of the program. -/
structure Kernel where
  tasks : Slot → Task := fun _ => {}
  nextPid : Nat := 1
  nextSpace : Nat := 0
  current : Option Slot := none
  now : Nat := 0
  countdown : Nat := 5
  queue : List Nat := []
  services : Nat → Nat := fun _ => 0
  fgPid : Nat := 0
  reapAge : Slot → Nat := fun _ => 0
  statusWrites : List StatusWrite := []

variable (k : Kernel)

namespace Kernel

def put (i : Slot) (t : Task) : Kernel :=
  { k with tasks := update k.tasks i t }

def edit (i : Slot) (f : Task → Task) : Kernel := k.put i (f (k.tasks i))

def editAll (f : Task → Task) : Kernel :=
  { k with tasks := fun i => f (k.tasks i) }

@[simp] theorem put_same (i : Slot) (t : Task) : (k.put i t).tasks i = t := by
  simp [put]

@[simp] theorem put_other {i j : Slot} (t : Task) (ne : j ≠ i) :
    (k.put i t).tasks j = k.tasks j := by
  simp [put, ne]

@[simp] theorem edit_same (i : Slot) (f : Task → Task) :
    (k.edit i f).tasks i = f (k.tasks i) := put_same k i _

@[simp] theorem edit_other {i j : Slot} (f : Task → Task) (ne : j ≠ i) :
    (k.edit i f).tasks j = k.tasks j := put_other k _ ne

@[simp] theorem editAll_tasks (f : Task → Task) (i : Slot) :
    (k.editAll f).tasks i = f (k.tasks i) := rfl

def taskByPid (pid : Nat) : Option Slot :=
  (List.finRange 16).find? fun i =>
    decide ((k.tasks i).state ≠ .unused) && decide ((k.tasks i).pid = pid)

def serviceGetPid (sid : Nat) : Nat :=
  if sid < 16 then k.services sid else 0

def serviceRegister (sid pid : Nat) : Kernel :=
  if sid < 16 then { k with services := update k.services sid pid } else k

end Kernel

def Task.unblock (t : Task) : Task :=
  if t.state = .blocked then { t with state := .ready } else t

def SYS_POLL : Word := 7
def SYS_IPC_SEND : Word := 510
def SYS_READ : Word := 0

def Task.wakePoller (t : Task) : Task :=
  if t.state = .blocked ∧ t.savedValid ∧ (t.saved.rax = SYS_POLL ∨ t.saved.rax = SYS_IPC_SEND)
  then { t with state := .ready } else t

def Task.checkWakeup (now : Nat) (t : Task) : Task :=
  if t.state = .blocked ∧ t.wakeupAt ≠ 0 ∧ t.wakeupAt ≤ now
  then { t with state := .ready, wakeupAt := 0 } else t

namespace Kernel

def taskUnblock (pid : Nat) : Kernel :=
  k.editAll fun t => if t.pid = pid then t.unblock else t

def taskWakePollers : Kernel := k.editAll Task.wakePoller
def taskCheckWakeups : Kernel := k.editAll (Task.checkWakeup k.now)
def IPC_QUEUE_SIZE : Nat := 256

inductive SendStatus
  | ok | again | noTarget
  deriving DecidableEq, Repr

/-- The receiver `ipc_send` routes to: a registered service, or else a live user
task with that pid. -/
def ipcRoute (dest : Nat) : Option Nat :=
  if k.serviceGetPid dest ≠ 0 then some (k.serviceGetPid dest)
  else if dest = 0 then none
  else match k.taskByPid dest with
    | none => none
    | some i =>
      if (k.tasks i).state = .zombie ∨ (k.tasks i).state = .dead ∨ (k.tasks i).pml4 = none
      then none else some dest

/-- `ipc_send`: queue the message and unblock the receiver, whatever it is
blocked in. -/
def ipcSend (dest : Nat) : SendStatus × Kernel :=
  match k.ipcRoute dest with
  | none => (.noTarget, k)
  | some pid =>
    if IPC_QUEUE_SIZE ≤ k.queue.length then (.again, k)
    else (.ok, { k with queue := k.queue ++ [pid] }.taskUnblock pid)

def ipcDropForPid (pid : Nat) : Kernel :=
  if pid = 0 then k else { k with queue := k.queue.filter (· ≠ pid) }

/-- `ipc_recv`: take the first message for the pid; the freed place wakes the
senders that wait for one. -/
def ipcRecv (pid : Nat) : Bool × Kernel :=
  if pid ∈ k.queue then (true, { k with queue := k.queue.erase pid }.taskWakePollers)
  else (false, k)

def freeSlot : Option Slot :=
  (List.finRange 16).find? fun i =>
    decide ((k.tasks i).state = .unused) || decide ((k.tasks i).state = .dead)

/-- `task_create`: the slot is cleared and gets the next pid. -/
def taskCreate : Option (Slot × Kernel) :=
  k.freeSlot.map fun i =>
    (i, { k.put i { pid := k.nextPid, state := .ready } with nextPid := k.nextPid + 1 })

def REAP_GRACE_PASSES : Nat := 4

def reapSlot (i : Slot) : Kernel :=
  if (k.tasks i).state ≠ .dead then { k with reapAge := update k.reapAge i 0 }
  else if k.reapAge i < REAP_GRACE_PASSES then
    { k with reapAge := update k.reapAge i (k.reapAge i + 1) }
  else { (k.ipcDropForPid (k.tasks i).pid).put i {} with
      reapAge := update k.reapAge i 0 }

def taskReapDead : Kernel := (List.finRange 16).foldl reapSlot k

/-- The index `task_run_next` stands on after its search, and whether the slot
there is ready: the round robin starts after the current index and makes one
full turn. Index `-1` plus sixteen steps is the last slot. -/
def pickNext : Slot × Bool :=
  let start : Slot := k.current.getD 15
  match (List.finRange 16).find? fun d => decide ((k.tasks (start + d + 1)).state = .ready) with
  | some d => (start + d + 1, true)
  | none => (start, false)

end Kernel

end Osnos.Sched
