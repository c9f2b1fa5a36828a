import Osnos.Sched.Dispatch

/-! The system calls that touch the task table, and everything else that makes the kernel
run: interrupts, faults, the scheduler and the two kernel tasks. What other subsystems
decide (whether memory was left, whether a copy to the user succeeded, which program was
loaded) is a parameter of the event. -/
namespace Osnos.Sched

def ECHILD : Nat := 10
def EAGAIN : Nat := 11
def ENOMEM : Nat := 12
def EFAULT : Nat := 14
def EPERM : Nat := 1
def EMFILE : Nat := 24

def Task.park (c : Context) (call : Call) (t : Task) : Task :=
  { t with saved := c, savedValid := true, state := .blocked, call := call }

def Task.reap (t : Task) : Task :=
  if t.state = .zombie then { t with state := .dead } else { t with waitChange := .none }

def Task.childOf (parent : Task) (pid space : Nat) (c : Context) : Task :=
  { pid := pid, state := .ready, pml4 := some space, parentPid := parent.pid,
    pgid := parent.pgid, sid := parent.sid, saHandler := parent.saHandler,
    saRestorer := parent.saRestorer, userEntry := parent.userEntry,
    userStackTop := parent.userStackTop, saved := c, savedValid := true }

/-- The record of a task that replaced its program: caught signals go back to the
default, ignored ones stay ignored. -/
def Task.exec (space : Nat) (entry stack : Word) (t : Task) : Task :=
  { t with
    pml4 := some space, userEntry := entry, userStackTop := stack, savedValid := false,
    killPending := false, stopPending := false,
    saHandler := fun s => if t.saHandler s ≠ SIG_IGN then 0 else t.saHandler s,
    saRestorer := fun s => if t.saHandler s ≠ SIG_IGN then 0 else t.saRestorer s }

def Task.requeue (t : Task) : Task :=
  if t.state = .running then { t with state := .ready } else t

def CLONE_VM : Word := 0x100
def CLONE_VFORK : Word := 0x4000
def SERVER_KEYBOARD : Nat := 1
def SERVER_CONSOLE : Nat := 3

/-- What `tty_input` makes of a character: the two that become signals, and the
rest, which only reach the line buffer. -/
inductive Key
  | intr | susp | plain
  deriving DecidableEq, Repr

inductive Syscall
  | nanosleep (sec nsec : Int)
  | read
  | poll (wake : Nat)
  | ipcSend (dest : Nat)
  | ipcRecv (copyOk : Bool)
  | consoleWrite (count : Word)
  | wait4 (pid : Int) (status : Word) (options : UInt32) (copyOk : Bool)
  | fork (mem : Bool)
  | clone (flags stack : Word) (mem : Bool)
  | execve (result : Except Word (Word × Word))
  | spawn (result : Except Word (Word × Word))
  | exit (code : Int)
  | kill (pid : Int) (sig : Nat)
  | sigaction (sig : Nat) (act : Option (Word × Word))
  | sigreturn (frame : Option Context)
  | setpgid (pid pgid : Nat)
  | setsid
  | setFg (pid : Nat)
  | resume (pid : Nat)
  | serviceRegister (sid : Nat)
  | ttyInput (key : Key)
  | other (value : Word)

variable (k : Kernel)

namespace Kernel

/-- `sys_nanosleep`; the two sums are sums of 64-bit words. The recorded deadline
is the one that was asked for. -/
def sysNanosleep (i : Slot) (c : Context) (sec nsec : Int) : Option Word × Kernel :=
  if sec < 0 ∨ nsec < 0 ∨ 1000000000 ≤ nsec then (err EINVAL, k)
  else
    let asked := sec.toNat * 1000 + nsec.toNat / 1000000
    let ms := asked % 2 ^ 64
    if ms = 0 then (some 0, k)
    else (none, k.edit i fun t =>
      { t.park { c with rax := 0 } (.nanosleep (k.now + asked)) with
        wakeupAt := (k.now + ms) % 2 ^ 64 })

/-- `block_restart_syscall`: back up over the two-byte instruction and leave the
call's number in `rax`, so that the task issues the call again when it wakes. -/
def blockRestart (i : Slot) (c : Context) (wake : Nat) (nr : Word) : Option Kernel :=
  if (k.tasks i).killPending then none
  else some (k.edit i fun t =>
    { t.park { c with rip := c.rip - 2, rax := nr } (.restart nr) with wakeupAt := wake })

def parkOr (i : Slot) (c : Context) (wake : Nat) (nr failed : Word) :
    Option Word × Kernel :=
  match k.blockRestart i c wake nr with
  | some k' => (none, k')
  | none => (failed, k)

def sysIpcSend (i : Slot) (c : Context) (dest : Nat) : Option Word × Kernel :=
  match k.ipcSend dest with
  | (.ok, k') => (some 0, k')
  | (.noTarget, _) => (err ESRCH, k)
  | (.again, _) => k.parkOr i c (k.now + 10) SYS_IPC_SEND (err EAGAIN)

def sysIpcRecv (i : Slot) (copyOk : Bool) : Option Word × Kernel :=
  match k.ipcRecv (k.tasks i).pid with
  | (false, _) => (err EAGAIN, k)
  | (true, k') => (some (if copyOk then 0 else err EFAULT), k')

def writeToConsole (count : Word) : Option Word × Kernel :=
  match k.ipcSend SERVER_CONSOLE with
  | (.ok, k') => (count, k')
  | (.noTarget, _) => (err ESRCH, k)
  | (.again, _) => (err EAGAIN, k)

def isChild (parentPid : Nat) (want : Int) (i : Slot) : Bool :=
  let c := k.tasks i
  decide (c.state ≠ .unused ∧ c.state ≠ .dead ∧ c.parentPid = parentPid ∧
    (0 < want → (c.pid : Int) = want))

def isWaitable (options : UInt32) (i : Slot) : Bool :=
  let c := k.tasks i
  decide (c.state = .zombie ∨
    (options &&& WUNTRACED ≠ 0 ∧ c.waitChange = .stopped ∧ c.state = .stopped) ∨
    (options &&& WCONTINUED ≠ 0 ∧ c.waitChange = .continued))

def findWaitableChild (parentPid : Nat) (want : Int) (options : UInt32) :
    Option Slot :=
  (List.finRange 16).find? fun i => k.isChild parentPid want i && k.isWaitable options i

def hasChild (parentPid : Nat) (want : Int) : Bool :=
  (List.finRange 16).any (k.isChild parentPid want)

/-- `sys_wait4`. The blocking path leaves `wakeup_at_ms` as it was. -/
def sysWait4 (i : Slot) (c : Context) (pid : Int) (status : Word)
    (options : UInt32) (copyOk : Bool) : Option Word × Kernel :=
  if ¬ k.hasChild (k.tasks i).pid pid then (err ECHILD, k)
  else match k.findWaitableChild (k.tasks i).pid pid options with
  | some j =>
    (some (if status ≠ 0 ∧ ¬ copyOk then err EFAULT else UInt64.ofNat (k.tasks j).pid),
      k.edit j Task.reap)
  | none =>
    if options &&& WNOHANG ≠ 0 then (some 0, k)
    else (none, k.edit i fun t =>
      { t.park { c with rax := 0 } (.wait4 pid options) with
        waitingForPid := if 0 < pid then pid else -1, waitOptions := options,
        waitStatusPtr := status })

def sysFork (i : Slot) (c : Context) (mem : Bool) : Option Word × Kernel :=
  if ¬ mem then (err ENOMEM, k)
  else match k.taskCreate with
  | none => (err EMFILE, k)
  | some (j, k') =>
    (some (UInt64.ofNat k.nextPid),
      { k' with nextSpace := k.nextSpace + 1 }.put j
        (Task.childOf (k.tasks i) k.nextPid k.nextSpace { c with rax := 0 }))

/-- `sys_clone`: a fork without `CLONE_VM`; with it the child shares the address
space, and with `CLONE_VFORK` the parent sleeps until the child leaves it. -/
def sysClone (i : Slot) (c : Context) (flags stack : Word) (mem : Bool) :
    Option Word × Kernel :=
  if flags &&& CLONE_VM = 0 then k.sysFork i c mem
  else if stack = 0 then (err EINVAL, k)
  else if ¬ mem then (err ENOMEM, k)
  else match k.taskCreate with
  | none => (err EMFILE, k)
  | some (j, k') =>
    let child := { Task.childOf (k.tasks i) k.nextPid ((k.tasks i).pml4.getD 0)
      { c with rsp := stack, rax := 0 } with userStackTop := stack }
    if flags &&& CLONE_VFORK = 0 then (some (UInt64.ofNat k.nextPid), k'.put j child)
    else (none, (k'.put j { child with vforkWaiter := (k.tasks i).pid }).edit i fun t =>
      { t.park { c with rax := UInt64.ofNat k.nextPid } (.vfork k.nextPid) with wakeupAt := 0 })

/-- `proc_execve` once the program is loaded: a task that starts at its entry. -/
def procExecve (parentPid : Nat) (entry stack : Word) : Word × Kernel :=
  match k.taskCreate with
  | none => (err EMFILE, k)
  | some (j, k') =>
    (UInt64.ofNat k.nextPid,
      { k' with nextSpace := k.nextSpace + 1 }.put j
        { pid := k.nextPid, state := .ready, pml4 := some k.nextSpace, userEntry := entry,
          userStackTop := stack, pgid := k.nextPid, sid := k.nextPid, parentPid := parentPid })

/-- `proc_execve_replace_argv` once the new image is loaded. -/
def procExecveReplace (i : Slot) (entry stack : Word) : Kernel :=
  (({ k with nextSpace := k.nextSpace + 1 }.edit i
    (Task.exec k.nextSpace entry stack)).releaseWaiter i).edit i Task.requeue

def ttyInput : Key → Kernel
  | .intr => k.ttySignal
  | .susp => k.ttyStopSignal
  | .plain => k

def sysRtSigaction (i : Slot) (sig : Nat) (act : Option (Word × Word)) :
    Word × Kernel :=
  if sig < 1 ∨ 31 < sig ∨ sig = SIGKILL ∨ sig = SIGSTOP then (err EINVAL, k)
  else match act with
  | none => (0, k)
  | some (handler, restorer) => (0, k.edit i fun t =>
      { t with saHandler := Function.update t.saHandler sig handler,
               saRestorer := Function.update t.saRestorer sig restorer })

/-- `sys_rt_sigreturn`: the frame found on the user stack becomes the saved
context, every word of it. An unreadable frame ends the task. -/
def sysRtSigreturn (i : Slot) : Option Context → Kernel
  | none => k.procExit i (128 + 11)
  | some frame => k.suspend i frame

def sysSetpgid (self : Slot) (pid pgid : Nat) : Word × Kernel :=
  match if pid = 0 then some self else k.taskByPid pid with
  | none => (err ESRCH, k)
  | some i =>
    let t := k.tasks i
    if t.pml4 = none then (err ESRCH, k)
    else
      let new := if pgid = 0 then t.pid else pgid
      let member := (List.finRange 16).find? fun j =>
        decide ((k.tasks j).state ≠ .unused ∧ (k.tasks j).pgid = new)
      if t.pid = t.sid ∧ new ≠ t.pgid then (err EPERM, k)
      else if new ≠ t.pid ∧ (member.map fun j => (k.tasks j).sid) ≠ some t.sid then (err EPERM, k)
      else (0, k.edit i fun t => { t with pgid := new })

def sysSetsid (i : Slot) : Word × Kernel :=
  let t := k.tasks i
  if t.pgid = t.pid then (err EPERM, k)
  else (UInt64.ofNat t.pid, k.edit i fun t => { t with sid := t.pid, pgid := t.pid })

def returning (p : Word × Kernel) : Option Word × Kernel := (some p.1, p.2)

/-- The modelled part of `syscall_dispatch`. No value means that the call jumped to
the scheduler. -/
def syscallDispatch (i : Slot) (c : Context) : Syscall → Option Word × Kernel
  | .nanosleep sec nsec => k.sysNanosleep i c sec nsec
  | .read => k.parkOr i c (k.now + 10) SYS_READ (err EAGAIN)
  | .poll wake => k.parkOr i c wake SYS_POLL 0
  | .ipcSend dest => k.sysIpcSend i c dest
  | .ipcRecv copyOk => k.sysIpcRecv i copyOk
  | .consoleWrite count => k.writeToConsole count
  | .wait4 pid status options copyOk => k.sysWait4 i c pid status options copyOk
  | .fork mem => k.sysFork i c mem
  | .clone flags stack mem => k.sysClone i c flags stack mem
  | .execve (.error v) => (some v, k)
  | .execve (.ok (entry, stack)) => (none, k.procExecveReplace i entry stack)
  | .spawn (.error v) => (some v, k)
  | .spawn (.ok (entry, stack)) => returning (k.procExecve (k.tasks i).pid entry stack)
  | .exit code => (none, k.procExit i code)
  | .kill pid sig => returning (k.sysKill i pid sig)
  | .sigaction sig act => returning (k.sysRtSigaction i sig act)
  | .sigreturn frame => (none, k.sysRtSigreturn i frame)
  | .setpgid pid pgid => returning (k.sysSetpgid i pid pgid)
  | .setsid => returning (k.sysSetsid i)
  | .setFg pid => (some 0, { k with fgPid := pid })
  | .resume pid => returning (k.sysResume pid)
  | .serviceRegister sid =>
    (some (if sid < 16 then 0 else err EINVAL), k.serviceRegister sid (k.tasks i).pid)
  | .ttyInput key =>
    if k.serviceGetPid SERVER_KEYBOARD ≠ 0 ∧ k.serviceGetPid SERVER_KEYBOARD = (k.tasks i).pid
    then (some 0, k.ttyInput key) else (err EPERM, k)
  | .other value => (some value, k)

/-- `int80_dispatch_wrapper` on the way out: with a signal pending the task does not
return to user mode but goes back to the scheduler. -/
def finish (i : Slot) (c : Context) (value : Word) : Kernel :=
  if (k.tasks i).pml4 ≠ none ∧ (k.tasks i).anyPending then
    k.edit i fun t => { t with saved := { c with rax := value }, savedValid := true }.requeue
  else k

def syscall (i : Slot) (c : Context) (call : Syscall) : Kernel :=
  match k.syscallDispatch i c call with
  | (some value, k') => k'.finish i c value
  | (none, k') => k'

end Kernel

end Osnos.Sched
