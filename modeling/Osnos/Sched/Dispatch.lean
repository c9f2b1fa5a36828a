import Osnos.Sched.Signal

/-! `user_task_trampoline` and `user_task_resume`: what happens between the choice of a
ready task and the `iretq` that enters user mode; `timer_handle`; one turn of the scheduler.
-/
namespace Osnos.Sched

def GDT_UCODE : Word := 0x23
def GDT_UDATA : Word := 0x1b
def SIG_DFL : Word := 0
def SIG_IGN : Word := 1
def signals : List Nat := List.range' 1 31
def Task.lowestSignal (t : Task) : Option Nat := signals.find? t.sigPending
def Task.anyPending (t : Task) : Bool := t.lowestSignal.isSome

def Task.clear (sig : Nat) (t : Task) : Task :=
  { t with sigPending := Function.update t.sigPending sig false }

/-- Dropped by default: `SIGCHLD`, `SIGURG`, `SIGWINCH`, and `SIGCONT`, whose work
was done when it was sent. -/
def defaultIgnored (sig : Nat) : Bool := decide (sig = 17 ∨ sig = 23 ∨ sig = 28 ∨ sig = 18)

/-- Stopping by default: `SIGSTOP`, `SIGTSTP`, `SIGTTIN`, `SIGTTOU`. -/
def defaultStops (sig : Nat) : Bool := decide (sig = 19 ∨ sig = 20 ∨ sig = 21 ∨ sig = 22)

/-- Where the `siginfo_t`, the frame and the restorer's slot go below a stack
pointer. -/
def siginfoAddr (rsp : Word) : Word := (rsp - 128) &&& ~~~ 15
def sigframeBase (rsp : Word) : Word := (siginfoAddr rsp - 160) &&& ~~~ 15
def restorerSlot (rsp : Word) : Word := sigframeBase rsp - 8

def handlerContext (c : Context) (sig : Nat) (handler : Word) : Context :=
  { c with rip := handler, rsp := restorerSlot c.rsp, rdi := UInt64.ofNat sig,
           rsi := siginfoAddr c.rsp, rdx := 0 }

/-- How the signal loop of `user_task_resume` ends, with the pending bits it left.
A handler is entered with a copy of the interrupted context on the user stack. -/
inductive Delivery
  | none (t : Task)
  | handler (t : Task) (sig : Nat) (handler : Word)
  | stop (t : Task) (sig : Nat)
  | exit (t : Task) (sig : Nat)

/-- The loop itself. Each round takes the lowest pending signal and clears it, so
the rounds go through the signals in order. `frameOk` says whether the stack below
the saved `rsp` can take the frame: the place is the same in every round. -/
def deliverFrom (frameOk : Bool) : List Nat → Task → Delivery
  | [], t => .none t
  | sig :: rest, t =>
    if ¬ t.sigPending sig then deliverFrom frameOk rest t
    else if t.saHandler sig = SIG_IGN then deliverFrom frameOk rest (t.clear sig)
    else if t.saHandler sig = SIG_DFL then
      if defaultIgnored sig then deliverFrom frameOk rest (t.clear sig)
      else if defaultStops sig then .stop (t.clear sig) sig
      else .exit (t.clear sig) sig
    else if ¬ frameOk then deliverFrom frameOk rest (t.clear sig)
    else .handler (t.clear sig) sig (t.saHandler sig)

def deliver (frameOk : Bool) (t : Task) : Delivery := deliverFrom frameOk signals t

/-- How a dispatch ends. `start` is a first entry: only the five words `iretq` pops
are set. `stop` and `exit` end in a call that does not come back; `kernel` is an idle
processor or a kernel task. -/
inductive Landing
  | resume (c : Context)
  | handler (c : Context) (sig : Nat)
  | start (c : Context)
  | stop
  | exit (code : Int)
  | halt
  | kernel
  deriving DecidableEq, Repr

variable (k : Kernel)

namespace Kernel

/-- `user_task_resume` up to its `iretq` or its last call. -/
def userTaskResume (i : Slot) (frameOk : Bool) : Landing × Kernel :=
  match deliver frameOk (k.tasks i) with
  | .none t => (.resume t.saved, k.put i { t with savedValid := false })
  | .handler t sig h => (.handler (handlerContext t.saved sig h) sig,
      k.put i { t with savedValid := false })
  | .stop t _ => (.stop, k.put i t)
  | .exit t sig => (.exit (128 + sig), k.put i t)

def afterKill (i : Slot) (frameOk : Bool) : Landing × Kernel :=
  let t := k.tasks i
  if t.stopPending then (.stop, k.edit i fun t => { t with stopPending := false })
  else if t.savedValid then k.userTaskResume i frameOk
  else if t.userEntry = 0 ∨ t.userStackTop = 0 then (.halt, k)
  else (.start { rip := t.userEntry, cs := GDT_UCODE, rflags := 0x202, rsp := t.userStackTop,
                 ss := GDT_UDATA }, k)

/-- `user_task_trampoline` up to its last call. A pending kill is put down to the
lowest pending signal, which need not be the one that asked for it. -/
def userTaskTrampoline (i : Slot) (frameOk : Bool) : Landing × Kernel :=
  let t := k.tasks i
  if t.killPending then
    let sig := t.lowestSignal.getD SIGINT
    if sig ≠ SIGKILL ∧ t.saHandler sig ≠ SIG_DFL ∧ t.saHandler sig ≠ SIG_IGN then
      (k.edit i fun t => { t with killPending := false }).afterKill i frameOk
    else (.exit (128 + sig), k.edit i fun t => { t.clear sig with killPending := false })
  else k.afterKill i frameOk

def land (i : Slot) : Landing → Kernel
  | .stop => (k.edit i Task.stop).notifyParent i
  | .exit code => k.procExit i code
  | _ => k

def PREEMPT_QUANTUM : Nat := 5
def TIMER_TICK_MS : Nat := 10

def timerKernel : Kernel :=
  { k with now := k.now + TIMER_TICK_MS, countdown := PREEMPT_QUANTUM }

def suspend (i : Slot) (c : Context) : Kernel :=
  k.edit i fun t => { t with saved := c, savedValid := true, state := .ready }

/-- `timer_handle` from user mode, on the running task in slot `i`. -/
def timerUser (i : Slot) (c : Context) : Kernel :=
  let k₁ := { k with now := k.now + TIMER_TICK_MS }
  if (k₁.tasks i).killPending then k₁.procExit i 130
  else if 0 < k₁.countdown - 1 then { k₁ with countdown := k₁.countdown - 1 }
  else { k₁ with countdown := PREEMPT_QUANTUM }.suspend i c

/-- `task_run_next` up to the entry of the task it picks. -/
def startNext : Kernel :=
  let next := k.pickNext
  let k₁ := { k with current := some next.1 }
  if next.2 then k₁.edit next.1 fun t => { t with state := .running } else k₁

/-- `scheduler_tick`: reap, time out, and stand on the next ready slot. -/
def schedule : Kernel := k.taskReapDead.taskCheckWakeups.startNext

end Kernel

end Osnos.Sched
