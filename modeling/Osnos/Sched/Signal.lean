import Osnos.Sched.Table

/-! `kill_one_task`, the terminal's two control characters, the reports that end a `wait4`,
and `proc_exit_current_user`. -/
namespace Osnos.Sched

/-- `err(e)`: the negated error code as the word a call returns. -/
def err (e : Nat) : Word := 0 - UInt64.ofNat e
def EINTR : Nat := 4
def ESRCH : Nat := 3
def EINVAL : Nat := 22

def Task.raise (sig : Nat) (kill : Bool) (t : Task) : Task :=
  { t with sigPending := Function.update t.sigPending sig true,
           killPending := t.killPending || kill }

/-- A signal ends a blocked call: the saved `rax` becomes `-EINTR`. The saved
`rip` and the wait fields keep what the call left there. -/
def Task.interrupt (t : Task) : Task :=
  { t with saved := if t.savedValid then { t.saved with rax := err EINTR } else t.saved,
           wakeupAt := 0, state := .ready }

def Task.continue (t : Task) : Task := { t with state := .ready, waitChange := .continued }
def Task.stop (t : Task) : Task := { t with state := .stopped, waitChange := .stopped }

def Task.waitsFor (t : Task) (pid : Nat) : Bool :=
  decide (t.waitingForPid = -1) || decide (t.waitingForPid = pid)

def Task.report (pid : Nat) (t : Task) : Task :=
  { t with saved := { t.saved with rax := UInt64.ofNat pid }, waitingForPid := 0,
           waitOptions := 0, waitStatusPtr := 0, state := .ready }

def Task.release (pid : Nat) (t : Task) : Task :=
  { t with saved := { t.saved with rax := UInt64.ofNat pid }, state := .ready }

/-- The record an exit leaves: a zombie while there is a parent to collect it. -/
def Task.ended (reapable : Bool) (code : Int) (t : Task) : Task :=
  { t with state := if reapable then .zombie else .dead, pml4 := none, exitCode := code }

def SIGINT : Nat := 2
def SIGKILL : Nat := 9
def SIGTERM : Nat := 15
def SIGCHLD : Nat := 17
def SIGCONT : Nat := 18
def SIGSTOP : Nat := 19
def WNOHANG : UInt32 := 1
def WUNTRACED : UInt32 := 2
def WCONTINUED : UInt32 := 8

def Task.killable (t : Task) : Bool :=
  decide (t.pml4 ≠ none ∧ t.state ≠ .unused ∧ t.state ≠ .dead ∧ t.state ≠ .zombie)

def encodeWaitStatus (code : Int) : Int :=
  if 128 ≤ code ∧ code ≤ 128 + 31 then (code - 128) % 128 else code % 256 * 256

def encodeStoppedStatus (sig : Nat) : Int := (sig % 256) * 256 + 127
def WCONTINUED_STATUS : Int := 0xffff

variable (k : Kernel)

namespace Kernel

def storeStatus (parent : Slot) (status : Int) : Kernel :=
  if (k.tasks parent).waitStatusPtr = 0 then k
  else { k with statusWrites := ⟨parent, (k.tasks parent).waitStatusPtr, status⟩ :: k.statusWrites }

def notifyParent (i : Slot) : Kernel :=
  let t := k.tasks i
  if t.parentPid = 0 then k else
  match k.taskByPid t.parentPid with
  | none => k
  | some p =>
    let parent := k.tasks p
    if parent.pml4 = none ∨ parent.state ≠ .blocked then k
    else if ¬ parent.waitsFor t.pid then k
    else if t.waitChange = .stopped ∧ parent.waitOptions &&& WUNTRACED = 0 then k
    else if t.waitChange = .continued ∧ parent.waitOptions &&& WCONTINUED = 0 then k
    else
      let status := if t.waitChange = .stopped then encodeStoppedStatus SIGSTOP
        else WCONTINUED_STATUS
      ((k.storeStatus p status).edit p (Task.report t.pid)).edit i
        fun c => { c with waitChange := .none }

def killOneTask (i : Slot) (sig : Nat) : Kernel :=
  let t := k.tasks i
  if ¬ t.killable then k
  else
    let k₁ := k.edit i (Task.raise sig (decide (sig = SIGINT ∨ sig = SIGKILL ∨ sig = SIGTERM)))
    if t.state = .blocked then k₁.edit i Task.interrupt
    else if t.state = .stopped ∧ (sig = SIGCONT ∨ sig = SIGKILL) then
      (k₁.edit i Task.continue).notifyParent i
    else k₁

/-- The slots `sys_kill` walks: one pid, the caller's group, everyone, or the
group whose negative it was given. -/
def killTargets (self : Slot) (pid : Int) : List Slot :=
  if 0 < pid then (k.taskByPid pid.toNat).toList
  else
    let group : Nat := if pid = 0 then (k.tasks self).pgid else if pid = -1 then 0
      else (-pid).toNat
    (List.finRange 16).filter fun i => decide (group = 0 ∨ (k.tasks i).pgid = group)

/-- `sys_kill`. What a target does to the others never makes one unreachable, so
the count of deliveries can be taken at the start. -/
def sysKill (self : Slot) (pid : Int) (sig : Nat) : Word × Kernel :=
  if sig < 1 ∨ 31 < sig then (err EINVAL, k)
  else (if (k.killTargets self pid).any fun i => (k.tasks i).killable then 0 else err ESRCH,
    (k.killTargets self pid).foldl (fun k i => k.killOneTask i sig) k)

def ttyDeliverOne (sig : Nat) (k : Kernel) (i : Slot) : Kernel :=
  if (k.tasks i).pml4 = none then k
  else
    let k₁ := k.edit i (Task.raise sig (decide (sig = SIGINT ∨ sig = SIGTERM)))
    if (k.tasks i).state = .blocked then k₁.edit i Task.interrupt else k₁

theorem ttyDeliverOne_other {k : Kernel} {sig : Nat} {i j : Slot} (other : i ≠ j) :
    (k.ttyDeliverOne sig j).tasks i = k.tasks i := by
  unfold ttyDeliverOne
  dsimp only
  split
  · rfl
  split
  · rw [edit_other _ _ other, edit_other _ _ other]
  · rw [edit_other _ _ other]

def ttyStopOne (i : Slot) : Kernel :=
  let t := k.tasks i
  if t.pml4 = none then k
  else if t.state = .blocked then (k.edit i Task.stop).notifyParent i
  else if t.state = .ready ∨ t.state = .running then
    k.edit i fun t => { t with stopPending := true }
  else k

/-- The members of the foreground task's process group, in slot order. The
foreground task is one of them, so the fall-back to it alone never runs. -/
def foreground : List Slot :=
  if k.fgPid = 0 then [] else
  match k.taskByPid k.fgPid with
  | none => []
  | some fg =>
    if (k.tasks fg).pml4 = none then []
    else (List.finRange 16).filter fun i =>
      decide ((k.tasks i).state ≠ .unused ∧ (k.tasks i).pml4 ≠ none ∧
        (k.tasks i).pgid = (k.tasks fg).pgid)

def ttySignal : Kernel := k.foreground.foldl (ttyDeliverOne SIGINT) k
def SERVER_SHELL : Nat := 2

def ttyStopSignal : Kernel :=
  if k.foreground = [] then k
  else ((k.foreground.foldl ttyStopOne k).ipcSend SERVER_SHELL).2

def sysResume (pid : Nat) : Word × Kernel :=
  match k.taskByPid pid with
  | none => (err ESRCH, k)
  | some i =>
    if (k.tasks i).pml4 = none then (err ESRCH, k)
    else if (k.tasks i).state = .stopped then (0, (k.edit i Task.continue).notifyParent i)
    else (0, k)

def liveParent (i : Slot) : Option Slot :=
  if (k.tasks i).parentPid = 0 then none
  else (k.taskByPid (k.tasks i).parentPid).filter fun p =>
    decide ((k.tasks p).pml4 ≠ none ∧ (k.tasks p).state ≠ .dead ∧ (k.tasks p).state ≠ .zombie ∧
      (k.tasks p).state ≠ .unused)

/-- The part of `proc_exit_current_user` that tells the parent: `SIGCHLD`, and the
status if it waits for this child. The child is then reaped on the spot. -/
def tellParent (i p : Slot) (code : Int) : Kernel :=
  let k₁ := k.edit p (Task.raise SIGCHLD false)
  if (k₁.tasks p).state = .blocked ∧ (k₁.tasks p).waitsFor (k.tasks i).pid then
    ((k₁.storeStatus p (encodeWaitStatus code)).edit p (Task.report (k.tasks i).pid)).edit i
      fun t => { t with state := .dead }
  else k₁

/-- The `vfork_waiter_pid` block that exit and exec share. -/
def releaseWaiter (i : Slot) : Kernel :=
  let t := k.tasks i
  if t.vforkWaiter = 0 then k
  else
    let k₁ : Kernel := match k.taskByPid t.vforkWaiter with
      | none => k
      | some w => if (k.tasks w).state = .blocked then k.edit w (Task.release t.pid) else k
    k₁.edit i fun t => { t with vforkWaiter := 0 }

def dropForeground (pid : Nat) : Kernel :=
  if k.fgPid = pid then { k with fgPid := 0 } else k

def exitMarked (i : Slot) (code : Int) : Kernel :=
  ((k.ipcDropForPid (k.tasks i).pid).edit i
    (Task.ended (k.liveParent i).isSome code)).dropForeground (k.tasks i).pid

def exitTold (i : Slot) (code : Int) : Kernel :=
  match k.liveParent i with
  | none => k.exitMarked i code
  | some p => (k.exitMarked i code).tellParent i p code

def exitReleased (i : Slot) (code : Int) : Kernel :=
  (k.exitTold i code).releaseWaiter i

def tellsShell (i : Slot) : Bool :=
  decide (k.serviceGetPid SERVER_SHELL ≠ 0 ∧
    (k.tasks i).parentPid = k.serviceGetPid SERVER_SHELL)

/-- `proc_exit_current_user` up to the jump back to the scheduler. -/
def procExit (i : Slot) (code : Int) : Kernel :=
  let k' := k.exitReleased i code
  if k'.tellsShell i then (k'.ipcSend SERVER_SHELL).2 else k'

end Kernel

end Osnos.Sched
