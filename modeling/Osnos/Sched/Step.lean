import Osnos.Sched.Causes

/-! A returning system call leaves its caller running; every event changes every slot by
acts with the causes listed for it. -/
namespace Osnos.Sched
open Relation Kernel Option Task

def KeepsRunning (k k' : Kernel) : Prop :=
  ∀ j, (k.tasks j).state = .running → (k'.tasks j).state = .running

variable {C : Causes} {k' k₁ : Kernel} {j : Slot} {t : Task} {f : Task → Task}

namespace KeepsRunning

variable {k k' : Kernel} {i : Slot}

theorem of_tasks (same : k'.tasks = k.tasks) : KeepsRunning k k' := by
  intro j h
  rw [same]
  exact h

theorem put (keeps : (k.tasks i).state = .running → t.state = .running) :
    KeepsRunning k (k.put i t) := by
  intro j running
  by_cases at_i : j = i
  · subst at_i
    rw [put_same]
    exact keeps running
  · rw [put_other k t at_i]
    exact running

theorem edit (keeps : (k.tasks i).state = .running → (f (k.tasks i)).state = .running) :
    KeepsRunning k (k.edit i f) :=
  put keeps

end KeepsRunning

def Kernel.spaces (k : Kernel) (i : Slot) : Option Nat := (k.tasks i).pml4

structure KeepsSpaces (k k' : Kernel) : Prop where
  spaces : k'.spaces = k.spaces
  next : k'.nextSpace = k.nextSpace

theorem KeepsSpaces.trans {k : Kernel} (first : KeepsSpaces k k₁)
    (next : KeepsSpaces k₁ k') : KeepsSpaces k k' :=
  ⟨next.spaces.trans first.spaces, next.next.trans first.next⟩

structure Quiet (k k' : Kernel) : Prop extends KeepsSpaces k k' where
  queue : k'.queue = k.queue
  current : k'.current = k.current

namespace Quiet

variable {k k₁ k' : Kernel} {i : Slot}

theorem refl (k : Kernel) : Quiet k k := ⟨⟨rfl, rfl⟩, rfl, rfl⟩

theorem trans (first : Quiet k k₁) (next : Quiet k₁ k') : Quiet k k' :=
  ⟨first.toKeepsSpaces.trans next.toKeepsSpaces, next.queue.trans first.queue,
    next.current.trans first.current⟩

theorem of_tasks (tasks : k'.tasks = k.tasks) (next : k'.nextSpace = k.nextSpace)
    (queue : k'.queue = k.queue) (current : k'.current = k.current) : Quiet k k' := by
  refine ⟨⟨?_, next⟩, queue, current⟩
  unfold spaces
  rw [tasks]

theorem put (same : t.pml4 = (k.tasks i).pml4) : Quiet k (k.put i t) := by
  refine ⟨⟨?_, rfl⟩, rfl, rfl⟩
  funext j
  unfold spaces
  by_cases at_i : j = i
  · subst at_i
    rw [put_same, same]
  · rw [put_other k t at_i]

theorem edit (same : ∀ t, (f t).pml4 = t.pml4) : Quiet k (k.edit i f) := put (same _)

theorem then_edit (before : Quiet k k₁) (same : ∀ t, (f t).pml4 = t.pml4) : Quiet k (k₁.edit i f) :=
  before.trans (edit same)

theorem editAll (same : ∀ t, (f t).pml4 = t.pml4) : Quiet k (k.editAll f) :=
  ⟨⟨funext fun _ => same _, rfl⟩, rfl, rfl⟩

end Quiet

structure Nudges (k k' : Kernel) : Prop extends Quiet k k' where
  running : KeepsRunning k k'

namespace Nudges

variable {k k₁ k' : Kernel} {i : Slot}

theorem refl (k : Kernel) : Nudges k k := ⟨.refl k, fun _ h => h⟩

theorem trans (first : Nudges k k₁) (next : Nudges k₁ k') : Nudges k k' :=
  ⟨first.toQuiet.trans next.toQuiet, fun j h => next.running j (first.running j h)⟩

theorem edit (same : ∀ t, (f t).pml4 = t.pml4)
    (keeps : (k.tasks i).state = .running → (f (k.tasks i)).state = .running) :
    Nudges k (k.edit i f) :=
  ⟨.edit same, .edit keeps⟩

theorem off (f : Task → Task) (off : (k.tasks i).state ≠ .running)
    (same : ∀ t, (f t).pml4 = t.pml4) : Nudges k (k.edit i f) :=
  edit same fun running => absurd running off

theorem raise (sig : Nat) (kill : Bool) : Nudges k (k.edit i (Task.raise sig kill)) :=
  edit (fun _ => rfl) id

theorem foldl {f : Kernel → Slot → Kernel} (one : ∀ k i, Nudges k (f k i)) (l : List Slot) :
    ∀ k, Nudges k (l.foldl f k) := by
  induction l with
  | nil => exact refl
  | cons i l ih => exact fun k => (one k i).trans (ih (f k i))

end Nudges

section Keeps

variable {k : Kernel} {i : Slot}

theorem taskUnblock_nudges (pid : Nat) : Nudges k (k.taskUnblock pid) := by
  refine ⟨.editAll fun t => ?_, fun j running => ?_⟩
  · unfold unblock
    split_ifs <;> rfl
  · simp [taskUnblock, unblock, running]

theorem taskWakePollers_nudges : Nudges k k.taskWakePollers := by
  refine ⟨.editAll fun t => ?_, fun j running => ?_⟩
  · unfold wakePoller
    split_ifs <;> rfl
  · simp [taskWakePollers, wakePoller, running]

theorem ipcSend_nudges (k : Kernel) (dest : Nat) :
    Nudges { k with queue := (k.ipcSend dest).2.queue } (k.ipcSend dest).2 := by
  unfold ipcSend
  split
  · exact .refl k
  split
  · exact .refl k
  · exact taskUnblock_nudges _

theorem ipcRecv_nudges (k : Kernel) (pid : Nat) :
    Nudges { k with queue := (k.ipcRecv pid).2.queue } (k.ipcRecv pid).2 := by
  unfold ipcRecv
  split
  · exact taskWakePollers_nudges
  · exact .refl k

theorem storeStatus_nudges (status : Int) : Nudges k (k.storeStatus i status) := by
  refine ⟨?_, .of_tasks (storeStatus_tasks k i status)⟩
  unfold storeStatus
  split
  · exact .refl k
  · exact .of_tasks rfl rfl rfl rfl

theorem notifyParent_nudges : Nudges k (k.notifyParent i) := by
  refine notifyParent_rule k i (.refl k) fun p status _ asleep _ _ => ?_
  refine .trans (.trans (storeStatus_nudges _) (.off (report _) ?_ fun _ => rfl))
    (.edit (fun _ => rfl) id)
  rw [storeStatus_tasks, asleep]
  decide

theorem killOneTask_nudges (sig : Nat) : Nudges k (k.killOneTask i sig) := by
  unfold killOneTask
  dsimp only
  split
  · exact .refl k
  split
  next asleep =>
    exact (Nudges.raise sig _).trans (.off _ (by simp [Task.raise, asleep]) fun _ => rfl)
  split
  next stopped =>
    exact ((Nudges.raise sig _).trans (.off Task.continue (by simp [Task.raise, stopped.1])
      fun _ => rfl)).trans notifyParent_nudges
  · exact .raise sig _

theorem ttyDeliverOne_nudges (sig : Nat) : Nudges k (k.ttyDeliverOne sig i) := by
  unfold ttyDeliverOne
  dsimp only
  split
  · exact .refl k
  split
  next asleep =>
    exact (Nudges.raise sig _).trans (.off _ (by simp [Task.raise, asleep]) fun _ => rfl)
  · exact .raise sig _

theorem ttyStopOne_nudges : Nudges k (k.ttyStopOne i) := by
  unfold ttyStopOne
  dsimp only
  split
  · exact .refl k
  split
  next asleep =>
    exact (Nudges.off Task.stop (by simp [asleep]) fun _ => rfl).trans notifyParent_nudges
  split
  · exact .edit (fun _ => rfl) id
  · exact .refl k

theorem ttyInput_nudges (key : Key) :
    Nudges { k with queue := (k.ttyInput key).queue } (k.ttyInput key) := by
  cases key with
  | intr =>
    have hit : Nudges k (k.ttyInput .intr) := .foldl (fun _ _ => ttyDeliverOne_nudges SIGINT) _ k
    rwa [hit.queue]
  | susp =>
    unfold ttyInput ttyStopSignal
    dsimp only
    split
    · exact .refl k
    have stopped : Nudges k k.stopped := .foldl (fun _ _ => ttyStopOne_nudges) _ k
    have sent := ipcSend_nudges k.stopped SERVER_SHELL
    exact ⟨⟨⟨sent.spaces.trans stopped.spaces, sent.next.trans stopped.next⟩, rfl,
      sent.current.trans stopped.current⟩, fun j h => sent.running j (stopped.running j h)⟩
  | plain => exact .refl k

theorem sysResume_nudges (pid : Nat) : Nudges k (k.sysResume pid).2 := by
  unfold sysResume
  split
  · exact .refl k
  split
  · exact .refl k
  split
  next stopped =>
    exact (Nudges.off Task.continue (by simp [stopped]) fun _ => rfl).trans notifyParent_nudges
  · exact .refl k

theorem sysKill_nudges (self : Slot) (pid : Int) (sig : Nat) :
    Nudges k (k.sysKill self pid sig).2 := by
  unfold sysKill
  split
  · exact .refl k
  · exact .foldl (fun _ _ => killOneTask_nudges sig) _ k

theorem taskCreate_some (created : k.taskCreate = some (j, k')) :
    k.freeSlot = some j ∧ ((k.tasks j).state = .unused ∨ (k.tasks j).state = .dead) ∧
      k' = { k.put j { pid := k.nextPid, state := .ready } with nextPid := k.nextPid + 1 } := by
  unfold taskCreate at created
  rw [map_eq_some_iff] at created
  obtain ⟨_, found, eq⟩ := created
  cases eq
  exact ⟨found, by simpa using List.find?_some found, rfl⟩

end Keeps

section Calls

variable {k : Kernel} {i : Slot} {c : Context} {call : Syscall}

theorem onCpu_some (found : k.onCpu = some i) :
    k.current = some i ∧ (k.tasks i).state = .running := by
  unfold onCpu at found
  rw [filter_eq_some_iff] at found
  exact ⟨found.1, by simpa using found.2⟩

theorem userSlot_some (found : k.userSlot = some i) :
    k.onCpu = some i ∧ (k.tasks i).state = .running ∧ (k.tasks i).pml4 ≠ none := by
  unfold userSlot at found
  rw [filter_eq_some_iff] at found
  exact ⟨found.1, (onCpu_some found.1).2, by simpa using found.2⟩

structure CallMoves (k : Kernel) (i : Slot) (c : Context) (call : Syscall)
    (result : Option Word × Kernel) : Prop where
  moves : Moves (k.causes (.syscall c call)) k result.2
  keeps : result.1.isSome = true → (result.2.tasks i).state = .running

theorem CallMoves.jump (moves : Moves (k.causes (.syscall c call)) k k') : CallMoves k i c call
    (none, k') :=
  ⟨moves, fun returns => by cases returns⟩

theorem ipcSend_event (call : Syscall) (dest : Nat)
    (point : k.messagePoint (.syscall c call) = some (k, dest)) :
    Moves (k.causes (.syscall c call)) k (k.ipcSend dest).2 :=
  ipcSend_moves fun _ reached => ⟨k, dest, point, reached⟩

theorem reap_moves (reaped : C.bury j) : Moves C k (k.edit j reap) := by
  apply Moves.edit
  unfold reap
  split
  next zombie =>
    exact .bury reaped zombie
  · exact .tweak (noted_tweak _)

theorem create_moves (created : k.taskCreate = some (j, k')) (new : C.create j t)
    (same : k₁.tasks = k'.tasks)
    (counted : k'.nextPid ≤ k₁.nextPid) : Moves C k (k₁.put j t) := by
  obtain ⟨-, free, rfl⟩ := taskCreate_some created
  have placed : Moves C k (k.put j t) := .put (.single (.create free new))
  refine placed.trans (.of_tasks ?_ (Nat.le_of_succ_le counted))
  simp [put, same]

theorem create_keeps (created : k.taskCreate = some (j, k')) (same : k₁.tasks = k'.tasks) :
    KeepsRunning k (k₁.put j t) := by
  obtain ⟨-, free, rfl⟩ := taskCreate_some created
  have placed : KeepsRunning k (k.put j t) := by
    refine .put fun running => ?_
    rcases free with unused | dead
    · rw [unused] at running
      cases running
    · rw [dead] at running
      cases running
  intro l running
  have tasks : (k₁.put j t).tasks = (k.put j t).tasks := by simp [put, same]
  rw [tasks]
  exact placed l running

theorem create_other (created : k.taskCreate = some (j, k'))
    (running : (k.tasks i).state = .running) : (k'.put j t).tasks i = k.tasks i := by
  obtain ⟨-, free, rfl⟩ := taskCreate_some created
  have other : i ≠ j := by
    rintro rfl
    simp [running] at free
  rw [put_other _ _ other]
  exact put_other _ _ other

theorem procExecve_moves {e : Event} {parentPid : Nat} (entry stack : Word)
    (event : e.creates)
    (parent : parentPid = 0 ∨ ∃ i, k.userSlot = some i ∧ parentPid = (k.tasks i).pid) :
    Moves (k.causes e) k (k.procExecve parentPid entry stack).2 ∧
      KeepsRunning k (k.procExecve parentPid entry stack).2 := by
  unfold procExecve
  split
  · exact ⟨Moves.refl k, .of_tasks rfl⟩
  rename_i j k' created
  refine ⟨create_moves created ?_ rfl le_rfl, create_keeps created rfl⟩
  exact ⟨event, (taskCreate_some created).1, rfl, rfl, parent, rfl, rfl, rfl, rfl,
    fun valid => (nomatch valid), .inl rfl⟩

theorem exec_tweak (t : Task) (user : t.pml4 ≠ none) (space : Nat) (entry stack : Word) :
    Tweak { t with savedValid := false } (t.exec space entry stack) :=
  { noted_tweak { t with savedValid := false } with
    user := by simp [Task.exec, user]
    kill := fun set => by simp [Task.exec] at set }

theorem requeue_act (running : t.state = .running) : Act C i t t.requeue := by
  rw [requeue, if_pos running]
  exact .requeue running

theorem requeue_moves : Moves C k (k.edit i requeue) := by
  apply Moves.put
  unfold requeue
  split
  next running =>
    exact .single (.requeue running)
  · exact .refl

theorem ttyInput_moves {e : Event} {key : Key} (brings : k.keyOf e = some key) :
    Moves (k.causes e) k (k.ttyInput key) := by
  cases key with
  | intr =>
    refine ttySignal_moves fun i member => ?_
    change k.Signals e i
    unfold Signals
    split
    · cases brings
    · exact ⟨brings, member⟩
  | susp =>
    refine ttyStopSignal_moves (fun i member => .inl ⟨brings, member⟩) ?_ ?_
    · intro i member asleep t parent asked
      exact ⟨i, .stop, rfl, parent.symm, .stopKey brings member asleep, asked⟩
    intro t some_one reached
    refine ⟨k.stopped, SERVER_SHELL, ?_, reached⟩
    unfold messagePoint
    split
    · cases brings
    · cases brings
    · rw [if_pos ⟨brings, some_one⟩]
  | plain => exact .refl k

theorem procExit_event {e : Event} {code : Int}
    (point : k.exitPoint e = some (k₁, i, code)) (before : Moves (k.causes e) k k₁)
    (running : (k₁.tasks i).state = .running) (pid : (k₁.tasks i).pid = (k.tasks i).pid)
    (parentPid : (k₁.tasks i).parentPid = (k.tasks i).parentPid)
    (waiter : (k₁.tasks i).vforkWaiter = (k.tasks i).vforkWaiter ∨ (k₁.tasks i).vforkWaiter = 0) :
    Moves (k.causes e) k (k₁.procExit i code) := by
  refine before.trans (procExit_moves running ⟨k₁, code, point, rfl⟩
    (.inl ⟨k₁, code, point⟩) ?_ ?_ ?_)
  · intro t parent asked
    exact ⟨i, .exit, pid.symm, parentPid.symm.trans parent.symm, .exit point, asked⟩
  · intro some_one
    refine ⟨i, pid.symm, ?_, .inl ⟨k₁, code, point⟩⟩
    rcases waiter with same | none
    · exact same.symm
    · exact absurd none some_one
  intro t tells reached
  refine ⟨k₁.exitReleased i code, SERVER_SHELL, ?_, reached⟩
  unfold messagePoint
  split
  · cases point
  · cases point
  rw [if_neg, point]
  · simp [tells]
  rintro ⟨key, -⟩
  unfold keyOf at key
  split at key
  · cases point
  · cases point
  · cases key

theorem serviceRegister_tasks (k : Kernel) (sid pid : Nat) :
    (k.serviceRegister sid pid).tasks = k.tasks := by
  unfold serviceRegister
  split <;> rfl

theorem serviceRegister_moves {sid pid : Nat} : Moves C k (k.serviceRegister sid pid) := by
  refine Moves.of_tasks (serviceRegister_tasks k sid pid) ?_
  unfold serviceRegister
  split <;> exact le_rfl

section
variable (caller : k.userSlot = some i)
include caller

theorem CallMoves.stay (value : Option Word) : CallMoves k i c call (value, k) :=
  ⟨Moves.refl k, fun _ => (userSlot_some caller).2.1⟩

theorem CallMoves.of_keeps (moves : Moves (k.causes (.syscall c call)) k k')
    (keeps : KeepsRunning k k')
    (value : Option Word) : CallMoves k i c call (value, k') :=
  ⟨moves, fun _ => keeps i (userSlot_some caller).2.1⟩

theorem CallMoves.parks (parks : k.Parks (.syscall c call) (k.tasks i) (f (k.tasks i))) :
    CallMoves k i c call (none, k.edit i f) := by
  obtain ⟨onCpu, running, -⟩ := userSlot_some caller
  exact .jump (Moves.edit (.park running ⟨onCpu, rfl, parks⟩))

theorem CallMoves.tweak (tweak : Tweak (k.tasks j) (f (k.tasks j))) (value : Option Word) :
    CallMoves k i c call (value, k.edit j f) :=
  .of_keeps caller (Moves.edit (.tweak tweak))
    (.edit fun running => tweak.state.trans running) value

theorem sysNanosleep_moves {sec nsec : Int} :
    CallMoves k i c (.nanosleep sec nsec) (k.sysNanosleep i c sec nsec) := by
  unfold sysNanosleep
  split
  · exact .stay caller _
  dsimp only
  split
  · exact .stay caller _
  · exact .parks caller (.nanosleep rfl)

theorem parkOr_moves {wake : Nat} {nr failed : Word}
    (number : nr = SYS_READ ∨ nr = SYS_POLL ∨ nr = SYS_IPC_SEND) :
    CallMoves k i c call (k.parkOr i c wake nr failed) := by
  unfold parkOr
  split
  next k' parked =>
    unfold blockRestart at parked
    split at parked
    · cases parked
    · cases parked
      exact .parks caller (.restart number)
  · exact .stay caller _

theorem sysIpcSend_moves {dest : Nat} :
    CallMoves k i c (.ipcSend dest) (k.sysIpcSend i c dest) := by
  have moves := ipcSend_event (k := k) (c := c) (.ipcSend dest) dest rfl
  have keeps := (ipcSend_nudges k dest).running
  unfold sysIpcSend
  split
  next k' sent =>
    rw [sent] at moves keeps
    exact .of_keeps caller moves keeps _
  · exact .stay caller _
  · exact parkOr_moves caller (.inr (.inr rfl))

theorem sysIpcRecv_moves {copyOk : Bool} :
    CallMoves k i c (.ipcRecv copyOk) (k.sysIpcRecv i copyOk) := by
  have moves := ipcRecv_moves (C := k.causes (.syscall c (.ipcRecv copyOk))) (k := k) (k.tasks i).pid
  have keeps := (ipcRecv_nudges k (k.tasks i).pid).running
  unfold sysIpcRecv
  split
  · exact .stay caller _
  rename_i k' received
  rw [received] at moves keeps
  exact .of_keeps caller moves keeps _

theorem writeToConsole_moves {count : Word} :
    CallMoves k i c (.consoleWrite count) (k.writeToConsole count) := by
  have moves := ipcSend_event (k := k) (c := c) (.consoleWrite count) SERVER_CONSOLE rfl
  have keeps := (ipcSend_nudges k SERVER_CONSOLE).running
  unfold writeToConsole
  split
  next k' sent =>
    rw [sent] at moves keeps
    exact .of_keeps caller moves keeps _
  · exact .stay caller _
  · exact .stay caller _

theorem sysWait4_moves {pid : Int} {status : Word} {options : UInt32} {copyOk : Bool} :
    CallMoves k i c (.wait4 pid status options copyOk)
    (k.sysWait4 i c pid status options copyOk) := by
  unfold sysWait4
  split
  · exact .stay caller _
  split
  next found =>
    have reaped := reap_moves (k := k)
      (C := k.causes (.syscall c (.wait4 pid status options copyOk)))
      (.inr ⟨c, pid, status, options, copyOk, i, rfl, caller, found⟩)
    refine .of_keeps caller reaped (.edit fun running => ?_) _
    simp [reap, running]
  · split
    · exact .stay caller _
    · exact .parks caller .wait4

theorem childOf_creates {space waiter : Nat} {saved : Context}
    {top : Word} (event : (Event.syscall c call).creates)
    (slot : k.freeSlot = some j) (mode : SameMode c saved)
    (waits : waiter = 0 ∨ waiter = (k.tasks i).pid) :
    k.Creates (.syscall c call) j
      { childOf (k.tasks i) k.nextPid space saved with
        userStackTop := top, vforkWaiter := waiter } where
  event := event
  slot := slot
  pid := rfl
  state := rfl
  parentPid := .inr ⟨i, caller, rfl⟩
  waitingForPid := rfl
  wakeupAt := rfl
  call := rfl
  killPending := rfl
  saved := fun _ => .inl ⟨c, rfl, mode⟩
  vforkWaiter := waits.imp id fun same => ⟨i, caller, same⟩

theorem sysFork_moves {mem : Bool} (event : (Event.syscall c call).creates) :
    CallMoves k i c call (k.sysFork i c mem) := by
  unfold sysFork
  split
  · exact .stay caller _
  split
  · exact .stay caller _
  rename_i j k' created
  refine .of_keeps caller (create_moves created ?_ ?_ ?_) (create_keeps created ?_) _
  · exact childOf_creates caller event (taskCreate_some created).1 ⟨rfl, rfl, rfl⟩ (.inl rfl)
  · rfl
  · exact le_rfl
  · rfl

theorem sysClone_moves {flags stack : Word} {mem : Bool} :
    CallMoves k i c (.clone flags stack mem) (k.sysClone i c flags stack mem) := by
  unfold sysClone
  split
  · exact sysFork_moves caller rfl
  split
  · exact .stay caller _
  split
  · exact .stay caller _
  split
  · exact .stay caller _
  rename_i j k' created
  have slot := (taskCreate_some created).1
  dsimp only
  split
  · refine .of_keeps caller (create_moves created ?_ rfl le_rfl) (create_keeps created rfl) _
    exact childOf_creates caller rfl slot ⟨rfl, rfl, rfl⟩ (.inl rfl)
  -- the child is placed first, then the parent goes to sleep in its own slot
  obtain ⟨onCpu, running, -⟩ := userSlot_some caller
  refine .jump ((create_moves created ?_ rfl le_rfl).edit_same
    (create_other created running) ?_)
  · exact childOf_creates caller rfl slot ⟨rfl, rfl, rfl⟩ (.inr rfl)
  · exact .park running ⟨onCpu, rfl, .vfork⟩

theorem procExecveReplace_moves {image : Word × Word} :
    Moves (k.causes (.syscall c (.execve (.ok image)))) k
      (k.procExecveReplace i image.1 image.2) := by
  obtain ⟨-, running, user⟩ := userSlot_some caller
  have fresh : Moves (k.causes (.syscall c (.execve (.ok image)))) k
      { k with nextSpace := k.nextSpace + 1 } := Moves.of_tasks rfl le_rfl
  have replaced : Moves (k.causes (.syscall c (.execve (.ok image)))) k
      ({ k with nextSpace := k.nextSpace + 1 }.edit i
        (Task.exec k.nextSpace image.1 image.2)) := by
    refine fresh.trans (.put ?_)
    exact (ReflTransGen.single (.consume running)).tail (.tweak (exec_tweak _ user _ _ _))
  refine (replaced.trans (releaseWaiter_moves fun _ => ?_)).trans requeue_moves
  rw [edit_same]
  exact ⟨i, rfl, rfl, .inr ⟨caller, c, image, rfl⟩⟩

theorem sysRtSigaction_moves {sig : Nat} {act : Option (Word × Word)} :
    CallMoves k i c call (returning (k.sysRtSigaction i sig act)) := by
  unfold sysRtSigaction
  split
  · exact .stay caller _
  split
  · exact .stay caller _
  dsimp only [returning]
  refine .tweak caller ?_ (some _)
  exact { noted_tweak (k.tasks i) with }

theorem sysSetpgid_moves {pid pgid : Nat} :
    CallMoves k i c call (returning (k.sysSetpgid i pid pgid)) := by
  unfold sysSetpgid
  split
  · exact .stay caller _
  rename_i j _
  dsimp only
  split
  · exact .stay caller _
  generalize (if pgid = 0 then (k.tasks j).pid else pgid) = new
  split
  · exact .stay caller _
  split
  · exact .stay caller _
  dsimp only [returning]
  refine .tweak caller ?_ (some _)
  exact { noted_tweak (k.tasks j) with }

theorem sysSetsid_moves : CallMoves k i c call (returning (k.sysSetsid i)) := by
  unfold sysSetsid
  dsimp only
  split
  · exact .stay caller _
  dsimp only [returning]
  refine .tweak caller ?_ (some _)
  exact { noted_tweak (k.tasks i) with }

theorem sysKill_call {pid : Int} {sig : Nat} :
    CallMoves k i c (.kill pid sig) (returning (k.sysKill i pid sig)) := by
  obtain ⟨-, running, -⟩ := userSlot_some caller
  by_cases range : sig < 1 ∨ 31 < sig
  · rw [sysKill, if_pos range]
    exact .stay caller _
  refine ⟨sysKill_moves ?_ ?_, fun _ => (sysKill_nudges i pid sig).running i running⟩
  · exact fun j member => ⟨by omega, i, caller, member⟩
  · intro j member stopped wakes t parent asked
    exact ⟨j, .continue, rfl, parent.symm, .kill caller member wakes stopped, asked⟩

theorem sysResume_call {pid : Nat} :
    CallMoves k i c (.resume pid) (returning (k.sysResume pid)) := by
  refine ⟨sysResume_moves ?_, fun _ => (sysResume_nudges pid).running i (userSlot_some caller).2.1⟩
  intro j found stopped t parent asked
  exact ⟨j, .continue, rfl, parent.symm, .resume found stopped, asked⟩

end

theorem syscallDispatch_moves (call : Syscall) (caller : k.userSlot = some i) :
    CallMoves k i c call (k.syscallDispatch i c call) := by
  obtain ⟨-, running, -⟩ := userSlot_some caller
  cases call with
  | nanosleep => exact sysNanosleep_moves caller
  | read => exact parkOr_moves caller (.inl rfl)
  | poll => exact parkOr_moves caller (.inr (.inl rfl))
  | ipcSend => exact sysIpcSend_moves caller
  | ipcRecv => exact sysIpcRecv_moves caller
  | consoleWrite => exact writeToConsole_moves caller
  | wait4 => exact sysWait4_moves caller
  | fork => exact sysFork_moves caller rfl
  | clone => exact sysClone_moves caller
  | execve result =>
    cases result with
    | error => exact .stay caller _
    | ok => exact .jump (procExecveReplace_moves caller)
  | spawn result =>
    cases result with
    | error => exact .stay caller _
    | ok image =>
      obtain ⟨moves, keeps⟩ := procExecve_moves (k := k) (e := .syscall c (.spawn (.ok image)))
        image.1 image.2 rfl (.inr ⟨i, caller, rfl⟩)
      exact .of_keeps caller moves keeps _
  | exit code =>
    have point : k.exitPoint (.syscall c (.exit code)) = some (k, i, code) :=
      (congrArg (Option.map fun i => (k, i, code)) caller)
    exact .jump (procExit_event point (Moves.refl k) running rfl rfl (.inl rfl))
  | kill => exact sysKill_call caller
  | sigaction => exact sysRtSigaction_moves caller
  | sigreturn frame =>
    cases frame with
    | none =>
      have point : k.exitPoint (.syscall c (.sigreturn none)) = some (k, i, 128 + 11) :=
        (congrArg (Option.map fun i => (k, i, 128 + 11)) caller)
      exact .jump (procExit_event point (Moves.refl k) running rfl rfl (.inl rfl))
    | some =>
      refine .jump (Moves.put (.tail (.single (.save running (.inr ⟨c, rfl⟩))) ?_))
      exact .requeue running
  | setpgid => exact sysSetpgid_moves caller
  | setsid => exact sysSetsid_moves caller
  | setFg => exact ⟨Moves.of_tasks rfl le_rfl, fun _ => running⟩
  | resume => exact sysResume_call caller
  | serviceRegister sid =>
    exact .of_keeps caller serviceRegister_moves (.of_tasks (serviceRegister_tasks k sid _)) _
  | ttyInput key =>
    simp only [syscallDispatch]
    split
    next owner =>
      refine .of_keeps caller (ttyInput_moves ?_) (ttyInput_nudges key).running _
      have named : (k.tasks i).pid ≠ 0 := owner.2 ▸ owner.1
      simp [keyOf, caller, owner.2, named]
    · exact .stay caller _
  | other => exact .stay caller _

theorem syscall_moves (call : Syscall) (caller : k.userSlot = some i) :
    Moves (k.causes (.syscall c call)) k (k.syscall i c call) := by
  obtain ⟨moves, keeps⟩ := syscallDispatch_moves (c := c) call caller
  unfold syscall
  split
  next value k' returned =>
    rw [returned] at moves keeps
    have running : (k'.tasks i).state = .running := keeps rfl
    refine moves.trans ?_
    unfold finish
    split
    · apply Moves.put
      have saved : (k.causes (.syscall c call)).save { c with rax := value } :=
        .inl ⟨c, rfl, rfl, rfl, rfl⟩
      exact .tail (.single (.save running saved)) (requeue_act running)
    · exact .refl k'
  next k' jumped =>
    rw [jumped] at moves
    exact moves

end Calls

section Events

variable {k k' : Kernel} {i : Slot} {c : Context}

theorem timerUser_moves (caller : k.userSlot = some i) :
    Moves (k.causes (.timerUser c)) k (k.timerUser i c) := by
  obtain ⟨-, running, -⟩ := userSlot_some caller
  have ticked : Moves (k.causes (.timerUser c)) k
      { k with now := k.now + TIMER_TICK_MS } := Moves.of_tasks rfl le_rfl
  unfold timerUser
  dsimp only
  split
  next kill =>
    have point : k.exitPoint (.timerUser c) =
        some ({ k with now := k.now + TIMER_TICK_MS }, i, 130) := by
      change ((k.userSlot.filter fun i => (k.tasks i).killPending).map fun i => _) = _
      rw [caller, filter_some, if_pos kill]
      rfl
    exact procExit_event point ticked running rfl rfl (.inl rfl)
  split
  · exact .of_tasks rfl le_rfl
  have counted : Moves (k.causes (.timerUser c)) k { k with
      now := k.now + TIMER_TICK_MS, countdown := PREEMPT_QUANTUM } :=
    Moves.of_tasks rfl le_rfl
  refine counted.trans (.put ?_)
  exact .tail (.single (.save running (.inl ⟨c, rfl, rfl, rfl, rfl⟩))) (.requeue running)

theorem schedule_picks (running : (k.schedule.tasks i).state = .running) :
    (k.taskReapDead.taskCheckWakeups.tasks i).state = .ready ∨
      (k.taskReapDead.taskCheckWakeups.tasks i).state = .running := by
  unfold schedule at running
  generalize k.taskReapDead.taskCheckWakeups = k₁ at running
  rcases startNext_cases k₁ with ⟨ready, eq⟩ | eq
  · rw [eq] at running
    by_cases picked : i = k₁.pickNext.1
    · exact .inl (picked ▸ ready)
    · rw [edit_other _ _ picked] at running
      exact .inr running
  · rw [eq] at running
    exact .inr running

theorem schedule_running (running : (k.schedule.tasks i).state = .running) :
    (k.tasks i).state = .ready ∨ (k.tasks i).state = .blocked ∨ (k.tasks i).state = .running := by
  have before := schedule_picks running
  have reaped : (k.taskReapDead.tasks i).state = .ready ∨
      (k.taskReapDead.tasks i).state = .blocked ∨ (k.taskReapDead.tasks i).state = .running := by
    simp only [taskCheckWakeups, editAll_tasks, checkWakeup] at before
    split at before
    next asleep =>
      exact .inr (.inl asleep.1)
    · exact before.imp id .inr
  cases taskReapDead_tasks k i with
  | inl same => rwa [same] at reaped
  | inr cleared =>
    rw [cleared.1] at reaped
    simp at reaped

theorem schedule_alive (running : (k.schedule.tasks i).state = .running) :
    (k.tasks i).state ≠ .dead := by
  rcases schedule_running running with state | state | state <;> simp [state]

theorem dispatchTo_eq {frameOk : Bool} (picked : k.schedule.userSlot = some i) :
    k.dispatchTo frameOk = k.schedule.userTaskTrampoline i frameOk := by
  unfold dispatchTo
  rw [picked]

theorem dispatch_user (frameOk : Bool) (picked : k.schedule.userSlot = some i) :
    OwnSlot (k.causes (.dispatch frameOk)) i k.schedule (k.dispatchTo frameOk).2 ∧
      SameIdentity (k.tasks i) (k.schedule.tasks i) ∧
      (k.schedule.tasks i).state = .running := by
  obtain ⟨-, running, -⟩ := userSlot_some picked
  rw [dispatchTo_eq picked]
  exact ⟨userTaskTrampoline_own running, schedule_identity k i (schedule_alive running), running⟩

theorem scheduled (frameOk : Bool) : Moves (k.causes (.dispatch frameOk)) k k.schedule :=
  schedule_moves rfl fun _ picks => ⟨⟨frameOk, rfl⟩, picks⟩

theorem land_moves {frameOk : Bool} {landing : Landing} (picked : k.schedule.userSlot = some i)
    (lands : k.dispatchTo frameOk = (landing, k₁)) :
    Moves (k.causes (.dispatch frameOk)) k (k₁.land i landing) := by
  obtain ⟨own, same, running⟩ := dispatch_user frameOk picked
  rw [lands] at own
  have before : Moves (k.causes (.dispatch frameOk)) k k₁ := (scheduled frameOk).trans own.moves
  have pid : (k₁.tasks i).pid = (k.tasks i).pid := own.pid.trans same.pid
  have parentPid : (k₁.tasks i).parentPid = (k.tasks i).parentPid :=
    own.parentPid.trans same.parentPid
  have still : (k₁.tasks i).state = .running := own.state.trans running
  cases landing with
  | stop =>
    have stops : k.Changes (.dispatch frameOk) i .stop := .stopSelf picked lands
    refine (before.trans (.edit (.stop (.inr stops) (.inr still)))).trans
      (notifyParent_moves ?_)
    intro t parent asked
    rw [edit_same] at parent asked ⊢
    exact ⟨i, .stop, pid.symm, parentPid.symm.trans parent.symm, stops, asked⟩
  | exit code =>
    have point : k.exitPoint (.dispatch frameOk) = some (k₁, i, code) := by
      unfold exitPoint
      dsimp only
      rw [picked, lands]
    refine procExit_event point before still pid parentPid ?_
    exact own.vfork.imp (fun kept => kept.trans same.vforkWaiter) id
  | resume | handler | start | halt | kernel => exact before

theorem dispatch_moves {frameOk : Bool} (run : k.dispatch frameOk = some k') :
    Moves (k.causes (.dispatch frameOk)) k k' := by
  unfold dispatch at run
  split at run
  · cases run
  rename_i landing k₁ _ lands
  split at run
  next i picked =>
    cases run
    exact land_moves picked lands
  rename_i idle
  unfold dispatchTo at lands
  rw [idle] at lands
  rw [← some.inj run, ← (Prod.mk.inj lands).2]
  exact scheduled frameOk

theorem step_moves {e : Event} (run : k.step e = some k') : Moves (k.causes e) k k' := by
  unfold step at run
  split at run
  · cases run
  cases e with
  | timerKernel =>
    dsimp only at run
    split at run
    · cases run
      exact .of_tasks rfl le_rfl
    · cases run
  | timerUser =>
    obtain ⟨i, caller, rfl⟩ := map_eq_some_iff.1 run
    exact timerUser_moves caller
  | input =>
    cases run
    exact taskWakePollers_moves
  | dispatch =>
    dsimp only at run
    split at run
    · exact dispatch_moves run
    · cases run
  | syscall c call =>
    obtain ⟨i, caller, rfl⟩ := map_eq_some_iff.1 run
    exact syscall_moves call caller
  | fault =>
    obtain ⟨i, caller, rfl⟩ := map_eq_some_iff.1 run
    have point : k.exitPoint .fault = some (k, i, 128 + 11) :=
      (congrArg (Option.map fun i => (k, i, 128 + 11)) caller)
    exact procExit_event point (Moves.refl k) (userSlot_some caller).2.1 rfl rfl (.inl rfl)
  | serverDone =>
    obtain ⟨i, -, rfl⟩ := map_eq_some_iff.1 run
    exact requeue_moves
  | serverSleep =>
    obtain ⟨i, server, rfl⟩ := map_eq_some_iff.1 run
    have onCpu := (filter_eq_some_iff.1 server).1
    exact .edit (.park (onCpu_some onCpu).2 ⟨onCpu, rfl, .server⟩)
  | serverKey =>
    obtain ⟨i, -, rfl⟩ := map_eq_some_iff.1 run
    exact ttyInput_moves rfl
  | bootTask =>
    dsimp only at run
    split at run
    · obtain ⟨⟨j, k₁⟩, created, rfl⟩ := map_eq_some_iff.1 run
      obtain ⟨slot, free, eq⟩ := taskCreate_some created
      have new : k.Creates .bootTask j { pid := k.nextPid, state := .ready } :=
        ⟨rfl, slot, rfl, rfl, .inl rfl, rfl, rfl, rfl, rfl, fun valid => (nomatch valid), .inl rfl⟩
      rw [eq]
      exact (Moves.put (.single (.create free new))).trans (.of_tasks rfl (Nat.le_succ _))
    · cases run
  | bootSpawn entry stack =>
    dsimp only at run
    split at run
    · cases run
      exact (procExecve_moves entry stack rfl (.inl rfl)).1
    · cases run
  | bootRegister =>
    dsimp only at run
    split at run
    · cases run
      exact serviceRegister_moves
    · cases run

end Events

end Osnos.Sched
