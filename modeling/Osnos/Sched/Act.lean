import Mathlib.Logic.Relation
import Osnos.Sched.Run

/-! Every function of the kernel changes a task record in one of a few ways. `Act` lists
them with the condition under which each is taken; `Moves` says that a kernel function
changes every slot by a sequence of such acts. The conditions that depend on the event are
collected in `Causes`. -/
namespace Osnos.Sched
open Relation Kernel Task

/-- Why an event acts: whom its message reaches, whom it signals or stops, which
child reports to which parent, and so on. Children are given by pid. -/
structure Causes where
  now : Nat
  message : Task → Prop
  signal : Slot → Prop
  stop : Slot → Prop
  report : Task → Nat → Prop
  release : Nat → Nat → Prop
  exit : Slot → Bool → Prop
  bury : Slot → Prop
  create : Slot → Task → Prop
  start : Slot → Prop
  park : Slot → Task → Task → Prop
  save : Context → Prop

structure Tweak (t t' : Task) : Prop where
  pid : t'.pid = t.pid
  state : t'.state = t.state
  user : t'.pml4 = none ↔ t.pml4 = none
  parentPid : t'.parentPid = t.parentPid
  waitingForPid : t'.waitingForPid = t.waitingForPid
  waitOptions : t'.waitOptions = t.waitOptions
  waitStatusPtr : t'.waitStatusPtr = t.waitStatusPtr
  savedValid : t'.savedValid = t.savedValid
  saved : t'.saved = t.saved
  wakeupAt : t'.wakeupAt = t.wakeupAt
  call : t'.call = t.call
  kill : t'.killPending = true → t.killPending = true ∧ t'.sigPending = t.sigPending
  vfork : t'.vforkWaiter = t.vforkWaiter ∨ t'.vforkWaiter = 0

inductive Act (C : Causes) (i : Slot) : Task → Task → Prop
  | message {t : Task} (sent : C.message t) (asleep : t.state = .blocked) :
      Act C i t { t with state := .ready }
  | poller {t : Task} (asleep : t.state = .blocked) (valid : t.savedValid = true)
      (number : t.saved.rax = SYS_POLL ∨ t.saved.rax = SYS_IPC_SEND) :
      Act C i t { t with state := .ready }
  | timeout {t : Task} (asleep : t.state = .blocked) (set : t.wakeupAt ≠ 0)
      (due : t.wakeupAt ≤ C.now) : Act C i t { t with state := .ready, wakeupAt := 0 }
  | raise {t : Task} {sig : Nat} {kill : Bool} (range : 1 ≤ sig ∧ sig ≤ 31)
      (kills : kill = true → sig = SIGINT ∨ sig = SIGKILL ∨ sig = SIGTERM) :
      Act C i t (t.raise sig kill)
  | interrupt {t : Task} (sent : C.signal i) (asleep : t.state = .blocked) : Act C i t t.interrupt
  | continued {t : Task} (stopped : t.state = .stopped) : Act C i t t.continue
  | stop {t : Task} (sent : C.stop i) (live : t.state = .blocked ∨ t.state = .running) :
      Act C i t t.stop
  | report {t : Task} {child : Nat} (sent : C.report t child) (asleep : t.state = .blocked)
      (waits : t.waitsFor child = true) : Act C i t (t.report child)
  | release {t : Task} {child : Nat} (sent : C.release t.pid child)
      (asleep : t.state = .blocked) : Act C i t (t.release child)
  | exit {t : Task} {reapable : Bool} {code : Int} (ends : C.exit i reapable)
      (running : t.state = .running) : Act C i t (t.ended reapable code)
  | bury {t : Task} (reaped : C.bury i) (zombie : t.state = .zombie) : Act C i t { t with state := .dead }
  | clear {t : Task} (dead : t.state = .dead) : Act C i t {}
  | create {t t' : Task} (free : t.state = .unused ∨ t.state = .dead) (new : C.create i t') :
      Act C i t t'
  | start {t : Task} (picked : C.start i) (ready : t.state = .ready) :
      Act C i t { t with state := .running }
  | requeue {t : Task} (running : t.state = .running) : Act C i t { t with state := .ready }
  | save {t : Task} {c : Context} (running : t.state = .running) (from_user : C.save c) :
      Act C i t { t with saved := c, savedValid := true }
  | consume {t : Task} (running : t.state = .running) : Act C i t { t with savedValid := false }
  | park {t t' : Task} (running : t.state = .running) (calls : C.park i t t') : Act C i t t'
  | tweak {t t' : Task} (tweak : Tweak t t') : Act C i t t'

/-- A kernel function as acts on every slot. Pids are only counted up. -/
structure Moves (C : Causes) (k k' : Kernel) : Prop where
  acts : ∀ i, ReflTransGen (Act C i) (k.tasks i) (k'.tasks i)
  pids : k.nextPid ≤ k'.nextPid

variable {f : Task → Task}

namespace Moves

variable {C : Causes} {k k₁ k' : Kernel} {i : Slot}

theorem refl (k : Kernel) : Moves C k k := ⟨fun _ => .refl, le_rfl⟩

theorem trans (first : Moves C k k₁) (next : Moves C k₁ k') : Moves C k k' :=
  ⟨fun i => (first.acts i).trans (next.acts i), first.pids.trans next.pids⟩

theorem of_tasks (same : k'.tasks = k.tasks) (pids : k.nextPid ≤ k'.nextPid) : Moves C k k' := by
  refine ⟨fun i => ?_, pids⟩
  rw [same]

theorem put {t : Task} (act : ReflTransGen (Act C i) (k.tasks i) t) : Moves C k (k.put i t) := by
  refine ⟨fun j => ?_, le_rfl⟩
  by_cases at_i : j = i
  · subst at_i
    rw [put_same]
    exact act
  · rw [put_other k t at_i]

theorem edit (act : Act C i (k.tasks i) (f (k.tasks i))) : Moves C k (k.edit i f) :=
  put (.single act)

theorem edit_same (before : Moves C k k₁) (same : k₁.tasks i = k.tasks i)
    (act : Act C i (k.tasks i) (f (k.tasks i))) : Moves C k (k₁.edit i f) := by
  refine before.trans (edit ?_)
  rw [same]
  exact act

theorem editAll (act : ∀ i, ReflTransGen (Act C i) (k.tasks i) (f (k.tasks i))) : Moves C k
    (k.editAll f) :=
  ⟨act, le_rfl⟩

theorem foldl {f : Kernel → Slot → Kernel} {Q : Kernel → Prop} {l : List Slot}
    (one : ∀ k, ∀ i ∈ l, Q k → Moves C k (f k i) ∧ Q (f k i)) (start : Q k) :
    Moves C k (l.foldl f k) ∧ Q (l.foldl f k) := by
  induction l generalizing k with
  | nil => exact ⟨refl k, start⟩
  | cons i l ih =>
    obtain ⟨first, kept⟩ := one k i (by simp) start
    obtain ⟨rest, last⟩ := ih (fun k j mem => one k j (by simp [mem])) kept
    exact ⟨first.trans rest, last⟩

end Moves

section Functions

variable {C : Causes} {k : Kernel} {i : Slot}

theorem taskUnblock_moves {pid : Nat} (sent : ∀ j, (k.tasks j).pid = pid → C.message (k.tasks j)) :
    Moves C k (k.taskUnblock pid) := by
  apply Moves.editAll
  intro j
  split
  next same =>
    unfold unblock
    split
    next asleep =>
      exact .single (.message (sent j same) asleep)
    · exact .refl
  · exact .refl

theorem taskWakePollers_moves : Moves C k k.taskWakePollers := by
  apply Moves.editAll
  intro j
  unfold wakePoller
  split
  next h =>
    exact .single (.poller h.1 h.2.1 h.2.2)
  · exact .refl

theorem taskCheckWakeups_moves (now : C.now = k.now) : Moves C k k.taskCheckWakeups := by
  apply Moves.editAll
  intro j
  unfold checkWakeup
  split
  next h =>
    exact .single (.timeout h.1 h.2.1 (now ▸ h.2.2))
  · exact .refl

def Reaches (k : Kernel) (dest : Nat) (t : Task) : Prop :=
  ∃ pid j, k.ipcRoute dest = some pid ∧ k.tasks j = t ∧ t.pid = pid

theorem ipcSend_moves {dest : Nat} (sent : ∀ t, Reaches k dest t → C.message t) :
    Moves C k (k.ipcSend dest).2 := by
  unfold ipcSend
  split
  · exact .refl k
  rename_i pid route
  split
  · exact .refl k
  · have queued : Moves C k { k with queue := k.queue ++ [pid] } := Moves.of_tasks rfl le_rfl
    exact queued.trans (taskUnblock_moves fun j same => sent _ ⟨pid, j, route, rfl, same⟩)

theorem ipcDropForPid_tasks (k : Kernel) (pid : Nat) : (k.ipcDropForPid pid).tasks = k.tasks := by
  unfold ipcDropForPid
  split <;> rfl

theorem ipcDropForPid_pids (k : Kernel) (pid : Nat) :
    (k.ipcDropForPid pid).nextPid = k.nextPid := by
  unfold ipcDropForPid
  split <;> rfl

theorem ipcRecv_moves (pid : Nat) : Moves C k (k.ipcRecv pid).2 := by
  unfold ipcRecv
  split
  · have taken : Moves C k { k with queue := k.queue.erase pid } := Moves.of_tasks rfl le_rfl
    exact taken.trans taskWakePollers_moves
  · exact .refl k

theorem reapSlot_moves : Moves C k (k.reapSlot i) := by
  unfold reapSlot
  split
  · exact .of_tasks rfl le_rfl
  rename_i dead
  rw [not_not] at dead
  split
  · exact .of_tasks rfl le_rfl
  have dropped : Moves C k (k.ipcDropForPid (k.tasks i).pid) :=
    Moves.of_tasks (ipcDropForPid_tasks k _) (ipcDropForPid_pids k _).ge
  have cleared : Act C i ((k.ipcDropForPid (k.tasks i).pid).tasks i) {} := by
    rw [ipcDropForPid_tasks]
    exact .clear dead
  exact (dropped.trans (.put (.single cleared))).trans
    (Moves.of_tasks rfl le_rfl)

theorem taskReapDead_moves : Moves C k k.taskReapDead :=
  (Moves.foldl (Q := fun _ => True) (fun _ _ _ _ => ⟨reapSlot_moves, trivial⟩) trivial).1

theorem taskByPid_some {pid : Nat} {j : Slot} (found : k.taskByPid pid = some j) :
    (k.tasks j).state ≠ .unused ∧ (k.tasks j).pid = pid := by
  have h := List.find?_some found
  simpa using h

theorem storeStatus_tasks (k : Kernel) (p : Slot) (status : Int) :
    (k.storeStatus p status).tasks = k.tasks := by
  unfold storeStatus
  split <;> rfl

theorem storeStatus_pids (k : Kernel) (p : Slot) (status : Int) :
    (k.storeStatus p status).nextPid = k.nextPid := by
  unfold storeStatus
  split <;> rfl

theorem report_moves {p : Slot} {status : Int} {child : Nat} (told : C.report (k.tasks p) child)
    (asleep : (k.tasks p).state = .blocked)
    (waits : (k.tasks p).waitsFor child)
    (noted : Act C i (((k.storeStatus p status).edit p (report child)).tasks i)
      (f (((k.storeStatus p status).edit p (report child)).tasks i))) :
    Moves C k (((k.storeStatus p status).edit p (report child)).edit i f) := by
  have stored : Moves C k (k.storeStatus p status) :=
    Moves.of_tasks (storeStatus_tasks k p status) (storeStatus_pids k p status).ge
  have same := congrFun (storeStatus_tasks k p status) p
  refine (stored.trans (.edit ?_)).trans (.edit noted)
  rw [same]
  exact .report told asleep waits

theorem noted_tweak (t : Task) : Tweak t { t with waitChange := .none } where
  pid := rfl
  state := rfl
  user := Iff.rfl
  parentPid := rfl
  waitingForPid := rfl
  waitOptions := rfl
  waitStatusPtr := rfl
  savedValid := rfl
  saved := rfl
  wakeupAt := rfl
  call := rfl
  kill := fun set => ⟨set, rfl⟩
  vfork := .inl rfl

inductive Change
  | exit | stop | continue
  deriving DecidableEq, Repr

/-- An exit is always reported, the other two if the options ask for them. -/
def Change.Asked (options : UInt32) : Change → Prop
  | .exit => True
  | .stop => options &&& WUNTRACED ≠ 0
  | .continue => options &&& WCONTINUED ≠ 0

/-- The task with pid `parent`, waiting with suitable options, hears of `child`. -/
def Causes.Told (C : Causes) (parent child : Nat) (change : Change) : Prop :=
  ∀ t : Task, t.pid = parent → change.Asked t.waitOptions → C.report t child

def WaitChange.change : WaitChange → Change
  | .none => .exit
  | .stopped => .stop
  | .continued => .continue

@[elab_as_elim]
theorem notifyParent_rule {motive : Kernel → Prop} (k : Kernel) (i : Slot) (silent : motive k)
    (told : ∀ p status, (k.tasks p).pid = (k.tasks i).parentPid → (k.tasks p).state = .blocked →
      (k.tasks p).waitsFor (k.tasks i).pid = true →
      (k.tasks i).waitChange.change.Asked (k.tasks p).waitOptions →
      motive (((k.storeStatus p status).edit p (report (k.tasks i).pid)).edit i
        fun c => { c with waitChange := .none })) : motive (k.notifyParent i) := by
  unfold notifyParent
  dsimp only
  split
  · exact silent
  split
  · exact silent
  rename_i p found
  split
  · exact silent
  rename_i asleep
  push Not at asleep
  split
  · exact silent
  rename_i waits
  split
  · exact silent
  rename_i untraced
  split
  · exact silent
  rename_i continued
  refine told p _ (taskByPid_some found).2 asleep.2 (by simpa using waits) ?_
  cases change : (k.tasks i).waitChange with
  | none => exact trivial
  | stopped => exact fun no => untraced ⟨change, no⟩
  | continued => exact fun no => continued ⟨change, no⟩

theorem notifyParent_moves
    (told : C.Told (k.tasks i).parentPid (k.tasks i).pid (k.tasks i).waitChange.change) :
    Moves C k (k.notifyParent i) := by
  refine notifyParent_rule k i (.refl k) fun p status named asleep waits asked => ?_
  exact report_moves (told _ named asked) asleep waits (.tweak (noted_tweak _))

theorem killOneTask_moves {sig : Nat} (range : 1 ≤ sig ∧ sig ≤ 31) (sent : C.signal i)
    (told : (k.tasks i).state = .stopped → sig = SIGCONT ∨ sig = SIGKILL →
      C.Told (k.tasks i).parentPid (k.tasks i).pid .continue) :
    Moves C k (k.killOneTask i sig) := by
  unfold killOneTask
  dsimp only
  split
  · exact .refl k
  have raised := Moves.edit (k := k) (f := Task.raise sig
    (decide (sig = SIGINT ∨ sig = SIGKILL ∨ sig = SIGTERM)))
    (Act.raise (C := C) (i := i) range (by simp))
  split
  next asleep =>
    refine raised.trans (.edit (.interrupt sent ?_))
    simpa [Task.raise] using asleep
  split
  next stopped =>
    refine (raised.trans (.edit (.continued ?_))).trans (notifyParent_moves ?_)
    · simpa [Task.raise] using stopped.1
    · simpa [Task.raise, Task.continue, WaitChange.change] using told stopped.1 stopped.2
  · exact raised

structure Calm (s : TaskState) (k k' : Kernel) : Prop where
  pid : ∀ j, (k'.tasks j).pid = (k.tasks j).pid
  parentPid : ∀ j, (k'.tasks j).parentPid = (k.tasks j).parentPid
  back : ∀ j, (k'.tasks j).state = s → (k.tasks j).state = s

namespace Calm

variable {s : TaskState} {k₁ k' : Kernel}

theorem refl (k : Kernel) : Calm s k k := ⟨fun _ => rfl, fun _ => rfl, fun _ h => h⟩

theorem trans (first : Calm s k k₁) (next : Calm s k₁ k') : Calm s k k' where
  pid := fun j => (next.pid j).trans (first.pid j)
  parentPid := fun j => (next.parentPid j).trans (first.parentPid j)
  back := fun j h => first.back j (next.back j h)

theorem of_tasks (same : k'.tasks = k.tasks) : Calm s k k' := by
  constructor <;> intro j <;> simp [same]

theorem edit (pid : (f (k.tasks i)).pid = (k.tasks i).pid)
    (parentPid : (f (k.tasks i)).parentPid = (k.tasks i).parentPid)
    (back : (f (k.tasks i)).state = s → (k.tasks i).state = s) : Calm s k (k.edit i f) := by
  constructor <;> intro j <;> by_cases at_i : j = i
  all_goals first
    | subst at_i; simpa using pid
    | subst at_i; simpa using parentPid
    | subst at_i; simpa using back
    | simp [at_i]

end Calm

theorem notifyParent_calm {s : TaskState} (not_ready : s ≠ .ready) :
    Calm s k (k.notifyParent i) := by
  refine notifyParent_rule k i (Calm.refl k) fun p status _ _ _ _ => ?_
  refine ((Calm.of_tasks (storeStatus_tasks k _ _)).trans
    (Calm.edit rfl rfl fun h => ?_)).trans (Calm.edit rfl rfl id)
  exact absurd h.symm not_ready

theorem killOneTask_calm {sig : Nat} : Calm .stopped k (k.killOneTask i sig) := by
  unfold killOneTask
  dsimp only
  split
  · exact Calm.refl k
  have raised : Calm .stopped k (k.edit i (Task.raise sig
      (decide (sig = SIGINT ∨ sig = SIGKILL ∨ sig = SIGTERM)))) := Calm.edit rfl rfl id
  split
  · exact raised.trans (Calm.edit rfl rfl fun h => by simp [interrupt] at h)
  split
  · exact (raised.trans (Calm.edit rfl rfl fun h => by simp [Task.continue] at h)).trans
      (notifyParent_calm (by decide))
  · exact raised

theorem ttyStopOne_calm : Calm .blocked k (k.ttyStopOne i) := by
  unfold ttyStopOne
  dsimp only
  split
  · exact Calm.refl k
  split
  · have stopped : Calm .blocked k (k.edit i stop) :=
      Calm.edit rfl rfl fun h => by simp [stop] at h
    exact stopped.trans (notifyParent_calm (by decide))
  split
  · exact Calm.edit rfl rfl id
  · exact Calm.refl k

theorem sysKill_moves {self : Slot} {pid : Int} {sig : Nat}
    (sent : ∀ i ∈ k.killTargets self pid, C.signal i)
    (told : ∀ i ∈ k.killTargets self pid, (k.tasks i).state = .stopped →
      sig = SIGCONT ∨ sig = SIGKILL → C.Told (k.tasks i).parentPid (k.tasks i).pid .continue) :
    Moves C k (k.sysKill self pid sig).2 := by
  unfold sysKill
  split
  · exact .refl k
  rename_i range
  refine (Moves.foldl (Q := Calm .stopped k) (fun k₁ i mem calm => ⟨?_, ?_⟩) (Calm.refl k)).1
  · apply killOneTask_moves (by omega) (sent i mem)
    intro stopped
    rw [calm.parentPid, calm.pid]
    exact told i mem (calm.back i stopped)
  · exact calm.trans killOneTask_calm

theorem ttyDeliverOne_moves {sig : Nat} (range : 1 ≤ sig ∧ sig ≤ 31) (sent : C.signal i) :
    Moves C k (k.ttyDeliverOne sig i) := by
  unfold ttyDeliverOne
  split
  · exact .refl k
  have raised := Moves.edit (k := k) (f := Task.raise sig
    (decide (sig = SIGINT ∨ sig = SIGTERM))) (Act.raise (C := C) (i := i) range (by simp; tauto))
  split
  next asleep =>
    refine raised.trans (.edit (.interrupt sent ?_))
    simpa [Task.raise] using asleep
  · exact raised

theorem ttySignal_moves (sent : ∀ i ∈ k.foreground, C.signal i) : Moves C k k.ttySignal :=
  (Moves.foldl (Q := fun _ => True)
    (fun _ i mem _ => ⟨ttyDeliverOne_moves (by decide) (sent i mem), trivial⟩) trivial).1

theorem ttyStopOne_moves (sent : C.stop i)
    (told : (k.tasks i).state = .blocked → C.Told (k.tasks i).parentPid (k.tasks i).pid .stop) :
    Moves C k (k.ttyStopOne i) := by
  unfold ttyStopOne
  dsimp only
  split
  · exact .refl k
  split
  next asleep =>
    refine (Moves.edit (.stop sent (.inl asleep))).trans (notifyParent_moves ?_)
    simpa [stop, WaitChange.change] using told asleep
  split
  · exact .edit (.tweak { noted_tweak (k.tasks i) with })
  · exact .refl k

def Kernel.stopped (k : Kernel) : Kernel := k.foreground.foldl Kernel.ttyStopOne k

section
variable (sent : ∀ i ∈ k.foreground, C.stop i) (told : ∀ i ∈ k.foreground,
  (k.tasks i).state = .blocked → C.Told (k.tasks i).parentPid (k.tasks i).pid .stop)

include sent told

theorem stopped_moves : Moves C k k.stopped := by
  refine (Moves.foldl (Q := Calm .blocked k) (fun k₁ i mem calm => ⟨?_, ?_⟩) (Calm.refl k)).1
  · apply ttyStopOne_moves (sent i mem)
    intro asleep
    rw [calm.parentPid, calm.pid]
    exact told i mem (calm.back i asleep)
  · exact calm.trans ttyStopOne_calm

theorem ttyStopSignal_moves
    (message : ∀ t, k.foreground ≠ [] → Reaches k.stopped SERVER_SHELL t → C.message t) :
    Moves C k k.ttyStopSignal := by
  unfold ttyStopSignal
  split
  · exact .refl k
  next some_one =>
    exact (stopped_moves sent told).trans (ipcSend_moves fun t => message t some_one)

end

theorem sysResume_moves {pid : Nat}
    (told : ∀ i, k.taskByPid pid = some i → (k.tasks i).state = .stopped →
      C.Told (k.tasks i).parentPid (k.tasks i).pid .continue) : Moves C k (k.sysResume pid).2 := by
  unfold sysResume
  split
  · exact .refl k
  rename_i i found
  split
  · exact .refl k
  split
  next stopped =>
    refine (Moves.edit (.continued stopped)).trans (notifyParent_moves ?_)
    simpa [Task.continue, WaitChange.change] using told i found stopped
  · exact .refl k

theorem tellParent_moves {p : Slot} {code : Int} (zombie : (k.tasks i).state = .zombie)
    (reaped : C.bury i) (told : C.Told (k.tasks p).pid (k.tasks i).pid .exit) : Moves C k
    (k.tellParent i p code) := by
  unfold tellParent
  dsimp only
  have raised := Moves.edit (k := k) (f := Task.raise SIGCHLD false)
    (Act.raise (C := C) (i := p) (by decide) (by simp))
  split
  next h =>
    have other : p ≠ i := by
      rintro rfl
      simp [Task.raise, zombie] at h
    refine raised.trans (report_moves (told _ (by simp [Task.raise]) trivial) h.1 h.2
      (.bury reaped ?_))
    rw [edit_other _ _ other.symm, storeStatus_tasks, edit_other _ _ other.symm]
    exact zombie
  · exact raised

theorem liveParent_some {p : Slot} (found : k.liveParent i = some p) :
    k.taskByPid (k.tasks i).parentPid = some p ∧ (k.tasks i).parentPid ≠ 0 ∧
      (k.tasks p).pml4 ≠ none ∧ (k.tasks p).state ≠ .dead ∧ (k.tasks p).state ≠ .zombie ∧
      (k.tasks p).state ≠ .unused := by
  unfold liveParent at found
  split at found
  · cases found
  rename_i parent
  rw [Option.filter_eq_some_iff] at found
  exact ⟨found.1, parent, by simpa using found.2⟩

theorem exitMarked_tasks (k : Kernel) (i : Slot) (code : Int) :
    (k.exitMarked i code).tasks = (k.edit i (Task.ended (k.liveParent i).isSome code)).tasks := by
  have same := ipcDropForPid_tasks k (k.tasks i).pid
  have kept : ∀ (k : Kernel) pid, (k.dropForeground pid).tasks = k.tasks := by
    intro k pid
    unfold dropForeground
    split <;> rfl
  simp [exitMarked, kept, Kernel.edit, Kernel.put, same]

theorem exitMarked_pids (k : Kernel) (i : Slot) (code : Int) :
    (k.exitMarked i code).nextPid = k.nextPid := by
  unfold exitMarked dropForeground
  split <;> exact ipcDropForPid_pids k _

theorem exitTold_moves {code : Int} (running : (k.tasks i).state = .running)
    (ends : C.exit i (k.liveParent i).isSome) (reaped : C.bury i)
    (told : C.Told (k.tasks i).parentPid (k.tasks i).pid .exit) :
    Moves C k (k.exitTold i code) := by
  have marked := exitMarked_tasks k i code
  have ended : Moves C k (k.exitMarked i code) :=
    (Moves.edit (.exit ends running)).trans (.of_tasks marked (exitMarked_pids k i code).ge)
  unfold exitTold
  split
  · exact ended
  rename_i p found
  have calm : Calm .running k (k.exitMarked i code) :=
    (Calm.edit rfl rfl (by simp [Task.ended, found])).trans (Calm.of_tasks marked)
  refine ended.trans (tellParent_moves ?_ reaped ?_)
  · rw [marked]
    simp [Task.ended, found]
  · rw [calm.pid, calm.pid, (taskByPid_some (liveParent_some found).1).2]
    exact told

theorem releaseWaiter_moves (released : (k.tasks i).vforkWaiter ≠ 0 →
      C.release (k.tasks i).vforkWaiter (k.tasks i).pid) : Moves C k (k.releaseWaiter i) := by
  unfold releaseWaiter
  dsimp only
  split
  · exact .refl k
  rename_i waiter
  have released := released waiter
  refine .trans ?_ (.edit (.tweak { noted_tweak _ with vfork := .inr rfl }))
  split
  · exact .refl k
  rename_i w found
  split
  next asleep =>
    rw [← (taskByPid_some found).2] at released
    exact .edit (.release released asleep)
  · exact .refl k

theorem tellParent_self (k : Kernel) (i p : Slot) (code : Int) :
    ((k.tellParent i p code).tasks i).pid = (k.tasks i).pid ∧
      ((k.tellParent i p code).tasks i).parentPid = (k.tasks i).parentPid ∧
      ((k.tellParent i p code).tasks i).vforkWaiter = (k.tasks i).vforkWaiter := by
  unfold tellParent
  dsimp only
  by_cases self : i = p
  · subst self
    split <;> simp [Task.raise, report, storeStatus_tasks]
  · split <;> simp [edit_other _ _ self, storeStatus_tasks]

theorem exitTold_self (k : Kernel) (i : Slot) (code : Int) :
    ((k.exitTold i code).tasks i).pid = (k.tasks i).pid ∧
      ((k.exitTold i code).tasks i).parentPid = (k.tasks i).parentPid ∧
      ((k.exitTold i code).tasks i).vforkWaiter = (k.tasks i).vforkWaiter := by
  have marked : (k.exitMarked i code).tasks i = (k.tasks i).ended (k.liveParent i).isSome code := by
    rw [exitMarked_tasks, Kernel.edit_same]
  unfold exitTold
  split
  · simp [marked, Task.ended]
  rename_i p _
  obtain ⟨pid, parent, waiter⟩ := tellParent_self (k.exitMarked i code) i p code
  simp [pid, parent, waiter, marked, Task.ended]

theorem procExit_moves {code : Int} (running : (k.tasks i).state = .running)
    (ends : C.exit i (k.liveParent i).isSome) (reaped : C.bury i)
    (told : C.Told (k.tasks i).parentPid (k.tasks i).pid .exit)
    (released : (k.tasks i).vforkWaiter ≠ 0 → C.release (k.tasks i).vforkWaiter (k.tasks i).pid)
    (message : ∀ t, (k.exitReleased i code).tellsShell i →
      Reaches (k.exitReleased i code) SERVER_SHELL t → C.message t) :
    Moves C k (k.procExit i code) := by
  obtain ⟨pid, -, waiter⟩ := exitTold_self k i code
  have left : Moves C k (k.exitReleased i code) := by
    refine (exitTold_moves running ends reaped told).trans (releaseWaiter_moves ?_)
    rw [pid, waiter]
    exact released
  unfold procExit
  dsimp only
  split
  next tells =>
    exact left.trans (ipcSend_moves fun t => message t tells)
  · exact left

theorem cleared_tweak {t : Task} (sig : Nat) (no_kill : t.killPending = false) :
    Tweak t (t.clear sig) :=
  { noted_tweak t with kill := fun set => by simp [clear, no_kill] at set }

def Delivery.task : Delivery → Task
  | .none t => t
  | .handler t _ _ => t
  | .stop t _ => t
  | .exit t _ => t

theorem Tweak.trans {t t₁ t' : Task} (first : Tweak t t₁) (next : Tweak t₁ t') : Tweak t t' where
  pid := next.pid.trans first.pid
  state := next.state.trans first.state
  user := next.user.trans first.user
  parentPid := next.parentPid.trans first.parentPid
  waitingForPid := next.waitingForPid.trans first.waitingForPid
  waitOptions := next.waitOptions.trans first.waitOptions
  waitStatusPtr := next.waitStatusPtr.trans first.waitStatusPtr
  savedValid := next.savedValid.trans first.savedValid
  saved := next.saved.trans first.saved
  wakeupAt := next.wakeupAt.trans first.wakeupAt
  call := next.call.trans first.call
  kill := fun set => ⟨(first.kill (next.kill set).1).1,
    (next.kill set).2.trans (first.kill (next.kill set).1).2⟩
  vfork := by
    rcases next.vfork with same | none
    · rw [same]
      exact first.vfork
    · exact .inr none

theorem deliverFrom_tweak (frameOk : Bool) (sigs : List Nat) :
    ∀ t : Task, t.killPending = false → Tweak t (deliverFrom frameOk sigs t).task := by
  induction sigs with
  | nil =>
    intro t _
    exact { noted_tweak t with }
  | cons sig rest ih =>
    intro t no_kill
    have cleared := cleared_tweak sig no_kill
    have onward : Tweak t (deliverFrom frameOk rest (t.clear sig)).task :=
      cleared.trans (ih (t.clear sig) no_kill)
    unfold deliverFrom
    split
    · exact ih t no_kill
    split
    · exact onward
    split
    · split
      · exact onward
      · split
        · exact cleared
        · exact cleared
    · split
      · exact onward
      · exact cleared

end Functions

end Osnos.Sched
