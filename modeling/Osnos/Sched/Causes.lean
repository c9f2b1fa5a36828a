import Osnos.Sched.Act

/-! # Every event as acts on the slots -/
namespace Osnos.Sched
open Relation Kernel List

section Dispatch

variable {C : Causes} {k : Kernel} {i : Slot}

structure OwnSlot (C : Causes) (i : Slot) (k k' : Kernel) : Prop where
  moves : Moves C k k'
  other : ∀ j, j ≠ i → k'.tasks j = k.tasks j
  state : (k'.tasks i).state = (k.tasks i).state
  pid : (k'.tasks i).pid = (k.tasks i).pid
  parentPid : (k'.tasks i).parentPid = (k.tasks i).parentPid
  user : (k'.tasks i).pml4 = none ↔ (k.tasks i).pml4 = none
  vfork : (k'.tasks i).vforkWaiter = (k.tasks i).vforkWaiter ∨ (k'.tasks i).vforkWaiter = 0

namespace OwnSlot

variable {k₁ k' : Kernel}

theorem refl (k : Kernel) : OwnSlot C i k k :=
  ⟨Moves.refl k, fun _ _ => rfl, rfl, rfl, rfl, Iff.rfl, .inl rfl⟩

theorem trans (first : OwnSlot C i k k₁) (next : OwnSlot C i k₁ k') : OwnSlot C i k k' where
  moves := first.moves.trans next.moves
  other := fun j ne => (next.other j ne).trans (first.other j ne)
  state := next.state.trans first.state
  pid := next.pid.trans first.pid
  parentPid := next.parentPid.trans first.parentPid
  user := next.user.trans first.user
  vfork := by
    rcases next.vfork with same | none
    · rw [same]
      exact first.vfork
    · exact .inr none

theorem tweak {t : Task} (tweak : Tweak (k.tasks i) t) : OwnSlot C i k (k.put i t) := by
  constructor
  · exact Moves.put (.single (.tweak tweak))
  · exact fun j ne => put_other k t ne
  all_goals rw [put_same]
  · exact tweak.state
  · exact tweak.pid
  · exact tweak.parentPid
  · exact tweak.user
  · exact tweak.vfork

theorem consume (running : (k.tasks i).state = .running) :
    OwnSlot C i k (k.edit i fun t => { t with savedValid := false }) := by
  constructor
  · exact Moves.edit (.consume running)
  · exact fun j ne => edit_other k _ ne
  all_goals rw [edit_same]
  exact .inl rfl

end OwnSlot

theorem put_consume (k : Kernel) (i : Slot) (t : Task) :
    (k.put i t).edit i (fun t => { t with savedValid := false }) =
      k.put i { t with savedValid := false } := by
  simp [edit, put]

theorem userTaskResume_own {frameOk : Bool} (running : (k.tasks i).state = .running)
    (no_kill : (k.tasks i).killPending = false) :
    OwnSlot C i k (k.userTaskResume i frameOk).2 := by
  have tweak := deliverFrom_tweak frameOk signals (k.tasks i) no_kill
  have resumed : ∀ t, Tweak (k.tasks i) t → OwnSlot C i k (k.put i { t with savedValid := false }) := by
    intro t tweak
    rw [← put_consume]
    refine (OwnSlot.tweak tweak).trans (OwnSlot.consume ?_)
    rw [put_same, tweak.state, running]
  unfold userTaskResume deliver
  cases h : deliverFrom frameOk signals (k.tasks i) with
  | none t | handler t sig handler => exact resumed t (by simpa [h, Delivery.task] using tweak)
  | stop t sig | exit t sig => exact OwnSlot.tweak (by simpa [h, Delivery.task] using tweak)

theorem afterKill_own {frameOk : Bool} (running : (k.tasks i).state = .running)
    (no_kill : (k.tasks i).killPending = false) : OwnSlot C i k (k.afterKill i frameOk).2 := by
  unfold afterKill
  dsimp only
  split
  · exact OwnSlot.tweak { noted_tweak (k.tasks i) with }
  split
  · exact userTaskResume_own running no_kill
  · split <;> exact OwnSlot.refl k

theorem userTaskTrampoline_own {frameOk : Bool} (running : (k.tasks i).state = .running) :
    OwnSlot C i k (k.userTaskTrampoline i frameOk).2 := by
  unfold userTaskTrampoline
  dsimp only
  split
  · split
    · have forgiven : Tweak (k.tasks i) { k.tasks i with killPending := false } :=
        { noted_tweak (k.tasks i) with kill := fun set => by simp at set }
      refine (OwnSlot.tweak forgiven).trans (afterKill_own ?_ ?_)
      · rw [put_same]
        exact running
      · rw [put_same]
    · exact OwnSlot.tweak { noted_tweak (k.tasks i) with kill := fun set => by simp at set }
  next no_kill =>
    exact afterKill_own running (by simpa using no_kill)

theorem reapSlot_now (k : Kernel) (i : Slot) : (k.reapSlot i).now = k.now := by
  unfold reapSlot ipcDropForPid
  split
  · rfl
  split
  · rfl
  · split <;> rfl

theorem taskReapDead_now (k : Kernel) : k.taskReapDead.now = k.now := by
  unfold taskReapDead
  generalize finRange 16 = slots
  induction slots generalizing k with
  | nil => rfl
  | cons _ _ ih => rw [foldl_cons, ih, reapSlot_now]

theorem pickNext_ready {next : Slot} (picked : k.pickNext = (next, true)) :
    (k.tasks next).state = .ready := by
  unfold pickNext at picked
  dsimp only at picked
  split at picked
  next d found =>
    have ready := find?_some found
    cases picked
    simpa using ready
  · cases picked

theorem startNext_cases (k : Kernel) : ((k.tasks k.pickNext.1).state = .ready ∧
      k.startNext = { k with current := some k.pickNext.1 }.edit k.pickNext.1
        fun t => { t with state := .running }) ∨
    k.startNext = { k with current := some k.pickNext.1 } := by
  unfold startNext
  dsimp only
  split
  next picked =>
    exact .inl ⟨pickNext_ready (Prod.ext rfl picked), rfl⟩
  · exact .inr rfl

theorem startNext_moves (k : Kernel) (picks : ∀ i, k.startNext.onCpu = some i → C.start i) :
    Moves C k k.startNext := by
  rcases startNext_cases k with ⟨ready, eq⟩ | eq
  · have picked : C.start k.pickNext.1 := by
      apply picks
      simp [eq, onCpu, edit, put]
    rw [eq]
    have stood : Moves C k { k with current := some k.pickNext.1 } := Moves.of_tasks rfl le_rfl
    exact stood.trans (Moves.edit (.start picked ready))
  · rw [eq]
    exact Moves.of_tasks rfl le_rfl

theorem schedule_moves (now : C.now = k.now)
    (picks : ∀ i, k.schedule.onCpu = some i → C.start i) : Moves C k k.schedule := by
  refine (taskReapDead_moves.trans (taskCheckWakeups_moves ?_)).trans (startNext_moves _ picks)
  rw [now, taskReapDead_now]

structure SameIdentity (t t' : Task) : Prop where
  pid : t'.pid = t.pid
  parentPid : t'.parentPid = t.parentPid
  vforkWaiter : t'.vforkWaiter = t.vforkWaiter
  pml4 : t'.pml4 = t.pml4
  call : t'.call = t.call
  killPending : t'.killPending = t.killPending
  sigPending : t'.sigPending = t.sigPending
  stopPending : t'.stopPending = t.stopPending
  saHandler : t'.saHandler = t.saHandler
  saved : t'.saved = t.saved
  savedValid : t'.savedValid = t.savedValid

theorem SameIdentity.refl (t : Task) : SameIdentity t t :=
  ⟨rfl, rfl, rfl, rfl, rfl, rfl, rfl, rfl, rfl, rfl, rfl⟩

theorem SameIdentity.trans {t t₁ t' : Task} (first : SameIdentity t t₁)
    (next : SameIdentity t₁ t') : SameIdentity t t' where
  pid := next.pid.trans first.pid
  parentPid := next.parentPid.trans first.parentPid
  vforkWaiter := next.vforkWaiter.trans first.vforkWaiter
  pml4 := next.pml4.trans first.pml4
  call := next.call.trans first.call
  killPending := next.killPending.trans first.killPending
  sigPending := next.sigPending.trans first.sigPending
  stopPending := next.stopPending.trans first.stopPending
  saHandler := next.saHandler.trans first.saHandler
  saved := next.saved.trans first.saved
  savedValid := next.savedValid.trans first.savedValid

theorem reapSlot_tasks (k : Kernel) (i j : Slot) : (k.reapSlot i).tasks j = k.tasks j ∨
      ((k.reapSlot i).tasks j = {} ∧ (k.tasks j).state = .dead) := by
  unfold reapSlot
  split
  · exact .inl rfl
  rename_i dead
  split
  · exact .inl rfl
  by_cases at_i : j = i
  · subst at_i
    exact .inr ⟨put_same _ _ _, not_not.1 dead⟩
  left
  calc _ = (k.ipcDropForPid (k.tasks i).pid).tasks j := put_other _ _ at_i
    _ = k.tasks j := by rw [ipcDropForPid_tasks]

theorem taskReapDead_tasks (k : Kernel) (j : Slot) : k.taskReapDead.tasks j = k.tasks j ∨
      (k.taskReapDead.tasks j = {} ∧ (k.tasks j).state = .dead) := by
  unfold taskReapDead
  generalize finRange 16 = slots
  induction slots generalizing k with
  | nil => exact .inl rfl
  | cons i _ ih =>
    rw [foldl_cons]
    rcases ih (k.reapSlot i) with later | ⟨later, dead⟩
    · rw [later]
      exact reapSlot_tasks k i j
    right
    rcases reapSlot_tasks k i j with same | ⟨cleared, -⟩
    · exact ⟨later, same ▸ dead⟩
    · rw [cleared] at dead
      cases dead

theorem checkWakeup_identity (now : Nat) (t : Task) : SameIdentity t (t.checkWakeup now) := by
  unfold Task.checkWakeup
  split <;> exact ⟨rfl, rfl, rfl, rfl, rfl, rfl, rfl, rfl, rfl, rfl, rfl⟩

theorem startNext_identity (k : Kernel) (j : Slot) :
    SameIdentity (k.tasks j) (k.startNext.tasks j) := by
  rcases startNext_cases k with ⟨-, eq⟩ | eq
  · rw [eq]
    by_cases picked : j = k.pickNext.1
    · subst picked
      rw [edit_same]
      exact ⟨rfl, rfl, rfl, rfl, rfl, rfl, rfl, rfl, rfl, rfl, rfl⟩
    · rw [edit_other _ _ picked]
      exact .refl _
  · rw [eq]
    exact .refl _

theorem schedule_identity (k : Kernel) (j : Slot) (alive : (k.tasks j).state ≠ .dead) :
    SameIdentity (k.tasks j) (k.schedule.tasks j) := by
  have kept : k.taskReapDead.tasks j = k.tasks j :=
    (taskReapDead_tasks k j).resolve_right fun cleared => alive cleared.2
  have woken := checkWakeup_identity k.taskReapDead.now (k.tasks j)
  have started := startNext_identity k.taskReapDead.taskCheckWakeups j
  have at_j : k.taskReapDead.taskCheckWakeups.tasks j =
      (k.tasks j).checkWakeup k.taskReapDead.now := by
    simp [taskCheckWakeups, kept]
  rw [at_j] at started
  unfold schedule
  exact woken.trans started

end Dispatch

namespace Kernel

def keyOf (k : Kernel) : Event → Option Key
  | .serverKey key => some key
  | .syscall _ (.ttyInput key) =>
    (k.userSlot.filter fun i => decide (k.serviceGetPid SERVER_KEYBOARD ≠ 0 ∧
      k.serviceGetPid SERVER_KEYBOARD = (k.tasks i).pid)).map fun _ => key
  | _ => none

/-- Where an event calls `proc_exit_current_user`: in which state, for which slot and
with which code. -/
def exitPoint (k : Kernel) : Event → Option (Kernel × Slot × Int)
  | .timerUser _ => (k.userSlot.filter fun i => (k.tasks i).killPending).map fun i =>
      ({ k with now := k.now + TIMER_TICK_MS }, i, 130)
  | .dispatch frameOk =>
    match k.schedule.userSlot, k.dispatchTo frameOk with
    | some i, (.exit code, k₁) => some (k₁, i, code)
    | _, _ => none
  | .syscall _ (.exit code) => k.userSlot.map fun i => (k, i, code)
  | .syscall _ (.sigreturn none) => k.userSlot.map fun i => (k, i, 128 + 11)
  | .fault => k.userSlot.map fun i => (k, i, 128 + 11)
  | _ => none

def messagePoint (k : Kernel) (e : Event) : Option (Kernel × Nat) :=
  match e with
  | .syscall _ (.ipcSend dest) => some (k, dest)
  | .syscall _ (.consoleWrite _) => some (k, SERVER_CONSOLE)
  | e =>
    if k.keyOf e = some .susp ∧ k.foreground ≠ [] then some (k.stopped, SERVER_SHELL)
    else match k.exitPoint e with
      | some (k₁, i, code) =>
        if (k₁.exitReleased i code).tellsShell i then
          some (k₁.exitReleased i code, SERVER_SHELL) else none
      | none => none

/-- The tasks whose blocked call an event interrupts: the targets of `kill`, and the
foreground group at control-C. -/
def Signals (k : Kernel) (e : Event) (i : Slot) : Prop :=
  match e with
  | .syscall _ (.kill pid sig) =>
    (1 ≤ sig ∧ sig ≤ 31) ∧ ∃ self, k.userSlot = some self ∧ i ∈ k.killTargets self pid
  | e => k.keyOf e = some .intr ∧ i ∈ k.foreground

inductive Changes (k : Kernel) : Event → Slot → Change → Prop
  | exit {e : Event} {k₁ : Kernel} {i : Slot} {code : Int}
      (point : k.exitPoint e = some (k₁, i, code)) : Changes k e i .exit
  | stopKey {e : Event} {i : Slot} (key : k.keyOf e = some .susp) (member : i ∈ k.foreground)
      (asleep : (k.tasks i).state = .blocked) : Changes k e i .stop
  | stopSelf {frameOk : Bool} {i : Slot} {k₁ : Kernel} (picked : k.schedule.userSlot = some i)
      (stops : k.dispatchTo frameOk = (.stop, k₁)) : Changes k (.dispatch frameOk) i .stop
  | kill {c : Context} {pid : Int} {sig : Nat} {self i : Slot} (caller : k.userSlot = some self)
      (member : i ∈ k.killTargets self pid) (wakes : sig = SIGCONT ∨ sig = SIGKILL)
      (stopped : (k.tasks i).state = .stopped) :
      Changes k (.syscall c (.kill pid sig)) i .continue
  | resume {c : Context} {pid : Nat} {i : Slot} (found : k.taskByPid pid = some i)
      (stopped : (k.tasks i).state = .stopped) : Changes k (.syscall c (.resume pid)) i .continue

def Leaves (k : Kernel) (e : Event) (i : Slot) : Prop :=
  (∃ k₁ code, k.exitPoint e = some (k₁, i, code)) ∨
    (k.userSlot = some i ∧ ∃ c image, e = .syscall c (.execve (.ok image)))

def Reaps (k : Kernel) (e : Event) (i : Slot) : Prop :=
  ∃ c pid status options copyOk p, e = .syscall c (.wait4 pid status options copyOk) ∧
    k.userSlot = some p ∧ k.findWaitableChild (k.tasks p).pid pid options = some i

end Kernel

def Event.context : Event → Option Context
  | .timerUser c => some c
  | .syscall c _ => some c
  | _ => none

def SameMode (c c' : Context) : Prop := c'.cs = c.cs ∧ c'.ss = c.ss ∧ c'.rflags = c.rflags

/-- The contexts an event saves: the one it was entered with, up to the words the
kernel sets itself, or a signal frame. -/
def Event.Saves (e : Event) (c : Context) : Prop :=
  (∃ c₀, e.context = some c₀ ∧ SameMode c₀ c) ∨ ∃ c₀, e = .syscall c₀ (.sigreturn (some c))

def Event.creates : Event → Bool
  | .syscall _ (.fork _) => true
  | .syscall _ (.clone _ _ _) => true
  | .syscall _ (.spawn _) => true
  | .bootTask => true
  | .bootSpawn _ _ => true
  | _ => false

structure Kernel.Creates (k : Kernel) (e : Event) (j : Slot) (t : Task) : Prop where
  event : e.creates = true
  slot : k.freeSlot = some j
  pid : t.pid = k.nextPid
  state : t.state = .ready
  parentPid : t.parentPid = 0 ∨ ∃ i, k.userSlot = some i ∧ t.parentPid = (k.tasks i).pid
  waitingForPid : t.waitingForPid = 0
  wakeupAt : t.wakeupAt = 0
  call : t.call = .none
  killPending : t.killPending = false
  saved : t.savedValid = true → e.Saves t.saved
  vforkWaiter : t.vforkWaiter = 0 ∨ ∃ i, k.userSlot = some i ∧ t.vforkWaiter = (k.tasks i).pid

inductive Kernel.Parks (k : Kernel) : Event → Task → Task → Prop
  | nanosleep {t : Task} {c : Context} {sec nsec : Int} {asked : Nat}
      (asks : asked = sec.toNat * 1000 + nsec.toNat / 1000000) :
      Parks k (.syscall c (.nanosleep sec nsec)) t
        { t.park { c with rax := 0 } (.nanosleep (k.now + asked)) with
          wakeupAt := (k.now + asked % 2 ^ 64) % 2 ^ 64 }
  | restart {t : Task} {c : Context} {call : Syscall} {wake : Nat} {nr : Word}
      (number : nr = SYS_READ ∨ nr = SYS_POLL ∨ nr = SYS_IPC_SEND) :
      Parks k (.syscall c call) t
        { t.park { c with rip := c.rip - 2, rax := nr } (.restart nr) with wakeupAt := wake }
  | wait4 {t : Task} {c : Context} {pid : Int} {status : Word} {options : UInt32} {copyOk : Bool} :
      Parks k (.syscall c (.wait4 pid status options copyOk)) t
        { t.park { c with rax := 0 } (.wait4 pid options) with
          waitingForPid := if 0 < pid then pid else -1, waitOptions := options,
          waitStatusPtr := status }
  | vfork {t : Task} {c : Context} {flags stack : Word} {mem : Bool} :
      Parks k (.syscall c (.clone flags stack mem)) t
        { t.park { c with rax := UInt64.ofNat k.nextPid } (.vfork k.nextPid) with wakeupAt := 0 }
  | server {t : Task} {ms : Nat} :
      Parks k (.serverSleep ms) t
        { t with wakeupAt := k.now + ms, state := .blocked, call := .server }

def Kernel.causes (k : Kernel) (e : Event) : Causes where
  now := k.now
  message := fun t => ∃ k₁ dest, k.messagePoint e = some (k₁, dest) ∧ Reaches k₁ dest t
  signal := k.Signals e
  stop := fun i => (k.keyOf e = some .susp ∧ i ∈ k.foreground) ∨ k.Changes e i .stop
  report := fun t child => ∃ j change, (k.tasks j).pid = child ∧ (k.tasks j).parentPid = t.pid ∧
    k.Changes e j change ∧ change.Asked t.waitOptions
  release := fun waiter child => ∃ j, (k.tasks j).pid = child ∧
    (k.tasks j).vforkWaiter = waiter ∧ k.Leaves e j
  exit := fun i reapable => ∃ k₁ code, k.exitPoint e = some (k₁, i, code) ∧
    reapable = (k₁.liveParent i).isSome
  bury := fun i => (∃ k₁ code, k.exitPoint e = some (k₁, i, code)) ∨ k.Reaps e i
  create := k.Creates e
  start := fun i => (∃ frameOk, e = .dispatch frameOk) ∧ k.schedule.onCpu = some i
  park := fun i t t' => k.onCpu = some i ∧ t = k.tasks i ∧ k.Parks e t t'
  save := e.Saves

end Osnos.Sched
