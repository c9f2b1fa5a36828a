import Osnos.Sched.Zombie
import Osnos.Sched.Sleep

/-! `wait4` leaves what it waits for in the task record, and the exit of a child trusts that
record whatever call the parent sleeps in by then. -/
namespace Osnos.Sched
open Kernel

def Call.isWait : Call → Bool
  | .wait4 _ _ => true
  | _ => false

theorem Call.isWait_iff {call : Call} :
    call.isWait = true ↔ ∃ pid options, call = .wait4 pid options := by
  cases call <;> simp [Call.isWait]

def Kernel.OnlyWaits (k : Kernel) : Prop :=
  ∀ i, (k.tasks i).state = .blocked → (k.tasks i).waitingForPid ≠ 0 →
    (k.tasks i).call.isWait = true

def Kernel.SleepsClean (k : Kernel) (e : Event) : Prop :=
  ∀ k' i, k.step e = some k' → k.onCpu = some i → (k'.tasks i).state = .blocked →
    (k'.tasks i).call.isWait = false → (k.tasks i).waitingForPid = 0

def Kernel.WaitFields (k : Kernel) : Prop :=
  ∀ i pid options, (k.tasks i).state = .blocked → (k.tasks i).call = .wait4 pid options →
    (k.tasks i).waitingForPid = (if 0 < pid then pid else -1) ∧ (k.tasks i).waitOptions = options

section Fields

variable {k k' : Kernel} {e : Event} {t t' : Task}

theorem Kernel.Parks.waitingForPid (parks : k.Parks e t t') :
    t'.call.isWait = true ∨ t'.waitingForPid = t.waitingForPid := by
  cases parks with
  | wait4 => exact .inl rfl
  | _ => exact .inr rfl

theorem Kernel.WaitFields.step (fields : k.WaitFields) (run : k.step e = some k') :
    k'.WaitFields := by
  intro i pid options asleep waits
  rcases chain_asleep ((step_moves run).acts i) asleep with ⟨slept, dozes⟩ | ⟨t₁, -, parks, dozes⟩
  · rw [dozes.waitingForPid, dozes.waitOptions]
    exact fields i pid options slept (dozes.call.symm.trans waits)
  rw [dozes.waitingForPid, dozes.waitOptions]
  have waits := dozes.call.symm.trans waits
  cases parks with
  | wait4 =>
    cases waits
    exact ⟨rfl, rfl⟩
  | nanosleep | restart | vfork | server => cases waits

theorem Kernel.OnlyWaits.step (only : k.OnlyWaits) (run : k.step e = some k')
    (clean : k.SleepsClean e) : k'.OnlyWaits := by
  intro i asleep set
  rcases chain_asleep ((step_moves run).acts i) asleep with
    ⟨slept, dozes⟩ | ⟨t₁, onCpu, parks, dozes⟩
  · rw [dozes.call]
    rw [dozes.waitingForPid] at set
    exact only i slept set
  by_contra other
  have zero := clean k' i run onCpu asleep (by simpa using other)
  rw [dozes.waitingForPid] at set
  rw [dozes.call] at other
  rcases parks.waitingForPid with waits | same
  · exact other waits
  · exact set (same.trans zero)

theorem Kernel.OnlyWaits.clean (only : k'.OnlyWaits) (run : k.step e = some k') :
    k.SleepsClean e := by
  intro k₁ i run' onCpu asleep other
  cases run.symm.trans run'
  have running := (onCpu_some onCpu).2
  rcases chain_asleep ((step_moves run).acts i) asleep with
    ⟨slept, -⟩ | ⟨t₁, -, parks, dozes⟩
  · rw [running] at slept
    cases slept
  have zero : (k'.tasks i).waitingForPid = 0 := by
    by_contra set
    rw [only i asleep set] at other
    cases other
  rw [dozes.call] at other
  rw [dozes.waitingForPid] at zero
  rcases parks.waitingForPid with waits | same
  · rw [waits] at other
    cases other
  · exact same.symm.trans zero

end Fields

/-- How the parent in slot `p` hears of the exit of the task in slot `j`: the `wait4` it
sleeps in returns the child's pid and reaps it, or it has a signal pending and a zombie
to wait for. -/
inductive ExitReport (k k' : Kernel) (j p : Slot) : Prop
  | returned {pid : Int} {options : UInt32} (asleep : (k.tasks p).state = .blocked)
      (call : (k.tasks p).call = .wait4 pid options) (wants : 0 < pid → pid = (k.tasks j).pid)
      (ready : (k'.tasks p).state = .ready)
      (returns : (k'.tasks p).saved =
        { (k.tasks p).saved with rax := UInt64.ofNat (k.tasks j).pid })
      (reaped : (k'.tasks j).state = .dead)
  | pending (same : k'.tasks p = (k.tasks p).raise SIGCHLD false)
      (writes : k'.statusWrites = k.statusWrites) (zombie : (k'.tasks j).state = .zombie)

/-- The parent in slot `p` is not the shell, and did not lend its address space to the
task in slot `j`. -/
def Kernel.Spared (k : Kernel) (j p : Slot) : Prop :=
  (k.tasks j).vforkWaiter ≠ (k.tasks p).pid ∧
    k.serviceGetPid SERVER_SHELL ≠ (k.tasks p).pid

section Exit

variable {k : Kernel} {j p : Slot} (code : Int)

theorem exit_returned (other : p ≠ j) (found : k.liveParent j = some p)
    (asleep : (k.tasks p).state = .blocked)
    (waits : (k.tasks p).waitsFor (k.tasks j).pid) :
    (k.procExit j code).tasks p = ((k.tasks p).raise SIGCHLD false).report (k.tasks j).pid ∧
      ((k.procExit j code).tasks j).state = .dead := by
  have marked := exitMarked_self k j code
  have marked' : (k.exitMarked j code).tasks p = k.tasks p := exitMarked_other other
  have told : (k.exitTold j code).tasks p =
      ((k.tasks p).raise SIGCHLD false).report (k.tasks j).pid ∧
      ((k.exitTold j code).tasks j).state = .dead := by
    unfold exitTold
    rw [found]
    unfold tellParent
    dsimp only
    rw [if_pos, edit_other _ _ other, edit_same, edit_same,
      storeStatus_tasks, edit_same, marked', marked]
    · exact ⟨rfl, rfl⟩
    · rw [edit_same, marked', marked]
      exact ⟨asleep, waits⟩
  rw [procExit_self_state, procExit_after other (.inl (by rw [told.1]; nofun))]
  exact told

theorem exit_pending (other : p ≠ j) (found : k.liveParent j = some p)
    (deaf : (k.tasks p).state = .blocked → (k.tasks p).waitsFor (k.tasks j).pid = false)
    (spared : (k.tasks p).state = .blocked → k.Spared j p) :
    (k.procExit j code).tasks p = (k.tasks p).raise SIGCHLD false ∧
      (k.procExit j code).statusWrites = k.statusWrites ∧
      ((k.procExit j code).tasks j).state = .zombie := by
  have marked := exitMarked_self k j code
  have marked' : (k.exitMarked j code).tasks p = k.tasks p := exitMarked_other other
  have told : k.exitTold j code = (k.exitMarked j code).edit p (Task.raise SIGCHLD false) := by
    unfold exitTold
    rw [found]
    unfold tellParent
    dsimp only
    rw [if_neg]
    rw [edit_same, marked', marked]
    rintro ⟨asleep, waits⟩
    have waits : (k.tasks p).waitsFor (k.tasks j).pid := waits
    rw [deaf asleep] at waits
    cases waits
  have told_p : (k.exitTold j code).tasks p = (k.tasks p).raise SIGCHLD false := by
    rw [told, edit_same, marked']
  have spared : ((k.exitTold j code).tasks p).state ≠ .blocked ∨
      ((k.tasks j).vforkWaiter ≠ ((k.exitTold j code).tasks p).pid ∧ k.tellsShell j = false) := by
    rw [told_p]
    by_cases asleep : (k.tasks p).state = .blocked
    · obtain ⟨waiter, shell⟩ := spared asleep
      refine .inr ⟨waiter, ?_⟩
      rw [(taskByPid_some (liveParent_some found).1).2] at shell
      simp [tellsShell, shell.symm]
    · exact .inl asleep
  refine ⟨(procExit_after other spared).trans told_p, ?_, ?_⟩
  · rw [procExit_writes, told]
    exact (exitMarked_rest k j code).2
  · rw [procExit_self_state, told, edit_other _ _ other.symm, marked]
    simp [Task.ended, found]

theorem exit_reported (other : p ≠ j) (found : k.liveParent j = some p)
    (positive : 0 < (k.tasks j).pid)
    (only : (k.tasks p).state = .blocked → (k.tasks p).waitingForPid ≠ 0 →
      (k.tasks p).call.isWait = true)
    (fields : ∀ pid options, (k.tasks p).state = .blocked → (k.tasks p).call = .wait4 pid options →
      (k.tasks p).waitingForPid = if 0 < pid then pid else -1)
    (spared : (k.tasks p).state = .blocked → (k.tasks p).waitsFor (k.tasks j).pid = false →
      k.Spared j p) :
    ExitReport k (k.procExit j code) j p := by
  by_cases heard : (k.tasks p).state = .blocked ∧ (k.tasks p).waitsFor (k.tasks j).pid = true
  · obtain ⟨asleep, waits⟩ := heard
    obtain ⟨told, dead⟩ := exit_returned code other found asleep waits
    have waits : (k.tasks p).waitingForPid = -1 ∨ (k.tasks p).waitingForPid = (k.tasks j).pid := by
      simpa [Task.waitsFor] using waits
    obtain ⟨pid, options, call⟩ := Call.isWait_iff.1 (only asleep (by omega))
    have wants := fields pid options asleep call
    refine .returned asleep call (fun named => ?_) (by rw [told]; rfl) (by rw [told]; rfl) dead
    rw [if_pos named] at wants
    omega
  · have deaf : (k.tasks p).state = .blocked → (k.tasks p).waitsFor (k.tasks j).pid = false :=
      fun asleep => by simpa using fun waits => heard ⟨asleep, waits⟩
    obtain ⟨same, writes, zombie⟩ := exit_pending code other found deaf
      fun asleep => spared asleep (deaf asleep)
    exact .pending same writes zombie

end Exit

/-- The event is a `wait4` of its parent that reaps the task in slot `j`; the call
returns the pid, or `EFAULT` if it could not store the status. -/
def Kernel.ReapedBy (k : Kernel) (e : Event) (j : Slot) : Prop :=
  ∃ c pid status options copyOk p, e = .syscall c (.wait4 pid status options copyOk) ∧
    k.userSlot = some p ∧ (k.tasks p).pid = (k.tasks j).parentPid ∧
    (0 < pid → pid = (k.tasks j).pid) ∧
    (k.sysWait4 p c pid status options copyOk).1 =
      some (if status ≠ 0 ∧ ¬ copyOk then err EFAULT else UInt64.ofNat (k.tasks j).pid)

section Zombies

variable {k k' : Kernel} {e : Event} {j : Slot} {t t' : Task}

open Relation

theorem Act.stays_zombie (act : Act (k.causes e) j t t') (zombie : t.state = .zombie) :
    t'.state = .zombie ∨ (k.causes e).bury j := by
  cases act with
  | raise => exact .inl zombie
  | bury reaped => exact .inr reaped
  | tweak tweak => exact .inl (tweak.state.trans zombie)
  | message _ asleep | poller asleep | timeout asleep
  | interrupt _ asleep | report _ asleep | release _ asleep =>
    rw [zombie] at asleep; cases asleep
  | continued stopped => rw [zombie] at stopped; cases stopped
  | stop _ live => simp [zombie] at live
  | exit _ running | requeue running | save running | consume running
  | park running => rw [zombie] at running; cases running
  | clear dead => rw [zombie] at dead; cases dead
  | create free => simp [zombie] at free
  | start _ ready => rw [zombie] at ready; cases ready

theorem chain_stays_zombie (chain : ReflTransGen (Act (k.causes e) j) t t')
    (zombie : t.state = .zombie) : t'.state = .zombie ∨ (k.causes e).bury j := by
  induction chain with
  | refl => exact .inl zombie
  | tail _ act ih => exact ih.elim act.stays_zombie .inr

theorem findWaitableChild_some {parentPid : Nat} {want : Int} {options : UInt32}
    (found : k.findWaitableChild parentPid want options = some j) :
    k.hasChild parentPid want = true ∧ (k.tasks j).parentPid = parentPid ∧
      (0 < want → want = (k.tasks j).pid) := by
  have child := List.find?_some found
  rw [Bool.and_eq_true] at child
  refine ⟨List.any_eq_true.2 ⟨j, List.mem_finRange j, child.1⟩, ?_⟩
  have child := child.1
  simp only [isChild, decide_eq_true_eq] at child
  exact ⟨child.2.2.1, fun named => (child.2.2.2 named).symm⟩

theorem zombie_stays (run : k.step e = some k') (zombie : (k.tasks j).state = .zombie) :
    (k'.tasks j).state = .zombie ∨ k.ReapedBy e j := by
  refine (chain_stays_zombie ((step_moves run).acts j) zombie).imp_right ?_
  rintro (⟨k₁, code, point⟩ | ⟨c, pid, status, options, copyOk, p, rfl, caller, found⟩)
  · exact absurd zombie (exitPoint_ending point).used.2
  obtain ⟨has, parent, wants⟩ := findWaitableChild_some found
  refine ⟨c, pid, status, options, copyOk, p, rfl, caller, parent.symm, wants, ?_⟩
  unfold sysWait4
  rw [has, found, if_neg (by simp)]

end Zombies

theorem exit_event_reported {k k₁ k' : Kernel} {e : Event} {j p : Slot} {code : Int}
    (pids : PidsOk k) (fields : k.WaitFields) (only : k.OnlyWaits)
    (point : k.exitPoint e = some (k₁, j, code)) (run : k.step e = some k')
    (found : k₁.liveParent j = some p)
    (spared : (k₁.tasks p).state = .blocked → (k₁.tasks p).waitsFor (k₁.tasks j).pid = false →
      k₁.Spared j p) : ExitReport k₁ k' j p := by
  have ending := exitPoint_ending point
  obtain ⟨other, -, -⟩ := ending.liveParent pids found
  have slept : (k₁.tasks p).state = .blocked → k₁.tasks p = k.tasks p := by
    intro asleep
    rcases ending.other p other with same | same
    · exact same
    · rw [same] at asleep ⊢
      exact schedule_asleep asleep
  rw [ending.ends k' run]
  refine exit_reported code other found ?_ ?_ ?_ spared
  · rw [ending.pid]
    exact pids.positive j ending.used.1
  · intro asleep set
    have same := slept asleep
    rw [same] at asleep set ⊢
    exact only p asleep set
  · intro pid options asleep call
    have same := slept asleep
    rw [same] at asleep call ⊢
    exact (fields p pid options asleep call).1

/-- In a run `waiting_for_pid` is always zero outside `wait4` exactly if tasks go to sleep
in other calls with it zero; and where it is so, the exit of a child makes a `wait4` for it
return its pid or leaves a zombie and a pending signal. A zombie stays until its parent's
`wait4` reaps it. -/
theorem reported_through_wait4 {es : List Event} {k : Kernel}
    (run : Runs (fun _ _ => True) Kernel.boot es k) :
    (Always Kernel.OnlyWaits Kernel.boot es ↔ Runs Kernel.SleepsClean Kernel.boot es k) ∧
    (k.OnlyWaits → ∀ e k' k₁ j code p, k.step e = some k' → k.exitPoint e = some (k₁, j, code) →
      k₁.liveParent j = some p →
      ((k₁.tasks p).state = .blocked → (k₁.tasks p).waitsFor (k₁.tasks j).pid = false →
        k₁.Spared j p) → ExitReport k₁ k' j p) ∧
    ∀ e k' j, k.step e = some k' → (k.tasks j).state = .zombie →
      (k'.tasks j).state = .zombie ∨ k.ReapedBy e j := by
  refine ⟨?_, ?_, fun e k' j run zombie => zombie_stays run zombie⟩
  · exact Runs.always_iff (fun _ _ _ pids run => PidsOk.step pids run)
      (fun _ _ _ _ only run => ⟨fun only' => only'.clean run, only.step run⟩) run PidsOk.boot nofun
  intro only e k' k₁ j code p run' point found spared
  have fields : k.WaitFields :=
    Runs.keeps (fun _ _ _ fields _ run => fields.step run) run nofun
  exact exit_event_reported (PidsOk.reachable run) fields only point run' found spared

theorem reported_through_wait4_reaped :
    let k := Kernel.booted Kernel.childEnded
    (Always Kernel.OnlyWaits Kernel.boot Kernel.childEnded ↔
        Runs Kernel.SleepsClean Kernel.boot Kernel.childEnded k) ∧
      k.ReapedBy (.syscall userFrame (.wait4 2 0 0 true)) 1 := by
  intro k
  have all := reported_through_wait4 (booted_runs Kernel.childEnded (by decide +kernel))
  have gone : (k.step (.syscall userFrame (.wait4 2 0 0 true))).any fun k' =>
      decide ((k'.tasks 1).state ≠ .zombie) := by decide +kernel
  cases run : k.step (.syscall userFrame (.wait4 2 0 0 true)) with
  | none =>
    rw [run] at gone
    cases gone
  | some k' =>
    rw [run, Option.any_some, decide_eq_true_iff] at gone
    exact ⟨all.1, (all.2.2 _ k' 1 run (by decide +kernel)).resolve_left gone⟩

/-- A parent waits for its child, which sends it a signal that is ignored by default; the
parent then sleeps for a second, and the child exits. -/
def Kernel.staleWait : List Event :=
  Kernel.oneProgram ++ [.syscall userFrame (.fork true), .syscall userFrame (.wait4 (-1) 0 0 true),
    .dispatch true, .syscall userFrame (.kill 1 SIGCHLD),
    .syscall userFrame (.nanosleep 0 1000000), .dispatch true,
    .syscall userFrame (.nanosleep 1 0), .timerKernel, .dispatch true]

/-- The sleeping parent is woken with the child's pid as the value of its `nanosleep`, and
the child is gone. -/
theorem stale_wait_reported :
    ∃ k k', Runs (fun _ _ => True) Kernel.boot Kernel.staleWait k ∧ ¬ k.OnlyWaits ∧
      (k.tasks 0).call = .nanosleep 1000 ∧ (k.tasks 0).state = .blocked ∧
      k.step (.syscall userFrame (.exit 0)) = some k' ∧ (k'.tasks 0).state = .ready ∧
      (k'.tasks 0).saved.rax = 2 ∧ (k'.tasks 1).state = .dead := by
  have exits : (booted staleWait).step (.syscall userFrame (.exit 0)) =
      some (booted (staleWait ++ [.syscall userFrame (.exit 0)])) :=
    booted_step (by decide +kernel)
  refine ⟨_, _, booted_runs staleWait (by decide +kernel), fun only => ?_,
    by decide +kernel, by decide +kernel, exits, by decide +kernel, by decide +kernel,
    by decide +kernel⟩
  exact absurd (only 0 (by decide +kernel) (by decide +kernel)) (by decide +kernel)

end Osnos.Sched
