import Osnos.Sched.Pids

/-! # The end of a task, seen from its own slot -/
namespace Osnos.Sched
open Kernel Task Option

section Own

variable {k : Kernel} {i : Slot}

theorem ipcSend_awake (dest : Nat) (awake : (k.tasks i).state ≠ .blocked) :
    (k.ipcSend dest).2.tasks i = k.tasks i := by
  unfold ipcSend
  split
  · rfl
  split
  · rfl
  · simp [taskUnblock, unblock, awake]

theorem notifyParent_self (awake : (k.tasks i).state ≠ .blocked) :
    ∃ change, (k.notifyParent i).tasks i = { k.tasks i with waitChange := change } := by
  refine notifyParent_rule k i ⟨_, rfl⟩ fun p status _ asleep _ _ => ⟨.none, ?_⟩
  have other : i ≠ p := by
    rintro rfl
    exact awake asleep
  rw [edit_same, edit_other _ _ other, storeStatus_tasks]

theorem releaseWaiter_self (awake : (k.tasks i).state ≠ .blocked) :
    ∃ waiter, (k.releaseWaiter i).tasks i = { k.tasks i with vforkWaiter := waiter } := by
  unfold releaseWaiter
  dsimp only
  split
  · exact ⟨_, rfl⟩
  refine ⟨0, ?_⟩
  rw [edit_same]
  split
  · rfl
  rename_i w _
  split
  next asleep =>
    have other : i ≠ w := by
      rintro rfl
      exact awake asleep
    rw [edit_other _ _ other]
  · rfl

theorem exitMarked_self (k : Kernel) (i : Slot) (code : Int) :
    (k.exitMarked i code).tasks i = (k.tasks i).ended (k.liveParent i).isSome code := by
  rw [exitMarked_tasks, edit_same]

def Task.over (t : Task) : Prop := t.state = .zombie ∨ t.state = .dead

theorem exitTold_over (k : Kernel) (i : Slot) (code : Int) :
    ((k.exitTold i code).tasks i).over := by
  have marked : ((k.exitMarked i code).tasks i).over := by
    rw [exitMarked_self]
    unfold Task.over ended
    dsimp only
    split
    · exact .inl rfl
    · exact .inr rfl
  unfold exitTold
  split
  · exact marked
  unfold tellParent
  dsimp only
  split
  · rw [edit_same]
    exact .inr rfl
  rename_i p _ _
  by_cases self : i = p
  · subst self
    rw [edit_same]
    exact marked
  · rw [edit_other _ _ self]
    exact marked

theorem Task.over.awake {t : Task} (h : t.over) : t.state ≠ .blocked := by
  rcases h with state | state <;> simp [state]

theorem procExit_self_state (k : Kernel) (i : Slot) (code : Int) :
    ((k.procExit i code).tasks i).state = ((k.exitTold i code).tasks i).state := by
  have told := exitTold_over k i code
  obtain ⟨_, eq⟩ := releaseWaiter_self told.awake
  have released : ((k.exitReleased i code).tasks i).state = ((k.exitTold i code).tasks i).state := by
    unfold exitReleased
    rw [eq]
  unfold procExit
  dsimp only
  split
  · rw [ipcSend_awake, released]
    rw [released]
    exact told.awake
  · exact released

theorem procExit_over (k : Kernel) (i : Slot) (code : Int) :
    ((k.procExit i code).tasks i).over := by
  unfold Task.over
  rw [procExit_self_state]
  exact exitTold_over k i code

end Own

section Point

variable {k k₁ k' : Kernel} {i j : Slot} {e : Event} {code : Int}

theorem killable_iff {t : Task} : t.killable ↔
    t.pml4 ≠ none ∧ t.state ≠ .unused ∧ t.state ≠ .dead ∧ t.state ≠ .zombie := by
  simp [killable]

theorem schedule_reaped (asleep : (k.taskReapDead.tasks j).state ≠ .blocked)
    (ready : (k.taskReapDead.tasks j).state ≠ .ready) :
    k.schedule.tasks j = k.taskReapDead.tasks j := by
  have woken : k.taskReapDead.taskCheckWakeups.tasks j = k.taskReapDead.tasks j := by
    simp [taskCheckWakeups, checkWakeup, asleep]
  rw [← woken] at ready ⊢
  unfold schedule
  generalize k.taskReapDead.taskCheckWakeups = k₁ at ready
  rcases startNext_cases k₁ with ⟨picked, eq⟩ | eq
  · have other : j ≠ k₁.pickNext.1 := by
      rintro rfl
      exact ready picked
    rw [eq, edit_other _ _ other]
  · rw [eq]

theorem schedule_settled (dead : (k.tasks j).state ≠ .dead) (asleep : (k.tasks j).state ≠ .blocked)
    (ready : (k.tasks j).state ≠ .ready) : k.schedule.tasks j = k.tasks j := by
  have kept : k.taskReapDead.tasks j = k.tasks j :=
    (taskReapDead_tasks k j).resolve_right fun cleared => dead cleared.2
  rw [← kept] at asleep ready ⊢
  exact schedule_reaped asleep ready

theorem schedule_dead (dead : (k.tasks j).state = .dead) :
    (k.schedule.tasks j).state = .dead ∨ (k.schedule.tasks j).state = .unused := by
  rcases taskReapDead_tasks k j with same | ⟨cleared, -⟩
  · left
    rw [schedule_reaped, same, dead] <;> rw [same, dead] <;> decide
  · right
    rw [schedule_reaped, cleared] <;> rw [cleared] <;> decide

theorem schedule_killable (live : (k.schedule.tasks j).killable) :
    (k.tasks j).killable = true ∧ SameIdentity (k.tasks j) (k.schedule.tasks j) := by
  rw [killable_iff] at live
  have alive : (k.tasks j).state ≠ .dead := fun dead =>
    (schedule_dead dead).elim live.2.2.1 live.2.1
  have same := schedule_identity k j alive
  refine ⟨?_, same⟩
  by_cases settled : (k.tasks j).state = .blocked ∨ (k.tasks j).state = .ready
  · have user : (k.tasks j).pml4 ≠ none := same.pml4 ▸ live.1
    rw [killable_iff]
    rcases settled with h | h <;> simp [h, user]
  push Not at settled
  rw [schedule_settled alive settled.1 settled.2] at live
  exact killable_iff.2 live

theorem schedule_asleep (asleep : (k.schedule.tasks j).state = .blocked) :
    k.schedule.tasks j = k.tasks j := by
  have reaped := taskReapDead_tasks k j
  have woken : k.taskReapDead.taskCheckWakeups.tasks j =
      (k.taskReapDead.tasks j).checkWakeup k.taskReapDead.now := editAll_tasks _ _ j
  unfold schedule at asleep ⊢
  generalize k.taskReapDead.now = now at woken
  generalize k.taskReapDead.tasks j = t at woken reaped
  generalize k.taskReapDead.taskCheckWakeups = k₁ at asleep woken
  have started : k₁.startNext.tasks j = k₁.tasks j := by
    rcases startNext_cases k₁ with ⟨-, eq⟩ | eq
    · rw [eq] at asleep ⊢
      by_cases picked : j = k₁.pickNext.1
      · rw [picked, edit_same] at asleep
        cases asleep
      · rw [edit_other _ _ picked]
    · rw [eq]
  rw [started, woken] at asleep ⊢
  unfold checkWakeup at asleep ⊢
  split at asleep
  · cases asleep
  rename_i slept
  rw [if_neg slept]
  refine reaped.resolve_right ?_
  rintro ⟨rfl, -⟩
  cases asleep

/-- What stands between an event and the exit it leads to: at most a turn of the
scheduler, and what the trampoline did to the slot that ends. -/
structure Ending (k : Kernel) (e : Event) (k₁ : Kernel) (i : Slot) (code : Int) : Prop where
  ends : ∀ k', k.step e = some k' → k' = k₁.procExit i code
  creates : e.creates = false
  pid : (k₁.tasks i).pid = (k.tasks i).pid
  parentPid : (k₁.tasks i).parentPid = (k.tasks i).parentPid
  used : (k.tasks i).state ≠ .unused ∧ (k.tasks i).state ≠ .zombie
  other : ∀ j, j ≠ i → k₁.tasks j = k.tasks j ∨ k₁.tasks j = k.schedule.tasks j

theorem Ending.of_caller {now : Nat} (caller : k.userSlot = some i) (creates : e.creates = false)
    (ends : ∀ k', k.step e = some k' → k' = { k with now := now }.procExit i code) :
    Ending k e { k with now := now } i code where
  ends := ends
  creates := creates
  pid := rfl
  parentPid := rfl
  used := by simp [(userSlot_some caller).2.1]
  other := fun _ _ => .inl rfl

theorem dispatch_of_step {frameOk : Bool} (run : k.step (.dispatch frameOk) = some k') :
    k.dispatch frameOk = some k' := by
  unfold step at run
  split at run
  · cases run
  dsimp only at run
  split at run
  · exact run
  · cases run

theorem step_caller {c : Context} {call : Syscall} (caller : k.userSlot = some i)
    (run : k.step (.syscall c call) = some k') : k' = k.syscall i c call := by
  unfold step at run
  split at run
  · cases run
  dsimp only at run
  rw [caller] at run
  exact (some.inj run).symm

theorem exitPoint_cases (point : k.exitPoint e = some (k₁, i, code)) :
    (k.userSlot = some i ∧ (∀ frameOk, e ≠ .dispatch frameOk) ∧ ∃ now, k₁ = { k with now := now }) ∨
      ∃ frameOk, e = .dispatch frameOk ∧ k.schedule.userSlot = some i ∧
        k.dispatchTo frameOk = (.exit code, k₁) := by
  unfold exitPoint at point
  split at point
  · obtain ⟨j, found, eq⟩ := map_eq_some_iff.1 point
    cases eq
    exact .inl ⟨(filter_eq_some_iff.1 found).1, nofun, _, rfl⟩
  · split at point
    next picked arrives =>
      cases point
      exact .inr ⟨_, rfl, picked, arrives⟩
    · cases point
  iterate 3
    obtain ⟨j, caller, eq⟩ := map_eq_some_iff.1 point
    cases eq
    exact .inl ⟨caller, nofun, k.now, rfl⟩
  · cases point

theorem exitPoint_dispatch {frameOk : Bool}
    (point : k.exitPoint (.dispatch frameOk) = some (k₁, i, code)) :
    k.schedule.userSlot = some i ∧ k.dispatchTo frameOk = (.exit code, k₁) := by
  rcases exitPoint_cases point with ⟨-, other, -⟩ | ⟨_, same, at_pick⟩
  · exact absurd rfl (other frameOk)
  · cases same
    exact at_pick

theorem exitPoint_ending (point : k.exitPoint e = some (k₁, i, code)) : Ending k e k₁ i code := by
  unfold exitPoint at point
  split at point
  · obtain ⟨j, found, eq⟩ := map_eq_some_iff.1 point
    cases eq
    obtain ⟨caller, kill⟩ := filter_eq_some_iff.1 found
    refine .of_caller caller rfl fun k' run => ?_
    unfold step at run
    split at run
    · cases run
    dsimp only at run
    rw [caller] at run
    have eq := (some.inj run).symm
    unfold timerUser at eq
    dsimp only at eq
    rwa [if_pos kill] at eq
  next frameOk =>
    split at point
    next j k₂ code' picked arrives =>
      cases point
      obtain ⟨own, same, running⟩ := dispatch_user frameOk picked
      rw [arrives] at own
      refine ⟨fun k' run => ?_, rfl, own.pid.trans same.pid, own.parentPid.trans same.parentPid,
        ?_, fun j other => .inr (own.other j other)⟩
      · have run := dispatch_of_step run
        unfold dispatch at run
        rw [arrives, picked] at run
        exact (some.inj run).symm
      · rcases schedule_running running with h | h | h <;> simp [h]
    · cases point
  iterate 2
    obtain ⟨j, caller, eq⟩ := map_eq_some_iff.1 point
    cases eq
    exact .of_caller caller rfl fun k' run => step_caller caller run
  · obtain ⟨j, caller, eq⟩ := map_eq_some_iff.1 point
    cases eq
    refine .of_caller caller rfl fun k' run => ?_
    unfold step at run
    split at run
    · cases run
    · dsimp only at run
      rw [caller] at run
      exact (some.inj run).symm
  · cases point

end Point

section Others

variable {k : Kernel} {i j : Slot} {code : Int}

theorem releaseWaiter_other (other : j ≠ i)
    (apart : (k.tasks j).state ≠ .blocked ∨ (k.tasks i).vforkWaiter ≠ (k.tasks j).pid) :
    (k.releaseWaiter i).tasks j = k.tasks j := by
  unfold releaseWaiter
  dsimp only
  split
  · rfl
  rw [edit_other _ _ other]
  split
  · rfl
  rename_i w found
  split
  next asleep =>
    have waiter : j ≠ w := by
      rintro rfl
      exact apart.elim (absurd asleep) (absurd (taskByPid_some found).2.symm)
    rw [edit_other _ _ waiter]
  · rfl

theorem exitMarked_rest (k : Kernel) (i : Slot) (code : Int) :
    (k.exitMarked i code).services = k.services ∧
      (k.exitMarked i code).statusWrites = k.statusWrites := by
  have dropped : ∀ pid, (k.ipcDropForPid pid).services = k.services ∧
      (k.ipcDropForPid pid).statusWrites = k.statusWrites := by
    intro pid
    unfold ipcDropForPid
    split <;> exact ⟨rfl, rfl⟩
  unfold exitMarked dropForeground
  split <;> exact dropped _

theorem releaseWaiter_rest (k : Kernel) (i : Slot) : (k.releaseWaiter i).services = k.services ∧
      (k.releaseWaiter i).statusWrites = k.statusWrites := by
  unfold releaseWaiter
  dsimp only
  split
  · exact ⟨rfl, rfl⟩
  split
  · exact ⟨rfl, rfl⟩
  · split <;> exact ⟨rfl, rfl⟩

theorem exitTold_services (k : Kernel) (i : Slot) (code : Int) :
    (k.exitTold i code).services = k.services := by
  have marked := (exitMarked_rest k i code).1
  unfold exitTold
  split
  · exact marked
  unfold tellParent storeStatus
  dsimp only
  split
  · split <;> exact marked
  · exact marked

theorem tellsShell_eq (k : Kernel) (i : Slot) (code : Int) :
    (k.exitReleased i code).tellsShell i = k.tellsShell i := by
  have services : (k.exitReleased i code).services = k.services :=
    (releaseWaiter_rest _ i).1.trans (exitTold_services k i code)
  have parent : ((k.exitReleased i code).tasks i).parentPid = (k.tasks i).parentPid := by
    obtain ⟨_, eq⟩ := releaseWaiter_self (exitTold_over k i code).awake
    unfold exitReleased
    rw [eq]
    exact (exitTold_self k i code).2.1
  unfold tellsShell serviceGetPid
  rw [services, parent]

theorem procExit_after (other : j ≠ i)
    (spared : ((k.exitTold i code).tasks j).state ≠ .blocked ∨
      ((k.tasks i).vforkWaiter ≠ ((k.exitTold i code).tasks j).pid ∧ k.tellsShell i = false)) :
    (k.procExit i code).tasks j = (k.exitTold i code).tasks j := by
  have released : (k.exitReleased i code).tasks j = (k.exitTold i code).tasks j := by
    refine releaseWaiter_other other (spared.imp_right fun apart => ?_)
    rw [(exitTold_self k i code).2.2]
    exact apart.1
  unfold procExit
  dsimp only
  split
  next tells =>
    have awake : ((k.exitTold i code).tasks j).state ≠ .blocked := by
      refine spared.resolve_right fun apart => ?_
      rw [tellsShell_eq, apart.2] at tells
      cases tells
    rw [← released] at awake
    rw [ipcSend_awake _ awake, released]
  · exact released

theorem procExit_writes (k : Kernel) (i : Slot) (code : Int) :
    (k.procExit i code).statusWrites = (k.exitTold i code).statusWrites := by
  have released := (releaseWaiter_rest (k.exitTold i code) i).2
  unfold procExit
  dsimp only
  split
  · unfold ipcSend
    split
    · exact released
    · split <;> exact released
  · exact released

theorem exitMarked_other (other : j ≠ i) : (k.exitMarked i code).tasks j = k.tasks j := by
  rw [exitMarked_tasks, edit_other _ _ other]

theorem procExit_zombie (code : Int) (other : j ≠ i) (zombie : (k.tasks j).state = .zombie) :
    (k.procExit i code).tasks j = k.tasks j := by
  have told : (k.exitTold i code).tasks j = k.tasks j := by
    unfold exitTold
    split
    · exact exitMarked_other other
    rename_i p found
    have parent : j ≠ p := by
      rintro rfl
      exact (liveParent_some found).2.2.2.2.1 zombie
    unfold tellParent
    dsimp only
    split
    · rw [edit_other _ _ other, edit_other _ _ parent, storeStatus_tasks, edit_other _ _ parent]
      exact exitMarked_other other
    · rw [edit_other _ _ parent]
      exact exitMarked_other other
  rw [procExit_after other, told]
  rw [told, zombie]
  exact .inl (by decide)

end Others

end Osnos.Sched
