import Osnos.Sched.Effect

/-! `task_run_next` goes round the table from the slot it stood on last. The distance it
still has to go to a ready slot shrinks with every dispatch of another one, and nothing but
a dispatch moves the place it starts from. -/
namespace Osnos.Sched
open Kernel List

namespace Kernel

def dispatches (k : Kernel) : Event → Option Slot
  | .dispatch _ =>
    let next := k.taskReapDead.taskCheckWakeups.pickNext
    if next.2 then some next.1 else none
  | _ => none

def ahead (k : Kernel) (i : Slot) : Nat := (i - k.current.getD 15 - 1).val

end Kernel

def Event.isDispatch : Event → Bool
  | .dispatch _ => true
  | _ => false

section Place

variable {k k₁ k' : Kernel} {e : Event} {i : Slot} {code : Int}

theorem procExit_current (k : Kernel) (i : Slot) (code : Int) :
    (k.procExit i code).current = k.current := by
  have marked : (k.exitMarked i code).current = k.current := by
    unfold exitMarked dropForeground ipcDropForPid
    split_ifs <;> rfl
  have told : (k.exitTold i code).current = k.current := by
    unfold exitTold
    split
    · exact marked
    · exact (tellParent_quiet _ _).current.trans marked
  have released : (k.exitReleased i code).current = k.current :=
    releaseWaiter_quiet.current.trans told
  unfold procExit
  dsimp only
  split
  · exact (ipcSend_nudges _ _).current.trans released
  · exact released

theorem startNext_current (k : Kernel) : k.startNext.current = some k.pickNext.1 := by
  rcases startNext_cases k with ⟨-, eq⟩ | eq <;> rw [eq]
  rfl

theorem dispatchTo_current (k : Kernel) (frameOk : Bool) :
    (k.dispatchTo frameOk).2.current = some k.taskReapDead.taskCheckWakeups.pickNext.1 := by
  have scheduled : k.schedule.current = _ := startNext_current k.taskReapDead.taskCheckWakeups
  unfold dispatchTo
  generalize k.schedule = k₁ at scheduled ⊢
  split
  · exact (userTaskTrampoline_quiet frameOk).current.trans scheduled
  · exact scheduled

theorem exitPoint_current (point : k.exitPoint e = some (k₁, i, code))
    (other : e.isDispatch = false) : k₁.current = k.current := by
  rcases exitPoint_cases point with ⟨-, -, now, rfl⟩ | ⟨frameOk, rfl, -⟩
  · rfl
  · cases other

theorem step_current (run : k.step e = some k') (other : e.isDispatch = false) :
    k'.current = k.current := by
  cases point : k.exitPoint e with
  | some p =>
    obtain ⟨k₁, i, _⟩ := p
    rw [(exitPoint_ending point).ends k' run, procExit_current]
    exact exitPoint_current point other
  | none =>
    cases step_effect run point with
    | quiet keeps => exact keeps.current
    | turns frameOk event =>
      subst event
      cases other
    | sends k₁ dest _ before after =>
      exact after.current.trans ((ipcSend_nudges k₁ dest).current.trans before.current)
    | receives _ i _ _ _ keeps =>
      exact keeps.current.trans (ipcRecv_nudges k (k.tasks i).pid).current
    | execs _ _ _ _ _ placed | creates _ _ _ _ _ placed => exact placed.current

theorem dispatch_current {frameOk : Bool} (run : k.step (.dispatch frameOk) = some k') :
    k'.current = some k.taskReapDead.taskCheckWakeups.pickNext.1 := by
  have place := dispatchTo_current k frameOk
  generalize k.taskReapDead.taskCheckWakeups.pickNext.1 = next at place ⊢
  cases point : k.exitPoint (.dispatch frameOk) with
  | some p =>
    obtain ⟨_, i, _⟩ := p
    rw [(exitPoint_dispatch point).2] at place
    rw [(exitPoint_ending point).ends k' run, procExit_current]
    exact place
  | none =>
    exact (dispatch_quiet point run).current.trans place

end Place

section Distance

variable {k k' : Kernel} {e : Event} {i : Slot} {frameOk : Bool}

theorem find_finRange_le {n : Nat} {p : Fin n → Bool} {d x : Fin n}
    (found : (finRange n).find? p = some d) (holds : p x) : d ≤ x := by
  obtain ⟨-, before, behind, split, none⟩ := List.find?_eq_some_iff_append.1 found
  have sorted : (before ++ d :: behind).Pairwise (· < ·) := split ▸ pairwise_lt_finRange n
  have mem : x ∈ before ++ d :: behind := split ▸ mem_finRange x
  rcases List.mem_append.1 mem with early | late
  · have misses := none x early
    simp [holds] at misses
  rcases List.mem_cons.1 late with here | behind
  · exact here.ge
  · exact ((List.pairwise_cons.1 (List.pairwise_append.1 sorted).2.1).1 x behind).le

theorem pickNext_first (ready : (k.tasks i).state = .ready) :
    k.pickNext.2 = true ∧ (k.pickNext.1 ≠ i →
      (i - k.pickNext.1 - 1).val < (i - k.current.getD 15 - 1).val) := by
  unfold pickNext
  generalize k.current.getD 15 = start
  have here : start + (i - start - 1) + 1 = i := by abel
  dsimp only
  cases found : (finRange 16).find? fun d =>
      decide ((k.tasks (start + d + 1)).state = .ready) with
  | none =>
    have missed := List.find?_eq_none.1 found (i - start - 1) (mem_finRange _)
    simp [here, ready] at missed
  | some d =>
    have le := find_finRange_le found (x := i - start - 1) (by simp [here, ready])
    refine ⟨rfl, fun other => ?_⟩
    have lt : d < i - start - 1 := by
      refine lt_of_le_of_ne le fun same => other ?_
      dsimp only
      rw [same, here]
    have rest : i - (start + d + 1) - 1 = i - start - 1 - d - 1 := by abel
    have one : (1 : Fin 16) ≤ i - start - 1 - d := by
      have value := Fin.sub_val_of_le le
      rw [Fin.le_def, value]
      have := Fin.lt_def.1 lt
      omega
    rw [rest, Fin.sub_val_of_le one, Fin.sub_val_of_le le]
    omega

theorem wakeups_ready (ready : (k.tasks i).state = .ready) :
    (k.taskReapDead.taskCheckWakeups.tasks i).state = .ready := by
  have kept : k.taskReapDead.tasks i = k.tasks i := by
    refine (taskReapDead_tasks k i).resolve_right fun cleared => ?_
    rw [ready] at cleared
    exact absurd cleared.2 (by decide)
  have awake : (k.tasks i).checkWakeup k.taskReapDead.now = k.tasks i := by
    unfold Task.checkWakeup
    rw [if_neg]
    simp [ready]
  have at_i : k.taskReapDead.taskCheckWakeups.tasks i =
      (k.taskReapDead.tasks i).checkWakeup k.taskReapDead.now := editAll_tasks _ _ i
  rw [at_i, kept, awake, ready]

theorem taskReapDead_current (k : Kernel) : k.taskReapDead.current = k.current := by
  unfold taskReapDead
  generalize finRange 16 = slots
  induction slots generalizing k with
  | nil => rfl
  | cons j slots ih =>
    rw [foldl_cons, ih]
    unfold reapSlot ipcDropForPid
    split_ifs <;> rfl

theorem taskCheckWakeups_current (k : Kernel) : k.taskCheckWakeups.current = k.current := rfl

/-- While a slot is ready every turn of the scheduler enters a task, and one that enters
another brings the slot closer. -/
theorem dispatch_closer (ready : (k.tasks i).state = .ready)
    (run : k.step (.dispatch frameOk) = some k') :
    (k.dispatches (.dispatch frameOk)).isSome = true ∧
      (k.dispatches (.dispatch frameOk) ≠ some i → k'.ahead i < k.ahead i) := by
  have awake := wakeups_ready ready
  have place := dispatch_current run
  have before : k.taskReapDead.taskCheckWakeups.current = k.current := by
    rw [taskCheckWakeups_current, taskReapDead_current]
  unfold Kernel.dispatches Kernel.ahead
  generalize k.taskReapDead.taskCheckWakeups = k₁ at awake place before ⊢
  obtain ⟨enters, closer⟩ := pickNext_first awake
  rw [if_pos enters, place, ← before]
  exact ⟨rfl, fun other => closer fun same => other (congrArg some same)⟩

/-- The invariant of a run in which the slot stays ready: what is still ahead of it and
the turns taken make up what was ahead of it at first. -/
theorem waits_bounded {es : List Event}
    (run : Runs (fun k e => (k.tasks i).state = .ready ∧ k.dispatches e ≠ some i) k es k') :
    k'.ahead i + es.countP Event.isDispatch ≤ k.ahead i := by
  induction run with
  | nil => exact le_rfl
  | @cons k k₁ k' e es a allowed first rest ih =>
    have step := exec_eq_some.1 first
    rw [countP_cons]
    cases turn : e.isDispatch with
    | false =>
      have same : k₁.ahead i = k.ahead i := by
        unfold Kernel.ahead
        rw [step_current step turn]
      simp only [Bool.false_eq_true, if_false]
      omega
    | true =>
      cases e with
      | dispatch frameOk =>
        have := (dispatch_closer allowed.1 step).2 allowed.2
        simp only [if_true]
        omega
      | _ => cases turn

end Distance

/-- A ready slot that is not entered has seen fewer dispatches than there are other slots:
in every run in which it stays ready, each turn of the scheduler enters a task, and after
fifteen turns that entered others the next one enters it. -/
theorem ready_slot_dispatched {i : Slot} {k k' : Kernel} {es : List Event}
    (run : Runs (fun k e => (k.tasks i).state = .ready ∧ k.dispatches e ≠ some i) k es k')
    (ready : (k'.tasks i).state = .ready) {frameOk : Bool} {k₁ : Kernel}
    (next : k'.step (.dispatch frameOk) = some k₁) :
    es.countP Event.isDispatch ≤ 15 ∧ (k'.dispatches (.dispatch frameOk)).isSome = true ∧
      (es.countP Event.isDispatch = 15 → k'.dispatches (.dispatch frameOk) = some i) := by
  have bound : k'.ahead i + es.countP Event.isDispatch ≤ k.ahead i := waits_bounded run
  have first : k.ahead i < 16 := Fin.isLt _
  obtain ⟨enters, closer⟩ := dispatch_closer ready next
  refine ⟨by omega, enters, fun full => ?_⟩
  by_contra other
  have := closer other
  omega

def Kernel.twoPrograms : List Event := [.bootSpawn 4096 8192, .bootSpawn 4096 8192]

theorem ready_slot_dispatched_second :
    ((Kernel.booted Kernel.twoPrograms).dispatches (.dispatch true) = some 0) ∧
      ((Kernel.booted (Kernel.twoPrograms ++ [.dispatch true] ++
        [.syscall {} (.exit 0)])).dispatches (.dispatch true)).isSome = true := by
  refine ⟨by decide +kernel, ?_⟩
  have first := @Kernel.booted_step Kernel.twoPrograms (.dispatch true) (by decide +kernel)
  have second := @Kernel.booted_step (Kernel.twoPrograms ++ [.dispatch true])
    (.syscall {} (.exit 0)) (by decide +kernel)
  exact (ready_slot_dispatched (i := 1)
    (.cons (a := ()) ⟨by decide +kernel, by decide +kernel⟩ (exec_eq_some.2 first)
      (.cons (a := ()) ⟨by decide +kernel, by decide +kernel⟩ (exec_eq_some.2 second) (.nil _)))
    (by decide +kernel) (Kernel.booted_step (by decide +kernel))).2.1

end Osnos.Sched
