import Osnos.Sched.Mode

/-! An exiting task becomes a zombie if it has a live parent at that moment, and only that
parent's `wait4` turns it into a dead one, whose slot is free. -/
namespace Osnos.Sched
open Relation Kernel List

section Chains

variable {k k' : Kernel} {e : Event} {i : Slot} {t t' : Task}

theorem Act.zombie (act : Act (k.causes e) i t t') (zombie : t'.state = .zombie) :
    t.state = .zombie ∨ (k.causes e).exit i true := by
  cases act with
  | raise | save | consume => exact .inl zombie
  | exit ends running =>
    rename_i reapable code
    cases reapable with
    | false => cases zombie
    | true => exact .inr ends
  | create _ new => rw [new.state] at zombie; cases zombie
  | park _ calls =>
    obtain ⟨-, -, parks⟩ := calls
    cases parks <;> cases zombie
  | tweak tweak => exact .inl (tweak.state.symm.trans zombie)
  | _ => cases zombie

theorem chain_zombie (chain : ReflTransGen (Act (k.causes e) i) t t')
    (zombie : t'.state = .zombie) : t.state = .zombie ∨ (k.causes e).exit i true := by
  induction chain with
  | refl => exact .inl zombie
  | tail _ act ih => exact (act.zombie zombie).elim ih .inr

theorem Act.survives (act : Act (k.causes e) i t t')
    (live : t.state ≠ .unused ∧ t.state ≠ .dead ∧ t.state ≠ .zombie)
    (goes_on : ∀ reapable, ¬ (k.causes e).exit i reapable) :
    (t'.state ≠ .unused ∧ t'.state ≠ .dead ∧ t'.state ≠ .zombie) ∧
      (t.pml4 ≠ none → t'.pml4 ≠ none) := by
  obtain ⟨used, alive, unended⟩ := live
  cases act with
  | raise | save | consume =>
    exact ⟨⟨used, alive, unended⟩, id⟩
  | exit ends => exact absurd ends (goes_on _)
  | bury _ zombie => exact absurd zombie unended
  | clear dead => exact absurd dead alive
  | create free new => exact absurd free (by tauto)
  | park _ calls =>
    obtain ⟨-, -, parks⟩ := calls
    cases parks <;> exact ⟨⟨nofun, nofun, nofun⟩, id⟩
  | tweak tweak =>
    rw [tweak.state]
    exact ⟨⟨used, alive, unended⟩, fun user none => user (tweak.user.1 none)⟩
  | _ => exact ⟨⟨nofun, nofun, nofun⟩, id⟩

theorem Act.killable (act : Act (k.causes e) i t t') (live : t.killable)
    (goes_on : ∀ reapable, ¬ (k.causes e).exit i reapable) : t'.killable := by
  rw [killable_iff] at live ⊢
  obtain ⟨lives, user⟩ := act.survives live.2 goes_on
  exact ⟨user live.1, lives⟩

theorem chain_killable (chain : ReflTransGen (Act (k.causes e) i) t t') (live : t.killable)
    (goes_on : ∀ reapable, ¬ (k.causes e).exit i reapable) : t'.killable := by
  induction chain with
  | refl => exact live
  | tail _ act ih => exact act.killable ih goes_on

end Chains

/-- The zombie in slot `i` has a live parent, and that parent's `wait4` for it makes it
dead. -/
def Kernel.Reapable (k : Kernel) (i : Slot) : Prop :=
  ∃ p, k.liveParent i = some p ∧ ∀ c status options copyOk,
    ((k.sysWait4 p c (k.tasks i).pid status options copyOk).2.tasks i).state = .dead

section Reaping

variable {k k' : Kernel} {i p : Slot}

theorem liveParent_eq (pids : PidsOk k) (live : (k.tasks p).killable)
    (named : (k.tasks p).pid = (k.tasks i).parentPid) : k.liveParent i = some p := by
  obtain ⟨user, used, alive, unended⟩ := killable_iff.1 live
  have found := pids.taskByPid used
  have positive := pids.positive p used
  unfold liveParent
  rw [if_neg (by omega), ← named, found, Option.filter_eq_some_iff]
  simp [user, used, alive, unended]

theorem findWaitableChild_zombie (pids : PidsOk k) (zombie : (k.tasks i).state = .zombie)
    (options : UInt32) :
    k.findWaitableChild (k.tasks i).parentPid (k.tasks i).pid options = some i := by
  have used : (k.tasks i).state ≠ .unused := by simp [zombie]
  have positive := pids.positive i used
  unfold findWaitableChild
  cases found : (finRange 16).find? fun j =>
      k.isChild (k.tasks i).parentPid (k.tasks i).pid j && k.isWaitable options j with
  | none =>
    have none_such := List.find?_eq_none.1 found i (mem_finRange i)
    simp [isChild, isWaitable, zombie] at none_such
  | some j =>
    have child := find?_some found
    simp only [isChild, Bool.and_eq_true, decide_eq_true_eq] at child
    obtain ⟨⟨used', -, -, same⟩, -⟩ := child
    have same : (k.tasks j).pid = (k.tasks i).pid := by
      have := same (by omega)
      omega
    exact congrArg some (pids.apart j i used' used same)

theorem reapable_of_live (pids : PidsOk k) (zombie : (k.tasks i).state = .zombie)
    (live : (k.tasks p).killable) (named : (k.tasks p).pid = (k.tasks i).parentPid) :
    k.Reapable i := by
  refine ⟨p, liveParent_eq pids live named, fun c status options copyOk => ?_⟩
  have found := findWaitableChild_zombie pids zombie options
  have has : k.hasChild (k.tasks i).parentPid (k.tasks i).pid := by
    refine List.any_eq_true.2 ⟨i, mem_finRange i, ?_⟩
    simp [isChild, zombie]
  unfold sysWait4
  rw [named, has, found]
  dsimp only
  rw [if_neg (by simp), edit_same]
  simp [Task.reap, zombie]

end Reaping

def Kernel.NoSlotLost (k : Kernel) : Prop :=
  ∀ i, (k.tasks i).state = .zombie → k.Reapable i

def Kernel.Tidy (k : Kernel) (e : Event) : Prop :=
  ∀ k₁ p code, k.exitPoint e = some (k₁, p, code) →
    ∀ i, (k.tasks i).state = .zombie → (k.tasks i).parentPid ≠ (k.tasks p).pid

section Steps

variable {k k₁ k' : Kernel} {e : Event} {i p : Slot} {code : Int}

theorem freeSlot_some (free : k.freeSlot = some i) :
    (k.tasks i).state = .unused ∨ (k.tasks i).state = .dead := by
  have h := find?_some free
  simpa using h

theorem step_same (run : k.step e = some k') (used : (k.tasks i).state ≠ .unused)
    (alive : (k.tasks i).state ≠ .dead) (used' : (k'.tasks i).state ≠ .unused) :
    (k'.tasks i).pid = (k.tasks i).pid ∧ (k'.tasks i).parentPid = (k.tasks i).parentPid := by
  rcases step_kept run i with (unused | ⟨-, same⟩) | ⟨free, -⟩
  · exact absurd unused used'
  · exact same
  · exact absurd (freeSlot_some free) (by tauto)

theorem step_killable (run : k.step e = some k') (live : (k.tasks p).killable)
    (goes_on : ∀ k₁ code, k.exitPoint e ≠ some (k₁, p, code)) :
    (k'.tasks p).killable = true ∧ (k'.tasks p).pid = (k.tasks p).pid := by
  have live' : (k'.tasks p).killable := chain_killable ((step_moves run).acts p) live
      (fun _ ⟨k₁, code, point, _⟩ => goes_on k₁ code point)
  obtain ⟨-, used, alive, -⟩ := killable_iff.1 live
  exact ⟨live', (step_same run used alive (killable_iff.1 live').2.1).1⟩

theorem Ending.liveParent (ending : Ending k e k₁ i code) (pids : PidsOk k)
    (found : k₁.liveParent i = some p) :
    p ≠ i ∧ (k.tasks p).killable ∧ (k.tasks p).pid = (k.tasks i).parentPid := by
  obtain ⟨by_pid, -, user, alive, unended, used⟩ := liveParent_some found
  have named := (taskByPid_some by_pid).2
  rw [ending.parentPid] at named
  have live : (k₁.tasks p).killable := killable_iff.2 ⟨user, used, alive, unended⟩
  have other : p ≠ i := by
    rintro rfl
    have younger := pids.parent p ending.used.1
    rw [ending.pid] at named
    omega
  rcases ending.other p other with same | same
  · rw [same] at live named
    exact ⟨other, live, named⟩
  rw [same] at live named
  obtain ⟨live, identity⟩ := schedule_killable live
  exact ⟨other, live, identity.pid.symm.trans named⟩

theorem Kernel.NoSlotLost.step (lost : k.NoSlotLost) (pids : PidsOk k)
    (run : k.step e = some k') (tidy : k.Tidy e) : k'.NoSlotLost := by
  intro i zombie
  have used' : (k'.tasks i).state ≠ .unused := by simp [zombie]
  rcases chain_zombie ((step_moves run).acts i) zombie with before | ⟨k₁, code, point, reapable⟩
  · obtain ⟨p, found, -⟩ := lost i before
    obtain ⟨by_pid, -, user, alive, unended, used⟩ := liveParent_some found
    have named := (taskByPid_some by_pid).2
    have live : (k.tasks p).killable := killable_iff.2 ⟨user, used, alive, unended⟩
    have goes_on : ∀ k₁ code, k.exitPoint e ≠ some (k₁, p, code) :=
      fun k₁ code point => tidy k₁ p code point i before named.symm
    obtain ⟨live', pid⟩ := step_killable run live goes_on
    have same := (step_same run (by simp [before]) (by simp [before]) used').2
    exact reapable_of_live (pids.step run) zombie live' (pid.trans (named.trans same.symm))
  obtain ⟨p, found⟩ := Option.isSome_iff_exists.1 reapable.symm
  have ending := exitPoint_ending point
  obtain ⟨other, live, named⟩ := ending.liveParent pids found
  have goes_on : ∀ k₁ code, k.exitPoint e ≠ some (k₁, p, code) := by
    intro k₂ code' point'
    rw [point] at point'
    cases point'
    exact other rfl
  obtain ⟨live', pid⟩ := step_killable run live goes_on
  have same : (k'.tasks i).parentPid = (k.tasks i).parentPid := by
    rcases step_kept run i with (unused | ⟨-, -, same⟩) | ⟨-, -, new, created, -⟩
    · exact absurd unused used'
    · exact same
    · exact absurd created.event (by simp [ending.creates])
  exact reapable_of_live (pids.step run) zombie live' (pid.trans (named.trans same.symm))

theorem Kernel.NoSlotLost.tidy (lost : k'.NoSlotLost) (pids : PidsOk k)
    (run : k.step e = some k') : k.Tidy e := by
  intro k₁ p code point i zombie child
  have ending := exitPoint_ending point
  have other : i ≠ p := by
    rintro rfl
    exact ending.used.2 zombie
  have ends := ending.ends k' run
  have stays : k₁.tasks i = k.tasks i := by
    rcases ending.other i other with same | same
    · exact same
    · rw [same]
      exact schedule_settled (by simp [zombie]) (by simp [zombie]) (by simp [zombie])
  have stays' : k'.tasks i = k.tasks i := by
    rw [ends, procExit_zombie code other (by rw [stays]; exact zombie), stays]
  have ended : (k'.tasks p).over := by
    rw [ends]
    exact procExit_over k₁ p code
  have used' : (k'.tasks p).state ≠ .unused := by
    rcases ended with h | h <;> simp [h]
  have pid : (k'.tasks p).pid = (k.tasks p).pid := by
    rcases step_kept run p with (unused | ⟨-, same, -⟩) | ⟨-, -, new, created, -⟩
    · exact absurd unused used'
    · exact same
    · exact absurd created.event (by simp [ending.creates])
  obtain ⟨q, found, -⟩ := lost i (by rw [stays']; exact zombie)
  obtain ⟨by_pid, -, -, alive, unended, -⟩ := liveParent_some found
  rw [stays', child, ← pid, (pids.step run).taskByPid used'] at by_pid
  cases by_pid
  exact ended.elim unended alive

end Steps

/-- In a run every zombie can be reaped at any time exactly if no task exits before it
has reaped its zombie children. -/
theorem no_slot_lost {es : List Event} {k : Kernel}
    (run : Runs (fun _ _ => True) Kernel.boot es k) :
    Always Kernel.NoSlotLost Kernel.boot es ↔ Runs Kernel.Tidy Kernel.boot es k :=
  Runs.always_iff (fun _ _ _ pids run => pids.step run)
    (fun _ _ _ pids lost run => ⟨fun lost' => lost'.tidy pids run, lost.step pids run⟩) run
    PidsOk.boot nofun

/-- A program forks and sleeps for a millisecond; its child exits meanwhile. -/
def Kernel.childEnded : List Event :=
  Kernel.oneProgram ++ [.syscall userFrame (.fork true), .syscall userFrame (.nanosleep 0 1000000),
    .dispatch true, .syscall userFrame (.exit 0), .timerKernel, .dispatch true]

def Kernel.childReaped : List Event :=
  Kernel.childEnded ++ [.syscall userFrame (.wait4 2 0 0 true), .syscall userFrame (.exit 0)]

def Kernel.childLeft : List Event := Kernel.childEnded ++ [.syscall userFrame (.exit 0)]

theorem no_slot_lost_reaped :
    ((Kernel.booted Kernel.childReaped).tasks 1).state = .dead ∧
      (Always Kernel.NoSlotLost Kernel.boot Kernel.childReaped ↔
        Runs Kernel.Tidy Kernel.boot Kernel.childReaped (Kernel.booted Kernel.childReaped)) :=
  ⟨by decide +kernel, no_slot_lost (booted_runs _ (by decide +kernel))⟩

/-- The child stays a zombie that nobody can reap. -/
theorem zombie_left_behind :
    ∃ k, Runs (fun _ _ => True) Kernel.boot Kernel.childLeft k ∧
      (k.tasks 1).state = .zombie ∧ k.liveParent 1 = none ∧ ¬ k.NoSlotLost := by
  refine ⟨booted childLeft, booted_runs _ (by decide +kernel),
    by decide +kernel, by decide +kernel, fun lost => ?_⟩
  obtain ⟨p, found, -⟩ := lost 1 (by decide +kernel)
  exact absurd found (by decide +kernel +revert)

end Osnos.Sched
