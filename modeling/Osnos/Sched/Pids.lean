import Osnos.Sched.Step

/-! No two slots in use share a pid, and every pid was handed out by `task_create`. -/
namespace Osnos.Sched
open Relation Kernel

def Kept (t t' : Task) : Prop :=
  t'.state = .unused ∨ (t.state ≠ .unused ∧ t'.pid = t.pid ∧ t'.parentPid = t.parentPid)

theorem Kept.of_same {t t' : Task} (state : t'.state = t.state) (pid : t'.pid = t.pid)
    (parentPid : t'.parentPid = t.parentPid) : Kept t t' := by
  by_cases unused : t.state = .unused
  · exact .inl (state.trans unused)
  · exact .inr ⟨unused, pid, parentPid⟩

theorem Kept.trans {t t₁ t' : Task} (first : Kept t t₁) (next : Kept t₁ t') : Kept t t' := by
  rcases next with unused | ⟨used, pid, parentPid⟩
  · exact .inl unused
  rcases first with unused | ⟨used', pid', parentPid'⟩
  · exact absurd unused used
  · exact .inr ⟨used', pid.trans pid', parentPid.trans parentPid'⟩

section Chains

variable {k : Kernel} {e : Event} {i : Slot} {t t' : Task}

theorem Kernel.Parks.same (parks : k.Parks e t t') :
    t'.pid = t.pid ∧ t'.parentPid = t.parentPid := by
  cases parks <;> exact ⟨rfl, rfl⟩

theorem Act.kept (act : Act (k.causes e) i t t') : Kept t t' ∨ k.Creates e i t' := by
  have used : ∀ {s : TaskState} {t' : Task}, t.state = s → s ≠ .unused →
      t'.pid = t.pid ∧ t'.parentPid = t.parentPid → Kept t t' ∨ k.Creates e i t' :=
    fun state not_unused same => .inl (.inr ⟨state ▸ not_unused, same⟩)
  cases act with
  | create _ new => exact .inr new
  | clear => exact .inl (.inl rfl)
  | message sent asleep | poller asleep valid number | timeout asleep set due
  | interrupt sent asleep | report sent asleep waits | release sent asleep =>
    exact used asleep (by decide) ⟨rfl, rfl⟩
  | continued stopped => exact used stopped (by decide) ⟨rfl, rfl⟩
  | stop sent live =>
    rcases live with asleep | running
    · exact used asleep (by decide) ⟨rfl, rfl⟩
    · exact used running (by decide) ⟨rfl, rfl⟩
  | exit ends running | requeue running | save running from_user | consume running =>
    exact used running (by decide) ⟨rfl, rfl⟩
  | bury reaped zombie => exact used zombie (by decide) ⟨rfl, rfl⟩
  | start picked ready => exact used ready (by decide) ⟨rfl, rfl⟩
  | park running calls => exact used running (by decide) calls.2.2.same
  | raise => exact .inl (.of_same rfl rfl rfl)
  | tweak tweak => exact .inl (.of_same tweak.state tweak.pid tweak.parentPid)

theorem chain_kept (chain : ReflTransGen (Act (k.causes e) i) t t') :
    Kept t t' ∨ (k.Creates e i t' ∨ ∃ new, k.Creates e i new ∧ Kept new t') := by
  induction chain with
  | refl => exact .inl (.of_same rfl rfl rfl)
  | tail _ act ih =>
    rcases act.kept with kept | created
    · rcases ih with before | created | ⟨new, created, before⟩
      · exact .inl (before.trans kept)
      · exact .inr (.inr ⟨_, created, kept⟩)
      · exact .inr (.inr ⟨new, created, before.trans kept⟩)
    · exact .inr (.inl created)

end Chains

section Counting

variable {k k' : Kernel} {e : Event} {i : Slot} {c : Context}

theorem sysFork_counts (mem : Bool) :
    (k.sysFork i c mem).2 = k ∨ k.nextPid < (k.sysFork i c mem).2.nextPid := by
  unfold sysFork
  split
  · exact .inl rfl
  split
  · exact .inl rfl
  rename_i j k' created
  obtain ⟨-, -, rfl⟩ := taskCreate_some created
  exact .inr (Nat.lt_succ_self _)

theorem sysClone_counts (flags stack : Word) (mem : Bool) : (k.sysClone i c flags stack mem).2 = k ∨
      k.nextPid < (k.sysClone i c flags stack mem).2.nextPid := by
  unfold sysClone
  split
  · exact sysFork_counts mem
  split
  · exact .inl rfl
  split
  · exact .inl rfl
  split
  · exact .inl rfl
  rename_i j k' created
  obtain ⟨-, -, rfl⟩ := taskCreate_some created
  dsimp only
  split <;> exact .inr (Nat.lt_succ_self _)

theorem procExecve_counts (parentPid : Nat) (entry stack : Word) :
    (k.procExecve parentPid entry stack).2 = k ∨
      k.nextPid < (k.procExecve parentPid entry stack).2.nextPid := by
  unfold procExecve
  split
  · exact .inl rfl
  rename_i j k' created
  obtain ⟨-, -, rfl⟩ := taskCreate_some created
  exact .inr (Nat.lt_succ_self _)

theorem finish_kept (value : Word) (j : Slot) : Kept (k.tasks j) ((k.finish i c value).tasks j) ∧
      (k.finish i c value).nextPid = k.nextPid := by
  unfold finish
  split
  · refine ⟨?_, rfl⟩
    by_cases at_i : j = i
    · subst at_i
      rw [edit_same]
      unfold Task.requeue
      split
      next running =>
        exact .inr ⟨by simp_all, rfl, rfl⟩
      · exact .of_same rfl rfl rfl
    · rw [edit_other _ _ at_i]
      exact .of_same rfl rfl rfl
  · exact ⟨.of_same rfl rfl rfl, rfl⟩

theorem syscall_counts {call : Syscall}
    (counts : (k.syscallDispatch i c call).2 = k ∨
      k.nextPid < (k.syscallDispatch i c call).2.nextPid) :
    (∀ j, Kept (k.tasks j) ((k.syscall i c call).tasks j)) ∨
      k.nextPid < (k.syscall i c call).nextPid := by
  unfold syscall
  split
  next value k' returned =>
    rw [returned] at counts
    rcases counts with same | counted
    · left
      intro j
      have kept := (finish_kept (k := k') (i := i) (c := c) value j).1
      rwa [← same]
    · right
      rw [(finish_kept (k := k') value i).2]
      exact counted
  next k' jumped =>
    rw [jumped] at counts
    refine counts.imp (fun same j => ?_) id
    have same : k' = k := same
    rw [same]
    exact .of_same rfl rfl rfl

theorem creates_counts (run : k.step e = some k') (creates : e.creates) :
    (∀ j, Kept (k.tasks j) (k'.tasks j)) ∨ k.nextPid < k'.nextPid := by
  unfold Kernel.step at run
  split at run
  · cases run
  unfold Event.creates at creates
  split at creates
  · obtain ⟨i, -, rfl⟩ := Option.map_eq_some_iff.1 run
    exact syscall_counts (sysFork_counts _)
  · obtain ⟨i, -, rfl⟩ := Option.map_eq_some_iff.1 run
    exact syscall_counts (sysClone_counts _ _ _)
  next c result =>
    obtain ⟨i, -, rfl⟩ := Option.map_eq_some_iff.1 run
    cases result with
    | error => exact syscall_counts (.inl rfl)
    | ok => exact syscall_counts (procExecve_counts _ _ _)
  · dsimp only at run
    split at run
    · obtain ⟨⟨j, k₁⟩, created, rfl⟩ := Option.map_eq_some_iff.1 run
      obtain ⟨-, -, rfl⟩ := taskCreate_some created
      exact .inr (Nat.lt_succ_self _)
    · cases run
  · dsimp only at run
    split at run
    · cases run
      refine (procExecve_counts _ _ _).imp (fun same j => ?_) id
      rw [same]
      exact .of_same rfl rfl rfl
    · cases run
  · cases creates

theorem step_kept (run : k.step e = some k') (i : Slot) :
    Kept (k.tasks i) (k'.tasks i) ∨ (k.freeSlot = some i ∧ k.nextPid < k'.nextPid ∧
      ∃ new, k.Creates e i new ∧ (k'.tasks i).pid = new.pid ∧
        (k'.tasks i).parentPid = new.parentPid) := by
  rcases chain_kept ((step_moves run).acts i) with kept | created | ⟨new, created, kept⟩
  · exact .inl kept
  · refine (creates_counts run created.event).imp (fun kept => kept i) fun counted => ?_
    exact ⟨created.slot, counted, _, created, rfl, rfl⟩
  rcases kept with unused | ⟨-, pid, parentPid⟩
  · exact .inl (.inl unused)
  · refine (creates_counts run created.event).imp (fun kept => kept i) fun counted => ?_
    exact ⟨created.slot, counted, new, created, pid, parentPid⟩

/-- A pid once handed out stays with its task. -/
theorem pids_never_reused {es : List Event} (runs : Runs (fun _ _ => True) k es k')
    (old : (k'.tasks i).pid < k.nextPid) : Kept (k.tasks i) (k'.tasks i) := by
  refine (Runs.keeps (I := fun k₁ => k.nextPid ≤ k₁.nextPid ∧
    ((k₁.tasks i).pid < k.nextPid → Kept (k.tasks i) (k₁.tasks i)))
    (fun _ _ _ inherits _ run => ⟨inherits.1.trans (step_moves run).pids, fun old => ?_⟩)
    runs ⟨le_rfl, fun _ => .of_same rfl rfl rfl⟩).2 old
  rcases step_kept run i with kept | ⟨-, -, new, created, pid, -⟩
  · rcases id kept with unused | ⟨-, pid, -⟩
    · exact .inl unused
    · exact (inherits.2 (pid ▸ old)).trans kept
  · rw [pid, created.pid] at old
    omega

theorem pids_never_reused_spawned :
    Kept ((booted [.bootSpawn 0 0]).tasks 0)
      ((booted [.bootSpawn 0 0, .bootTask, .bootSpawn 0 0, .bootTask]).tasks 0) := by
  have runs : Runs (fun _ _ => True) (booted [.bootSpawn 0 0])
      [.bootTask, .bootSpawn 0 0, .bootTask] _ := after_runs rfl
  exact pids_never_reused runs (by decide +kernel)

end Counting

/-- The pids in use are distinct and positive, all of them have been handed out, and a
task is younger than its parent. -/
structure PidsOk (k : Kernel) : Prop where
  next : 0 < k.nextPid
  positive : ∀ i, (k.tasks i).state ≠ .unused → 0 < (k.tasks i).pid
  below : ∀ i, (k.tasks i).state ≠ .unused → (k.tasks i).pid < k.nextPid
  parent : ∀ i, (k.tasks i).state ≠ .unused → (k.tasks i).parentPid < (k.tasks i).pid
  apart : ∀ i j, (k.tasks i).state ≠ .unused → (k.tasks j).state ≠ .unused →
    (k.tasks i).pid = (k.tasks j).pid → i = j

namespace PidsOk

variable {k k' : Kernel} {e : Event}

theorem boot : PidsOk Kernel.boot :=
  ⟨Nat.one_pos, fun _ used => absurd rfl used, fun _ used => absurd rfl used,
    fun _ used => absurd rfl used, fun _ _ used => absurd rfl used⟩

theorem step (pids : PidsOk k) (run : k.step e = some k') : PidsOk k' := by
  have counted := (step_moves run).pids
  have each : ∀ i, (k'.tasks i).state ≠ .unused → 0 < (k'.tasks i).pid ∧
      (k'.tasks i).pid < k'.nextPid ∧ (k'.tasks i).parentPid < (k'.tasks i).pid := by
    intro i used
    rcases step_kept run i with
      (unused | ⟨used', pid, parentPid⟩) | ⟨-, more, new, created, pid, parentPid⟩
    · exact absurd unused used
    · rw [pid, parentPid]
      exact ⟨pids.positive i used', (pids.below i used').trans_le counted, pids.parent i used'⟩
    rw [pid, parentPid, created.pid]
    refine ⟨pids.next, more, ?_⟩
    rcases created.parentPid with none | ⟨j, caller, child⟩
    · rw [none]
      exact pids.next
    · rw [child]
      exact pids.below j (by simp [(userSlot_some caller).2.1])
  refine ⟨pids.next.trans_le counted, fun i used => (each i used).1,
    fun i used => (each i used).2.1, fun i used => (each i used).2.2, ?_⟩
  intro i j used_i used_j same
  rcases step_kept run i with (unused | ⟨used_i', pid_i, -⟩) | ⟨free_i, -, new, created, pid_i, -⟩
  · exact absurd unused used_i
  · rcases step_kept run j with (unused | ⟨used_j', pid_j, -⟩) | ⟨-, -, new, created, pid_j, -⟩
    · exact absurd unused used_j
    · exact pids.apart i j used_i' used_j' (pid_i.symm.trans (same.trans pid_j))
    -- an old pid is below the new one
    have below := pids.below i used_i'
    have new_pid := created.pid
    omega
  · rcases step_kept run j with (unused | ⟨used_j', pid_j, -⟩) | ⟨free_j, -, -⟩
    · exact absurd unused used_j
    · have below := pids.below j used_j'
      have new_pid := created.pid
      omega
    · exact Option.some.inj (free_i.symm.trans free_j)

theorem reachable {allowed : Kernel → Event → Prop} {es : List Event}
    (runs : Runs allowed Kernel.boot es k) : PidsOk k :=
  Runs.keeps (fun _ _ _ pids _ run => pids.step run) runs boot

theorem taskByPid (pids : PidsOk k) {i : Slot} (used : (k.tasks i).state ≠ .unused) :
    k.taskByPid (k.tasks i).pid = some i := by
  cases found : k.taskByPid (k.tasks i).pid with
  | none =>
    have none_such := List.find?_eq_none.1 found i (List.mem_finRange i)
    simp [used] at none_such
  | some j =>
    obtain ⟨used_j, same⟩ := taskByPid_some found
    exact congrArg some (pids.apart j i used_j used same)

end PidsOk

end Osnos.Sched
