import Osnos.Sched.Effect
import Osnos.Sched.Zombie

/-! Most of the kernel leaves the queue alone. The rest drops the messages of the dead,
receives one, or sends one. -/
namespace Osnos.Sched
open Relation Kernel List Option

def Task.alive (t : Task) : Bool :=
  decide (t.state ≠ .unused ∧ t.state ≠ .dead ∧ t.state ≠ .zombie)

theorem alive_iff {t : Task} :
    t.alive = true ↔ t.state ≠ .unused ∧ t.state ≠ .dead ∧ t.state ≠ .zombie := by
  simp [Task.alive]

namespace Kernel

def Takes (k : Kernel) (e : Event) (i : Slot) : Prop :=
  (k.userSlot = some i ∧ ∃ c copyOk, e = .syscall c (.ipcRecv copyOk)) ∨
    ∃ k₁ code, k.exitPoint e = some (k₁, i, code)

def posted (k : Kernel) (dest : Nat) : Option Nat :=
  if IPC_QUEUE_SIZE ≤ k.queue.length then none else k.ipcRoute dest

def posts (k : Kernel) (e : Event) : Option Nat :=
  (k.messagePoint e).bind fun p => p.1.posted p.2

/-- What is left of the queue before an event sends: no message is new, none is for the task
that exits, and a live task keeps those it does not take. -/
structure Trims (k : Kernel) (e : Event) (queue : List Nat) : Prop where
  old : ∀ pid ∈ queue, pid ∈ k.queue
  ended : ∀ k₁ i code, k.exitPoint e = some (k₁, i, code) → (k.tasks i).pid ∉ queue
  kept : ∀ i, (k.tasks i).alive = true → ¬ k.Takes e i →
    queue.count (k.tasks i).pid = k.queue.count (k.tasks i).pid

structure Buried (k : Kernel) (queue : List Nat) : Prop where
  old : ∀ pid ∈ queue, pid ∈ k.queue
  kept : ∀ pid, (∀ i, (k.tasks i).state = .dead → (k.tasks i).pid ≠ pid) →
    queue.count pid = k.queue.count pid

end Kernel

section Queue

variable {k k₁ k' : Kernel} {e : Event} {i : Slot} {c : Context} {code : Int} {q : List Nat}

theorem ipcSend_queue (k : Kernel) (dest : Nat) :
    (k.ipcSend dest).2.queue = k.queue ++ (k.posted dest).toList := by
  unfold ipcSend posted
  cases k.ipcRoute dest with
  | none => simp
  | some =>
    dsimp only
    split
    · simp
    · rfl

theorem count_filter_ne {pid pid' : Nat} (ne : pid' ≠ pid) (l : List Nat) :
    (l.filter (· ≠ pid)).count pid' = l.count pid' :=
  count_filter (by simpa using ne)

theorem ipcDropForPid_queue {pid : Nat} (nonzero : pid ≠ 0) :
    (k.ipcDropForPid pid).queue = k.queue.filter (· ≠ pid) := by
  unfold ipcDropForPid
  rw [if_neg nonzero]

theorem taskCheckWakeups_queue (k : Kernel) : k.taskCheckWakeups.queue = k.queue := rfl

theorem startNext_queue (k : Kernel) : k.startNext.queue = k.queue := by
  unfold startNext
  dsimp only
  split <;> rfl

namespace Kernel.Buried

theorem refl (k : Kernel) : k.Buried k.queue := ⟨fun _ mem => mem, fun _ _ => rfl⟩

theorem trans (first : k.Buried k₁.queue) (next : k₁.Buried q)
    (dead : ∀ j, (k₁.tasks j).state = .dead →
      (k.tasks j).state = .dead ∧ (k₁.tasks j).pid = (k.tasks j).pid) : k.Buried q where
  old pid mem := first.old pid (next.old pid mem)
  kept pid none := by
    rw [next.kept pid fun j here => ?_, first.kept pid none]
    rw [(dead j here).2]
    exact none j (dead j here).1

theorem reapSlot (k : Kernel) (i : Slot) : k.Buried (k.reapSlot i).queue := by
  unfold Kernel.reapSlot
  split
  · exact refl k
  rename_i dead
  split
  · exact refl k
  change k.Buried (k.ipcDropForPid (k.tasks i).pid).queue
  unfold ipcDropForPid
  split
  · exact refl k
  · refine ⟨fun pid mem => mem_of_mem_filter mem, fun pid none => ?_⟩
    exact count_filter_ne (none i (not_not.1 dead)).symm k.queue

theorem taskReapDead (k : Kernel) : k.Buried k.taskReapDead.queue := by
  unfold Kernel.taskReapDead
  generalize finRange 16 = slots
  induction slots generalizing k with
  | nil => exact refl k
  | cons i _ ih =>
    rw [foldl_cons]
    refine (reapSlot k i).trans (ih (k.reapSlot i)) fun j dead => ?_
    rcases reapSlot_tasks k i j with same | ⟨cleared, -⟩
    · rw [same] at dead ⊢
      exact ⟨dead, rfl⟩
    · rw [cleared] at dead
      cases dead

theorem dispatchTo (k : Kernel) (frameOk : Bool) : k.Buried (k.dispatchTo frameOk).2.queue := by
  have scheduled : k.schedule.queue = k.taskReapDead.queue := by
    unfold schedule
    rw [startNext_queue, taskCheckWakeups_queue]
  have buried := taskReapDead k
  rw [← scheduled] at buried
  unfold Kernel.dispatchTo
  generalize k.schedule = k₁ at buried ⊢
  split
  · rwa [(userTaskTrampoline_quiet frameOk).queue]
  · exact buried

theorem trims (buried : k.Buried q) (pids : PidsOk k) (stays : k.exitPoint e = none) :
    k.Trims e q where
  old := buried.old
  ended k₁ i code point := absurd (stays.symm.trans point) nofun
  kept i alive _ := by
    refine buried.kept _ fun j dead same => ?_
    obtain ⟨used, not_dead, -⟩ := alive_iff.1 alive
    have apart := pids.apart j i (by simp [dead]) used same
    subst apart
    exact not_dead dead

end Kernel.Buried

theorem exitReleased_queue (nonzero : (k.tasks i).pid ≠ 0) :
    (k.exitReleased i code).queue = k.queue.filter (· ≠ (k.tasks i).pid) := by
  have marked : (k.exitMarked i code).queue = k.queue.filter (· ≠ (k.tasks i).pid) := by
    rw [← ipcDropForPid_queue nonzero]
    unfold exitMarked dropForeground
    split <;> rfl
  have told : Quiet (k.exitMarked i code) (k.exitTold i code) := by
    unfold exitTold
    split
    · exact .refl _
    · exact tellParent_quiet _ _
  rw [← marked, ← told.queue]
  exact releaseWaiter_quiet.queue

theorem procExit_queue (k : Kernel) (i : Slot) (code : Int) :
    (k.procExit i code).queue = (k.exitReleased i code).queue ++
      (if (k.exitReleased i code).tellsShell i then
        (k.exitReleased i code).posted SERVER_SHELL else none).toList := by
  unfold procExit
  dsimp only
  split
  · exact ipcSend_queue _ _
  · simp

theorem posts_exit (point : k.exitPoint e = some (k₁, i, code)) :
    k.posts e = if (k₁.exitReleased i code).tellsShell i then
      (k₁.exitReleased i code).posted SERVER_SHELL else none := by
  have news : k.messagePoint e = if (k₁.exitReleased i code).tellsShell i then
      some (k₁.exitReleased i code, SERVER_SHELL) else none := by
    have keyless : k.keyOf e ≠ some .susp := by
      intro key
      unfold keyOf at key
      split at key
      · cases point
      · cases point
      · cases key
    unfold messagePoint
    split
    · cases point
    · cases point
    · rw [if_neg fun h => keyless h.1, point]
  unfold posts
  rw [news]
  split <;> rfl

theorem exit_queue (pids : PidsOk k) (point : k.exitPoint e = some (k₁, i, code))
    (buried : k.Buried k₁.queue) :
    ∃ q, k.Trims e q ∧ (k₁.procExit i code).queue = q ++ (k.posts e).toList := by
  have ending := exitPoint_ending point
  have nonzero : (k₁.tasks i).pid ≠ 0 := by
    rw [ending.pid]
    exact (pids.positive i ending.used.1).ne'
  refine ⟨(k₁.exitReleased i code).queue, ?_, ?_⟩
  · rw [exitReleased_queue nonzero, ending.pid]
    refine ⟨fun pid mem => buried.old pid (mem_of_mem_filter mem), ?_, ?_⟩
    · intro k₂ j code' point'
      rw [point] at point'
      cases point'
      simp
    · intro j alive others
      obtain ⟨used, not_dead, -⟩ := alive_iff.1 alive
      have other : (k.tasks j).pid ≠ (k.tasks i).pid := by
        intro same
        have apart := pids.apart j i used ending.used.1 same
        subst apart
        exact others (.inr ⟨k₁, code, point⟩)
      rw [count_filter_ne other]
      refine buried.kept _ fun l dead same => ?_
      have apart := pids.apart l j (by simp [dead]) used same
      subst apart
      exact not_dead dead
  · rw [procExit_queue, posts_exit point]

def Kernel.Mailed (k : Kernel) (e : Event) (k' : Kernel) : Prop :=
  ∃ q, k.Trims e q ∧ k'.queue = q ++ (k.posts e).toList

theorem Kernel.Mailed.kept (pids : PidsOk k) (buried : k.Buried k'.queue)
    (stays : k.exitPoint e = none) (silent : k.messagePoint e = none) : k.Mailed e k' := by
  refine ⟨k'.queue, buried.trims pids stays, ?_⟩
  unfold posts
  rw [silent, bind_none, toList_none, append_nil]

theorem sysIpcRecv_trims (pids : PidsOk k) (caller : k.userSlot = some i) (copyOk : Bool) :
    k.Trims (.syscall c (.ipcRecv copyOk)) (k.ipcRecv (k.tasks i).pid).2.queue := by
  unfold ipcRecv
  by_cases mem : (k.tasks i).pid ∈ k.queue
  · rw [if_pos mem]
    refine ⟨fun pid => mem_of_mem_erase, nofun, fun j alive others => ?_⟩
    refine count_erase_of_ne fun same => others (.inl ⟨?_, c, copyOk, rfl⟩)
    have used : (k.tasks i).state ≠ .unused := by simp [(userSlot_some caller).2.1]
    rwa [pids.apart j i (alive_iff.1 alive).1 used same]
  · rw [if_neg mem]
    exact (Kernel.Buried.refl k).trims pids rfl

theorem exitPoint_buried (point : k.exitPoint e = some (k₁, i, code)) : k.Buried k₁.queue := by
  rcases exitPoint_cases point with ⟨-, -, now, rfl⟩ | ⟨frameOk, -, -, lands⟩
  · exact .refl k
  · have buried := Kernel.Buried.dispatchTo k frameOk
    rwa [lands] at buried

theorem step_mailed (pids : PidsOk k) (run : k.step e = some k') : k.Mailed e k' := by
  cases point : k.exitPoint e with
  | some p =>
    obtain ⟨_, i, _⟩ := p
    rw [(exitPoint_ending point).ends k' run]
    exact exit_queue pids point (exitPoint_buried point)
  | none =>
    have same (eq : k'.queue = k.queue) : k.Buried k'.queue := by
      rw [eq]
      exact .refl k
    cases step_effect run point with
    | quiet keeps silent => exact .kept pids (same keeps.queue) point silent
    | turns frameOk event keeps =>
      subst event
      refine .kept pids ?_ point (messagePoint_none (.inl nofun) point nofun nofun)
      rw [keeps.queue]
      exact .dispatchTo k frameOk
    | sends _ _ sent before after =>
      refine ⟨k.queue, (Kernel.Buried.refl k).trims pids point, ?_⟩
      unfold posts
      rw [after.queue, ipcSend_queue, before.queue, sent, bind_some]
    | receives c i copyOk caller event keeps =>
      subst event
      refine ⟨k'.queue, ?_, (append_nil _).symm⟩
      rw [keeps.queue]
      exact sysIpcRecv_trims pids caller copyOk
    | execs c i image caller event placed =>
      subst event
      exact .kept pids (same placed.queue) point rfl
    | creates _ _ _ _ _ placed silent =>
      exact .kept pids (same placed.queue) point silent

end Queue

end Osnos.Sched
