import Osnos.Ipc.Queue
import Osnos.Sched.Run

/-! `sys_wait4` reaps the child and `sys_ipc_recv` removes the message before they copy the
result to the caller. -/
namespace Osnos.Ipc
open Osnos.Sched

def Failed (v : Word) : Prop := 2 ^ 63 ≤ v.toNat
instance (v : Word) : Decidable (Failed v) := inferInstanceAs (Decidable (_ ≤ _))

/-- `sys_ipc_recv` of a task with this pid; `copyOk` says how `copy_to_user` ends. -/
def Queue.sysIpcRecv (q : Queue) (pid : Nat) (out : Word) (copyOk : Bool) : Word × Queue :=
  if out = 0 then (err EFAULT, q)
  else match q.ipcRecv pid with
  | (none, q') => (err EAGAIN, q')
  | (some _, q') => (if copyOk then 0 else err EFAULT, q')

def Waitable (k : Kernel) (i : Slot) (pid : Int) (options : UInt32) (j : Slot) : Prop :=
  k.isChild (k.tasks i).pid pid j = true ∧ k.isWaitable options j = true

def LosesChild (k : Kernel) (i : Slot) (pid : Int) (status : Word) (options : UInt32)
    (copyOk : Bool) : Prop :=
  (∃ j, Waitable k i pid options j) ∧ status ≠ 0 ∧ copyOk = false

def LosesMessage (q : Queue) (pid : Nat) (out : Word) (copyOk : Bool) : Prop :=
  (q.ipcRecv pid).1 ≠ none ∧ out ≠ 0 ∧ copyOk = false

theorem not_failed_zero : ¬Failed 0 := by decide

theorem not_failed_pid {pid : Nat} (small : pid < 2 ^ 31) : ¬Failed (UInt64.ofNat pid) := by
  unfold Failed
  rw [UInt64.toNat_ofNat_of_lt' (small.trans (by decide))]
  omega

section Wait

variable {k : Kernel} {i : Slot} {c : Context} {pid : Int} {status : Word} {options : UInt32}
  {copyOk : Bool}

theorem findWaitableChild_some {j : Slot}
    (found : k.findWaitableChild (k.tasks i).pid pid options = some j) :
    Waitable k i pid options j := by
  have holds := List.find?_some found
  simpa [Waitable] using holds

theorem reaped_not_waitable {j : Slot} (waitable : Waitable k i pid options j) :
    ¬Waitable (k.edit j Task.reap) i pid options j := by
  rintro ⟨child, still⟩
  have was := of_decide_eq_true waitable.2
  have child := of_decide_eq_true child
  have still := of_decide_eq_true still
  rw [Kernel.edit_same] at child still
  unfold Task.reap at child still
  split at still
  · simp_all
  · simp_all

/-- A failing `wait4` leaves its caller's children alone, unless it loses one. -/
theorem wait4_failed (small : ∀ j, (k.tasks j).pid < 2 ^ 31) {v : Word}
    (returned : (k.sysWait4 i c pid status options copyOk).1 = some v) (failed : Failed v) :
    (¬LosesChild k i pid status options copyOk → (k.sysWait4 i c pid status options copyOk).2 = k) ∧
    (LosesChild k i pid status options copyOk → ∃ j, Waitable k i pid options j ∧
      ¬Waitable (k.sysWait4 i c pid status options copyOk).2 i pid options j) := by
  unfold Kernel.sysWait4 at returned ⊢
  split at returned
  next childless =>
    rw [if_pos childless]
    refine ⟨fun _ => rfl, fun ⟨⟨j, child, _⟩, _⟩ => absurd ?_ childless⟩
    exact List.any_eq_true.2 ⟨j, List.mem_finRange j, child⟩
  rename_i some_child
  rw [if_neg some_child]
  cases found : k.findWaitableChild (k.tasks i).pid pid options with
  | some j =>
    rw [found] at returned
    cases returned
    by_cases fails : status ≠ 0 ∧ ¬copyOk = true
    · have loses : LosesChild k i pid status options copyOk :=
        ⟨⟨j, findWaitableChild_some found⟩, fails.1, by simpa using fails.2⟩
      refine ⟨fun kept => absurd loses kept, fun _ => ⟨j, findWaitableChild_some found, ?_⟩⟩
      exact reaped_not_waitable (findWaitableChild_some found)
    · rw [if_neg fails] at failed
      exact absurd failed (not_failed_pid (small j))
  | none =>
    rw [found] at returned
    dsimp only at returned ⊢
    split at returned
    · cases returned
      exact absurd failed not_failed_zero
    · cases returned

/-- A waiter that a signal interrupts has `-EINTR` for its result, and nothing but its own
record has changed. -/
theorem interrupted_alone (asleep : (k.tasks i).state = .blocked) (user : (k.tasks i).pml4 ≠ none)
    (saved : (k.tasks i).savedValid) (sig : Nat) :
    ((k.killOneTask i sig).tasks i).saved.rax = err EINTR ∧
      ∀ j, j ≠ i → (k.killOneTask i sig).tasks j = k.tasks j := by
  have killable : (k.tasks i).killable := by simp [Task.killable, asleep, user]
  unfold Kernel.killOneTask
  dsimp only
  rw [killable, if_neg (by simp), if_pos asleep]
  refine ⟨?_, fun j other => ?_⟩
  · rw [Kernel.edit_same, Kernel.edit_same]
    simp [Task.interrupt, Task.raise, saved]
  · rw [Kernel.edit_other _ _ other, Kernel.edit_other _ _ other]

end Wait

theorem ipcRecv_kept (q : Queue) (pid : Nat) :
    (q.ipcRecv pid).2 = q ↔ (q.ipcRecv pid).1 = none := by
  unfold Queue.ipcRecv
  split
  · exact ⟨fun _ => rfl, fun _ => rfl⟩
  rename_i full
  split
  · exact ⟨fun _ => rfl, fun _ => rfl⟩
  refine ⟨fun same => ?_, nofun⟩
  have count : q.count - 1 = q.count := congrArg Ring.count same
  omega

theorem recv_failed {q : Queue} {pid : Nat} {out : Word} {copyOk : Bool}
    (failed : Failed (q.sysIpcRecv pid out copyOk).1) :
    (q.sysIpcRecv pid out copyOk).2 = q ↔ ¬LosesMessage q pid out copyOk := by
  have kept := ipcRecv_kept q pid
  unfold LosesMessage
  unfold Queue.sysIpcRecv at failed ⊢
  split
  next null =>
    exact ⟨fun _ loses => loses.2.1 null, fun _ => rfl⟩
  rename_i some_out
  rw [if_neg some_out] at failed
  cases taken : q.ipcRecv pid with
  | mk result =>
    rw [taken] at failed kept
    cases result with
    | none => exact ⟨fun _ loses => loses.1 rfl, fun _ => kept.2 rfl⟩
    | some =>
      have lost : copyOk = false := by
        cases copyOk with
        | false => rfl
        | true => exact absurd failed not_failed_zero
      exact ⟨fun same => absurd (kept.1 same) (by simp),
        fun keeps => absurd ⟨by simp, some_out, lost⟩ keeps⟩

/-- A failing `wait4` leaves every waitable child waitable, and a failing `ipc_recv` the queue
as it was, exactly if the failure is not that of `copy_to_user` with the child or the message
already in hand; without it `wait4` changes nothing at all. A signal that ends a blocked
`wait4` touches the record of the waiter only. -/
theorem failed_calls_consume_nothing_iff (k : Kernel) (i : Slot) (c : Context) (pid : Int)
    (status : Word) (options : UInt32) (q : Queue) (out : Word) (copyOk : Bool)
    (small : ∀ j, (k.tasks j).pid < 2 ^ 31) :
    (∀ v, (k.sysWait4 i c pid status options copyOk).1 = some v → Failed v →
      ((∀ j, Waitable k i pid options j →
          Waitable (k.sysWait4 i c pid status options copyOk).2 i pid options j) ↔
        ¬LosesChild k i pid status options copyOk) ∧
      (¬LosesChild k i pid status options copyOk →
        (k.sysWait4 i c pid status options copyOk).2 = k)) ∧
    (∀ sig, (k.tasks i).state = .blocked → (k.tasks i).pml4 ≠ none →
      (k.tasks i).savedValid = true → ((k.killOneTask i sig).tasks i).saved.rax = err EINTR ∧
        ∀ j, j ≠ i → (k.killOneTask i sig).tasks j = k.tasks j) ∧
    (Failed (q.sysIpcRecv (k.tasks i).pid out copyOk).1 →
      ((q.sysIpcRecv (k.tasks i).pid out copyOk).2 = q ↔
        ¬LosesMessage q (k.tasks i).pid out copyOk)) := by
  refine ⟨fun v returned failed => ?_, fun sig asleep user saved =>
    interrupted_alone asleep user saved sig, recv_failed⟩
  obtain ⟨kept, lost⟩ := wait4_failed small returned failed
  refine ⟨⟨fun still loses => ?_, fun keeps j waitable => ?_⟩, kept⟩
  · obtain ⟨j, was, gone⟩ := lost loses
    exact gone (still j was)
  · rw [kept keeps]
    exact waitable

def orphaned : List Event :=
  [.bootSpawn 4096 8192, .dispatch true, .syscall {} (.fork true),
    .syscall {} (.nanosleep 0 10000000), .dispatch true, .syscall {} (.exit 0), .timerKernel,
    .dispatch true]

def oneMessage : Queue := Queue.init.push { dest := 1 }

theorem failed_calls_consume_nothing_fault :
    let k := Kernel.booted orphaned
    ((∀ j, Waitable k 0 (-1) 0 j → Waitable (k.sysWait4 0 {} (-1) 1 0 false).2 0 (-1) 0 j) ↔
        ¬LosesChild k 0 (-1) 1 0 false) ∧
      ((oneMessage.sysIpcRecv (k.tasks 0).pid 1 false).2 = oneMessage ↔
        ¬LosesMessage oneMessage (k.tasks 0).pid 1 false) := by
  have all := failed_calls_consume_nothing_iff (Kernel.booted orphaned) 0 {} (-1) 1 0 oneMessage 1 false
    (by decide +kernel)
  exact ⟨(all.1 (err EFAULT) (by decide +kernel) (by decide +kernel)).1, all.2.2 (by decide +kernel)⟩

/-- With an unmapped status pointer the child is gone after `EFAULT`: the next call finds no
child. A message is lost in the same way. -/
theorem child_lost_with_efault :
    ∃ k, Runs (fun _ _ => True) Kernel.boot orphaned k ∧
      Waitable k 0 (-1) 0 1 ∧ (k.sysWait4 0 {} (-1) 1 0 false).1 = some (err EFAULT) ∧
      ((k.sysWait4 0 {} (-1) 1 0 false).2.sysWait4 0 {} (-1) 0 0 true).1 = some (err ECHILD) ∧
      (oneMessage.sysIpcRecv (k.tasks 0).pid 1 false).1 = err EFAULT ∧
      (oneMessage.sysIpcRecv (k.tasks 0).pid 1 false).2.count = 0 :=
  ⟨Kernel.booted orphaned, Kernel.booted_runs _ (by decide +kernel),
    ⟨by decide +kernel, by decide +kernel⟩, by decide +kernel, by decide +kernel,
    by decide +kernel, by decide +kernel⟩

end Osnos.Ipc
