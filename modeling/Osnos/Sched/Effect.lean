import Osnos.Sched.Fate

/-! What an event does to the address spaces, to the queue of messages and to the place of
the scheduler: mostly nothing. -/
namespace Osnos.Sched
open Kernel Option

section Frames

variable {k : Kernel} {i : Slot} {c : Context}

theorem releaseWaiter_quiet : Quiet k (k.releaseWaiter i) := by
  unfold releaseWaiter
  dsimp only
  split
  · exact .refl k
  refine .then_edit ?_ fun _ => rfl
  split
  · exact .refl k
  split
  · exact .edit fun _ => rfl
  · exact .refl k

theorem tellParent_quiet (p : Slot) (code : Int) : Quiet k (k.tellParent i p code) := by
  unfold tellParent
  dsimp only
  split
  · refine .then_edit (.then_edit (.trans ?_ (storeStatus_nudges _).toQuiet) fun _ => rfl) fun _ => rfl
    exact .edit fun _ => rfl
  · exact .edit fun _ => rfl

theorem requeue_quiet : Quiet k (k.edit i Task.requeue) := by
  refine .edit fun t => ?_
  unfold Task.requeue
  split <;> rfl

theorem deliverFrom_space (frameOk : Bool) (sigs : List Nat) :
    ∀ t : Task, (deliverFrom frameOk sigs t).task.pml4 = t.pml4 := by
  induction sigs with
  | nil => exact fun _ => rfl
  | cons sig rest ih =>
    intro t
    unfold deliverFrom
    split_ifs <;> first | rfl | exact ih _

theorem userTaskResume_quiet (frameOk : Bool) : Quiet k (k.userTaskResume i frameOk).2 := by
  have same := deliverFrom_space frameOk signals (k.tasks i)
  unfold userTaskResume deliver
  cases ending : deliverFrom frameOk signals (k.tasks i) <;> rw [ending] at same <;> exact .put same

theorem afterKill_quiet (frameOk : Bool) : Quiet k (k.afterKill i frameOk).2 := by
  unfold afterKill
  dsimp only
  split
  · exact .put rfl
  split
  · exact userTaskResume_quiet frameOk
  split <;> exact .refl k

theorem userTaskTrampoline_quiet (frameOk : Bool) : Quiet k (k.userTaskTrampoline i frameOk).2 := by
  unfold userTaskTrampoline
  dsimp only
  split
  · split
    · refine .trans ?_ (afterKill_quiet frameOk)
      exact .put rfl
    · exact .put rfl
  · exact afterKill_quiet frameOk

theorem sysNanosleep_quiet (sec nsec : Int) : Quiet k (k.sysNanosleep i c sec nsec).2 := by
  unfold sysNanosleep
  dsimp only
  split
  · exact .refl k
  split
  · exact .refl k
  · exact .put rfl

theorem parkOr_quiet (wake : Nat) (nr failed : Word) : Quiet k (k.parkOr i c wake nr failed).2 := by
  unfold parkOr blockRestart
  split
  next k' parked =>
    split at parked
    · cases parked
    · cases parked
      exact .put rfl
  · exact .refl k

theorem sysIpcSend_quiet (dest : Nat) : Quiet (k.ipcSend dest).2 (k.sysIpcSend i c dest).2 := by
  unfold sysIpcSend
  unfold ipcSend
  split
  · exact .refl k
  split
  · exact parkOr_quiet _ _ _
  · exact .refl _

theorem writeToConsole_quiet (count : Word) :
    Quiet (k.ipcSend SERVER_CONSOLE).2 (k.writeToConsole count).2 := by
  unfold writeToConsole
  unfold ipcSend
  split
  · exact .refl k
  · split <;> exact .refl _

theorem sysWait4_quiet (pid : Int) (status : Word) (options : UInt32) (copyOk : Bool) :
    Quiet k (k.sysWait4 i c pid status options copyOk).2 := by
  unfold sysWait4
  split
  · exact .refl k
  split
  · refine .edit fun t => ?_
    unfold Task.reap
    split <;> rfl
  split
  · exact .refl k
  · exact .put rfl

theorem sysRtSigaction_quiet (sig : Nat) (act : Option (Word × Word)) :
    Quiet k (k.sysRtSigaction i sig act).2 := by
  unfold sysRtSigaction
  split
  · exact .refl k
  split
  · exact .refl k
  · exact .put rfl

theorem sysSetpgid_quiet (pid pgid : Nat) : Quiet k (k.sysSetpgid i pid pgid).2 := by
  unfold sysSetpgid
  split
  · exact .refl k
  · dsimp only
    split_ifs <;> first | exact .refl k | exact .put rfl

theorem sysSetsid_quiet : Quiet k (k.sysSetsid i).2 := by
  unfold sysSetsid
  dsimp only
  split
  · exact .refl k
  · exact .put rfl

theorem serviceRegister_quiet (sid pid : Nat) : Quiet k (k.serviceRegister sid pid) := by
  unfold serviceRegister
  split
  · exact .of_tasks rfl rfl rfl rfl
  · exact .refl k

theorem syscall_quiet (k : Kernel) (i : Slot) (c : Context) (call : Syscall) :
    Quiet (k.syscallDispatch i c call).2 (k.syscall i c call) := by
  unfold syscall
  split
  next value k' returned =>
    rw [returned]
    unfold finish
    split
    · refine .edit fun t => ?_
      unfold Task.requeue
      split <;> rfl
    · exact .refl k'
  next k' jumped =>
    rw [jumped]
    exact .refl k'

end Frames

structure Moved (k : Kernel) (i : Slot) (space : Option Nat) (made : Nat) (k' : Kernel) : Prop where
  spaces : k'.spaces = Function.update k.spaces i space
  next : k'.nextSpace = made

namespace Moved

variable {k k₁ k' : Kernel} {i : Slot} {space : Option Nat} {made : Nat}

theorem after (keeps : KeepsSpaces k k₁) (moved : Moved k₁ i space made k') :
    Moved k i space made k' :=
  ⟨by rw [moved.spaces, keeps.spaces], moved.next⟩

theorem before (moved : Moved k i space made k₁) (keeps : KeepsSpaces k₁ k') :
    Moved k i space made k' :=
  ⟨by rw [keeps.spaces, moved.spaces], by rw [keeps.next, moved.next]⟩

theorem put (k₁ : Kernel) (t : Task) (spaces : ∀ j, j ≠ i → k₁.spaces j = k.spaces j) :
    Moved k i t.pml4 k₁.nextSpace (k₁.put i t) := by
  refine ⟨?_, rfl⟩
  funext j
  unfold Kernel.spaces
  by_cases at_i : j = i
  · subst at_i
    rw [put_same, Function.update_self]
  · rw [put_other k₁ t at_i, Function.update_of_ne at_i]
    exact spaces j at_i

end Moved

structure Placed (k : Kernel) (i : Slot) (space : Option Nat) (made : Nat) (k' : Kernel) : Prop
    extends Moved k i space made k' where
  queue : k'.queue = k.queue
  current : k'.current = k.current

theorem Placed.before {k k₁ k' : Kernel} {i : Slot} {space : Option Nat} {made : Nat}
    (placed : Placed k i space made k₁) (keeps : Quiet k₁ k') : Placed k i space made k' :=
  ⟨placed.toMoved.before keeps.toKeepsSpaces, keeps.queue.trans placed.queue,
    keeps.current.trans placed.current⟩

theorem taskCreate_placed {k k₁ : Kernel} {j : Slot} (created : k.taskCreate = some (j, k₁))
    (t : Task) (made : Nat) : Placed k j t.pml4 made ({ k₁ with nextSpace := made }.put j t) := by
  obtain ⟨-, -, eq⟩ := taskCreate_some created
  refine ⟨Moved.put { k₁ with nextSpace := made } t fun l other => ?_, ?_, ?_⟩
  · change (k₁.tasks l).pml4 = _
    rw [eq]
    exact congrArg Task.pml4 (put_other k _ other)
  · exact (congrArg Kernel.queue eq :)
  · exact (congrArg Kernel.current eq :)

def Event.execs : Event → Bool
  | .syscall _ (.execve (.ok _)) => true
  | _ => false

inductive Effect (k : Kernel) (e : Event) (k' : Kernel) : Prop
  | quiet (keeps : Quiet k k') (silent : k.messagePoint e = none) (loads : e.execs = false)
  | turns (frameOk : Bool) (event : e = .dispatch frameOk)
      (keeps : Quiet (k.dispatchTo frameOk).2 k')
  | sends (k₁ : Kernel) (dest : Nat) (point : k.messagePoint e = some (k₁, dest))
      (before : Quiet k k₁) (after : Quiet (k₁.ipcSend dest).2 k') (loads : e.execs = false)
  | receives (c : Context) (i : Slot) (copyOk : Bool) (caller : k.userSlot = some i)
      (event : e = .syscall c (.ipcRecv copyOk)) (keeps : Quiet (k.ipcRecv (k.tasks i).pid).2 k')
  | execs (c : Context) (i : Slot) (image : Word × Word) (caller : k.userSlot = some i)
      (event : e = .syscall c (.execve (.ok image)))
      (placed : Placed k i (some k.nextSpace) (k.nextSpace + 1) k')
  | creates (j : Slot) (space : Option Nat) (made : Nat) (free : k.freeSlot = some j)
      (kind : space = none ∧ made = k.nextSpace ∨
        space = some k.nextSpace ∧ made = k.nextSpace + 1 ∨
        (∃ i, space = k.spaces i) ∧ made = k.nextSpace)
      (placed : Placed k j space made k') (silent : k.messagePoint e = none) (loads : e.execs = false)

section Events

variable {k k₁ k' : Kernel} {e : Event} {i : Slot} {c : Context}

theorem Effect.before (effect : Effect k e k₁) (keeps : Quiet k₁ k') : Effect k e k' := by
  cases effect with
  | quiet before silent loads => exact .quiet (before.trans keeps) silent loads
  | turns frameOk event before => exact .turns frameOk event (before.trans keeps)
  | sends k₂ dest point before after loads =>
    exact .sends k₂ dest point before (after.trans keeps) loads
  | receives c i copyOk caller event before =>
    exact .receives c i copyOk caller event (before.trans keeps)
  | execs c i image caller event placed =>
    exact .execs c i image caller event (placed.before keeps)
  | creates j space made free kind placed silent loads =>
    exact .creates j space made free kind (placed.before keeps) silent loads

theorem messagePoint_none (keyless : k.keyOf e ≠ some .susp ∨ k.foreground = [])
    (stays : k.exitPoint e = none) (sends : ∀ c dest, e ≠ .syscall c (.ipcSend dest))
    (writes : ∀ c count, e ≠ .syscall c (.consoleWrite count)) : k.messagePoint e = none := by
  unfold messagePoint
  split
  · exact absurd rfl (sends _ _)
  · exact absurd rfl (writes _ _)
  · rw [stays, if_neg (by tauto)]

theorem ttyInput_effect {key : Key} (brings : k.keyOf e = some key) (stays : k.exitPoint e = none)
    (loads : e.execs = false) : Effect k e (k.ttyInput key) := by
  have silent (keyless : key ≠ .susp ∨ k.foreground = []) : k.messagePoint e = none := by
    refine messagePoint_none (keyless.imp_left fun other same => ?_) stays ?_ ?_
    · exact other (some.inj (brings.symm.trans same))
    all_goals
      rintro c x rfl
      cases brings
  cases key with
  | intr =>
    have hit : Nudges k (k.ttyInput .intr) := .foldl (fun _ _ => ttyDeliverOne_nudges SIGINT) _ k
    exact .quiet hit.toQuiet (silent (.inl nofun)) loads
  | susp =>
    by_cases empty : k.foreground = []
    · refine .quiet ?_ (silent (.inr empty)) loads
      unfold ttyInput ttyStopSignal
      rw [if_pos empty]
      exact .refl k
    have stopped : Nudges k k.stopped := .foldl (fun _ _ => ttyStopOne_nudges) _ k
    refine .sends k.stopped SERVER_SHELL ?_ stopped.toQuiet ?_ loads
    · unfold messagePoint
      split
      · cases brings
      · cases brings
      · rw [if_pos ⟨brings, empty⟩]
    · unfold ttyInput ttyStopSignal
      rw [if_neg empty]
      exact .refl _
  | plain => exact .quiet (.refl k) (silent (.inl nofun)) loads

section
variable (silent : k.messagePoint e = none) (loads : e.execs = false)

include silent loads

theorem Effect.of_new {j : Slot} (created : k.taskCreate = some (j, k₁)) (t : Task)
    (gets : t.pml4 = some k.nextSpace) :
    Effect k e ({ k₁ with nextSpace := k.nextSpace + 1 }.put j t) :=
  .creates j t.pml4 _ (taskCreate_some created).1 (.inr (.inl ⟨gets, rfl⟩))
    (taskCreate_placed created t _) silent loads

theorem sysFork_effect {mem : Bool} : Effect k e (k.sysFork i c mem).2 := by
  unfold sysFork
  split
  · exact .quiet (.refl k) silent loads
  split
  · exact .quiet (.refl k) silent loads
  next j k' created =>
    exact .of_new silent loads created _ rfl

theorem sysClone_effect {flags stack : Word} {mem : Bool} (caller : k.userSlot = some i) :
    Effect k e (k.sysClone i c flags stack mem).2 := by
  unfold sysClone
  split
  · exact sysFork_effect silent loads
  split
  · exact .quiet (.refl k) silent loads
  split
  · exact .quiet (.refl k) silent loads
  split
  · exact .quiet (.refl k) silent loads
  rename_i j k' created
  have next : k'.nextSpace = k.nextSpace := by
    obtain ⟨-, -, rfl⟩ := taskCreate_some created
    rfl
  have mine : some ((k.tasks i).pml4.getD 0) = k.spaces i := by
    obtain ⟨space, eq⟩ := ne_none_iff_exists'.1 (userSlot_some caller).2.2
    unfold spaces
    rw [eq, getD_some]
  -- the child shares the address space of its parent
  have shares : ∀ t : Task, t.pml4 = some ((k.tasks i).pml4.getD 0) →
      Effect k e (k'.put j t) := fun t gets =>
    .creates j t.pml4 k.nextSpace (taskCreate_some created).1
      (.inr (.inr ⟨⟨i, gets.trans mine⟩, rfl⟩)) (next ▸ taskCreate_placed created t k'.nextSpace)
      silent loads
  split
  · exact shares _ rfl
  · exact (shares _ rfl).before (.put rfl)

theorem procExecve_effect {parentPid : Nat} {entry stack : Word} :
    Effect k e (k.procExecve parentPid entry stack).2 := by
  unfold procExecve
  split
  · exact .quiet (.refl k) silent loads
  next j k' created =>
    exact .of_new silent loads created _ rfl

end

theorem procExecveReplace_placed (k : Kernel) (i : Slot) (entry stack : Word) :
    Placed k i (some k.nextSpace) (k.nextSpace + 1) (k.procExecveReplace i entry stack) := by
  have replaced : Placed k i (some k.nextSpace) (k.nextSpace + 1)
      ({ k with nextSpace := k.nextSpace + 1 }.edit i (Task.exec k.nextSpace entry stack)) :=
    ⟨Moved.put (k := k) { k with nextSpace := k.nextSpace + 1 }
      (Task.exec k.nextSpace entry stack (k.tasks i)) fun _ _ => rfl, rfl, rfl⟩
  exact (replaced.before releaseWaiter_quiet).before requeue_quiet

theorem syscallDispatch_effect (call : Syscall) (caller : k.userSlot = some i)
    (stays : k.exitPoint (.syscall c call) = none) :
    Effect k (.syscall c call) (k.syscallDispatch i c call).2 := by
  cases call with
  | nanosleep sec nsec => exact .quiet (sysNanosleep_quiet sec nsec) rfl rfl
  | read | poll => exact .quiet (parkOr_quiet _ _ _) rfl rfl
  | ipcSend dest => exact .sends k dest rfl (.refl k) (sysIpcSend_quiet dest) rfl
  | ipcRecv copyOk =>
    refine .receives c i copyOk caller rfl ?_
    change Quiet _ (k.sysIpcRecv i copyOk).2
    unfold sysIpcRecv Kernel.ipcRecv
    split <;> exact .refl _
  | consoleWrite count => exact .sends k SERVER_CONSOLE rfl (.refl k) (writeToConsole_quiet count) rfl
  | wait4 pid status options copyOk => exact .quiet (sysWait4_quiet pid status options copyOk) rfl rfl
  | fork => exact sysFork_effect rfl rfl
  | clone => exact sysClone_effect rfl rfl caller
  | execve result =>
    cases result with
    | error => exact .quiet (.refl k) rfl rfl
    | ok image => exact .execs c i image caller rfl (procExecveReplace_placed k i image.1 image.2)
  | spawn result =>
    cases result with
    | error => exact .quiet (.refl k) rfl rfl
    | ok => exact procExecve_effect rfl rfl
  | exit =>
    change k.userSlot.map _ = none at stays
    rw [caller] at stays
    cases stays
  | kill pid sig => exact .quiet (sysKill_nudges i pid sig).toQuiet rfl rfl
  | sigaction sig act => exact .quiet (sysRtSigaction_quiet sig act) rfl rfl
  | sigreturn frame =>
    cases frame with
    | none =>
      change k.userSlot.map _ = none at stays
      rw [caller] at stays
      cases stays
    | some => exact .quiet (.put rfl) rfl rfl
  | setpgid pid pgid => exact .quiet (sysSetpgid_quiet pid pgid) rfl rfl
  | setsid => exact .quiet sysSetsid_quiet rfl rfl
  | setFg => exact .quiet (.of_tasks rfl rfl rfl rfl) rfl rfl
  | resume pid => exact .quiet (sysResume_nudges pid).toQuiet rfl rfl
  | serviceRegister sid => exact .quiet (serviceRegister_quiet sid _) rfl rfl
  | ttyInput key =>
    unfold syscallDispatch
    dsimp only
    split
    next server =>
      refine ttyInput_effect ?_ rfl rfl
      change (k.userSlot.filter _).map _ = _
      rw [caller, filter_some, if_pos (decide_eq_true server)]
      rfl
    rename_i stranger
    refine .quiet (.refl k) (messagePoint_none (.inl ?_) rfl nofun nofun) rfl
    change (k.userSlot.filter _).map _ ≠ _
    rw [caller, filter_some, if_neg (by simpa using stranger)]
    nofun
  | other => exact .quiet (.refl k) rfl rfl

theorem dispatch_quiet {frameOk : Bool} (stays : k.exitPoint (.dispatch frameOk) = none)
    (run : k.step (.dispatch frameOk) = some k') : Quiet (k.dispatchTo frameOk).2 k' := by
  unfold step at run
  split at run
  · cases run
  dsimp only at run
  split at run
  swap
  · cases run
  unfold dispatch at run
  split at run
  · cases run
  rename_i landing k₁ _ lands
  rw [lands]
  split at run
  next i picked =>
    cases run
    cases landing with
    | exit =>
      unfold exitPoint at stays
      dsimp only at stays
      rw [picked, lands] at stays
      cases stays
    | stop => exact .trans (.edit (f := Task.stop) fun _ => rfl) notifyParent_nudges.toQuiet
    | resume | handler | start | halt | kernel => exact .refl k₁
  · cases run
    exact .refl _

theorem step_effect (run : k.step e = some k') (stays : k.exitPoint e = none) : Effect k e k' := by
  have turned (frameOk : Bool) (event : e = .dispatch frameOk) : Effect k e k' :=
    .turns frameOk event (dispatch_quiet (event ▸ stays) (event ▸ run))
  unfold step at run
  split at run
  · cases run
  cases e with
  | timerKernel =>
    dsimp only at run
    split at run
    · cases run
      exact .quiet (.of_tasks rfl rfl rfl rfl) rfl rfl
    · cases run
  | timerUser c =>
    obtain ⟨i, caller, rfl⟩ := map_eq_some_iff.1 run
    refine .quiet ?_ (messagePoint_none (.inl nofun) stays nofun nofun) rfl
    unfold Kernel.timerUser
    dsimp only
    split
    next kill =>
      change (k.userSlot.filter _).map _ = none at stays
      rw [caller, filter_some, if_pos kill] at stays
      cases stays
    split
    · exact .of_tasks rfl rfl rfl rfl
    · refine .trans ?_ (.edit fun _ => rfl)
      exact .of_tasks rfl rfl rfl rfl
  | input =>
    cases run
    exact .quiet taskWakePollers_nudges.toQuiet rfl rfl
  | dispatch frameOk => exact turned frameOk rfl
  | syscall c call =>
    obtain ⟨i, caller, rfl⟩ := map_eq_some_iff.1 run
    exact (syscallDispatch_effect call caller stays).before (syscall_quiet k i c call)
  | fault =>
    obtain ⟨i, caller, rfl⟩ := map_eq_some_iff.1 run
    change k.userSlot.map _ = none at stays
    rw [caller] at stays
    cases stays
  | serverDone =>
    obtain ⟨i, -, rfl⟩ := map_eq_some_iff.1 run
    exact .quiet requeue_quiet rfl rfl
  | serverSleep =>
    obtain ⟨i, -, rfl⟩ := map_eq_some_iff.1 run
    exact .quiet (.put rfl) rfl rfl
  | serverKey =>
    obtain ⟨i, -, rfl⟩ := map_eq_some_iff.1 run
    exact ttyInput_effect rfl rfl rfl
  | bootTask =>
    dsimp only at run
    split at run
    · obtain ⟨⟨j, k₁⟩, created, rfl⟩ := map_eq_some_iff.1 run
      have placed := taskCreate_placed created (k₁.tasks j) k₁.nextSpace
      obtain ⟨free, -, rfl⟩ := taskCreate_some created
      refine .creates j none k.nextSpace free (.inl ⟨rfl, rfl⟩) ?_ rfl rfl
      simpa [Kernel.put] using placed
    · cases run
  | bootSpawn =>
    dsimp only at run
    split at run
    · cases run
      exact procExecve_effect rfl rfl
    · cases run
  | bootRegister sid pid =>
    dsimp only at run
    split at run
    · cases run
      exact .quiet (serviceRegister_quiet sid pid) rfl rfl
    · cases run

end Events

end Osnos.Sched
