import Osnos.Base.Shared
import Osnos.Sched.Effect

/-! Who uses an address space, and when `address_space_destroy` is called on it. There is no
reference count: exit and exec look for other users in the task table. -/
namespace Osnos.Sched
open Function Kernel Option List

namespace Kernel

def taskPml4OtherUsers (k : Kernel) (pml4 : Option Nat) (selfPid : Nat) : Nat :=
  if pml4 = none then 0
  else (List.finRange 16).countP fun i =>
    decide ((k.tasks i).state ≠ .unused ∧ (k.tasks i).state ≠ .dead ∧
      (k.tasks i).pid ≠ selfPid ∧ (k.tasks i).pml4 = pml4)

def abandoned (k : Kernel) (pml4 : Option Nat) (selfPid : Nat) : Option Nat :=
  if k.taskPml4OtherUsers pml4 selfPid = 0 then pml4 else none

/-- What `proc_exit_current_user` destroys, after the report to the parent. -/
def exitDestroys (k : Kernel) (i : Slot) (code : Int) : Option Nat :=
  (k.exitTold i code).abandoned (k.tasks i).pml4 ((k.exitTold i code).tasks i).pid

/-- What `proc_execve_replace_argv` destroys, with the new image in place. -/
def execDestroys (k : Kernel) (i : Slot) (entry stack : Word) : Option Nat :=
  let k' := { k with nextSpace := k.nextSpace + 1 }.edit i (Task.exec k.nextSpace entry stack)
  k'.abandoned (k.tasks i).pml4 (k'.tasks i).pid

def destroys (k : Kernel) (e : Event) : Option Nat :=
  match k.exitPoint e with
  | some p => p.1.exitDestroys p.2.1 p.2.2
  | none =>
    match e with
    | .syscall _ (.execve (.ok image)) => k.userSlot.bind fun i => k.execDestroys i image.1 image.2
    | _ => none

end Kernel

theorem exitTold_moved (k : Kernel) (i : Slot) (code : Int) :
    Moved k i none k.nextSpace (k.exitTold i code) := by
  have same : (k.ipcDropForPid (k.tasks i).pid).nextSpace = k.nextSpace := by
    unfold ipcDropForPid
    split <;> rfl
  have marked : Moved k i none k.nextSpace (k.exitMarked i code) := by
    have left := Moved.put (k := k) (i := i) (k.ipcDropForPid (k.tasks i).pid)
      (Task.ended (k.liveParent i).isSome code ((k.ipcDropForPid (k.tasks i).pid).tasks i))
      fun j _ => congrArg (fun tasks => (tasks j).pml4) (ipcDropForPid_tasks k (k.tasks i).pid)
    rw [same] at left
    refine left.before ?_
    unfold exitMarked dropForeground
    split <;> exact ⟨rfl, rfl⟩
  unfold exitTold
  split
  · exact marked
  · exact marked.before (tellParent_quiet _ _).toKeepsSpaces

theorem ipcSend_spaces (k : Kernel) (dest : Nat) : KeepsSpaces k (k.ipcSend dest).2 :=
  ⟨(ipcSend_nudges k dest).spaces, (ipcSend_nudges k dest).next⟩

theorem procExit_moved (k : Kernel) (i : Slot) (code : Int) :
    Moved k i none k.nextSpace (k.procExit i code) := by
  have released : Moved k i none k.nextSpace (k.exitReleased i code) :=
    (exitTold_moved k i code).before releaseWaiter_quiet.toKeepsSpaces
  unfold procExit
  dsimp only
  split
  · exact released.before (ipcSend_spaces _ _)
  · exact released

def Living (t : Task) : Prop :=
  t.pml4 ≠ none → t.state ≠ .unused ∧ t.state ≠ .dead ∧ t.state ≠ .zombie

namespace Living
open Relation

variable {k k' : Kernel} {e : Event} {i : Slot} {t t' : Task}

theorem of_state {s : TaskState} (state : t.state = s)
    (live : s ≠ .unused ∧ s ≠ .dead ∧ s ≠ .zombie) : Living t :=
  fun _ => state ▸ live

theorem of_same (living : Living t) (state : t'.state = t.state)
    (user : t'.pml4 = none ↔ t.pml4 = none) : Living t' := by
  intro uses
  rw [state]
  exact living (mt user.2 uses)

theorem act (living : Living t) (act : Act (k.causes e) i t t') : Living t' := by
  cases act with
  | message sent asleep | poller asleep valid number | timeout asleep set due
  | interrupt sent asleep | continued stopped | report sent asleep waits | release sent asleep
  | requeue running => exact of_state (s := .ready) rfl (by decide)
  | raise => exact living.of_same rfl Iff.rfl
  | stop sent live => exact of_state (s := .stopped) rfl (by decide)
  | exit | clear => exact fun uses => absurd rfl uses
  | bury _ zombie => exact fun uses => absurd zombie (living uses).2.2
  | create free new => exact of_state new.state (by decide)
  | start picked ready => exact of_state (s := .running) rfl (by decide)
  | save running from_user | consume running => exact of_state (s := .running) running (by decide)
  | park running calls =>
    refine of_state (s := .blocked) ?_ (by decide)
    cases calls.2.2 <;> rfl
  | tweak tweak => exact living.of_same tweak.state tweak.user

theorem moves (living : ∀ i, Living (k.tasks i)) (moves : Moves (k.causes e) k k') (i : Slot) :
    Living (k'.tasks i) := by
  refine Relation.ReflTransGen.head_induction_on (motive := fun t _ => Living t → Living (k'.tasks i))
    (moves.acts i) id ?_ (living i)
  intro t t₁ act _ ih before
  exact ih (before.act act)

end Living

theorem Moves.same_pid {k k' : Kernel} {e : Event} {i : Slot} (moves : Moves (k.causes e) k k')
    (creates : e.creates = false) (used : (k'.tasks i).state ≠ .unused) :
    (k.tasks i).state ≠ .unused ∧ (k'.tasks i).pid = (k.tasks i).pid := by
  have old : ∀ t, ¬ k.Creates e i t := fun t created => by simp [created.event] at creates
  rcases chain_kept (moves.acts i) with kept | created | ⟨new, created, -⟩
  · rcases kept with unused | ⟨was, pid, -⟩
    · exact absurd unused used
    · exact ⟨was, pid⟩
  all_goals exact absurd created (old _)

section Events

variable {k k₁ k' : Kernel} {e : Event} {i : Slot} {c : Context} {code : Int}

theorem reapSlot_spaces (living : ∀ j, Living (k.tasks j)) : KeepsSpaces k (k.reapSlot i) := by
  unfold reapSlot
  split
  · exact ⟨rfl, rfl⟩
  rename_i dead
  split
  · exact ⟨rfl, rfl⟩
  have unmapped : (k.tasks i).pml4 = none := by
    by_contra uses
    exact dead (living i uses).2.1
  have cleared : Quiet (k.ipcDropForPid (k.tasks i).pid)
      ((k.ipcDropForPid (k.tasks i).pid).put i {}) := .put (by rw [ipcDropForPid_tasks, unmapped])
  refine ⟨cleared.spaces.trans ?_, cleared.next.trans ?_⟩
  · unfold spaces
    rw [ipcDropForPid_tasks]
  · unfold ipcDropForPid
    split <;> rfl

theorem reapSlot_living (living : ∀ j, Living (k.tasks j)) (j : Slot) :
    Living ((k.reapSlot i).tasks j) := by
  rcases reapSlot_tasks k i j with same | ⟨cleared, -⟩
  · rw [same]
    exact living j
  · rw [cleared]
    exact fun uses => absurd rfl uses

theorem taskReapDead_spaces (living : ∀ j, Living (k.tasks j)) : KeepsSpaces k k.taskReapDead := by
  unfold taskReapDead
  generalize finRange 16 = slots
  induction slots generalizing k with
  | nil => exact ⟨rfl, rfl⟩
  | cons _ _ ih =>
    rw [foldl_cons]
    exact (reapSlot_spaces living).trans (ih (reapSlot_living living))

theorem startNext_spaces : KeepsSpaces k k.startNext := by
  rcases startNext_cases k with ⟨-, eq⟩ | eq
  · rw [eq]
    have started : Quiet { k with current := some k.pickNext.1 } _ := .edit (i := k.pickNext.1)
      (f := fun t => { t with state := .running }) fun _ => rfl
    exact ⟨started.spaces, started.next⟩
  · rw [eq]
    exact ⟨rfl, rfl⟩

theorem schedule_spaces (living : ∀ i, Living (k.tasks i)) : KeepsSpaces k k.schedule := by
  have woken : Quiet k.taskReapDead k.taskReapDead.taskCheckWakeups :=
    .editAll fun t => (checkWakeup_identity _ t).pml4
  exact ((taskReapDead_spaces living).trans woken.toKeepsSpaces).trans startNext_spaces

theorem dispatchTo_spaces (living : ∀ i, Living (k.tasks i)) (frameOk : Bool) :
    KeepsSpaces k (k.dispatchTo frameOk).2 := by
  have scheduled := schedule_spaces living
  unfold dispatchTo
  generalize k.schedule = k₁ at scheduled ⊢
  split
  · exact scheduled.trans (userTaskTrampoline_quiet frameOk).toKeepsSpaces
  · exact scheduled

structure Exits (k : Kernel) (e : Event) (k₁ : Kernel) (i : Slot) : Prop where
  moves : Moves (k.causes e) k k₁
  spaces : KeepsSpaces k k₁
  running : (k₁.tasks i).state = .running
  uses : (k.tasks i).pml4 ≠ none

theorem Exits.of_caller {now : Nat} (caller : k.userSlot = some i) :
    Exits k e { k with now := now } i :=
  have ⟨_, running, user⟩ := userSlot_some caller
  ⟨Moves.of_tasks rfl le_rfl, ⟨rfl, rfl⟩, running, user⟩

theorem exitPoint_exits (living : ∀ i, Living (k.tasks i))
    (point : k.exitPoint e = some (k₁, i, code)) : Exits k e k₁ i := by
  rcases exitPoint_cases point with ⟨caller, -, now, rfl⟩ | ⟨frameOk, rfl, picked, lands⟩
  · exact .of_caller caller
  obtain ⟨own, same, running⟩ := dispatch_user frameOk picked
  have spaces := dispatchTo_spaces living frameOk
  rw [lands] at own spaces
  have user := (userSlot_some picked).2.2
  rw [same.pml4] at user
  exact ⟨(scheduled frameOk).trans own.moves, spaces, own.state.trans running, user⟩

theorem abandoned_iff {s pid : Nat}
    (others : ∀ j, k.spaces j = some s → (k.tasks j).state ≠ .unused ∧
      (k.tasks j).state ≠ .dead ∧ (k.tasks j).pid ≠ pid) :
    k.abandoned (some s) pid = some s ↔ ∀ j, k.spaces j ≠ some s := by
  have scan : k.taskPml4OtherUsers (some s) pid = 0 ↔ ∀ j, k.spaces j ≠ some s := by
    unfold taskPml4OtherUsers
    rw [if_neg (some_ne_none s), countP_eq_zero]
    constructor
    · intro zero j uses
      obtain ⟨used, alive, apart⟩ := others j uses
      exact zero j (mem_finRange j) (decide_eq_true ⟨used, alive, apart, uses⟩)
    · intro free j _ found
      exact free j (of_decide_eq_true found).2.2.2
  unfold abandoned
  rw [← scan]
  simp

theorem abandoned_only {s s' pid : Nat} (left : k.abandoned (some s) pid = some s') : s' = s := by
  unfold abandoned at left
  split at left
  · exact (Option.some.inj left).symm
  · cases left

theorem exitTold_event (exits : Exits k e k₁ i) (point : k.exitPoint e = some (k₁, i, code)) :
    Moves (k.causes e) k (k₁.exitTold i code) := by
  have ending := exitPoint_ending point
  refine exits.moves.trans (exitTold_moves exits.running ⟨k₁, code, point, rfl⟩
    (.inl ⟨k₁, code, point⟩) ?_)
  intro t parent asked
  exact ⟨i, .exit, ending.pid.symm, ending.parentPid.symm.trans parent.symm, .exit point, asked⟩

theorem exitDestroys_iff (pids : PidsOk k) (living : ∀ i, Living (k.tasks i))
    (point : k.exitPoint e = some (k₁, i, code)) {s : Nat} (uses : k.spaces i = some s) :
    (k₁.exitDestroys i code = some s ↔ ∀ j, j ≠ i → k.spaces j ≠ some s) ∧
      ∀ s', k₁.exitDestroys i code = some s' → s' = s := by
  have exits := exitPoint_exits living point
  have ending := exitPoint_ending point
  have told := exitTold_event exits point
  have spaces : (k₁.exitTold i code).spaces = update k.spaces i none := by
    rw [(exitTold_moved k₁ i code).spaces, exits.spaces.spaces]
  have mine : (k₁.tasks i).pml4 = some s := (congrFun exits.spaces.spaces i).trans uses
  unfold exitDestroys
  rw [mine, abandoned_iff, spaces]
  · refine ⟨⟨fun free j other => ?_, fun alone j => ?_⟩, fun s' => abandoned_only⟩
    · rw [← update_of_ne other none k.spaces]
      exact free j
    by_cases self : j = i
    · rw [self, update_self]
      exact nofun
    · rw [update_of_ne self]
      exact alone j self
  intro j holds
  have other : j ≠ i := by
    rintro rfl
    rw [spaces, update_self] at holds
    cases holds
  have alive := Living.moves living told j (by
    intro left
    exact absurd (holds.symm.trans left) (some_ne_none s))
  obtain ⟨used, pid⟩ := told.same_pid ending.creates alive.1
  refine ⟨alive.1, alive.2.1, ?_⟩
  rw [pid, (exitTold_self k₁ i code).1, ending.pid]
  exact fun same => other (pids.apart j i used ending.used.1 same)

theorem execDestroys_iff (pids : PidsOk k) (living : ∀ i, Living (k.tasks i))
    (caller : k.userSlot = some i) {s : Nat} (uses : k.spaces i = some s) (old : s < k.nextSpace)
    (entry stack : Word) :
    (k.execDestroys i entry stack = some s ↔ ∀ j, j ≠ i → k.spaces j ≠ some s) ∧
      ∀ s', k.execDestroys i entry stack = some s' → s' = s := by
  have mine : (k.tasks i).pml4 = some s := uses
  unfold execDestroys
  dsimp only
  generalize new : ({ k with nextSpace := k.nextSpace + 1 }.edit i
    (Task.exec k.nextSpace entry stack)) = k'
  have self : k'.tasks i = Task.exec k.nextSpace entry stack (k.tasks i) := by
    rw [← new, edit_same]
  have other : ∀ j, j ≠ i → k'.tasks j = k.tasks j := by
    intro j other
    rw [← new, edit_other _ _ other]
  have holds_iff : ∀ j, k'.spaces j = some s ↔ j ≠ i ∧ k.spaces j = some s := by
    intro j
    by_cases at_i : j = i
    · have fresh : k'.spaces i = some k.nextSpace := congrArg Task.pml4 self
      rw [at_i, fresh]
      exact ⟨fun same => absurd (Option.some.inj same) old.ne', fun h => absurd rfl h.1⟩
    have same : k'.spaces j = k.spaces j := congrArg Task.pml4 (other j at_i)
    rw [same]
    exact ⟨fun h => ⟨at_i, h⟩, fun h => h.2⟩
  rw [mine, abandoned_iff]
  · refine ⟨⟨fun free j other same => free j ((holds_iff j).2 ⟨other, same⟩),
      fun alone j same => ?_⟩, fun s' => abandoned_only⟩
    obtain ⟨other, same⟩ := (holds_iff j).1 same
    exact alone j other same
  intro j holds
  obtain ⟨at_i, same⟩ := (holds_iff j).1 holds
  have alive := living j (fun unmapped => absurd (same.symm.trans unmapped) (some_ne_none s))
  rw [other j at_i, self]
  refine ⟨alive.1, alive.2.1, fun pid => at_i (pids.apart j i alive.1 ?_ pid)⟩
  simp [(userSlot_some caller).2.1]

inductive SpaceStep (k : Kernel) (e : Event) (k' : Kernel) : Prop
  | kept (keeps : KeepsSpaces k k') (spares : k.destroys e = none)
  | exits (k₁ : Kernel) (i : Slot) (code : Int) (point : k.exitPoint e = some (k₁, i, code))
      (moved : Moved k i none k.nextSpace k')
  | execs (c : Context) (i : Slot) (image : Word × Word) (caller : k.userSlot = some i)
      (event : e = .syscall c (.execve (.ok image)))
      (moved : Moved k i (some k.nextSpace) (k.nextSpace + 1) k')
  | creates (j : Slot) (free : k.freeSlot = some j)
      (moved : Moved k j (some k.nextSpace) (k.nextSpace + 1) k') (spares : k.destroys e = none)
  | shares (i j : Slot) (free : k.freeSlot = some j)
      (moved : Moved k j (k.spaces i) k.nextSpace k') (spares : k.destroys e = none)

theorem destroys_none (stays : k.exitPoint e = none) (loads : e.execs = false) :
    k.destroys e = none := by
  unfold destroys
  rw [stays]
  dsimp only
  split
  · cases loads
  · rfl

theorem free_none (living : ∀ i, Living (k.tasks i)) (free : k.freeSlot = some i) :
    k.spaces i = none := by
  have state : (k.tasks i).state = .unused ∨ (k.tasks i).state = .dead := by
    simpa using find?_some free
  by_contra uses
  exact state.elim (living i uses).1 (living i uses).2.1

theorem step_spaces (living : ∀ i, Living (k.tasks i)) (run : k.step e = some k') :
    SpaceStep k e k' := by
  cases point : k.exitPoint e with
  | some p =>
    obtain ⟨k₁, i, code⟩ := p
    have exits := exitPoint_exits living point
    have moved := (procExit_moved k₁ i code).after exits.spaces
    rw [exits.spaces.next, ← (exitPoint_ending point).ends k' run] at moved
    exact .exits k₁ i code point moved
  | none =>
    cases step_effect run point with
    | quiet keeps _ loads => exact .kept keeps.toKeepsSpaces (destroys_none point loads)
    | turns frameOk event keeps =>
      refine .kept ((dispatchTo_spaces living frameOk).trans keeps.toKeepsSpaces) ?_
      exact destroys_none point (by rw [event]; rfl)
    | sends k₁ dest _ before after loads =>
      have sent := (ipcSend_spaces k₁ dest).trans after.toKeepsSpaces
      exact .kept (before.toKeepsSpaces.trans sent) (destroys_none point loads)
    | receives c i copyOk caller event keeps =>
      have taken := ipcRecv_nudges k (k.tasks i).pid
      refine .kept ⟨keeps.spaces.trans taken.spaces, keeps.next.trans taken.next⟩ ?_
      exact destroys_none point (by rw [event]; rfl)
    | execs c i image caller event placed => exact .execs c i image caller event placed.toMoved
    | creates j space made free kind placed silent loads =>
      have spares := destroys_none point loads
      rcases kind with ⟨rfl, rfl⟩ | ⟨rfl, rfl⟩ | ⟨⟨i, rfl⟩, rfl⟩
      · refine .kept ⟨placed.spaces.trans ?_, placed.next⟩ spares
        rw [← free_none living free, update_eq_self]
      · exact .creates j free placed.toMoved spares
      · exact .shares i j free placed.toMoved spares

end Events

def Kernel.destroyed (k : Kernel) : List Event → List Nat
  | [] => []
  | e :: es => (k.destroys e).toList ++ (k.step e).elim [] fun k' => k'.destroyed es

structure SpacesOk (k : Kernel) (log : List Nat) : Prop where
  pids : PidsOk k
  living : ∀ i, Living (k.tasks i)
  shared : Shared k.spaces k.nextSpace log

namespace SpacesOk

variable {k k' : Kernel} {e : Event} {log : List Nat} {i : Slot}

theorem boot : SpacesOk boot [] := ⟨.boot, fun _ uses => absurd rfl uses, Shared.start⟩

theorem destroys_last (ok : SpacesOk k log) {k₁ : Kernel} {code : Int}
    (point : k.exitPoint e = some (k₁, i, code)) :
    ∃ s, k.spaces i = some s ∧ (k.destroys e = some s ↔ ∀ j, j ≠ i → k.spaces j ≠ some s) ∧
      ∀ s', k.destroys e = some s' → s' = s := by
  have eq : k.destroys e = k₁.exitDestroys i code := by
    unfold destroys
    rw [point]
  obtain ⟨s, uses⟩ := Option.ne_none_iff_exists'.1 (exitPoint_exits ok.living point).uses
  rw [eq]
  exact ⟨s, uses, exitDestroys_iff ok.pids ok.living point uses⟩

theorem execve_last (ok : SpacesOk k log) {c : Context} {image : Word × Word}
    (caller : k.userSlot = some i) :
    ∃ s, k.spaces i = some s ∧
      (k.destroys (.syscall c (.execve (.ok image))) = some s ↔ ∀ j, j ≠ i → k.spaces j ≠ some s) ∧
      ∀ s', k.destroys (.syscall c (.execve (.ok image))) = some s' → s' = s := by
  have eq : k.destroys (.syscall c (.execve (.ok image))) = k.execDestroys i image.1 image.2 := by
    change k.userSlot.bind _ = _
    rw [caller, bind_some]
  obtain ⟨s, uses⟩ := Option.ne_none_iff_exists'.1 (userSlot_some caller).2.2
  rw [eq]
  exact ⟨s, uses, execDestroys_iff ok.pids ok.living caller uses (ok.shared.below uses) _ _⟩

theorem step (ok : SpacesOk k log) (run : k.step e = some k') :
    SpacesOk k' (log ++ (k.destroys e).toList) := by
  refine ⟨ok.pids.step run, Living.moves ok.living (step_moves run), ?_⟩
  cases step_spaces ok.living run with
  | kept keeps spares =>
    rw [keeps.spaces, keeps.next, spares, toList_none, append_nil]
    exact ok.shared
  | exits k₁ i code point moved =>
    obtain ⟨s, uses, last, only⟩ := ok.destroys_last point
    rw [moved.spaces, moved.next]
    exact ok.shared.leave uses last only
  | execs c i image caller event moved =>
    subst event
    obtain ⟨s, uses, last, only⟩ := ok.execve_last (c := c) caller
    have left := ok.shared.leave uses last only
    have made := left.make (update_self i none k.spaces)
    rwa [update_idem, ← moved.spaces, ← moved.next] at made
  | creates j free moved spares =>
    rw [moved.spaces, moved.next, spares, toList_none, append_nil]
    exact ok.shared.make (free_none ok.living free)
  | shares i j free moved spares =>
    rw [moved.spaces, moved.next, spares, toList_none, append_nil]
    exact ok.shared.join (free_none ok.living free) i

theorem runs (ok : SpacesOk k log) {es : List Event} (run : Runs (fun _ _ => True) k es k') :
    SpacesOk k' (log ++ k.destroyed es) := by
  induction run generalizing log with
  | nil k => rwa [destroyed, append_nil]
  | cons _ first _ ih =>
    have first := exec_eq_some.1 first
    have rest := ih (ok.step first)
    rwa [destroyed, first, elim_some, ← append_assoc]

theorem last_user (ok : SpacesOk k log) (run : k.step e = some k') {s : Nat}
    (destroys : k.destroys e = some s) :
    ∃ i, k.spaces i = some s ∧ k'.spaces i ≠ some s ∧ ∀ j, j ≠ i → k.spaces j ≠ some s := by
  cases step_spaces ok.living run with
  | kept _ spares | creates _ _ _ spares | shares _ _ _ _ spares =>
    exact absurd (spares.symm.trans destroys) nofun
  | exits _ i _ point moved =>
    obtain ⟨_, uses, last, only⟩ := ok.destroys_last point
    cases only s destroys
    refine ⟨i, uses, ?_, last.1 destroys⟩
    rw [moved.spaces, update_self]
    exact nofun
  | execs c i image caller event moved =>
    subst event
    obtain ⟨_, uses, last, only⟩ := ok.execve_last (c := c) caller
    cases only s destroys
    refine ⟨i, uses, ?_, last.1 destroys⟩
    rw [moved.spaces, update_self]
    exact fun same => (ok.shared.below uses).ne' (Option.some.inj same)

end SpacesOk

/-- In every run, `address_space_destroy` has been called once on each address space
without a user and never on one with a user; users are live tasks; each call comes from
the last user, as it leaves; and the scheduler only enters address spaces that stand. -/
theorem address_space_destroyed_once {es : List Event} {k : Kernel}
    (run : Runs (fun _ _ => True) Kernel.boot es k) :
    (∀ s, (Kernel.boot.destroyed es).count s =
      if s < k.nextSpace ∧ ∀ i, k.spaces i ≠ some s then 1 else 0) ∧
    (∀ i s, k.spaces i = some s → s < k.nextSpace ∧
      (k.tasks i).state ≠ .unused ∧ (k.tasks i).state ≠ .dead ∧ (k.tasks i).state ≠ .zombie) ∧
    (∀ e k' s, k.step e = some k' → k.destroys e = some s →
      ∃ i, k.spaces i = some s ∧ k'.spaces i ≠ some s ∧ ∀ j, j ≠ i → k.spaces j ≠ some s) ∧
    (∀ i s, k.schedule.userSlot = some i → k.schedule.spaces i = some s →
      s ∉ Kernel.boot.destroyed es) := by
  have ok : SpacesOk k (Kernel.boot.destroyed es) := SpacesOk.boot.runs run
  refine ⟨fun s => ok.shared.count_eq s, fun i s uses => ?_, fun e k' s step => ok.last_user step,
    fun i s _ uses gone => ?_⟩
  · have user : (k.tasks i).pml4 ≠ none := fun unmapped => nomatch uses.symm.trans unmapped
    exact ⟨ok.shared.below uses, ok.living i user⟩
  · rw [(schedule_spaces ok.living).spaces] at uses
    exact ((ok.shared.gone s).1 gone).2 i uses

/-- A task clones itself with its memory and forks; the clone execs, then all three
exit: the first space outlives the exec and the exit of one of its two users. -/
def Kernel.sharedSpace : List Event :=
  [.bootSpawn 4096 8192, .dispatch true, .syscall {} (.clone CLONE_VM 8192 true),
    .syscall {} (.fork true), .syscall {} (.exit 0), .dispatch true,
    .syscall {} (.execve (.ok (4096, 8192))), .dispatch true, .syscall {} (.exit 0),
    .dispatch true, .syscall {} (.exit 0)]

theorem shared_space_destroyed :
    Kernel.boot.destroyed Kernel.sharedSpace = [0, 1, 2] ∧
      (Kernel.boot.destroyed Kernel.sharedSpace).count 0 =
        if 0 < (Kernel.booted Kernel.sharedSpace).nextSpace ∧
          ∀ i, (Kernel.booted Kernel.sharedSpace).spaces i ≠ some 0 then 1 else 0 :=
  ⟨by decide +kernel,
    (address_space_destroyed_once (Kernel.booted_runs _ (by decide +kernel))).1 0⟩

end Osnos.Sched
