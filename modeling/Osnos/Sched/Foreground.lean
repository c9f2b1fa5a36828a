import Osnos.Sched.Mail
import Osnos.Sched.Spaces

/-! The terminal keeps one number, which `sys_set_fg` writes as a pid and `TIOCSPGRP` as a
group. The keys read it as a pid and go to the group of that task. -/
namespace Osnos.Sched
open Kernel Task

structure SameStop (t t' : Task) : Prop where
  pending : t'.stopPending = t.stopPending
  stopped : t'.state = .stopped ↔ t.state = .stopped
  user : t'.pml4 = t.pml4
  alive : t'.alive = t.alive

namespace SameStop

variable {t t₁ t' : Task} {k : Kernel} {i j : Slot} {f : Task → Task}

theorem refl (t : Task) : SameStop t t := ⟨rfl, Iff.rfl, rfl, rfl⟩

theorem trans (first : SameStop t t₁) (next : SameStop t₁ t') : SameStop t t' where
  pending := next.pending.trans first.pending
  stopped := next.stopped.trans first.stopped
  user := next.user.trans first.user
  alive := next.alive.trans first.alive

theorem wakes (pending : t'.stopPending = t.stopPending) (user : t'.pml4 = t.pml4)
    (asleep : t.state = .blocked) (ready : t'.state = .ready) : SameStop t t' := by
  refine ⟨pending, ?_, user, ?_⟩
  · simp [asleep, ready]
  · simp [Task.alive, asleep, ready]

theorem edit (one : SameStop (k.tasks i) (f (k.tasks i))) :
    SameStop (k.tasks j) ((k.edit i f).tasks j) := by
  by_cases same : j = i
  · subst same
    rwa [edit_same]
  · rw [edit_other _ _ same]
    exact refl _

theorem notifyParent (k : Kernel) (i j : Slot) :
    SameStop (k.tasks j) ((k.notifyParent i).tasks j) := by
  refine notifyParent_rule k i (refl _) fun p status _ asleep _ _ => ?_
  have reported : SameStop (k.tasks j)
      (((k.storeStatus p status).edit p (report (k.tasks i).pid)).tasks j) := by
    rw [← storeStatus_tasks k p status] at asleep ⊢
    exact edit (wakes rfl rfl asleep rfl)
  exact reported.trans (edit ⟨rfl, Iff.rfl, rfl, rfl⟩)

theorem ipcSend (k : Kernel) (dest : Nat) (j : Slot) :
    SameStop (k.tasks j) ((k.ipcSend dest).2.tasks j) := by
  unfold Kernel.ipcSend
  split
  · exact refl _
  split
  · exact refl _
  change SameStop (k.tasks j) (if _ then _ else _)
  split
  · unfold unblock
    split
    next asleep =>
      exact wakes rfl rfl asleep rfl
    · exact refl _
  · exact refl _

end SameStop

section Keys

variable {k : Kernel} {i j : Slot}

def Task.Halts (t : Task) : Prop := t.state = .stopped ∨ t.stopPending = true

theorem SameStop.stops {t t' : Task} (same : SameStop t t') (stops : t.Halts) : t'.Halts :=
  stops.imp same.stopped.2 same.pending.trans

theorem ttyStopOne_other (other : j ≠ i) : SameStop (k.tasks j) ((k.ttyStopOne i).tasks j) := by
  unfold ttyStopOne
  dsimp only
  split
  · exact .refl _
  split
  · have here : (k.edit i Task.stop).tasks j = k.tasks j := edit_other _ _ other
    rw [← here]
    exact .notifyParent _ i j
  split
  · rw [edit_other _ _ other]
    exact .refl _
  · exact .refl _

theorem ttyStopOne_self (user : (k.tasks i).pml4 ≠ none) (alive : (k.tasks i).alive) :
    ((k.ttyStopOne i).tasks i).Halts := by
  unfold ttyStopOne
  rw [if_neg user]
  split
  · have stopped : ((k.edit i Task.stop).tasks i).Halts := by
      rw [edit_same]
      exact .inl rfl
    exact (SameStop.notifyParent _ i i).stops stopped
  rename_i awake
  split
  · rw [edit_same]
    exact .inr rfl
  rename_i idle
  push Not at idle
  left
  cases state : (k.tasks i).state <;> simp_all [Task.alive]

theorem stopAll_tasks {l : List Slot} (once : l.Nodup) (k : Kernel)
    (live : ∀ i ∈ l, (k.tasks i).pml4 ≠ none ∧ (k.tasks i).alive) (j : Slot) :
    (j ∈ l → ((l.foldl ttyStopOne k).tasks j).Halts) ∧
      (j ∉ l → SameStop (k.tasks j) ((l.foldl ttyStopOne k).tasks j)) := by
  induction l generalizing k with
  | nil => exact ⟨nofun, fun _ => .refl _⟩
  | cons i l ih =>
    obtain ⟨fresh, once⟩ := List.nodup_cons.1 once
    have live' : ∀ a ∈ l, ((k.ttyStopOne i).tasks a).pml4 ≠ none ∧
        ((k.ttyStopOne i).tasks a).alive = true := by
      intro a mem
      have other : a ≠ i := fun same => fresh (same ▸ mem)
      have kept := ttyStopOne_other (k := k) other
      rw [kept.user, kept.alive]
      exact live a (.tail _ mem)
    obtain ⟨inside, outside⟩ := ih once (k.ttyStopOne i) live'
    rw [List.foldl_cons]
    constructor
    · intro mem
      rcases List.mem_cons.1 mem with rfl | mem
      · obtain ⟨user, alive⟩ := live j (.head _)
        exact (outside fresh).stops (ttyStopOne_self user alive)
      · exact inside mem
    · intro out
      obtain ⟨other, out⟩ := not_or.1 (mt List.mem_cons.2 out)
      exact (ttyStopOne_other other).trans (outside out)

def Task.Interrupted (t : Task) : Prop :=
  t.sigPending SIGINT = true ∧ t.killPending = true ∧ t.state ≠ .blocked

theorem ttyDeliverOne_self (user : (k.tasks i).pml4 ≠ none) :
    ((k.ttyDeliverOne SIGINT i).tasks i).Interrupted := by
  unfold ttyDeliverOne
  rw [if_neg user]
  split
  · rw [edit_same, edit_same]
    exact ⟨by simp [interrupt, raise], by simp [interrupt, raise], nofun⟩
  rename_i awake
  rw [edit_same]
  exact ⟨by simp [raise], by simp [raise], awake⟩

theorem signalAll_tasks {l : List Slot} (once : l.Nodup) (k : Kernel)
    (users : ∀ i ∈ l, (k.tasks i).pml4 ≠ none) (j : Slot) :
    (j ∈ l → ((l.foldl (ttyDeliverOne SIGINT) k).tasks j).Interrupted) ∧
      (j ∉ l → (l.foldl (ttyDeliverOne SIGINT) k).tasks j = k.tasks j) := by
  induction l generalizing k with
  | nil => exact ⟨nofun, fun _ => rfl⟩
  | cons i l ih =>
    obtain ⟨fresh, once⟩ := List.nodup_cons.1 once
    have users' : ∀ a ∈ l, ((k.ttyDeliverOne SIGINT i).tasks a).pml4 ≠ none := by
      intro a mem
      have other : a ≠ i := fun same => fresh (same ▸ mem)
      rw [ttyDeliverOne_other other]
      exact users a (.tail _ mem)
    obtain ⟨inside, outside⟩ := ih once (k.ttyDeliverOne SIGINT i) users'
    rw [List.foldl_cons]
    constructor
    · intro mem
      rcases List.mem_cons.1 mem with rfl | mem
      · rw [outside fresh]
        exact ttyDeliverOne_self (users j (.head _))
      · exact inside mem
    · intro out
      obtain ⟨other, out⟩ := not_or.1 (mt List.mem_cons.2 out)
      rw [outside out, ttyDeliverOne_other other]

end Keys

namespace Kernel

/-- The task that the terminal's number names, if it is a process. -/
def fgTask (k : Kernel) : Option Slot :=
  if k.fgPid = 0 then none
  else (k.taskByPid k.fgPid).filter fun i => decide ((k.tasks i).pml4 ≠ none)

/-- The keys reach the slots with `hit`: control-C interrupts them and leaves the others as
they are, control-Z stops them and none of the others. -/
structure KeysHit (k : Kernel) (hit : Slot → Prop) : Prop where
  interrupts : ∀ i, hit i → ((k.ttyInput .intr).tasks i).Interrupted
  spares : ∀ i, ¬ hit i → (k.ttyInput .intr).tasks i = k.tasks i
  stops : ∀ i, hit i → ((k.ttyInput .susp).tasks i).Halts
  leaves : ∀ i, ¬ hit i → SameStop (k.tasks i) ((k.ttyInput .susp).tasks i)

end Kernel

section Hit

variable {k : Kernel} {i f : Slot}

theorem mem_foreground : i ∈ k.foreground ↔ ∃ f, k.fgTask = some f ∧ (k.tasks i).state ≠ .unused ∧
    (k.tasks i).pml4 ≠ none ∧ (k.tasks i).pgid = (k.tasks f).pgid := by
  unfold foreground Kernel.fgTask
  split
  · simp
  cases k.taskByPid k.fgPid with
  | none => simp
  | some f =>
    rw [Option.filter_some]
    by_cases user : (k.tasks f).pml4 = none
    · simp [user]
    · simp [user]

theorem foreground_nodup (k : Kernel) : k.foreground.Nodup := by
  unfold foreground
  split
  · exact .nil
  split
  · exact .nil
  split
  · exact .nil
  · exact (List.nodup_finRange 16).filter _

theorem keysHit_foreground (living : ∀ i, Living (k.tasks i)) : k.KeysHit (· ∈ k.foreground) := by
  have users : ∀ i ∈ k.foreground, (k.tasks i).pml4 ≠ none := by
    intro i mem
    obtain ⟨f, -, -, user, -⟩ := mem_foreground.1 mem
    exact user
  have signal := signalAll_tasks (foreground_nodup k) k users
  have stop := stopAll_tasks (foreground_nodup k) k fun i mem =>
    ⟨users i mem, alive_iff.2 (living i (users i mem))⟩
  have sent : ∀ i, SameStop (k.stopped.tasks i) ((k.ttyInput .susp).tasks i) := by
    intro i
    unfold ttyInput ttyStopSignal
    dsimp only
    split
    next empty =>
      unfold Kernel.stopped
      rw [empty]
      exact .refl _
    · exact .ipcSend k.stopped SERVER_SHELL i
  constructor
  · exact fun i mem => (signal i).1 mem
  · exact fun i out => (signal i).2 out
  · exact fun i mem => (sent i).stops ((stop i).1 mem)
  · exact fun i out => ((stop i).2 out).trans (sent i)

end Hit

inductive Setting
  | task (pid : Nat)
  | group (pgid : Nat)
  deriving DecidableEq, Repr

structure Terminal where
  kernel : Kernel
  setting : Setting
  group : Option Nat

/-- An event, or `TIOCSPGRP`, to which the kernel makes the same change as to `sys_set_fg`. -/
inductive Input
  | event (e : Event)
  | tcsetpgrp (c : Context) (pgid : UInt32)

def Input.runs : Input → Event
  | .event e => e
  | .tcsetpgrp c pgid => .syscall c (.setFg pgid.toNat)

def Input.sets : Input → Option Setting
  | .event (.syscall _ (.setFg pid)) => some (.task pid)
  | .event _ => none
  | .tcsetpgrp _ pgid => some (.group pgid.toNat)

namespace Terminal

def boot : Terminal := { kernel := Kernel.boot, setting := .task 0, group := none }

def groupOf (k : Kernel) (pid : Nat) : Option Nat :=
  ((k.taskByPid pid).filter fun i => decide ((k.tasks i).pml4 ≠ none)).map fun i => (k.tasks i).pgid

/-- A task stands for its group, and once it has ended for the group it was in last. -/
def stands (k : Kernel) (last : Option Nat) : Setting → Option Nat
  | .task pid => (groupOf k pid).or last
  | .group pgid => some pgid

def step (t : Terminal) (x : Input) : Option Terminal :=
  (t.kernel.step x.runs).map fun k =>
    match x.sets with
    | some setting => { kernel := k, setting := setting, group := stands k none setting }
    | none => { t with kernel := k, group := stands k t.group t.setting }

def exec (x : Input) : Prog Terminal Unit := fun t => (t.step x).map fun t' => ((), t')

def Member (t : Terminal) (i : Slot) : Prop :=
  (t.kernel.tasks i).alive = true ∧ (t.kernel.tasks i).pml4 ≠ none ∧
    t.group = some (t.kernel.tasks i).pgid

/-- The terminal's number is the pid of a process of the group, or of none, and then the
group is empty. -/
def Aimed (t : Terminal) : Prop :=
  match t.kernel.fgTask with
  | some f => t.group = some (t.kernel.tasks f).pgid
  | none => ∀ i, ¬ t.Member i

variable {t t' : Terminal} {x : Input} {i : Slot}

theorem exact_iff (living : ∀ i, Living (t.kernel.tasks i)) :
    (∀ i, i ∈ t.kernel.foreground ↔ t.Member i) ↔ t.Aimed := by
  unfold Aimed
  cases fg : t.kernel.fgTask with
  | none =>
    have empty : ∀ i, i ∉ t.kernel.foreground := by
      intro i mem
      obtain ⟨f, found, -⟩ := mem_foreground.1 mem
      exact absurd (fg.symm.trans found) nofun
    simp only [empty, false_iff]
  | some f =>
    constructor
    · intro all
      have user : (t.kernel.tasks f).pml4 ≠ none := by
        unfold Kernel.fgTask at fg
        split at fg
        · cases fg
        · simpa using (Option.filter_eq_some_iff.1 fg).2
      have hit : f ∈ t.kernel.foreground := mem_foreground.2 ⟨f, fg, (living f user).1, user, rfl⟩
      exact ((all f).1 hit).2.2
    intro group i
    rw [mem_foreground]
    constructor
    · rintro ⟨f', found, used, user, same⟩
      cases fg.symm.trans found
      exact ⟨alive_iff.2 (living i user), user, same ▸ group⟩
    · rintro ⟨alive, user, named⟩
      exact ⟨f, fg, (alive_iff.1 alive).1, user, Option.some.inj (named.symm.trans group)⟩

theorem step_kernel (run : t.step x = some t') : t.kernel.step x.runs = some t'.kernel := by
  obtain ⟨k, stepped, rfl⟩ := Option.map_eq_some_iff.1 run
  rw [stepped]
  split <;> rfl

def Sound (t : Terminal) : Prop := ∀ i, Living (t.kernel.tasks i)

theorem Sound.runs {xs : List Input} (run : Prog.Runs exec (fun _ _ => True) boot xs t) :
    t.Sound := by
  refine Prog.Runs.invariant (fun t x _ t' (sound : t.Sound) _ run => ?_) run
    fun i uses => absurd rfl uses
  obtain ⟨_, step, eq⟩ := Option.map_eq_some_iff.1 run
  cases eq
  exact Living.moves sound (step_moves (step_kernel step))

end Terminal

/-- The keys interrupt and stop the tasks they reach and no others. In every state that a run
leads to, these are the live processes of the group in the foreground exactly if the
terminal's number is the pid of a live process of the group, or of no process while the
group is empty. -/
theorem control_keys_hit_the_group {xs : List Input} {t : Terminal}
    (run : Prog.Runs Terminal.exec (fun _ _ => True) Terminal.boot xs t) :
    t.kernel.KeysHit (· ∈ t.kernel.foreground) ∧
      ((∀ i, i ∈ t.kernel.foreground ↔ t.Member i) ↔ t.Aimed) :=
  ⟨keysHit_foreground (Terminal.Sound.runs run), Terminal.exact_iff (Terminal.Sound.runs run)⟩

def Terminal.pair : List Input :=
  [.event (.bootSpawn 0x400000 0x7ffff000), .event (.dispatch true),
    .event (.syscall userFrame (.fork true)), .event (.syscall userFrame (.setFg 1))]

/-- Then it exits, and its child puts the group into the foreground again. -/
def Terminal.orphan : List Input := pair ++ [.event (.syscall userFrame (.exit 0))]
def Terminal.again : List Input := orphan ++ [.event (.dispatch true), .tcsetpgrp userFrame 1]
def Terminal.after (xs : List Input) : Terminal := (Prog.play exec boot xs).getD boot

theorem Terminal.after_runs {xs : List Input} (ends : (Prog.play exec boot xs).isSome) :
    Prog.Runs exec (fun _ _ => True) boot xs (after xs) := by
  obtain ⟨t, played⟩ := Option.isSome_iff_exists.1 ends
  rw [after, played]
  exact Prog.Runs.of_play played

theorem control_keys_hit_the_group_pair :
    (Terminal.after Terminal.pair).kernel.foreground = [0, 1] ∧
      (Terminal.after Terminal.pair).kernel.KeysHit
        (· ∈ (Terminal.after Terminal.pair).kernel.foreground) ∧
      ((∀ i, i ∈ (Terminal.after Terminal.pair).kernel.foreground ↔
        (Terminal.after Terminal.pair).Member i) ↔ (Terminal.after Terminal.pair).Aimed) :=
  ⟨by decide +kernel, control_keys_hit_the_group (Terminal.after_runs (by decide +kernel))⟩

/-- After the exit of the leader its child is a live process of the group in the foreground,
but neither key reaches it; nor does one after `TIOCSPGRP` has named the group. -/
theorem group_out_of_reach :
    (∃ t, Prog.Runs Terminal.exec (fun _ _ => True) Terminal.boot Terminal.orphan t ∧
      t.group = some 1 ∧ t.Member 1 ∧ t.kernel.foreground = []) ∧
    ∃ t, Prog.Runs Terminal.exec (fun _ _ => True) Terminal.boot Terminal.again t ∧
      t.setting = .group 1 ∧ t.Member 1 ∧ t.kernel.foreground = [] := by
  constructor
  · exact ⟨Terminal.after Terminal.orphan, Terminal.after_runs (by decide +kernel),
      by decide +kernel, ⟨by decide +kernel, by decide +kernel, by decide +kernel⟩,
      by decide +kernel⟩
  exact ⟨Terminal.after Terminal.again, Terminal.after_runs (by decide +kernel),
    by decide +kernel, ⟨by decide +kernel, by decide +kernel, by decide +kernel⟩,
    by decide +kernel⟩

end Osnos.Sched
