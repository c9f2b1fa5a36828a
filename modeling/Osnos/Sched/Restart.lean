import Osnos.Sched.Mode
import Osnos.Sched.Sleep

/-! `block_restart_syscall` leaves the call's number in the saved `rax`, behind the
instruction that is to be issued again; a signal that finds the task asleep puts `-EINTR`
into the same word. -/
namespace Osnos.Sched
open Kernel

theorem foldl_hits {f : Kernel → Slot → Kernel} {P Q : Kernel → Prop} {i : Slot} {l : List Slot}
    (hit : ∀ k, P k → Q (f k i)) (miss : ∀ k, ∀ j ∈ l, j ≠ i → P k → P (f k j))
    (kept : ∀ k j, Q k → Q (f k j)) (member : i ∈ l) {k : Kernel} (start : P k) :
    Q (l.foldl f k) := by
  have rest : ∀ (l : List Slot) (k : Kernel), Q k → Q (l.foldl f k) := by
    intro l
    induction l with
    | nil => exact fun _ h => h
    | cons j l ih => exact fun k h => ih _ (kept k j h)
  induction l generalizing k with
  | nil => cases member
  | cons j l ih =>
    by_cases at_i : j = i
    · subst at_i
      exact rest l _ (hit k start)
    · have later : i ∈ l := (List.mem_cons.1 member).resolve_left (Ne.symm at_i)
      exact ih (fun k j' mem => miss k j' (by simp [mem])) later (miss k j (by simp) at_i start)

structure Interrupted (t t' : Task) : Prop where
  state : t'.state = .ready
  pid : t'.pid = t.pid
  user : t'.pml4 = t.pml4
  savedValid : t'.savedValid = true
  saved : t'.saved = { t.saved with rax := err EINTR }

section Hit

variable {k k₁ : Kernel} {i j : Slot} {t : Task} {sig : Nat}

theorem interrupt_interrupted {kill : Bool} (valid : t.savedValid) :
    Interrupted t (t.raise sig kill).interrupt := by
  refine ⟨rfl, rfl, rfl, valid, ?_⟩
  unfold Task.interrupt
  dsimp only
  exact if_pos valid

theorem Interrupted.raise {t' : Task} {kill : Bool} (hit : Interrupted t t') :
    Interrupted t (t'.raise sig kill) := { hit with }

theorem notifyParent_other (other : i ≠ j)
    (deaf : (k.tasks i).state ≠ .blocked ∨ (k.tasks i).pid ≠ (k.tasks j).parentPid ∨
      (k.tasks i).waitsFor (k.tasks j).pid = false ∨
      ¬ (k.tasks j).waitChange.change.Asked (k.tasks i).waitOptions) :
    (k.notifyParent j).tasks i = k.tasks i := by
  refine notifyParent_rule k j rfl fun p status named asleep waits asked => ?_
  rw [edit_other _ _ other]
  by_cases parent : i = p
  · subst parent
    rcases deaf with awake | stranger | quiet | unasked
    · exact absurd asleep awake
    · exact absurd named stranger
    · rw [quiet] at waits
      cases waits
    · exact absurd asked unasked
  · rw [edit_other _ _ parent, storeStatus_tasks]

theorem ttyDeliverOne_interrupted (hit : Interrupted t (k.tasks i)) :
    Interrupted t ((k.ttyDeliverOne sig j).tasks i) := by
  by_cases other : i = j
  · subst other
    unfold ttyDeliverOne
    dsimp only
    split
    · exact hit
    · rw [if_neg (by simp [hit.state]), edit_same]
      exact hit.raise
  · rw [ttyDeliverOne_other other]
    exact hit

theorem ttySignal_hits (member : i ∈ k.foreground) (user : (k.tasks i).pml4 ≠ none)
    (asleep : (k.tasks i).state = .blocked) (valid : (k.tasks i).savedValid) :
    Interrupted (k.tasks i) (k.ttySignal.tasks i) := by
  refine foldl_hits (P := fun k₁ => k₁.tasks i = k.tasks i)
    (Q := fun k₁ => Interrupted (k.tasks i) (k₁.tasks i)) ?_ ?_ ?_ member rfl
  · intro k₁ same
    unfold ttyDeliverOne
    rw [same, if_neg user]
    dsimp only
    rw [if_pos asleep, edit_same, edit_same, same]
    exact interrupt_interrupted valid
  · intro k₁ j _ other same
    rw [ttyDeliverOne_other other.symm]
    exact same
  · exact fun _ _ hit => ttyDeliverOne_interrupted hit

theorem killOneTask_other (other : i ≠ j)
    (deaf : (k.tasks j).state = .stopped → sig = SIGCONT ∨ sig = SIGKILL →
      (k.tasks i).state ≠ .blocked ∨ (k.tasks i).pid ≠ (k.tasks j).parentPid ∨
      (k.tasks i).waitsFor (k.tasks j).pid = false ∨
      ¬ Change.continue.Asked (k.tasks i).waitOptions) :
    (k.killOneTask j sig).tasks i = k.tasks i := by
  unfold killOneTask
  dsimp only
  split
  · rfl
  split
  · rw [edit_other _ _ other, edit_other _ _ other]
  split
  next wakes =>
    rw [notifyParent_other other, edit_other _ _ other, edit_other _ _ other]
    rw [edit_other _ _ other, edit_other _ _ other, edit_same, edit_same]
    exact deaf wakes.1 wakes.2
  · rw [edit_other _ _ other]

theorem killOneTask_interrupted (hit : Interrupted t (k.tasks i)) :
    Interrupted t ((k.killOneTask j sig).tasks i) := by
  by_cases other : i = j
  · subst other
    unfold killOneTask
    dsimp only
    split
    · exact hit
    · rw [if_neg (by simp [hit.state]), if_neg (by simp [hit.state]), edit_same]
      exact hit.raise
  · rw [killOneTask_other other fun _ _ => .inl (by simp [hit.state])]
    exact hit

theorem sysKill_hits {self : Slot} {pid : Int} (range : 1 ≤ sig ∧ sig ≤ 31)
    (member : i ∈ k.killTargets self pid) (user : (k.tasks i).pml4 ≠ none)
    (asleep : (k.tasks i).state = .blocked) (valid : (k.tasks i).savedValid)
    (deaf : ∀ j ∈ k.killTargets self pid, (k.tasks j).state = .stopped →
      sig = SIGCONT ∨ sig = SIGKILL → (k.tasks i).pid = (k.tasks j).parentPid →
      Change.continue.Asked (k.tasks i).waitOptions →
      (k.tasks i).waitsFor (k.tasks j).pid = false) :
    Interrupted (k.tasks i) ((k.sysKill self pid sig).2.tasks i) := by
  unfold sysKill
  rw [if_neg (by omega)]
  refine foldl_hits (P := fun k₁ => k₁.tasks i = k.tasks i ∧ Calm .stopped k k₁)
    (Q := fun k₁ => Interrupted (k.tasks i) (k₁.tasks i)) ?_ ?_ ?_ member ⟨rfl, .refl k⟩
  · rintro k₁ ⟨same, -⟩
    have killable : (k.tasks i).killable := by simp [Task.killable, asleep, user]
    unfold killOneTask
    dsimp only
    rw [same, killable, if_neg (by simp), if_pos asleep, edit_same, edit_same, same]
    exact interrupt_interrupted valid
  · rintro k₁ j target other ⟨same, calm⟩
    refine ⟨?_, calm.trans killOneTask_calm⟩
    rw [killOneTask_other other.symm, same]
    intro stopped wakes
    rw [same, calm.pid, calm.parentPid]
    by_cases parent : (k.tasks i).pid = (k.tasks j).parentPid
    · by_cases asked : Change.continue.Asked (k.tasks i).waitOptions
      · exact .inr (.inr (.inl (deaf j target (calm.back j stopped) wakes parent asked)))
      · exact .inr (.inr (.inr asked))
    · exact .inr (.inl parent)
  · exact fun _ _ hit => killOneTask_interrupted hit

theorem finish_other {c : Context} {value : Word} (other : i ≠ j) :
    (k.finish j c value).tasks i = k.tasks i := by
  unfold finish
  split
  · rw [edit_other _ _ other]
  · rfl

theorem step_hits {e : Event} {k' : Kernel} (run : k.step e = some k') (hit : k.Signals e i)
    (user : (k.tasks i).pml4 ≠ none) (asleep : (k.tasks i).state = .blocked)
    (valid : (k.tasks i).savedValid) (deaf : ¬ k.Answers e (k.tasks i)) :
    Interrupted (k.tasks i) (k'.tasks i) := by
  have sleeper : ∀ {self : Slot}, k.userSlot = some self → i ≠ self := by
    rintro self caller rfl
    rw [(userSlot_some caller).2.1] at asleep
    cases asleep
  unfold step at run
  split at run
  · cases run
  unfold Signals at hit
  split at hit
  · obtain ⟨range, self, caller, member⟩ := hit
    rw [caller] at run
    cases run
    unfold syscall syscallDispatch Kernel.returning
    dsimp only
    rw [finish_other (sleeper caller)]
    refine sysKill_hits range member user asleep valid fun j target stopped wakes parent asked => ?_
    by_contra waits
    refine deaf (.inl ⟨_, ⟨j, .continue, rfl, parent.symm, ?_, asked⟩, by simpa using waits⟩)
    exact .kill caller target wakes stopped
  obtain ⟨key, member⟩ := hit
  have woken := ttySignal_hits member user asleep valid
  unfold keyOf at key
  split at key
  · cases key
    obtain ⟨_, _, rfl⟩ := Option.map_eq_some_iff.1 run
    exact woken
  · obtain ⟨_, caller, rfl⟩ := Option.map_eq_some_iff.1 key
    obtain ⟨caller, owner⟩ := Option.filter_eq_some_iff.1 caller
    rw [caller] at run
    cases run
    unfold syscall syscallDispatch
    dsimp only
    rw [if_pos (by simpa using owner)]
    dsimp only
    rw [finish_other (sleeper caller)]
    exact woken
  · cases key

end Hit

def EndsWell (c : Context) (nr : Word) (c' : Context) : Prop :=
  (c'.rip = c.rip ∧ c'.rax = err EINTR) ∨ (c'.rip = c.rip - 2 ∧ c'.rax = nr)

/-- The task sleeps on or waits to be dispatched, and nothing overwrites its `rax`. -/
def Kernel.Rest (i : Slot) (k : Kernel) (e : Event) : Prop :=
  k.Quiet e i (k.tasks i) ∧ ∀ c, ¬ k.Resumes e i c

section Restart

variable {k k' : Kernel} {i : Slot} {e : Event} {c : Context} {nr : Word} {pid : Nat}

theorem Held.rest {P : Context → Prop} {es : List Event} (held : Held P pid i k)
    (runs : Runs (Rest i) k es k') : Held P pid i k' :=
  Runs.keeps (fun _ _ _ held rest run => held.step (.inr fun _ => rest.1) run rest.2) runs held

theorem restart_parked {call : Syscall} (caller : k.userSlot = some i)
    (parks : k.step (.syscall c call) = some k') (asleep : (k'.tasks i).state = .blocked)
    (restarts : (k'.tasks i).call = .restart nr) :
    (nr = SYS_READ ∨ nr = SYS_POLL ∨ nr = SYS_IPC_SEND) ∧ (k'.tasks i).pml4 ≠ none ∧
      (k'.tasks i).savedValid = true ∧
      (k'.tasks i).saved = { c with rip := c.rip - 2, rax := nr } := by
  obtain ⟨_, running, user⟩ := userSlot_some caller
  rcases chain_asleep ((step_moves parks).acts i) asleep with ⟨slept, -⟩ | ⟨t₁, -, parks, dozes⟩
  · rw [running] at slept
    cases slept
  have call_eq := dozes.call.symm.trans restarts
  cases parks with
  | restart number =>
    cases call_eq
    refine ⟨number, fun none => user (dozes.user.1 none), dozes.savedValid, dozes.saved⟩
  | nanosleep | wait4 | vfork => cases call_eq

theorem Kernel.Signals.waits (hit : k.Signals e i) (c : Context) : ¬ k.Resumes e i c := by
  rintro ⟨frameOk, rfl, -, -⟩
  cases hit.1

/-- A call parked by `block_restart_syscall` and hit by `kill` or control-C ends well
exactly if the signal no longer finds the task asleep. -/
theorem restart_after_signal {before rest rest' : List Event} {k₁ k₂ k₃ k₄ : Kernel}
    {call : Syscall} {e' : Event} {c' : Context}
    (reached : Runs (fun _ _ => True) Kernel.boot before k) (caller : k.userSlot = some i)
    (parks : k.step (.syscall c call) = some k₁) (asleep : (k₁.tasks i).state = .blocked)
    (restarts : (k₁.tasks i).call = .restart nr)
    (first : Runs (Kernel.Rest i) k₁ rest k₂) (same : (k₂.tasks i).pid = (k.tasks i).pid)
    (hit : k₂.Signals e i) (hits : k₂.step e = some k₃)
    (deaf : (k₂.tasks i).state = .blocked → ¬ k₂.Answers e (k₂.tasks i))
    (second : Runs (Kernel.Rest i) k₃ rest' k₄) (same' : (k₄.tasks i).pid = (k.tasks i).pid)
    (continues : k₄.Continues e' i c') :
    EndsWell c nr c' ↔ (k₂.tasks i).state ≠ .blocked := by
  obtain ⟨-, running, -⟩ := userSlot_some caller
  obtain ⟨number, user, valid, saved⟩ := restart_parked caller parks asleep restarts
  have known := (PidsOk.reachable reached).below i (by simp [running])
  have held : Held (· = { c with rip := c.rip - 2, rax := nr }) (k.tasks i).pid i k₁ :=
    ⟨known.trans_le (step_moves parks).pids, fun _ => .inr ⟨.inr (.inl asleep), user, valid, saved⟩⟩
  have held₂ := held.rest first
  by_cases found : (k₂.tasks i).state = .blocked
  · -- the signal overwrites the number, and the instruction pointer stays behind
    refine iff_of_false ?_ (not_not.2 found)
    rcases held₂.held same with ended | ⟨-, user, valid, saved⟩
    · unfold Task.over at ended
      simp [found] at ended
    have woken := step_hits hits hit user found valid (deaf found)
    have held₃ : Held (· = { c with rip := c.rip - 2, rax := err EINTR }) (k.tasks i).pid i k₃ := by
      refine ⟨held₂.known.trans_le (step_moves hits).pids, fun _ => .inr ⟨.inl woken.state, ?_,
        woken.savedValid, ?_⟩⟩
      · rw [woken.user]
        exact user
      · rw [woken.saved, saved]
    have eq := (held₃.rest second).continues same' continues
    rintro (⟨rip, -⟩ | ⟨-, rax⟩)
    · rw [eq] at rip
      have back : c.rip - 2 = c.rip := rip
      grind
    · rw [eq] at rax
      rcases number with rfl | rfl | rfl <;> cases rax
  · refine iff_of_true ?_ found
    have held₃ := held₂.step (.inr fun _ blocked => absurd blocked found) hits hit.waits
    have eq := (held₃.rest second).continues same' continues
    rw [eq]
    exact .inr ⟨rfl, rfl⟩

end Restart

theorem Kernel.not_answers {k : Kernel} {e : Event} {t : Task}
    (childless : ∀ j, (k.tasks j).parentPid ≠ t.pid ∧ (k.tasks j).vforkWaiter ≠ t.pid) :
    ¬ k.Answers e t := by
  rintro (⟨child, ⟨j, change, -, parent, -⟩, -⟩ | ⟨child, j, -, waiter, -⟩)
  · exact (childless j).1 parent
  · exact (childless j).2 waiter

def Kernel.polled : List Event :=
  [.bootSpawn 0x400000 0x7ffff000, .bootSpawn 0x500000 0x7ffff000, .dispatch true] ++
    [.syscall userFrame (.poll 0)]

def Kernel.polledSecond : List Event := polled ++ [.dispatch true]

/-- `kill` with a signal that is ignored by default, and the sender's sleep. -/
def nudge : Event := .syscall userFrame (.kill 1 SIGCHLD)
def nap : Event := .syscall userFrame (.nanosleep 1 0)
def Kernel.polledWoken : List Event := polledSecond ++ [.input]

theorem restart_after_signal_polled :
    ∃ c', (Kernel.booted (Kernel.polledWoken ++ [nudge] ++ [nap])).Continues (.dispatch true) 0 c' ∧
      (EndsWell userFrame SYS_POLL c' ↔
        ((Kernel.booted Kernel.polledWoken).tasks 0).state ≠ .blocked) := by
  have continues : (booted (polledWoken ++ [nudge] ++ [nap])).Continues
      (.dispatch true) 0 { userFrame with rip := userFrame.rip - 2, rax := SYS_POLL } :=
    ⟨⟨{ userFrame with rip := userFrame.rip - 2, rax := SYS_POLL }, true, rfl, by decide +kernel,
      by decide +kernel⟩, by decide +kernel⟩
  refine ⟨_, continues, ?_⟩
  have first : Runs (Rest 0) (booted polled) [.dispatch true, .input]
      (booted polledWoken) := by
    refine .cons (a := ()) ⟨?_, ?_⟩ (exec_eq_some.2 (booted_step (by decide +kernel)))
      (.cons (a := ()) ⟨?_, nofun⟩ (exec_eq_some.2 (booted_step (by decide +kernel)))
        (.nil _))
    · rintro - (hit | answers)
      · cases hit.1
      · exact not_answers (by decide +kernel) answers
    · rintro c ⟨frameOk, -, picked, -⟩
      exact absurd picked (by decide +kernel)
    · rintro - (hit | answers)
      · cases hit.1
      · exact not_answers (by decide +kernel) answers
  have second : Runs (Rest 0) (booted (polledWoken ++ [nudge])) [nap]
      (booted (polledWoken ++ [nudge] ++ [nap])) :=
    .cons (a := ()) ⟨fun asleep => absurd asleep (by decide +kernel), nofun⟩
      (exec_eq_some.2 (booted_step (by decide +kernel))) (.nil _)
  have hit : (booted polledWoken).Signals nudge 0 :=
    ⟨by decide, 1, by decide +kernel, by decide +kernel⟩
  exact restart_after_signal (booted_runs _ (by decide +kernel)) (by decide +kernel)
    (booted_step (by decide +kernel)) (by decide +kernel) (by decide +kernel) first
    (by decide +kernel) hit (booted_step (by decide +kernel))
    (fun asleep => absurd asleep (by decide +kernel)) second (by decide +kernel) continues

/-- A signal that is ignored by default finds the poller asleep: the program then issues
a system call whose number is `-EINTR`. -/
theorem polled_restarts_wrong :
    ∃ c', Runs (fun _ _ => True) Kernel.boot (Kernel.polledSecond ++ [nudge] ++ [nap])
        (Kernel.booted (Kernel.polledSecond ++ [nudge] ++ [nap])) ∧
      ((Kernel.booted Kernel.polled).tasks 0).call = .restart SYS_POLL ∧
      (Kernel.booted (Kernel.polledSecond ++ [nudge] ++ [nap])).Continues (.dispatch true) 0 c' ∧
      c'.rip = userFrame.rip - 2 ∧ c'.rax = err EINTR ∧ ¬ EndsWell userFrame SYS_POLL c' := by
  refine ⟨{ userFrame with rip := userFrame.rip - 2, rax := err EINTR },
    booted_runs _ (by decide +kernel), by decide +kernel, ?_, rfl, rfl, ?_⟩
  · exact ⟨⟨{ userFrame with rip := userFrame.rip - 2, rax := err EINTR }, true, rfl,
      by decide +kernel, by decide +kernel⟩, by decide +kernel⟩
  rintro (⟨rip, -⟩ | ⟨-, rax⟩)
  · cases rip
  · cases rax

end Osnos.Sched
