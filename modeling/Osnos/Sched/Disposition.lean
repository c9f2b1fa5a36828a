import Osnos.Sched.Wake

/-! A pending signal acts at four places: the trampoline's kill check, the loop of
`user_task_resume`, the timer interrupt and the terminal's control-Z. -/
namespace Osnos.Sched
open Relation Kernel Task

def SIGTSTP : Nat := 20

def Task.Terminates (t : Task) (sig : Nat) : Prop :=
  sig = SIGKILL ∨ (t.saHandler sig = SIG_DFL ∧ defaultIgnored sig = false ∧
    defaultStops sig = false)

def Task.Stops (t : Task) (sig : Nat) : Prop := t.saHandler sig = SIG_DFL ∧ defaultStops sig = true

def Task.Handles (t : Task) (sig : Nat) : Prop :=
  sig ≠ SIGKILL ∧ t.saHandler sig ≠ SIG_DFL ∧ t.saHandler sig ≠ SIG_IGN

def Delivery.Proper (t : Task) : Delivery → Prop
  | .none _ => True
  | .handler _ sig h => t.sigPending sig = true ∧ h = t.saHandler sig
  | .stop _ sig => t.sigPending sig = true ∧ t.Stops sig
  | .exit _ sig => t.sigPending sig = true ∧ t.Terminates sig

theorem Delivery.Proper.of_clear {t : Task} {sig : Nat} {d : Delivery}
    (proper : d.Proper (t.clear sig)) : d.Proper t := by
  have pending : ∀ s, (t.clear sig).sigPending s → t.sigPending s := by
    intro s set
    unfold Task.clear at set
    dsimp only at set
    by_cases same : s = sig
    · subst same
      simp at set
    · rwa [Function.update_of_ne same] at set
  cases d with
  | none => exact trivial
  | handler _ s | stop _ s | exit _ s => exact ⟨pending s proper.1, proper.2⟩

theorem deliverFrom_proper (frameOk : Bool) (sigs : List Nat) :
    ∀ t : Task, (deliverFrom frameOk sigs t).Proper t := by
  induction sigs with
  | nil => exact fun t => trivial
  | cons sig rest ih =>
    intro t
    have onward := (ih (t.clear sig)).of_clear
    unfold deliverFrom
    split
    · exact ih t
    rename_i pending
    have pending : t.sigPending sig := by simpa using pending
    split
    · exact onward
    split
    next default =>
      split
      · exact onward
      rename_i not_dropped
      split
      next stops =>
        exact ⟨pending, default, stops⟩
      next not_stopped =>
        exact ⟨pending, .inr ⟨default, by simpa using not_dropped, by simpa using not_stopped⟩⟩
    · split
      · exact onward
      · exact ⟨pending, rfl⟩

theorem deliverFrom_handled {sig : Nat} (sigs : List Nat) :
    ∀ t : Task, t.sigPending sig → t.Handles sig →
      (deliverFrom true sigs t).task.sigPending sig = true ∨
        ∃ t', deliverFrom true sigs t = .handler t' sig (t.saHandler sig) := by
  induction sigs with
  | nil => exact fun t pending _ => .inl pending
  | cons s rest ih =>
    intro t pending handles
    by_cases same : s = sig
    · subst same
      right
      unfold deliverFrom
      rw [if_neg (by simpa using pending), if_neg handles.2.2, if_neg handles.2.1,
        if_neg (by decide)]
      exact ⟨_, rfl⟩
    have kept : (t.clear s).sigPending sig := by
      unfold Task.clear
      dsimp only
      rwa [Function.update_of_ne (Ne.symm same)]
    have onward := ih (t.clear s) kept handles
    unfold deliverFrom
    split
    · exact ih t pending handles
    split
    · exact onward
    split
    · split
      · exact onward
      · split
        · exact .inl kept
        · exact .inl kept
    · split
      · exact onward
      · exact .inl kept

def Landing.Proper (t : Task) : Landing → Prop
  | .handler c sig => t.sigPending sig = true ∧ c.rip = t.saHandler sig
  | .stop => (t.stopPending = true ∧ t.saHandler SIGTSTP = SIG_DFL) ∨
      ∃ sig, t.sigPending sig = true ∧ t.Stops sig
  | .exit code => ∃ sig : Nat, t.sigPending sig = true ∧ t.Terminates sig ∧ code = 128 + sig
  | _ => True

section Trampoline

variable {k : Kernel} {i : Slot} {sig : Nat}

theorem userTaskResume_proper (frameOk : Bool) :
    (k.userTaskResume i frameOk).1.Proper (k.tasks i) := by
  have proper := deliverFrom_proper frameOk signals (k.tasks i)
  unfold userTaskResume deliver
  cases h : deliverFrom frameOk signals (k.tasks i) with
  | none => exact trivial
  | handler =>
    rw [h] at proper
    exact proper
  | stop t sig =>
    rw [h] at proper
    exact .inr ⟨sig, proper⟩
  | exit t sig =>
    rw [h] at proper
    exact ⟨sig, proper.1, proper.2, rfl⟩

theorem afterKill_proper (frameOk : Bool)
    (flag : (k.tasks i).stopPending → (k.tasks i).saHandler SIGTSTP = SIG_DFL) :
    (k.afterKill i frameOk).1.Proper (k.tasks i) := by
  unfold afterKill
  dsimp only
  split
  next set =>
    exact .inl ⟨set, flag set⟩
  split
  · exact userTaskResume_proper frameOk
  · split <;> exact trivial

theorem lowestSignal_le {t : Task} (pending : t.sigPending sig) (range : 1 ≤ sig ∧ sig ≤ 31) :
    ∃ low, t.lowestSignal = some low ∧ t.sigPending low ∧ low ≤ sig := by
  have member : sig ∈ signals := List.mem_range'_1.2 (by omega)
  obtain ⟨low, found⟩ : ∃ low, t.lowestSignal = some low :=
    Option.isSome_iff_exists.1 (List.find?_isSome.2 ⟨sig, member, pending⟩)
  refine ⟨low, found, List.find?_some found, ?_⟩
  by_contra above
  have lower := (List.find?_range'_eq_some.1 found).2.2 sig range.1 (by omega)
  simp [pending] at lower

def Task.Flagged (t : Task) : Prop :=
  t.killPending = true → t.sigPending SIGINT = true ∨ t.sigPending SIGKILL = true ∨
    t.sigPending SIGTERM = true

theorem Task.Flagged.lowest {t : Task} (flagged : t.Flagged) (kill : t.killPending) :
    ∃ low, t.lowestSignal = some low ∧ t.sigPending low ∧ low ≤ SIGTERM := by
  have below : ∀ {sig : Nat}, t.sigPending sig → 1 ≤ sig ∧ sig ≤ SIGTERM →
      ∃ low, t.lowestSignal = some low ∧ t.sigPending low ∧ low ≤ SIGTERM := by
    intro sig pending range
    have top : SIGTERM ≤ 31 := by decide
    obtain ⟨low, found, set, le⟩ := lowestSignal_le pending ⟨range.1, range.2.trans top⟩
    exact ⟨low, found, set, le.trans range.2⟩
  rcases flagged kill with pending | pending | pending
  all_goals exact below pending (by decide)

theorem userTaskTrampoline_proper (frameOk : Bool) (flagged : (k.tasks i).Flagged)
    (kill : (k.tasks i).killPending → ∀ sig, (k.tasks i).lowestSignal = some sig →
      sig = SIGKILL ∨ (k.tasks i).saHandler sig ≠ SIG_IGN)
    (flag : (k.tasks i).stopPending → (k.tasks i).saHandler SIGTSTP = SIG_DFL) :
    (k.userTaskTrampoline i frameOk).1.Proper (k.tasks i) := by
  unfold userTaskTrampoline
  dsimp only
  split
  next set =>
    obtain ⟨low, found, pending, le⟩ := flagged.lowest set
    rw [found, Option.getD_some]
    split
    · have proper := afterKill_proper (i := i)
        (k := k.edit i fun t => { t with killPending := false }) frameOk
      rw [edit_same] at proper
      exact proper flag
    next dies =>
      refine ⟨low, pending, ?_, rfl⟩
      by_cases is_kill : low = SIGKILL
      · exact .inl is_kill
      have not_ignored := (kill set low found).resolve_left is_kill
      have default : (k.tasks i).saHandler low = SIG_DFL := by tauto
      unfold SIGTERM at le
      refine .inr ⟨default, ?_, ?_⟩
      · unfold defaultIgnored
        simp
        omega
      · unfold defaultStops
        simp
        omega
  · exact afterKill_proper frameOk flag

def Landing.Keeps (t : Task) (sig : Nat) (landing : Landing) (t' : Task) : Prop :=
  t'.sigPending sig = true ∨ ∃ c, landing = .handler c sig ∧ c.rip = t.saHandler sig

variable (pending : (k.tasks i).sigPending sig = true) (handles : (k.tasks i).Handles sig)

include pending handles

theorem userTaskResume_keeps :
    (k.userTaskResume i true).1.Keeps (k.tasks i) sig ((k.userTaskResume i true).2.tasks i) := by
  have kept := deliverFrom_handled signals (k.tasks i) pending handles
  unfold userTaskResume deliver
  cases h : deliverFrom true signals (k.tasks i) with
  | none | stop | exit =>
    rw [h] at kept
    rw [put_same]
    exact kept.imp id fun ⟨_, no⟩ => nomatch no
  | handler =>
    rw [h] at kept
    rw [put_same]
    refine kept.imp id fun ⟨t', same⟩ => ?_
    cases same
    exact ⟨_, rfl, rfl⟩

theorem afterKill_keeps :
    (k.afterKill i true).1.Keeps (k.tasks i) sig ((k.afterKill i true).2.tasks i) := by
  unfold afterKill
  dsimp only
  split
  · refine .inl ?_
    rw [edit_same]
    exact pending
  · split
    · exact userTaskResume_keeps pending handles
    · split <;> exact .inl pending

theorem userTaskTrampoline_keeps : (k.userTaskTrampoline i true).1.Keeps (k.tasks i) sig
      ((k.userTaskTrampoline i true).2.tasks i) := by
  unfold userTaskTrampoline
  dsimp only
  split
  · split
    · have keeps := @afterKill_keeps (k.edit i fun t => { t with killPending := false }) i sig
      rw [edit_same] at keeps
      exact keeps pending handles
    next dies =>
      refine .inl ?_
      rw [edit_same]
      unfold Task.clear
      dsimp only
      rw [Function.update_of_ne]
      · exact pending
      · rintro rfl
        exact dies handles
  · exact afterKill_keeps pending handles

end Trampoline

section Flags

variable {k k' : Kernel} {e : Event} {i : Slot} {t t' : Task}

theorem Task.Flagged.raise {sig : Nat} {kill : Bool} (flagged : t.Flagged)
    (kills : kill → sig = SIGINT ∨ sig = SIGKILL ∨ sig = SIGTERM) :
    (t.raise sig kill).Flagged := by
  intro set
  have stays : ∀ s, t.sigPending s → (t.raise sig kill).sigPending s := by
    intro s pending
    by_cases same : s = sig
    · simp [Task.raise, same]
    · simp [Task.raise, same, pending]
  have here : (t.raise sig kill).sigPending sig := by simp [Task.raise]
  rcases Bool.or_eq_true_iff.1 (show (t.killPending || kill) = true from set) with before | now
  · exact (flagged before).imp (stays _) (.imp (stays _) (stays _))
  rcases kills now with rfl | rfl | rfl
  · exact .inl here
  · exact .inr (.inl here)
  · exact .inr (.inr here)

theorem Act.flagged (act : Act (k.causes e) i t t') (flagged : t.Flagged) : t'.Flagged := by
  cases act with
  | raise _ kills => exact flagged.raise kills
  | clear => exact nofun
  | create _ new => exact fun set => by simp [new.killPending] at set
  | park _ calls =>
    obtain ⟨-, -, parks⟩ := calls
    cases parks <;> exact flagged
  | tweak tweak =>
    intro set
    obtain ⟨before, same⟩ := tweak.kill set
    rw [same]
    exact flagged before
  | _ => exact flagged

theorem chain_flagged (chain : ReflTransGen (Act (k.causes e) i) t t') (flagged : t.Flagged) :
    t'.Flagged := by
  induction chain with
  | refl => exact flagged
  | tail _ act ih => exact act.flagged ih

theorem flagged_reachable {es : List Event} (runs : Runs (fun _ _ => True) boot es k)
    (i : Slot) : (k.tasks i).Flagged := by
  refine Runs.keeps (I := fun k => ∀ i, (k.tasks i).Flagged) ?_ runs (fun _ => nofun) i
  exact fun k e k' flagged _ run i => chain_flagged ((step_moves run).acts i) (flagged i)

theorem Act.stopped (act : Act (k.causes e) i t t') (stopped : t'.state = .stopped) :
    t.state = .stopped ∨ (k.causes e).stop i := by
  cases act with
  | raise | save | consume => exact .inl stopped
  | stop sent => exact .inr sent
  | exit =>
    unfold ended at stopped
    split at stopped <;> cases stopped
  | create _ new => rw [new.state] at stopped; cases stopped
  | park _ calls =>
    obtain ⟨-, -, parks⟩ := calls
    cases parks <;> cases stopped
  | tweak tweak => exact .inl (tweak.state.symm.trans stopped)
  | _ => cases stopped

theorem chain_stopped (chain : ReflTransGen (Act (k.causes e) i) t t')
    (stopped : t'.state = .stopped) : t.state = .stopped ∨ (k.causes e).stop i := by
  induction chain with
  | refl => exact .inl stopped
  | tail _ act ih => exact (act.stopped stopped).elim ih .inr

end Flags

def Event.delivers : Event → Bool
  | .timerUser _ => true
  | .dispatch _ => true
  | _ => false

structure Kernel.Respects (k : Kernel) (e : Event) (k' : Kernel) : Prop where
  /-- Whoever a signal ends dies of a pending signal that ends tasks, and reports it. -/
  dies : ∀ k₁ i code, k.exitPoint e = some (k₁, i, code) → e.delivers = true →
    ∃ sig : Nat, (k.tasks i).sigPending sig = true ∧ (k.tasks i).Terminates sig ∧ code = 128 + sig
  /-- Whoever is stopped has a stop signal pending that stops by default, or control-Z is
  typed at it or has left its flag, and it has the default for that. -/
  stops : ∀ i, (k'.tasks i).state = .stopped → (k.tasks i).state ≠ .stopped →
    (k.keyOf e = some .susp ∧ i ∈ k.foreground ∨ (k.tasks i).stopPending = true) ∧
        (k.tasks i).saHandler SIGTSTP = SIG_DFL ∨
      ∃ sig, (k.tasks i).sigPending sig = true ∧ (k.tasks i).Stops sig
  /-- A handler is entered for its own pending signal, and no handled signal gets lost. -/
  enters : ∀ frameOk i c sig, e = .dispatch frameOk → k.schedule.userSlot = some i →
    (k.dispatchTo frameOk).1 = .handler c sig →
    (k.tasks i).sigPending sig = true ∧ c.rip = (k.tasks i).saHandler sig
  keeps : ∀ frameOk i sig, e = .dispatch frameOk → k.schedule.userSlot = some i →
    (k.tasks i).sigPending sig = true → (k.tasks i).Handles sig →
    (k.dispatchTo frameOk).1.Keeps (k.tasks i) sig ((k.dispatchTo frameOk).2.tasks i)
  /-- Control-Z reaches the handler of whoever has one for it. -/
  key : k.keyOf e = some .susp → ∀ i ∈ k.foreground, (k.tasks i).Handles SIGTSTP →
    (k'.tasks i).sigPending SIGTSTP = true

/-- What the code takes for granted at each of those places. -/
structure Kernel.TakesDefaults (k : Kernel) (e : Event) : Prop where
  /-- A kill that the timer finds is control-C's, with its default. -/
  timer : ∀ c i, e = .timerUser c → k.userSlot = some i → (k.tasks i).killPending = true →
    (k.tasks i).sigPending SIGINT = true ∧ (k.tasks i).saHandler SIGINT = SIG_DFL
  /-- A kill that the trampoline finds is not put down to an ignored signal. -/
  kill : ∀ frameOk i, e = .dispatch frameOk → k.schedule.userSlot = some i →
    (k.tasks i).killPending = true → ∀ sig, (k.tasks i).lowestSignal = some sig →
    sig = SIGKILL ∨ (k.tasks i).saHandler sig ≠ SIG_IGN
  /-- Control-Z, and the flag it leaves, meet the default. -/
  flag : ∀ frameOk i, e = .dispatch frameOk → k.schedule.userSlot = some i →
    (k.tasks i).stopPending = true → (k.tasks i).saHandler SIGTSTP = SIG_DFL
  key : k.keyOf e = some .susp → ∀ i ∈ k.foreground, (k.tasks i).saHandler SIGTSTP = SIG_DFL
  /-- There is room for the frame of a handler. -/
  frame : ∀ i sig, e = .dispatch false → k.schedule.userSlot = some i →
    (k.tasks i).sigPending sig = true → ¬ (k.tasks i).Handles sig

section Steps

variable {k k' : Kernel} {e : Event} {i : Slot}

theorem Landing.Proper.congr {t t' : Task} {landing : Landing} (proper : landing.Proper t')
    (same : SameIdentity t t') : landing.Proper t := by
  unfold Landing.Proper Stops Terminates at proper ⊢
  rw [same.sigPending, same.saHandler, same.stopPending] at proper
  exact proper

theorem dispatchTo_proper {frameOk : Bool} {landing : Landing} (flagged : (k.tasks i).Flagged)
    (takes : k.TakesDefaults (.dispatch frameOk)) (picked : k.schedule.userSlot = some i)
    (arrives : (k.dispatchTo frameOk).1 = landing) : landing.Proper (k.tasks i) := by
  have same := (dispatch_user frameOk picked).2.1
  have kill := takes.kill frameOk i rfl picked
  have flag := takes.flag frameOk i rfl picked
  rw [dispatchTo_eq picked] at arrives
  generalize k.schedule = k₁ at same arrives
  subst arrives
  unfold Flagged at flagged
  unfold lowestSignal at kill
  rw [← same.killPending, ← same.sigPending] at flagged kill
  rw [← same.saHandler] at kill flag
  rw [← same.stopPending] at flag
  exact (userTaskTrampoline_proper frameOk flagged kill flag).congr same

theorem dispatchTo_keeps {frameOk : Bool} {sig : Nat} (takes : k.TakesDefaults (.dispatch frameOk))
    (picked : k.schedule.userSlot = some i) (pending : (k.tasks i).sigPending sig)
    (handles : (k.tasks i).Handles sig) :
    (k.dispatchTo frameOk).1.Keeps (k.tasks i) sig ((k.dispatchTo frameOk).2.tasks i) := by
  obtain ⟨-, same, -⟩ := dispatch_user frameOk picked
  cases frameOk with
  | false => exact absurd handles (takes.frame i sig rfl picked pending)
  | true =>
    rw [dispatchTo_eq picked]
    generalize k.schedule = k₁ at same
    unfold Handles at handles
    rw [← same.saHandler] at handles
    rw [← same.sigPending] at pending
    have keeps := userTaskTrampoline_keeps pending handles
    unfold Landing.Keeps at keeps ⊢
    rwa [same.saHandler] at keeps

/-- In every reachable state, an event that meets the defaults that the code takes for granted
respects the dispositions of the signals it acts on. -/
theorem dispositions_respected {before : List Event}
    (reached : Runs (fun _ _ => True) Kernel.boot before k) (run : k.step e = some k')
    (takes : k.TakesDefaults e) : k.Respects e k' where
  dies := by
    intro k₁ i code point delivers
    cases e with
    | timerUser c =>
      obtain ⟨j, found, eq⟩ := Option.map_eq_some_iff.1 point
      cases eq
      obtain ⟨caller, kill⟩ := Option.filter_eq_some_iff.1 found
      obtain ⟨pending, default⟩ := takes.timer c i rfl caller kill
      exact ⟨SIGINT, pending, .inr ⟨default, by decide, by decide⟩, rfl⟩
    | dispatch =>
      have flagged := flagged_reachable reached i
      obtain ⟨picked, arrives⟩ := exitPoint_dispatch point
      exact dispatchTo_proper flagged takes picked (congrArg Prod.fst arrives)
    | _ => cases delivers
  stops := by
    intro i stopped before
    rcases (chain_stopped ((step_moves run).acts i) stopped).resolve_left before with
      ⟨key, member⟩ | changes
    · exact .inl ⟨.inl ⟨key, member⟩, takes.key key i member⟩
    cases changes with
    | stopKey key member => exact .inl ⟨.inl ⟨key, member⟩, takes.key key i member⟩
    | stopSelf picked stops =>
      have proper := dispatchTo_proper (flagged_reachable reached i) takes picked
        (congrArg Prod.fst stops)
      exact proper.imp (And.imp_left .inr) id
  enters := by
    rintro frameOk i c sig rfl picked enters
    exact dispatchTo_proper (flagged_reachable reached i) takes picked enters
  keeps := by
    rintro frameOk i sig rfl picked pending handles
    exact dispatchTo_keeps takes picked pending handles
  key := fun key i member handles => absurd (takes.key key i member) handles.2.1

end Steps

/-- A program sets its disposition of a signal and sleeps; another one sends it that
signal and sleeps. -/
def Kernel.signalled (sig : Nat) (handler : Word) : List Event :=
  [.bootSpawn 0x400000 0x7ffff000, .bootSpawn 0x500000 0x7ffff000, .dispatch true,
    .syscall userFrame (.sigaction sig (some (handler, 0x400800))),
    .syscall userFrame (.nanosleep 1 0), .dispatch true, .syscall userFrame (.kill 1 sig),
    .syscall userFrame (.nanosleep 1 0)]

theorem dispositions_respected_handler :
    ((Kernel.booted (Kernel.signalled SIGTERM 0x400500)).dispatchTo true).1.context.map
        (fun c => (c.rip, c.rdi)) = some (0x400500, 15) ∧
      ∃ k', (Kernel.booted (Kernel.signalled SIGTERM 0x400500)).step (.dispatch true) = some k' ∧
        (Kernel.booted (Kernel.signalled SIGTERM 0x400500)).Respects (.dispatch true) k' := by
  have run : (booted (signalled SIGTERM 0x400500)).step (.dispatch true) =
      some (booted (signalled SIGTERM 0x400500 ++ [.dispatch true])) :=
    booted_step (by decide +kernel)
  have first : (booted (signalled SIGTERM 0x400500)).schedule.userSlot = some 0 := by
    decide +kernel
  have lowest : ((booted (signalled SIGTERM 0x400500)).tasks 0).lowestSignal =
      some SIGTERM := by decide +kernel
  refine ⟨by decide +kernel, _, run,
    dispositions_respected (booted_runs _ (by decide +kernel)) run ?_⟩
  refine ⟨nofun, fun _ i _ picked _ sig low => ?_, fun _ i _ picked set => ?_, nofun, nofun⟩
  · cases first.symm.trans picked
    cases lowest.symm.trans low
    exact .inr (by decide +kernel)
  · cases first.symm.trans picked
    exact absurd set (by decide +kernel)

/-- A program that ignores control-C's signal is ended by it. -/
theorem ignored_signal_kills :
    ∃ k k', Runs (fun _ _ => True) Kernel.boot (Kernel.signalled SIGINT SIG_IGN) k ∧
      (k.tasks 0).saHandler SIGINT = SIG_IGN ∧ k.step (.dispatch true) = some k' ∧
      (k'.tasks 0).state = .dead ∧ (k'.tasks 0).exitCode = 130 ∧
      ¬ k.Respects (.dispatch true) k' := by
  have run : (booted (signalled SIGINT SIG_IGN)).step (.dispatch true) =
      some (booted (signalled SIGINT SIG_IGN ++ [.dispatch true])) :=
    booted_step (by decide +kernel)
  have ignored : ((booted (signalled SIGINT SIG_IGN)).tasks 0).saHandler SIGINT =
      SIG_IGN := by decide +kernel
  have exits : ((booted (signalled SIGINT SIG_IGN)).exitPoint (.dispatch true)).map
      Prod.snd = some (0, 130) := by decide +kernel
  refine ⟨_, _, booted_runs (signalled SIGINT SIG_IGN) (by decide +kernel), ignored,
    run, by decide +kernel, by decide +kernel, fun respects => ?_⟩
  obtain ⟨⟨k₁, i, code⟩, point, eq⟩ := Option.map_eq_some_iff.1 exits
  cases eq
  obtain ⟨sig, -, ends, code⟩ := respects.dies k₁ 0 130 point rfl
  have two : sig = SIGINT := by
    unfold SIGINT
    omega
  subst two
  rcases ends with is_kill | ⟨default, -⟩
  · cases is_kill
  · rw [ignored] at default
    cases default

end Osnos.Sched
