import Osnos.Sched.Fate

/-! # Going to sleep -/
namespace Osnos.Sched
open Relation

structure Dozes (t t' : Task) : Prop where
  pid : t'.pid = t.pid
  state : t'.state = t.state
  user : t'.pml4 = none ↔ t.pml4 = none
  savedValid : t'.savedValid = t.savedValid
  saved : t'.saved = t.saved
  wakeupAt : t'.wakeupAt = t.wakeupAt
  waitingForPid : t'.waitingForPid = t.waitingForPid
  waitOptions : t'.waitOptions = t.waitOptions
  call : t'.call = t.call

section Sleep

variable {k : Kernel} {e : Event} {i : Slot} {t t₁ t' : Task}

theorem Dozes.refl (t : Task) : Dozes t t := ⟨rfl, rfl, Iff.rfl, rfl, rfl, rfl, rfl, rfl, rfl⟩

theorem Dozes.trans (first : Dozes t t₁) (next : Dozes t₁ t') : Dozes t t' where
  pid := next.pid.trans first.pid
  state := next.state.trans first.state
  user := next.user.trans first.user
  savedValid := next.savedValid.trans first.savedValid
  saved := next.saved.trans first.saved
  wakeupAt := next.wakeupAt.trans first.wakeupAt
  waitingForPid := next.waitingForPid.trans first.waitingForPid
  waitOptions := next.waitOptions.trans first.waitOptions
  call := next.call.trans first.call

theorem Tweak.dozes (tweak : Tweak t t') : Dozes t t' :=
  { tweak with }

theorem Act.asleep (act : Act (k.causes e) i t t') (asleep : t'.state = .blocked) :
    (t.state = .blocked ∧ Dozes t t') ∨ (k.causes e).park i t t' := by
  cases act with
  | raise =>
    exact .inl ⟨asleep, rfl, rfl, Iff.rfl, rfl, rfl, rfl, rfl, rfl, rfl⟩
  | park _ calls => exact .inr calls
  | tweak tweak => exact .inl ⟨tweak.state.symm.trans asleep, tweak.dozes⟩
  | create _ new => rw [new.state] at asleep; cases asleep
  | exit =>
    unfold Task.ended at asleep
    dsimp only at asleep
    split at asleep <;> cases asleep
  | save running | consume running => rw [running] at asleep; cases asleep
  | _ => cases asleep

theorem chain_asleep (chain : ReflTransGen (Act (k.causes e) i) t t')
    (asleep : t'.state = .blocked) :
    (t.state = .blocked ∧ Dozes t t') ∨
      ∃ t₁, k.onCpu = some i ∧ k.Parks e (k.tasks i) t₁ ∧ Dozes t₁ t' := by
  induction chain with
  | refl => exact .inl ⟨asleep, .refl t⟩
  | tail _ act ih =>
    rcases act.asleep asleep with ⟨before, dozes⟩ | ⟨onCpu, from_cpu, parks⟩
    · rcases ih before with ⟨slept, earlier⟩ | ⟨t₁, onCpu, parks, earlier⟩
      · exact .inl ⟨slept, earlier.trans dozes⟩
      · exact .inr ⟨t₁, onCpu, parks, earlier.trans dozes⟩
    · exact .inr ⟨_, onCpu, from_cpu ▸ parks, .refl _⟩

end Sleep

end Osnos.Sched
