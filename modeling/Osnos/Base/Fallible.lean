import Mathlib.Tactic

/-! Programs that keep their state when they fail. -/
namespace Osnos
open List

def Ends {σ ε α : Type} (Q : α → σ → Prop) (E : σ → Prop) : EStateM.Result ε σ α → Prop
  | .ok a s => Q a s
  | .error _ s => E s

structure Spec {σ ε α : Type} (P : σ → Prop) (x : EStateM ε σ α) (Q : α → σ → Prop)
    (E : σ → Prop) : Prop where
  run : ∀ s, P s → Ends Q E (x s)

abbrev Keeps {σ ε α : Type} (I : σ → Prop) (x : EStateM ε σ α) : Prop := Spec I x (fun _ => I) I

namespace Spec

variable {σ ε α β : Type} {P P' : σ → Prop} {x : EStateM ε σ α} {f : α → EStateM ε σ β}
  {Q Q' : α → σ → Prop} {R : β → σ → Prop} {E E' : σ → Prop}

theorem pure {a : α} (holds : ∀ s, P s → Q a s) : Spec P (pure a : EStateM ε σ α) Q E := ⟨holds⟩

theorem throw {e : ε} (holds : ∀ s, P s → E s) : Spec P (throw e : EStateM ε σ α) Q E := ⟨holds⟩

theorem bind (first : Spec P x Q E) (next : ∀ a, Spec (Q a) (f a) R E) : Spec P (x >>= f) R E := by
  refine ⟨fun s before => ?_⟩
  have after := first.run s before
  change Ends R E (EStateM.bind x f s)
  unfold EStateM.bind
  cases run : x s with
  | ok a s' =>
    rw [run] at after
    exact (next a).run s' after
  | error =>
    rw [run] at after
    exact after

theorem any : Spec P x (fun _ _ => True) fun _ => True := by
  refine ⟨fun s _ => ?_⟩
  cases x s <;> trivial

theorem mono (spec : Spec P x Q E) (before : ∀ s, P' s → P s) (after : ∀ a s, Q a s → Q' a s)
    (failed : ∀ s, E s → E' s) : Spec P' x Q' E' := by
  refine ⟨fun s holds => ?_⟩
  have result := spec.run s (before s holds)
  cases run : x s with
  | ok a s' =>
    rw [run] at result
    exact after a s' result
  | error e s' =>
    rw [run] at result
    exact failed s' result

theorem ite {c : Prop} [Decidable c] {y : EStateM ε σ α} (yes : c → Spec P x Q E)
    (no : ¬ c → Spec P y Q E) : Spec P (if c then x else y) Q E := by
  split
  · exact yes ‹_›
  · exact no ‹_›

theorem assuming {F : Prop} (spec : F → Spec P x Q E) : Spec (fun s => P s ∧ F) x Q E :=
  ⟨fun s ⟨before, fact⟩ => (spec fact).run s before⟩

theorem forM {ι : Type} {I : σ → Prop} {body : ι → EStateM ε σ PUnit} {l : List ι}
    (round : ∀ i ∈ l, Spec I (body i) (fun _ => I) E) : Spec I (l.forM body) (fun _ => I) E := by
  induction l with
  | nil => exact pure fun _ holds => holds
  | cons i l ih =>
    refine bind (round i mem_cons_self) fun _ => ?_
    exact ih fun j mem => round j (mem_cons_of_mem i mem)

theorem and (first : Spec P x Q E) (second : Spec P' x Q' E') :
    Spec (fun s => P s ∧ P' s) x (fun a s => Q a s ∧ Q' a s) (fun s => E s ∧ E' s) := by
  refine ⟨fun s ⟨holds, holds'⟩ => ?_⟩
  have result := first.run s holds
  have result' := second.run s holds'
  cases run : x s with
  | ok | error =>
    rw [run] at result result'
    exact ⟨result, result'⟩

theorem all {ι : Sort*} {P : ι → σ → Prop} {Q : ι → α → σ → Prop}
    (each : ∀ i, Spec (P i) x (Q i) fun _ => True) :
    Spec (fun s => ∀ i, P i s) x (fun a s => ∀ i, Q i a s) fun _ => True := by
  refine ⟨fun s holds => ?_⟩
  have results := fun i => (each i).run s (holds i)
  cases run : x s with
  | ok =>
    rw [run] at results
    exact results
  | error => trivial

theorem forM_each {ι : Type} {I : σ → Prop} {D : ι → σ → Prop} {body : ι → EStateM ε σ PUnit}
    {l : List ι} (round : ∀ i ∈ l, Spec I (body i) (fun _ s => I s ∧ D i s) E)
    (kept : ∀ i ∈ l, ∀ j, Spec (D j) (body i) (fun _ => D j) fun _ => True) :
    Spec I (l.forM body) (fun _ s => I s ∧ ∀ i ∈ l, D i s) E := by
  induction l with
  | nil => exact pure fun _ holds => ⟨holds, nofun⟩
  | cons i l ih =>
    refine bind (round i mem_cons_self) fun _ => ?_
    have rest := ih (fun j mem => round j (mem_cons_of_mem i mem))
      fun j mem => kept j (mem_cons_of_mem i mem)
    have stays : Spec (D i) (l.forM body) (fun _ => D i) fun _ => True :=
      forM fun j mem => kept j (mem_cons_of_mem i mem) i
    refine (rest.and stays).mono (fun _ => id) (fun _ s result => ?_) fun s failed => failed.1
    refine ⟨result.1.1, fun j mem => ?_⟩
    rcases List.mem_cons.1 mem with rfl | mem
    · exact result.2
    · exact result.1.2 j mem

end Spec

end Osnos
