import Osnos.Base.Index
import Mathlib.Tactic

/-! Partial state-passing programs. A run that never returns is `none`; a run
that returns is a value together with the state it leaves behind. -/

abbrev Prog (σ α : Type) : Type := StateT σ Option α

namespace Prog

variable {σ β α γ : Type}

def diverge : Prog σ α := fun _ => none

theorem bind_apply (x : Prog σ α) (f : α → Prog σ γ) (s : σ) :
    (x >>= f) s = (x s).bind fun p => f p.1 p.2 := rfl

@[simp] theorem pure_apply (a : α) (s : σ) : (pure a : Prog σ α) s = some (a, s) := rfl
@[simp] theorem get_apply (s : σ) : (get : Prog σ σ) s = some (s, s) := rfl
@[simp] theorem set_apply (t s : σ) : (set t : Prog σ PUnit) s = some (⟨⟩, t) := rfl

@[simp] theorem modify_apply (f : σ → σ) (s : σ) :
    (modify f : Prog σ PUnit) s = some (⟨⟩, f s) := rfl

theorem bind_some {x : Prog σ α} {f : α → Prog σ γ} {s s₁ : σ} {a : α}
    (run : x s = some (a, s₁)) : (x >>= f) s = f a s₁ := by
  rw [bind_apply, run]
  rfl

/-- The program run on the part that `view` shows and `put` replaces. -/
def focus {τ : Type} (view : τ → σ) (put : σ → τ → τ) (x : Prog σ α) : Prog τ α := fun t =>
  (x (view t)).map fun r => (r.1, put r.2 t)

theorem focus_some {τ : Type} {view : τ → σ} {put : σ → τ → τ} {x : Prog σ α} {t : τ} {s' : σ} {a : α}
    (run : x (view t) = some (a, s')) : focus view put x t = some (a, put s' t) := by
  rw [focus, run]
  rfl

/-- From every state that represents `b` the program returns `a`, in a state
that represents `b'`. The parts of the state that `R` does not mention are free. -/
def Does (R : β → σ → Prop) (b : β) (x : Prog σ α) (a : α) (b' : β) : Prop :=
  ∀ s, R b s → ∃ s', x s = some (a, s') ∧ R b' s'

namespace Does

variable {R : β → σ → Prop} {b b₁ b' : β} {x : Prog σ α} {f : α → Prog σ γ} {a : α} {c : γ}

theorem pure (a : α) : Does R b (Pure.pure a) a b := fun s h => ⟨s, rfl, h⟩

theorem bind (first : Does R b x a b₁) (next : Does R b₁ (f a) c b') : Does R b (x >>= f) c b' := by
  intro s h
  obtain ⟨s₁, run, h₁⟩ := first s h
  obtain ⟨s', run', h'⟩ := next s₁ h₁
  exact ⟨s', (bind_some run).trans run', h'⟩

theorem result (does : Does R b x a b') {s s' : σ} {r : α} (h : R b s)
    (run : x s = some (r, s')) : r = a ∧ R b' s' := by
  obtain ⟨t, run', h'⟩ := does s h
  cases run.symm.trans run'
  exact ⟨rfl, h'⟩

end Does

section
variable {ι : Type} (exec : ι → Prog σ α) (legal : σ → ι → Prop)

inductive Runs : σ → List ι → σ → Prop
  | nil (s : σ) : Runs s [] s
  | cons {s s₁ s' : σ} {i : ι} {is : List ι} {a : α} (allowed : legal s i)
      (run : exec i s = some (a, s₁)) (rest : Runs s₁ is s') : Runs s (i :: is) s'

variable {exec legal}

theorem Runs.invariant {Inv : σ → Prop}
    (step : ∀ s i a s', Inv s → legal s i → exec i s = some (a, s') → Inv s') {s s' : σ}
    {is : List ι} (runs : Runs exec legal s is s') (start : Inv s) : Inv s' := by
  induction runs with
  | nil => exact start
  | cons allowed run _ ih => exact ih (step _ _ _ _ start allowed run)

variable (exec) in
def play : σ → List ι → Option σ
  | s, [] => some s
  | s, i :: is => (exec i s).bind fun r => play r.2 is

theorem Runs.of_play {is : List ι} {s s' : σ} (done : play exec s is = some s') :
    Runs exec (fun _ _ => True) s is s' := by
  induction is generalizing s with
  | nil =>
    cases done
    exact .nil _
  | cons _ _ ih =>
    obtain ⟨r, first, rest⟩ := Option.bind_eq_some_iff.1 done
    exact .cons trivial first (ih rest)

theorem Runs.imp {legal' : σ → ι → Prop} {is : List ι} (weaker : ∀ i ∈ is, ∀ s, legal s i → legal' s i)
    {s s' : σ} (runs : Runs exec legal s is s') : Runs exec legal' s is s' := by
  induction runs with
  | nil => exact .nil _
  | cons allowed run _ ih =>
    exact .cons (weaker _ (by simp) _ allowed) run (ih fun i mem => weaker i (by simp [mem]))

theorem Runs.append {s s₁ s' : σ} {is js : List ι} (first : Runs exec legal s is s₁)
    (then_ : Runs exec legal s₁ js s') : Runs exec legal s (is ++ js) s' := by
  induction first with
  | nil => exact then_
  | cons allowed run _ ih => exact .cons allowed run (ih then_)

/-- Two conditions that agree wherever an invariant holds allow the same runs, if the
calls that meet one of them keep the invariant. -/
theorem Runs.congr {legal' : σ → ι → Prop} {Inv : σ → Prop}
    (one : ∀ s i, Inv s → (legal s i ↔ legal' s i))
    (keep : ∀ s i a s', Inv s → legal s i → exec i s = some (a, s') → Inv s') {s s' : σ}
    {is : List ι} (start : Inv s) : Runs exec legal s is s' ↔ Runs exec legal' s is s' := by
  constructor
  · intro runs
    induction runs with
    | nil => exact .nil _
    | cons allowed run _ ih =>
      exact .cons ((one _ _ start).1 allowed) run (ih (keep _ _ _ _ start allowed run))
  intro runs
  induction runs with
  | nil => exact .nil _
  | cons allowed run _ ih =>
    have allowed := (one _ _ start).2 allowed
    exact .cons allowed run (ih (keep _ _ _ _ start allowed run))

theorem Runs.and_iff {legal' both : σ → ι → Prop}
    (one : ∀ s i, both s i ↔ legal s i ∧ legal' s i) {s s' : σ} {is : List ι} :
    Runs exec both s is s' ↔ Runs exec legal s is s' ∧ Runs exec legal' s is s' := by
  constructor
  · intro runs
    exact ⟨runs.imp fun i _ s ok => ((one s i).1 ok).1, runs.imp fun i _ s ok => ((one s i).1 ok).2⟩
  rintro ⟨runs, runs'⟩
  induction runs with
  | nil => exact .nil _
  | cons allowed run _ ih =>
    cases runs' with
    | cons allowed' run' rest' =>
      cases run.symm.trans run'
      exact .cons ((one _ _).2 ⟨allowed, allowed'⟩) run (ih rest')

variable (exec) in
def Always (Inv : σ → Prop) (s : σ) (is : List ι) : Prop :=
  ∀ is₁ s₁, is₁ <+: is → Runs exec (fun _ _ => True) s is₁ s₁ → Inv s₁

/-- Where a call keeps `Inv` exactly if it is legal, a run satisfies `Inv` throughout
exactly if all its calls are legal. All the calls are known to meet `base`. -/
theorem Runs.always_iff_within {base : σ → ι → Prop} {Known Inv : σ → Prop}
    (known : ∀ s i a s', Known s → base s i → exec i s = some (a, s') → Known s')
    (one : ∀ s i a s', Known s → base s i → Inv s → exec i s = some (a, s') → (Inv s' ↔ legal s i))
    {is : List ι} {s s' : σ} (run : Runs exec base s is s') (start : Known s)
    (holds : Inv s) : Always exec Inv s is ↔ Runs exec legal s is s' := by
  induction run with
  | nil =>
    refine iff_of_true ?_ (.nil _)
    rintro is₁ s₁ empty run
    cases List.prefix_nil.1 empty
    cases run
    exact holds
  | @cons s s₁ s' i is a allowed first rest ih =>
    have known₁ := known s i a s₁ start allowed first
    have here := one s i a s₁ start allowed holds first
    constructor
    · intro always
      have holds₁ := always [i] s₁ (by simp) (.cons trivial first (.nil _))
      refine .cons (here.1 holds₁) first ((ih known₁ holds₁).1 fun is₁ s₂ initial run => ?_)
      exact always (i :: is₁) s₂ ((List.prefix_cons_inj i).2 initial) (.cons trivial first run)
    rintro (_ | ⟨ok, run, admitted⟩) is₁ s₂ initial reached
    cases first.symm.trans run
    cases reached with
    | nil => exact holds
    | cons _ first' reached =>
      obtain ⟨rfl, later⟩ := List.cons_prefix_cons.1 initial
      cases first.symm.trans first'
      exact (ih known₁ (here.2 ok)).2 admitted _ _ later reached

theorem Runs.always_iff {Known Inv : σ → Prop}
    (known : ∀ s i a s', Known s → exec i s = some (a, s') → Known s')
    (one : ∀ s i a s', Known s → Inv s → exec i s = some (a, s') → (Inv s' ↔ legal s i))
    {is : List ι} {s s' : σ} (run : Runs exec (fun _ _ => True) s is s') (start : Known s)
    (holds : Inv s) : Always exec Inv s is ↔ Runs exec legal s is s' :=
  run.always_iff_within (fun s i a s' k _ => known s i a s' k)
    (fun s i a s' k _ => one s i a s' k) start holds

end

end Prog
