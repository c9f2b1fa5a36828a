import Mathlib.Tactic

/-! Code that can be interrupted between any two of its statements. A statement is atomic;
what it reads before it goes on is a view of the state. -/

/-- A statement, and what follows given the view of the state before it. -/
inductive Code (ι τ α : Type) : Type
  | ret (a : α)
  | step (i : ι) (next : τ → Code ι τ α)

namespace Code

variable {ι σ τ α : Type}

section
variable (act : ι → σ → σ) (view : σ → τ)

def run : Code ι τ α → σ → α × σ
  | ret a, s => (a, s)
  | step i next, s => (next (view s)).run (act i s)

/-- The code with interrupts: `irq k` is what they may do at point `k`, right before
statement `k` or, at the last point, after the return. -/
inductive Exec (irq : Nat → σ → σ → Prop) : Nat → Code ι τ α → σ → α → σ → Prop
  | ret {k : Nat} {a : α} {s s' : σ} (here : irq k s s') : Exec irq k (.ret a) s a s'
  | step {k : Nat} {i : ι} {next : τ → Code ι τ α} {s s₁ s' : σ} {a : α} (here : irq k s s₁)
      (rest : Exec irq (k + 1) (next (view s₁)) (act i s₁) a s') : Exec irq k (.step i next) s a s'

end

section
variable (act : ι → τ → τ) (irq : Nat → τ → τ)

def follow : Nat → Code ι τ α → τ → α × τ
  | k, ret a, x => (a, irq k x)
  | k, step i next, x => (next (irq k x)).follow (k + 1) (act i (irq k x))

def Safe (Good : τ → Prop) : Nat → Code ι τ α → τ → Prop
  | _, ret _, x => Good x
  | k, step i next, x => Good x ∧ (next (irq k x)).Safe Good (k + 1) (act i (irq k x))

theorem follow_run (c : Code ι τ α) (k : Nat) (x : τ) (quiet : ∀ j x, k ≤ j → irq j x = x) :
    c.follow act irq k x = c.run act id x := by
  induction c generalizing k x with
  | ret => rw [follow, run, quiet k x (Nat.le_refl k)]
  | step i _ ih =>
    rw [follow, run, quiet k x (Nat.le_refl k)]
    exact ih x (k + 1) (act i x) fun j y later => quiet j y (Nat.le_of_succ_le later)

end

theorem Exec.follow {act : ι → σ → σ} {act' : ι → τ → τ} {view : σ → τ}
    {irq : Nat → σ → σ → Prop} {irq' : Nat → τ → τ} {Good : τ → Prop}
    (acts : ∀ i s, view (act i s) = act' i (view s))
    (irqs : ∀ k s s', irq k s s' → Good (view s) → view s' = irq' k (view s)) {k : Nat}
    {c : Code ι τ α} {s s' : σ} {a : α} (exec : Exec act view irq k c s a s')
    (safe : c.Safe act' irq' Good k (view s)) :
    c.follow act' irq' k (view s) = (a, view s') := by
  induction exec with
  | ret here => rw [Code.follow, irqs _ _ _ here safe]
  | step here _ ih =>
    rw [Code.follow, ← irqs _ _ _ here safe.1, ← acts]
    apply ih
    rw [acts, irqs _ _ _ here safe.1]
    exact safe.2

theorem run_view {act : ι → σ → σ} {act' : ι → τ → τ} {view : σ → τ}
    (acts : ∀ i s, view (act i s) = act' i (view s)) (c : Code ι τ α) (s : σ) :
    (c.run act' id (view s)).2 = view (c.run act view s).2 := by
  induction c generalizing s with
  | ret => rfl
  | step i _ ih =>
    rw [run, run, ← acts]
    exact ih (view s) (act i s)

end Code
