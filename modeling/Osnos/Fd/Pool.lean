import Osnos.Base.Index
import Mathlib.Tactic

/-! `micro/fd.c`: the pool of open file descriptions, shared by reference count. What an
open file description stands for is a parameter; those that stand for anything else have no
backend here. -/
namespace Osnos.Fd
open Function

abbrev OSNOS_MAX_OFDS : Nat := 128
abbrev OfdIdx := Fin OSNOS_MAX_OFDS

structure Ofd (ρ : Type) where
  refcount : Nat := 1
  backend : Option ρ := none

/-- `ofd_pool`; `none` is an entry with `used = false`. -/
abbrev Pool (ρ : Type) := OfdIdx → Option (Ofd ρ)

namespace Pool

variable {ρ : Type} (p : Pool ρ)

def backend (o : OfdIdx) : Option ρ := (p o).bind Ofd.backend
def ofdAlloc : Option OfdIdx := (List.finRange OSNOS_MAX_OFDS).find? fun o => (p o).isNone

/-- `fd_alloc`, where `room` says whether the task has a free descriptor. -/
def fdAlloc (room : Bool) : Option OfdIdx := if room then p.ofdAlloc else none
def install (o : OfdIdx) (b : Option ρ) : Pool ρ := update p o (some { backend := b })

def ofdRef (o : OfdIdx) : Pool ρ :=
  match p o with
  | none => p
  | some f => update p o (some { f with refcount := f.refcount + 1 })

/-- `ofd_unref`: the backend to tear down, if this was the last reference. -/
def ofdUnref (o : OfdIdx) : Option ρ × Pool ρ :=
  match p o with
  | none => (none, p)
  | some f =>
    if 1 < f.refcount then
      (none, update p o (some { f with refcount := f.refcount - 1 }))
    else (f.backend, update p o none)

def amend (o : OfdIdx) (edit : ρ → ρ) : Pool ρ :=
  update p o ((p o).map fun f => { f with backend := f.backend.map edit })

variable {p}

@[simp] theorem amend_backend (o : OfdIdx) (edit : ρ → ρ) :
    (p.amend o edit).backend o = (p.backend o).map edit := by
  unfold amend backend
  cases used : p o with
  | none => simp
  | some => simp

theorem fdAlloc_unused {room : Bool} {o : OfdIdx} (taken : p.fdAlloc room = some o) :
    p o = none := by
  unfold fdAlloc at taken
  split at taken
  · simpa using List.find?_some taken
  · cases taken

theorem fdAlloc_free {room : Bool} {o : OfdIdx} (taken : p.fdAlloc room = some o) :
    p.backend o = none := by
  unfold backend
  rw [fdAlloc_unused taken]
  rfl

@[simp] theorem install_backend (o : OfdIdx) (b : Option ρ) (o' : OfdIdx) :
    (p.install o b).backend o' = if o' = o then b else p.backend o' := by
  unfold install backend
  by_cases same : o' = o
  · subst same
    simp
  · simp [same]

theorem update_backend {o : OfdIdx} {f : Option (Ofd ρ)} (same : f.bind Ofd.backend = p.backend o)
    (o' : OfdIdx) : Pool.backend (update p o f) o' = p.backend o' := by
  by_cases here : o' = o
  · subst here
    rw [← same, backend, update_self]
  · rw [backend, update_of_ne here]
    rfl

@[simp] theorem ofdRef_backend (o o' : OfdIdx) : (p.ofdRef o).backend o' = p.backend o' := by
  unfold ofdRef
  cases used : p o with
  | none => rfl
  | some => exact update_backend (by rw [backend, used]; rfl) o'

theorem ofdUnref_cases (o : OfdIdx) :
    ((p.ofdUnref o).1 = none ∧ ∀ o', (p.ofdUnref o).2.backend o' = p.backend o') ∨
      ∃ b, p.backend o = some b ∧ (p.ofdUnref o).1 = some b ∧
        ∀ o', (p.ofdUnref o).2.backend o' = if o' = o then none else p.backend o' := by
  unfold ofdUnref
  cases used : p o with
  | none => exact .inl ⟨rfl, fun _ => rfl⟩
  | some f =>
    have stands : p.backend o = f.backend := by
      rw [backend, used]
      rfl
    by_cases more : 1 < f.refcount
    · simp only [if_pos more]
      exact .inl ⟨trivial, update_backend stands.symm⟩
    simp only [if_neg more]
    cases kind : f.backend with
    | none => exact .inl ⟨rfl, update_backend (by rw [stands, kind]; rfl)⟩
    | some b =>
      refine .inr ⟨b, stands.trans kind, rfl, fun o' => ?_⟩
      by_cases here : o' = o
      · subst here
        simp [backend]
      · simp [backend, here]

end Pool

end Osnos.Fd
