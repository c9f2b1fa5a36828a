import Mathlib.Data.List.Basic
import Mathlib.Data.List.Lattice

/-! Exclusive ownership. Every owner holds a list of cells and no cell has two owners; the
cells in use are covered when each of them has one. -/
namespace Osnos

section
variable {K C : Type} (owns : K → List C → Prop) (used : C → Prop)

structure Owned : Prop where
  disjoint : ∀ {k k' l l'}, owns k l → owns k' l' → k ≠ k' → l.Disjoint l'

def Covered : Prop := ∀ c, used c → ∃ k l, owns k l ∧ c ∈ l

end

variable {K C : Type} {owns owns' : K → List C → Prop} {used used' : C → Prop} {k : K}
  {old : List C} (new : List C)

theorem Owned.owner_eq (h : Owned owns) {k k' : K} {l l' : List C} {c : C} (hl : owns k l)
    (hl' : owns k' l') (hc : c ∈ l) (hc' : c ∈ l') : k = k' := by
  by_contra differ
  exact h.disjoint hl hl' differ hc hc'

theorem Owned.exchange (h : Owned owns) (held : owns k old)
    (others : ∀ k' l, k' ≠ k → (owns' k' l ↔ owns k' l)) (mine : ∀ l, owns' k l → l = new)
    (active : ∀ k' l, owns k' l → ∀ c ∈ l, used c)
    (fresh : ∀ c ∈ new, c ∈ old ∨ ¬ used c) : Owned owns' := by
  -- the new cells meet no other owner: theirs were used and not in `old`
  have apart : ∀ {k' l}, k' ≠ k → owns k' l → new.Disjoint l := by
    intro k' l differ hl c hc hc'
    rcases fresh c hc with mem | unused
    · exact h.disjoint held hl (Ne.symm differ) mem hc'
    · exact unused (active k' l hl c hc')
  constructor
  intro k₁ k₂ l₁ l₂ h₁ h₂ differ
  by_cases e₁ : k₁ = k
  · subst e₁
    rw [mine l₁ h₁]
    exact apart (Ne.symm differ) ((others k₂ l₂ (Ne.symm differ)).1 h₂)
  · by_cases e₂ : k₂ = k
    · subst e₂
      rw [mine l₂ h₂]
      exact (apart e₁ ((others k₁ l₁ e₁).1 h₁)).symm
    · exact h.disjoint ((others k₁ l₁ e₁).1 h₁) ((others k₂ l₂ e₂).1 h₂) differ

theorem Covered.exchange (h : Covered owns used) (single : ∀ l, owns k l → l = old)
    (others : ∀ k' l, k' ≠ k → (owns' k' l ↔ owns k' l)) (kept : new ≠ [] → owns' k new)
    (now : ∀ c, used' c → c ∈ new ∨ used c ∧ c ∉ old) : Covered owns' used' := by
  intro c hc
  rcases now c hc with mem | ⟨was, outside⟩
  · exact ⟨k, new, kept (List.ne_nil_of_mem mem), mem⟩
  obtain ⟨k', l, hl, mem⟩ := h c was
  have differ : k' ≠ k := by
    rintro rfl
    exact outside (single l hl ▸ mem)
  exact ⟨k', l, (others k' l differ).2 hl, mem⟩

end Osnos
