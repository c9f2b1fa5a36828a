import Mathlib.Data.List.Infix

/-! Trees kept in a store of nodes. A slot of a node is empty or names a child node;
a path of slots leads from a root to a node. -/
namespace Osnos.Radix
open List

variable {N S : Type}

def descend (child : N → S → Option N) : N → List S → Option N
  | n, [] => some n
  | n, i :: p => (child n i).bind fun c => descend child c p

section
variable {child child' : N → S → Option N}

theorem descend_append (n : N) (p q : List S) :
    descend child n (p ++ q) = (descend child n p).bind fun c => descend child c q := by
  induction p generalizing n with
  | nil => rfl
  | cons i p ih =>
    simp only [cons_append, descend]
    cases child n i with
    | none => rfl
    | some c => exact ih c

theorem descend_snoc (n : N) (p : List S) (i : S) :
    descend child n (p ++ [i]) = (descend child n p).bind fun c => child c i := by
  rw [descend_append]
  cases descend child n p with
  | none => rfl
  | some c =>
    simp only [descend, Option.bind_some]
    cases child c i <;> rfl

theorem descend_prefix {n c : N} {p q : List S} (initial : q <+: p)
    (leads : descend child n p = some c) : ∃ d, descend child n q = some d := by
  obtain ⟨_, rfl⟩ := initial
  rw [descend_append] at leads
  cases reached : descend child n q with
  | none => rw [reached] at leads; cases leads
  | some d => exact ⟨d, rfl⟩

theorem descend_congr {root : N} {p : List S}
    (agree : ∀ q i n, q ++ [i] <+: p → descend child root q = some n → child' n i = child n i) :
    descend child' root p = descend child root p := by
  induction p using reverseRecOn with
  | nil => rfl
  | append_singleton p i ih =>
    have shorter : descend child' root p = descend child root p :=
      ih fun q j n initial => agree q j n (initial.trans (prefix_append p [i]))
    rw [descend_snoc, descend_snoc, shorter]
    cases reached : descend child root p with
    | none => rfl
    | some n => exact agree p i n (prefix_refl _) reached

end

def Unshared (child : N → S → Option N) (D : List S → Prop) (root : N) : Prop :=
  ∀ p q n, D p → D q → descend child root p = some n → descend child root q = some n → p = q

section
variable {child child' : N → S → Option N} {D : List S → Prop} {root t : N} {p : List S} {i : S}

section
variable (unshared : Unshared child D root) (closed : ∀ p q, q <+: p → D p → D q)
  (leads : descend child root p = some t) (inside : D p)
  (same : ∀ q n j, D (q ++ [j]) → descend child root q = some n → ¬(n = t ∧ j = i) → child' n j = child n j)
include unshared closed leads inside same

theorem Unshared.descend_other {q : List S} (known : D q) (apart : ¬ p ++ [i] <+: q) :
    descend child' root q = descend child root q := by
  refine descend_congr fun q' j n initial reached => ?_
  have longer : D (q' ++ [j]) := closed _ _ initial known
  refine same q' n j longer reached ?_
  rintro ⟨rfl, rfl⟩
  have here : q' = p :=
    unshared q' p n (closed _ _ (prefix_append q' [j]) longer) inside reached leads
  exact apart (here ▸ initial)

theorem Unshared.descend_here : descend child' root (p ++ [i]) = child' t i := by
  have before : descend child' root p = some t := by
    rw [unshared.descend_other closed leads inside same inside, leads]
    intro longer
    have := longer.length_le
    simp only [length_append, length_singleton] at this
    omega
  rw [descend_snoc, before]
  rfl

theorem Unshared.descend_attach (empty : child t i = none) {c : N} (filled : child' t i = some c)
    (bare : ∀ j, D (p ++ [i] ++ [j]) → child' c j = none) {q : List S} (known : D q)
    (elsewhere : q ≠ p ++ [i]) :
    descend child' root q = descend child root q := by
  by_cases beyond : p ++ [i] <+: q
  · obtain ⟨rest, rfl⟩ := beyond
    rw [descend_append, unshared.descend_here closed leads inside same, filled, descend_append,
      descend_snoc, leads]
    cases rest with
    | nil => simp at elsewhere
    | cons j rest =>
      have none_below : child' c j = none := bare j (closed _ _ ⟨rest, by simp⟩ known)
      simp [descend, none_below, empty]
  · exact unshared.descend_other closed leads inside same known beyond

theorem Unshared.descend_detach (emptied : child' t i = none) {q : List S}
    (beyond : p ++ [i] <+: q) :
    descend child' root q = none := by
  obtain ⟨_, rfl⟩ := beyond
  rw [descend_append, unshared.descend_here closed leads inside same, emptied]
  rfl

end

theorem Unshared.attach (unshared : Unshared child D root) {c : N}
    (fresh : ∀ q, D q → descend child root q ≠ some c)
    (now : ∀ q, D q → q ≠ p → descend child' root q = descend child root q)
    (here : descend child' root p = some c) : Unshared child' D root := by
  intro q r n hq hr reached reached'
  by_cases eq : q = p <;> by_cases er : r = p
  · rw [eq, er]
  · rw [eq, here] at reached
    rw [now r hr er, ← reached] at reached'
    exact absurd reached' (fresh r hr)
  · rw [er, here] at reached'
    rw [now q hq eq, ← reached'] at reached
    exact absurd reached (fresh q hq)
  · rw [now q hq eq] at reached
    rw [now r hr er] at reached'
    exact unshared q r n hq hr reached reached'

theorem Unshared.mono (unshared : Unshared child D root)
    (now : ∀ q n, D q → descend child' root q = some n → descend child root q = some n) :
    Unshared child' D root := fun p q n hp hq reached reached' =>
  unshared p q n hp hq (now p n hp reached) (now q n hq reached')

end

end Osnos.Radix
