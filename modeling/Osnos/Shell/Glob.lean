import Osnos.Shell.Lines

/-! `glob_match` of the VFS, of ramfs and of the shell. -/
namespace Osnos.Shell.Glob
open List Bool

abbrev STAR : UInt8 := 42
abbrev SLASH : UInt8 := 47

variable {stop : UInt8 → Bool} {p name : Text}

/-- The loop over the ends of the name; a byte that stops it ends the search. -/
def tryFrom (stop : UInt8 → Bool) (rest : Text → Bool) : Text → Bool
  | [] => rest []
  | c :: name => rest (c :: name) || (!stop c && tryFrom stop rest name)

/-- The three matchers differ in the bytes that a star does not pass. -/
def globMatch (stop : UInt8 → Bool) : Text → Text → Bool
  | [], name => name.isEmpty
  | c :: p, name =>
    if c = STAR then
      -- The loop over repeated stars starts again at the next one.
      if p.head? = some STAR then globMatch stop p name
      else if p.isEmpty then name.all (!stop ·)
      else tryFrom stop (globMatch stop p) name
    else match name with
      | [] => false
      | d :: name => c == d && globMatch stop p name

def vfsGlobMatch : Text → Text → Bool := globMatch (· == SLASH)
def ramfsGlobMatch : Text → Text → Bool := globMatch (· == SLASH)
def shellGlobMatch : Text → Text → Bool := globMatch fun _ => false

/-- The name arises from the pattern: a star becomes some string, another byte itself. -/
def Arises : Text → Text → Prop
  | [], name => name = []
  | c :: p, name => ∃ t, (if c = STAR then t <:+ name else name = c :: t) ∧ Arises p t

theorem tryFrom_iff {f : Text → Bool} (passes : ∀ c ∈ name, stop c = false) :
    tryFrom stop f name ↔ ∃ t, t <:+ name ∧ f t := by
  induction name with
  | nil => simp only [tryFrom, suffix_nil, exists_eq_left]
  | cons c name ih =>
    rw [tryFrom, passes c (.head name), Bool.not_false, Bool.true_and, or_eq_true,
      ih fun d mem => passes d (.tail c mem)]
    simp only [suffix_cons_iff, or_and_right, exists_or, exists_eq_left]

theorem globMatch_iff (passes : ∀ c ∈ name, stop c = false) :
    globMatch stop p name ↔ Arises p name := by
  induction p generalizing name with
  | nil => rw [globMatch, List.isEmpty_iff, Arises]
  | cons c p ih =>
    unfold globMatch Arises
    split_ifs with star again last
    · -- The rest of the pattern starts with a star itself.
      obtain ⟨d, q, rfl⟩ := ne_nil_iff_exists_cons.1 (ne_nil_of_mem (mem_of_mem_head? again))
      simp only [ih passes, Arises, if_pos (Option.some.inj again)]
      constructor
      · exact fun ⟨t, ends, rest⟩ => ⟨name, suffix_rfl, t, ends, rest⟩
      · rintro ⟨t, ends, u, inner, rest⟩
        exact ⟨u, inner.trans ends, rest⟩
    · rw [List.isEmpty_iff.1 last]
      simp only [all_eq_true, Bool.not_eq_true', Arises, exists_eq_right, nil_suffix, iff_true]
      exact passes
    · rw [tryFrom_iff passes]
      refine exists_congr fun t => and_congr_right fun ends => ih fun d mem => ?_
      exact passes d (ends.subset mem)
    · cases name with
      | nil => simp
      | cons d name =>
        rw [and_eq_true, beq_iff_eq, ih fun e mem => passes e (.tail d mem)]
        simp [eq_comm]

/-- The three matchers accept the names that arise from the pattern. -/
theorem glob_matchers_agree (flat : SLASH ∉ name) :
    (vfsGlobMatch p name ↔ Arises p name) ∧ (ramfsGlobMatch p name ↔ Arises p name) ∧
      (shellGlobMatch p name ↔ Arises p name) := by
  have passes : ∀ c ∈ name, (c == SLASH) = false := by
    intro c mem
    exact beq_eq_false_iff_ne.2 fun slash => flat (slash ▸ mem)
  exact ⟨globMatch_iff passes, globMatch_iff passes, globMatch_iff fun _ _ => rfl⟩

/-- `a*c` accepts `abc`. -/
theorem glob_matchers_agree_star :
    SLASH ∉ [97, 98, 99] ∧ Arises [97, STAR, 99] [97, 98, 99] :=
  ⟨by decide, (glob_matchers_agree (by decide)).1.1 (by decide)⟩

end Osnos.Shell.Glob
