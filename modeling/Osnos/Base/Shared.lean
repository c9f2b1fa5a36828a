import Mathlib.Data.List.Count
import Mathlib.Data.List.Nodup
import Mathlib.Logic.Function.Basic

/-! Numbered objects with any number of holders. Each is destroyed by the last holder
to leave it. -/
namespace Osnos
open Function List

/-- `log` lists what was destroyed: each of the `made` objects that nobody holds, once. -/
structure Shared {H : Type} (held : H → Option Nat) (made : Nat) (log : List Nat) : Prop where
  below : ∀ {h s}, held h = some s → s < made
  once : log.Nodup
  gone : ∀ s, s ∈ log ↔ s < made ∧ ∀ h, held h ≠ some s

namespace Shared

variable {H : Type} [DecidableEq H] {held : H → Option Nat} {made : Nat} {log : List Nat} {h : H}

omit [DecidableEq H] in
theorem start : Shared (fun _ : H => none) 0 [] :=
  ⟨nofun, nodup_nil, fun s => ⟨nofun, fun below => absurd below.1 (Nat.not_lt_zero s)⟩⟩

omit [DecidableEq H] in
theorem count_eq (shared : Shared held made log) (s : Nat)
    [Decidable (s < made ∧ ∀ h, held h ≠ some s)] :
    log.count s = if s < made ∧ ∀ h, held h ≠ some s then 1 else 0 := by
  split
  next abandoned =>
    exact count_eq_one_of_mem shared.once ((shared.gone s).2 abandoned)
  next inUse =>
    exact List.count_eq_zero.2 fun mem => inUse ((shared.gone s).1 mem)

theorem join (shared : Shared held made log) (empty : held h = none) (other : H) :
    Shared (update held h (held other)) made log := by
  refine ⟨?_, shared.once, fun s => ?_⟩
  · intro h' s holds
    by_cases self : h' = h
    · rw [self, update_self] at holds
      exact shared.below holds
    · rw [update_of_ne self] at holds
      exact shared.below holds
  rw [shared.gone s]
  refine and_congr_right fun _ => ⟨fun free h' => ?_, fun free h' holds => ?_⟩
  · by_cases self : h' = h
    · rw [self, update_self]
      exact free other
    · rw [update_of_ne self]
      exact free h'
  have self : h' ≠ h := by
    rintro rfl
    rw [empty] at holds
    cases holds
  exact free h' (by rwa [update_of_ne self])

theorem make (shared : Shared held made log) (empty : held h = none) :
    Shared (update held h (some made)) (made + 1) log := by
  refine ⟨?_, shared.once, fun s => ?_⟩
  · intro h' s holds
    by_cases self : h' = h
    · rw [self, update_self] at holds
      cases holds
      exact Nat.lt_succ_self made
    · rw [update_of_ne self] at holds
      exact Nat.lt_succ_of_lt (shared.below holds)
  rw [shared.gone s]
  constructor
  · rintro ⟨below, free⟩
    refine ⟨Nat.lt_succ_of_lt below, fun h' => ?_⟩
    by_cases self : h' = h
    · rw [self, update_self]
      exact fun same => Nat.ne_of_lt below (Option.some.inj same).symm
    · rw [update_of_ne self]
      exact free h'
  rintro ⟨below, free⟩
  have old : s ≠ made := by
    rintro rfl
    exact free h (update_self h _ held)
  refine ⟨Nat.lt_of_le_of_ne (Nat.le_of_lt_succ below) old, fun h' holds => ?_⟩
  have self : h' ≠ h := by
    rintro rfl
    rw [empty] at holds
    cases holds
  exact free h' (by rwa [update_of_ne self])

theorem leave (shared : Shared held made log) {s : Nat} (holds : held h = some s)
    {left : Option Nat} (last : left = some s ↔ ∀ h', h' ≠ h → held h' ≠ some s)
    (only : ∀ s', left = some s' → s' = s) :
    Shared (update held h none) made (log ++ left.toList) := by
  have kept : ∀ h' s', update held h none h' = some s' ↔ h' ≠ h ∧ held h' = some s' := by
    intro h' s'
    by_cases self : h' = h
    · simp [self]
    · simp [self]
  have dropped : ∀ s', s' ∈ left.toList ↔ s' = s ∧ ∀ h', h' ≠ h → held h' ≠ some s := by
    intro s'
    rw [Option.mem_toList]
    constructor
    · intro found
      have eq := only s' found
      exact ⟨eq, last.1 (eq ▸ found)⟩
    · rintro ⟨rfl, alone⟩
      exact last.2 alone
  refine ⟨fun taken => shared.below ((kept _ _).1 taken).2, ?_, fun s' => ?_⟩
  · refine List.Nodup.append shared.once ?_ fun s' mem mem' => ?_
    · cases left
      · exact nodup_nil
      · exact nodup_singleton _
    · obtain ⟨rfl, -⟩ := (dropped s').1 mem'
      exact ((shared.gone s').1 mem).2 h holds
  rw [mem_append, shared.gone, dropped]
  constructor
  · rintro (⟨below, free⟩ | ⟨rfl, alone⟩)
    · exact ⟨below, fun h' taken => free h' ((kept _ _).1 taken).2⟩
    · refine ⟨shared.below holds, fun h' taken => ?_⟩
      obtain ⟨other, same⟩ := (kept _ _).1 taken
      exact alone h' other same
  rintro ⟨below, free⟩
  have others : ∀ h', h' ≠ h → held h' ≠ some s' :=
    fun h' other same => free h' ((kept _ _).2 ⟨other, same⟩)
  by_cases mine : s' = s
  · exact .inr ⟨mine, mine ▸ others⟩
  refine .inl ⟨below, fun h' same => ?_⟩
  by_cases self : h' = h
  · rw [self, holds] at same
    exact mine (Option.some.inj same).symm
  · exact others h' self same

end Shared

end Osnos
