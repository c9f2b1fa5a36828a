import Mathlib.Tactic

/-! The sizes of fixed tables whose slots are named by numerals. -/
namespace Osnos

instance eight_ne_zero : NeZero 8 := ⟨by decide⟩
instance sixteen_ne_zero : NeZero 16 := ⟨by decide⟩
instance thirtytwo_ne_zero : NeZero 32 := ⟨by decide⟩
instance hundredtwentyeight_ne_zero : NeZero 128 := ⟨by decide⟩

end Osnos
