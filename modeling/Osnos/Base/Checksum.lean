import Mathlib.Tactic

/-! Big-endian numbers in byte strings, and the one's-complement sum of the 16-bit words of a
byte string. A string whose complemented sum is stored in one of its own words verifies. -/
namespace Osnos
open List

def byteOf {w : Nat} (v : BitVec w) (k : Nat) : UInt8 := UInt8.ofNat (v.toNat / 256 ^ k)
def be16 (v : BitVec 16) : List UInt8 := [byteOf v 1, byteOf v 0]
def be32 (v : BitVec 32) : List UInt8 := [byteOf v 3, byteOf v 2, byteOf v 1, byteOf v 0]
def join16 (a b : UInt8) : BitVec 16 := BitVec.ofNat 16 (256 * a.toNat + b.toNat)

def join32 (a b c d : UInt8) : BitVec 32 :=
  BitVec.ofNat 32 (256 * (256 * (256 * a.toNat + b.toNat) + c.toNat) + d.toNat)

def rd16Be (l : List UInt8) (i : Nat) : BitVec 16 := join16 (l.getD i 0) (l.getD (i + 1) 0)

def rd32Be (l : List UInt8) (i : Nat) : BitVec 32 :=
  join32 (l.getD i 0) (l.getD (i + 1) 0) (l.getD (i + 2) 0) (l.getD (i + 3) 0)

theorem byteOf_toNat {w : Nat} (v : BitVec w) (k : Nat) :
    (byteOf v k).toNat = v.toNat / 256 ^ k % 256 := by
  rw [byteOf, UInt8.toNat_ofNat']

@[simp] theorem join16_byteOf (v : BitVec 16) : join16 (byteOf v 1) (byteOf v 0) = v := by
  apply BitVec.eq_of_toNat_eq
  have small := v.isLt
  rw [join16, BitVec.toNat_ofNat, byteOf_toNat, byteOf_toNat]
  omega

@[simp] theorem join32_byteOf (v : BitVec 32) :
    join32 (byteOf v 3) (byteOf v 2) (byteOf v 1) (byteOf v 0) = v := by
  apply BitVec.eq_of_toNat_eq
  have small := v.isLt
  rw [join32, BitVec.toNat_ofNat, byteOf_toNat, byteOf_toNat, byteOf_toNat, byteOf_toNat]
  omega

@[simp] theorem length_be16 (v : BitVec 16) : (be16 v).length = 2 := rfl
@[simp] theorem length_be32 (v : BitVec 32) : (be32 v).length = 4 := rfl

def wordSum : List UInt8 → Nat
  | [] => 0
  | [b] => 256 * b.toNat
  | a :: b :: rest => 256 * a.toNat + b.toNat + wordSum rest

theorem wordSum_le (l : List UInt8) : wordSum l ≤ 65535 * l.length := by
  fun_induction wordSum l with
  | case1 => simp
  | case2 b =>
    have := b.toNat_lt
    simp only [length_singleton]
    omega
  | case3 a b rest ih =>
    have := a.toNat_lt
    have := b.toNat_lt
    simp only [length_cons]
    omega

theorem wordSum_append {pre : List UInt8} (post : List UInt8) (even : pre.length % 2 = 0) :
    wordSum (pre ++ post) = wordSum pre + wordSum post := by
  fun_induction wordSum pre with
  | case1 => simp
  | case2 b => simp at even
  | case3 a b rest ih =>
    simp only [length_cons] at even
    rw [cons_append, cons_append, wordSum, ih (by omega)]
    omega

@[simp] theorem wordSum_be16 (v : BitVec 16) : wordSum (be16 v) = v.toNat := by
  have small := v.isLt
  simp only [be16, wordSum, byteOf_toNat]
  omega

def foldCarry (s : Nat) : Nat := if s < 65536 then s else foldCarry (s % 65536 + s / 65536)
termination_by s
decreasing_by omega

theorem foldCarry_lt (s : Nat) : foldCarry s < 65536 := by
  fun_induction foldCarry s with
  | case1 s small => exact small
  | case2 s large ih => exact ih

theorem foldCarry_mod (s : Nat) : foldCarry s % 65535 = s % 65535 := by
  fun_induction foldCarry s with
  | case1 s small => rfl
  | case2 s large ih => omega

theorem foldCarry_eq_zero {s : Nat} : foldCarry s = 0 ↔ s = 0 := by
  fun_induction foldCarry s with
  | case1 s small => rfl
  | case2 s large ih => omega

def checksum (l : List UInt8) : BitVec 16 :=
  ~~~ BitVec.ofNat 16 (foldCarry (wordSum l % 2 ^ 32))

def Verifies (l : List UInt8) : Prop := wordSum l ≠ 0 ∧ wordSum l % 65535 = 0

section
variable {l pre post : List UInt8}

theorem checksum_toNat (short : l.length ≤ 65536) :
    (checksum l).toNat = 65535 - foldCarry (wordSum l) := by
  have sum := wordSum_le l
  have small : wordSum l % 2 ^ 32 = wordSum l := Nat.mod_eq_of_lt (by omega)
  have := foldCarry_lt (wordSum l)
  rw [checksum, small, BitVec.toNat_not, BitVec.toNat_ofNat]
  omega

theorem checksum_eq_zero (short : l.length ≤ 65536) : checksum l = 0 ↔ Verifies l := by
  have zero : checksum l = 0 ↔ (checksum l).toNat = 0 :=
    ⟨fun h => by rw [h]; rfl, fun h => BitVec.eq_of_toNat_eq h⟩
  have bound := foldCarry_lt (wordSum l)
  have same := foldCarry_mod (wordSum l)
  have none_left := foldCarry_eq_zero (s := wordSum l)
  rw [zero, checksum_toNat short, Verifies]
  omega

theorem wordSum_hole (c : BitVec 16) (even : pre.length % 2 = 0) :
    wordSum (pre ++ be16 c ++ post) = wordSum (pre ++ be16 0 ++ post) + c.toNat := by
  have word : (pre ++ be16 c).length % 2 = 0 := by simp [even]
  have zero : (pre ++ be16 0).length % 2 = 0 := by simp [even]
  rw [wordSum_append post word, wordSum_append post zero, wordSum_append _ even,
    wordSum_append _ even, wordSum_be16, wordSum_be16]
  change _ = _ + 0 + _ + _
  omega

/-- A string verifies once the complement of its sum stands in the open word; the other zero
of the arithmetic does as well. -/
theorem verifies_of_hole {c : BitVec 16} (even : pre.length % 2 = 0)
    (short : (pre ++ be16 0 ++ post).length ≤ 65536)
    (stored : c = checksum (pre ++ be16 0 ++ post) ∨
      checksum (pre ++ be16 0 ++ post) = 0 ∧ c = 0xFFFF) :
    Verifies (pre ++ be16 c ++ post) := by
  have bound := foldCarry_lt (wordSum (pre ++ be16 0 ++ post))
  have same := foldCarry_mod (wordSum (pre ++ be16 0 ++ post))
  have none_left := foldCarry_eq_zero (s := wordSum (pre ++ be16 0 ++ post))
  have value := checksum_toNat short
  rw [Verifies, wordSum_hole c even]
  rcases stored with rfl | ⟨zero, rfl⟩
  · omega
  rw [zero] at value
  change 0 = _ at value
  change _ + 65535 ≠ 0 ∧ (_ + 65535) % 65535 = 0
  omega

end

end Osnos
