import Mathlib.Tactic

/-! Physical memory by byte address, and the 64-bit page-table entries that lie in it. -/
namespace Osnos.Mem
open Nat

abbrev Byte := BitVec 8
abbrev Word := BitVec 64
abbrev Ram := Nat → Byte

namespace Ram
variable (r : Ram)

-- x86 is little-endian
def word (a : Nat) : Word :=
  r (a + 7) ++ r (a + 6) ++ r (a + 5) ++ r (a + 4) ++ r (a + 3) ++ r (a + 2) ++ r (a + 1) ++ r a

def setWord (a : Nat) (w : Word) : Ram := fun b =>
  if a ≤ b ∧ b < a + 8 then w.extractLsb' (8 * (b - a)) 8 else r b

def zeroPage (t : Nat) : Ram := fun a => if a / 4096 = t then 0 else r a
def entry (t i : Nat) : Word := word r (t * 4096 + i * 8)
def setEntry (t i : Nat) (e : Word) : Ram := setWord r (t * 4096 + i * 8) e

end Ram

def SamePage (r r' : Ram) (f : Nat) : Prop := ∀ a, a / 4096 = f → r' a = r a

theorem Ram.word_setWord (r : Ram) (a : Nat) (w : Word) : Ram.word (Ram.setWord r a w) a = w := by
  have each : ∀ k, k < 8 → Ram.setWord r a w (a + k) = w.extractLsb' (8 * k) 8 := by
    intro k small
    rw [setWord, if_pos (by omega), Nat.add_sub_cancel_left]
  have first := each 0 (by omega)
  rw [Nat.add_zero] at first
  simp only [word, first, each 1 (by omega), each 2 (by omega), each 3 (by omega),
    each 4 (by omega), each 5 (by omega), each 6 (by omega), each 7 (by omega)]
  ext i hi
  simp only [BitVec.getElem_append, BitVec.getElem_extractLsb']
  interval_cases i <;> simp [BitVec.getLsbD_eq_getElem]

theorem Ram.word_congr {r r' : Ram} {a : Nat} (same : ∀ k, k < 8 → r' (a + k) = r (a + k)) :
    word r' a = word r a := by
  have first := same 0 (by omega)
  rw [Nat.add_zero] at first
  simp only [word, first, same 1 (by omega), same 2 (by omega), same 3 (by omega),
    same 4 (by omega), same 5 (by omega), same 6 (by omega), same 7 (by omega)]

theorem Ram.setWord_outside (r : Ram) {a b : Nat} (w : Word) (outside : b < a ∨ a + 8 ≤ b) :
    Ram.setWord r a w b = r b := by
  rw [setWord, if_neg (by omega)]

theorem SamePage.entry {r r' : Ram} {t : Nat} (same : SamePage r r' t) {i : Nat} (small : i < 512) :
    Ram.entry r' t i = Ram.entry r t i :=
  Ram.word_congr fun k hk => same _ (by omega)

namespace Ram
variable (r : Ram)

theorem entry_setEntry (t i : Nat) (e : Word) : entry (setEntry r t i e) t i = e :=
  word_setWord r _ e

theorem entry_setEntry_ne {t i u j : Nat} (e : Word) (hi : i < 512) (hj : j < 512)
    (other : ¬(u = t ∧ j = i)) : entry (setEntry r t i e) u j = entry r u j :=
  word_congr fun k hk => setWord_outside r e (by omega)

theorem zeroPage_samePage {t u : Nat} (other : u ≠ t) : SamePage r (zeroPage r t) u := by
  intro a here
  rw [zeroPage, if_neg (by omega)]

theorem entry_zeroPage (t : Nat) {i : Nat} (small : i < 512) : entry (zeroPage r t) t i = 0 := by
  have clear : entry (zeroPage r t) t i = word (fun _ => 0) (t * 4096 + i * 8) := by
    refine word_congr fun k hk => ?_
    rw [zeroPage, if_pos (by omega)]
  rw [clear]
  simp only [word]
  decide

end Ram

def pteP : Word := 0x1
def pteW : Word := 0x2
def pteU : Word := 0x4
def pteShm : Word := 0x200
def pteAddrMask : Word := 0x000ffffffffff000
def present (e : Word) : Bool := e &&& pteP != 0

def frameOf (e : Word) : Nat := (e &&& pteAddrMask).toNat / 4096

theorem addrMask_toNat (w : Word) : (w &&& pteAddrMask).toNat = w.toNat / 4096 % 2 ^ 40 * 4096 := by
  have shape : pteAddrMask.toNat = (2 ^ 40 - 1) <<< 12 := by decide
  rw [BitVec.toNat_and, shape]
  apply eq_of_testBit_eq
  intro i
  rw [testBit_and, testBit_shiftLeft, testBit_two_pow_sub_one,
    show (4096 : Nat) = 2 ^ 12 by norm_num, ← shiftLeft_eq, testBit_shiftLeft,
    testBit_mod_two_pow, testBit_div_two_pow]
  by_cases high : 12 ≤ i
  · simp [high, Bool.and_comm, Nat.sub_add_cancel high]
  · simp [high]

@[simp] theorem present_zero : present 0 = false := by decide

theorem present_or (e : Word) : present (e ||| pteP) := by
  have bit : (e ||| pteP) &&& pteP = pteP := by
    ext i hi
    simp only [BitVec.getElem_and, BitVec.getElem_or]
    cases pteP[i] <;> simp
  rw [present, bit]
  decide

theorem frameOf_leaf (w : Word) {flags : Word} (clear : flags &&& pteAddrMask = 0) :
    frameOf ((w &&& pteAddrMask) ||| flags ||| pteP) = w.toNat / 4096 % 2 ^ 40 := by
  have masked : ((w &&& pteAddrMask) ||| flags ||| pteP) &&& pteAddrMask = w &&& pteAddrMask := by
    have low : pteP &&& pteAddrMask = 0 := by decide
    rw [BitVec.and_comm, BitVec.and_or_distrib_left, BitVec.and_or_distrib_left,
      BitVec.and_comm _ flags, BitVec.and_comm _ pteP, clear, low, BitVec.and_comm, BitVec.and_assoc,
      BitVec.and_self]
    exact (BitVec.or_zero).trans BitVec.or_zero
  rw [frameOf, masked, addrMask_toNat, Nat.mul_div_cancel _ (by omega)]

theorem frameOf_or {f : Nat} {flags : Word} (low : f < 2 ^ 40) (clear : flags &&& pteAddrMask = 0) :
    frameOf (BitVec.ofNat 64 (f * 4096) ||| flags) = f := by
  rw [frameOf, BitVec.and_comm, BitVec.and_or_distrib_left, BitVec.and_comm pteAddrMask flags,
    clear, show ∀ x : Word, x ||| 0 = x from fun _ => BitVec.or_zero, BitVec.and_comm,
    addrMask_toNat, BitVec.toNat_ofNat]
  omega

end Osnos.Mem
