import Mathlib.Data.List.TakeWhile
import Mathlib.Tactic

/-! `strtol` and its variants against the numeral that the C standard takes. -/
namespace Osnos.Libc
open List Option

abbrev Text := List UInt8

def digitOf (c : UInt8) : Option Nat :=
  if 48 ≤ c ∧ c ≤ 57 then some (c.toNat - 48)
  else if 97 ≤ c ∧ c ≤ 122 then some (c.toNat - 97 + 10)
  else if 65 ≤ c ∧ c ≤ 90 then some (c.toNat - 65 + 10)
  else none

def isDigit (base : Nat) (c : UInt8) : Bool := (digitOf c).any (· < base)

def parseSign (s : Text) : Bool × Text :=
  if s.head? = some 43 then (false, s.tail)
  else if s.head? = some 45 then (true, s.tail)
  else (false, s)

def hexMark (s : Text) : Bool := s.head? = some 48 && (s[1]? = some 120 || s[1]? = some 88)

def parsePrefix (base : Nat) (s : Text) : Nat × Text :=
  if (base = 0 ∨ base = 16) ∧ hexMark s then (16, s.drop 2)
  else if base = 0 ∧ s.head? = some 48 then (8, s.tail)
  else if base = 0 then (10, s)
  else (base, s)

/-- The digit loop; the accumulator has 64 bits. -/
def parseDigits (base : Nat) : Nat → Text → Nat × Text
  | acc, [] => (acc, [])
  | acc, c :: s =>
    match digitOf c with
    | none => (acc, c :: s)
    | some d => if base ≤ d then (acc, c :: s) else parseDigits base ((acc * base + d) % 2 ^ 64) s

def known (c : UInt8) : Bool := c = 32 ∨ c = 9 ∨ c = 10

/-- The sign, the accumulator and the text at the end pointer. -/
def parseUint (s : Text) (base : Nat) : Bool × Nat × Text :=
  let (neg, s) := parseSign (s.dropWhile known)
  let (base, s) := parsePrefix base s
  (neg, parseDigits base 0 s)

def signed (neg : Bool) (v : Nat) : Int := if neg then -v else v

/-- `strtol` and `strtoll`: both types have 64 bits. -/
def strtol (s : Text) (base : Nat) : Int × Text :=
  let (neg, v, rest) := parseUint s base
  ((signed neg v).bmod (2 ^ 64), rest)

def strtoul (s : Text) (base : Nat) : Int × Text :=
  let (neg, v, rest) := parseUint s base
  (signed neg v % 2 ^ 64, rest)

def isspace (c : UInt8) : Bool := c = 32 ∨ 9 ≤ c ∧ c ≤ 13

def numeralPrefix (base : Nat) (s : Text) : Nat × Text :=
  if (base = 0 ∨ base = 16) ∧ hexMark s ∧ ((s.drop 2).head?.any (isDigit 16)) then (16, s.drop 2)
  else if base = 0 then (if s.head? = some 48 then 8 else 10, s)
  else (base, s)

def value (base : Nat) (digits : Text) : Nat :=
  digits.foldl (fun v c => v * base + (digitOf c).getD 0) 0

/-- The sign and the value of the longest numeral, and the text after it. -/
def numeral (s : Text) (base : Nat) : Option (Bool × Nat × Text) :=
  let (neg, s) := parseSign (s.dropWhile isspace)
  let (base, s) := numeralPrefix base s
  let digits := s.takeWhile (isDigit base)
  if digits = [] then none else some (neg, value base digits, s.dropWhile (isDigit base))

def signedOf (neg : Bool) (v : Nat) : Int := max (-2 ^ 63) (min (2 ^ 63 - 1) (signed neg v))
def unsignedOf (neg : Bool) (v : Nat) : Int := if 2 ^ 64 ≤ v then 2 ^ 64 - 1 else signed neg v % 2 ^ 64

def converted (of : Bool → Nat → Int) (s : Text) (base : Nat) : Int × Text :=
  ((numeral s base).map fun n => (of n.1 n.2.1, n.2.2)).getD (0, s)

/-- The white space is known, `0x` has a digit, and where no numeral is, nothing is skipped. -/
structure Plain (s : Text) (base : Nat) : Prop where
  space : s.dropWhile known = s.dropWhile isspace
  hex : (base = 0 ∨ base = 16) → hexMark (parseSign (s.dropWhile isspace)).2 →
    ((parseSign (s.dropWhile isspace)).2.drop 2).head?.any (isDigit 16)
  none : numeral s base = none → (parseSign (s.dropWhile isspace)).2 = s

theorem parseDigits_eq (base acc : Nat) (s : Text) : parseDigits base (acc % 2 ^ 64) s =
    ((s.takeWhile (isDigit base)).foldl (fun v c => v * base + (digitOf c).getD 0) acc % 2 ^ 64,
      s.dropWhile (isDigit base)) := by
  induction s generalizing acc with
  | nil => rfl
  | cons c s ih =>
    have step (d : Nat) : (acc % 2 ^ 64 * base + d) % 2 ^ 64 = (acc * base + d) % 2 ^ 64 := by
      simp [Nat.add_mod, Nat.mul_mod]
    unfold parseDigits
    cases digit : digitOf c with
    | none => simp [isDigit, digit]
    | some d =>
      by_cases large : base ≤ d
      · simp [isDigit, digit, large]
      · simp only [large, if_false, step, ih]
        simp [isDigit, digit, Nat.lt_of_not_le large]

variable {s t : Text} {base b : Nat}

theorem parsePrefix_digits (eq : numeralPrefix base s = (b, t))
    (hex : (base = 0 ∨ base = 16) → hexMark s → (s.drop 2).head?.any (isDigit 16)) :
    parseDigits (parsePrefix base s).1 0 (parsePrefix base s).2 =
      (value b (t.takeWhile (isDigit b)) % 2 ^ 64, t.dropWhile (isDigit b)) := by
  have plain (base : Nat) (s : Text) := parseDigits_eq base 0 s
  unfold numeralPrefix at eq
  unfold parsePrefix
  by_cases mark : (base = 0 ∨ base = 16) ∧ hexMark s
  · rw [if_pos ⟨mark.1, mark.2, hex mark.1 mark.2⟩] at eq
    cases eq
    rw [if_pos mark]
    exact plain ..
  rw [if_neg fun h => mark ⟨h.1, h.2.1⟩] at eq
  rw [if_neg mark]
  by_cases zero : base = 0
  · rw [if_pos zero] at eq
    cases eq
    by_cases octal : s.head? = some 48
    · obtain ⟨u, rfl⟩ := head?_eq_some_iff.1 octal
      simpa [zero, value, isDigit, show digitOf 48 = some 0 from rfl] using plain 8 u
    · simpa [zero, octal, value] using plain 10 s
  · rw [if_neg zero] at eq
    cases eq
    simpa [zero, value] using plain base s

theorem numeralPrefix_empty (eq : numeralPrefix base s = (b, t))
    (empty : t.takeWhile (isDigit b) = []) : t.dropWhile (isDigit b) = s := by
  rw [dropWhile_eq_self_iff.2 (takeWhile_eq_nil_iff.1 empty)]
  unfold numeralPrefix at eq
  split at eq
  next hex =>
    cases eq
    have digit := hex.2.2
    cases rest : s.drop 2 with
    | nil => simp [rest] at digit
    | cons c t => simp_all
  · split at eq <;> exact (congrArg Prod.snd eq).symm

theorem parseUint_numeral (plain : Plain s base) :
    match numeral s base with
    | none => (parseUint s base).2 = (0, s)
    | some (neg, v, rest) => parseUint s base = (neg, v % 2 ^ 64, rest) := by
  have nothing := plain.none
  unfold numeral at nothing ⊢
  unfold parseUint
  rw [plain.space]
  dsimp only at nothing ⊢
  rw [parsePrefix_digits Prod.mk.eta.symm plain.hex]
  split_ifs with empty
  · dsimp only
    rw [empty, numeralPrefix_empty Prod.mk.eta.symm empty, nothing (if_pos empty)]
    rfl
  · rfl

/-- On plain text the functions are right as long as the value fits. -/
theorem strtol_standard (s : Text) (base : Nat) (plain : Plain s base) :
    ((∀ n ∈ numeral s base, signedOf n.1 n.2.1 = signed n.1 n.2.1) →
      strtol s base = converted signedOf s base) ∧
    ((∀ n ∈ numeral s base, n.2.1 < 2 ^ 64) → strtoul s base = converted unsignedOf s base) := by
  have parsed := parseUint_numeral plain
  unfold strtol strtoul converted
  cases found : numeral s base with
  | none =>
    rw [found] at parsed
    simp [parsed, signed]
  | some n =>
    obtain ⟨neg, v, rest⟩ := n
    rw [found] at parsed
    rw [parsed]
    simp only [mem_some, forall_eq', map_some, getD_some]
    refine ⟨fun range => ?_, fun fits => ?_⟩
    · have small : v % 2 ^ 64 = v := by
        unfold signedOf signed at range
        split at range <;> omega
      rw [small, range, Int.bmod_eq_of_le] <;> unfold signedOf at range <;> omega
    · rw [Nat.mod_eq_of_lt fits, unsignedOf, if_neg (Nat.not_le.2 fits)]

theorem strtol_standard_hex : strtol [32, 45, 48, 120, 49, 102, 33] 0 = (-31, [33]) :=
  (strtol_standard [32, 45, 48, 120, 49, 102, 33] 0 ⟨by decide, by decide, by decide⟩).1 (by decide)

/-- `0x` is taken whole, a blank before no numeral is skipped, and 2 ^ 64 gives 0. -/
theorem strtol_off : converted signedOf [48, 120] 0 = (0, [120]) ∧ strtol [48, 120] 0 = (0, []) ∧
    converted signedOf [32] 10 = (0, [32]) ∧ strtol [32] 10 = (0, []) ∧
    let s : Text := [49] ++ replicate 16 48
    converted signedOf s 16 = (2 ^ 63 - 1, []) ∧ strtol s 16 = (0, []) ∧
      converted unsignedOf s 16 = (2 ^ 64 - 1, []) ∧ strtoul s 16 = (0, []) := by
  decide

end Osnos.Libc
