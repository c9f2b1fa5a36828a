import Mathlib.Tactic

/-! Bytes by address, where an address may have none, and the little-endian numbers that lie
in them. Several writes to places apart from each other leave all that was written. -/

abbrev Store := Nat → Option UInt8

def toLe : Nat → Nat → List UInt8
  | 0, _ => []
  | n + 1, v => UInt8.ofNat v :: toLe n (v / 256)

def ofLe : List UInt8 → Nat
  | [] => 0
  | b :: bs => b.toNat + 256 * ofLe bs

@[simp] theorem length_toLe (n v : Nat) : (toLe n v).length = n := by
  induction n generalizing v with
  | zero => rfl
  | succ n ih => simp [toLe, ih]

theorem ofLe_toLe {n v : Nat} (small : v < 256 ^ n) : ofLe (toLe n v) = v := by
  induction n generalizing v with
  | zero =>
    simp [toLe, ofLe, Nat.lt_one_iff.1 small]
  | succ n ih =>
    have quotient : v / 256 < 256 ^ n := Nat.div_lt_of_lt_mul (by rwa [pow_succ'] at small)
    rw [toLe, ofLe, ih quotient, UInt8.toNat_ofNat']
    omega

def toWords (vs : List Nat) : List UInt8 := vs.flatMap (toLe 8)

@[simp] theorem length_toWords (vs : List Nat) : (toWords vs).length = 8 * vs.length := by
  induction vs with
  | nil => rfl
  | cons v vs ih =>
    rw [toWords, List.flatMap_cons, List.length_append, length_toLe, List.length_cons]
    change 8 + (toWords vs).length = _
    omega

theorem toWords_singleton (v : Nat) : toWords [v] = toLe 8 v := List.append_nil _

namespace Store
open List

variable (m : Store)

def Lies : Nat → List UInt8 → Prop
  | _, [] => True
  | a, b :: bs => m a = some b ∧ Lies (a + 1) bs

def write (m : Store) : Nat → List UInt8 → Store
  | _, [] => m
  | a, b :: bs => write (Function.update m a (some b)) (a + 1) bs

def read (a : Nat) : Nat → Option (List UInt8)
  | 0 => some []
  | n + 1 => (m a).bind fun b => (read (a + 1) n).map (b :: ·)

def word (a : Nat) : Option Nat := (m.read a 8).map ofLe

def words : Nat → Nat → Option (List Nat)
  | _, 0 => some []
  | a, n + 1 => (m.word a).bind fun w => (words (a + 8) n).map (w :: ·)

def writes (ps : List (Nat × List UInt8)) : Store := ps.foldl (fun m p => m.write p.1 p.2) m
def Apart (p q : Nat × List UInt8) : Prop := p.1 + p.2.length ≤ q.1 ∨ q.1 + q.2.length ≤ p.1

variable {m} {a j : Nat} {bs : List UInt8}

theorem lies_append (xs ys : List UInt8) :
    m.Lies a (xs ++ ys) ↔ m.Lies a xs ∧ m.Lies (a + xs.length) ys := by
  induction xs generalizing a with
  | nil => simp [Lies]
  | cons x xs ih =>
    have next : a + 1 + xs.length = a + (xs.length + 1) := by omega
    simp only [cons_append, Lies, ih, List.length_cons, next, and_assoc]

theorem Lies.congr {m' : Store} (lies : m.Lies a bs)
    (same : ∀ j, a ≤ j → j < a + bs.length → m' j = m j) : m'.Lies a bs := by
  induction bs generalizing a with
  | nil => trivial
  | cons b bs ih =>
    rw [List.length_cons] at same
    refine ⟨(same a le_rfl (by omega)).trans lies.1, ih lies.2 fun j low high => ?_⟩
    exact same j (by omega) (by omega)

theorem Lies.get (lies : m.Lies a bs) (inside : j < bs.length) : m (a + j) = bs[j]? := by
  induction bs generalizing a j with
  | nil => cases inside
  | cons b bs ih =>
    cases j with
    | zero => exact lies.1
    | succ j =>
      rw [show a + (j + 1) = a + 1 + j by omega]
      exact ih lies.2 (by simpa using inside)

theorem read_lies (lies : m.Lies a bs) : m.read a bs.length = some bs := by
  induction bs generalizing a with
  | nil => rfl
  | cons _ _ ih => rw [List.length_cons, read, lies.1, Option.bind_some, ih lies.2]; rfl

theorem word_lies {v : Nat} (lies : m.Lies a (toLe 8 v)) (small : v < 2 ^ 64) :
    m.word a = some v := by
  have read := read_lies lies
  rw [length_toLe] at read
  rw [word, read, Option.map_some, ofLe_toLe small]

theorem words_lies {vs : List Nat} (lies : m.Lies a (toWords vs)) (small : ∀ v ∈ vs, v < 2 ^ 64) :
    m.words a vs.length = some vs := by
  induction vs generalizing a with
  | nil => rfl
  | cons v vs ih =>
    obtain ⟨here, rest⟩ := (lies_append (toLe 8 v) (toWords vs)).1 lies
    rw [length_toLe] at rest
    rw [List.length_cons, words, word_lies here (small v mem_cons_self),
      Option.bind_some, ih rest fun w member => small w (mem_cons_of_mem v member)]
    rfl

theorem write_outside (outside : j < a ∨ a + bs.length ≤ j) : m.write a bs j = m j := by
  induction bs generalizing a m with
  | nil => rfl
  | cons b bs ih =>
    rw [List.length_cons] at outside
    have other : j ≠ a := by omega
    rw [write, ih (by omega), Function.update_of_ne other]

theorem lies_write (m : Store) (a : Nat) (bs : List UInt8) : (m.write a bs).Lies a bs := by
  induction bs generalizing a m with
  | nil => trivial
  | cons b bs ih =>
    refine ⟨?_, ih _ _⟩
    rw [write, write_outside (by omega), Function.update_self]

theorem writes_outside {ps : List (Nat × List UInt8)}
    (outside : ∀ p ∈ ps, j < p.1 ∨ p.1 + p.2.length ≤ j) : m.writes ps j = m j := by
  induction ps generalizing m with
  | nil => rfl
  | cons p ps ih =>
    change (m.write p.1 p.2).writes ps j = _
    rw [ih fun q member => outside q (mem_cons_of_mem p member),
      write_outside (outside p mem_cons_self)]

theorem lies_writes {ps : List (Nat × List UInt8)} (apart : ps.Pairwise Apart)
    {p : Nat × List UInt8} (member : p ∈ ps) : (m.writes ps).Lies p.1 p.2 := by
  induction ps generalizing m with
  | nil => cases member
  | cons q ps ih =>
    obtain ⟨first, rest⟩ := pairwise_cons.1 apart
    rcases mem_cons.1 member with rfl | member
    · refine (lies_write m p.1 p.2).congr fun j low high => ?_
      change (m.write p.1 p.2).writes ps j = _
      refine writes_outside fun q later => ?_
      have := first q later
      unfold Apart at this
      omega
    · exact ih rest member

end Store
