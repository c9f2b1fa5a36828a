import Osnos.Base.RingEdit

/-! Ring buffers without a count: a head, a tail and one cell that always stays
empty. -/
namespace Osnos
open List

structure Gap (α : Type) (cap : Nat) where
  cells : Nat → α
  head : Nat
  tail : Nat
  head_lt : head < cap
  tail_lt : tail < cap

namespace Gap
variable {α : Type} {cap : Nat}

def empty (a : α) (positive : 0 < cap) : Gap α cap := ⟨fun _ => a, 0, 0, positive, positive⟩

def clear (g : Gap α cap) : Gap α cap :=
  ⟨g.cells, 0, 0, Nat.zero_lt_of_lt g.head_lt, Nat.zero_lt_of_lt g.head_lt⟩

def available (g : Gap α cap) : Nat :=
  if g.head ≤ g.tail then g.tail - g.head else cap - g.head + g.tail

def room (g : Gap α cap) : Nat := cap - g.available - 1

theorem available_lt (g : Gap α cap) : g.available < cap := by
  have head := g.head_lt
  have tail := g.tail_lt
  unfold available
  split <;> omega

def ring (g : Gap α cap) : Ring α cap where
  cells := g.cells
  head := g.head
  tail := g.tail
  count := g.available
  head_lt := g.head_lt
  fits := g.available_lt.le
  tail_eq := by
    have head := g.head_lt
    have tail := g.tail_lt
    unfold available
    split
    · rw [Nat.add_sub_cancel' (by assumption), Nat.mod_eq_of_lt tail]
    · rw [show g.head + (cap - g.head + g.tail) = g.tail + cap by omega, Nat.add_mod_right,
        Nat.mod_eq_of_lt tail]

def contents (g : Gap α cap) : List α := g.ring.contents

@[simp] theorem contents_length (g : Gap α cap) : g.contents.length = g.available :=
  g.ring.contents_length

@[simp] theorem empty_contents (a : α) (positive : 0 < cap) : (empty a positive).contents = [] := by
  rw [← length_eq_zero_iff, contents_length]
  simp [available, empty]

@[simp] theorem clear_contents (g : Gap α cap) : g.clear.contents = [] := by
  rw [← length_eq_zero_iff, contents_length]
  simp [available, clear]

theorem contents_getElem {g : Gap α cap} {k : Nat} (small : k < g.contents.length) :
    g.contents[k] = g.cells ((g.head + k) % cap) := Ring.contents_getElem small

theorem room_add_available (g : Gap α cap) : g.room + g.available + 1 = cap := by
  have := g.available_lt
  unfold room
  omega

def store (cap : Nat) (cells : Nat → α) (tail : Nat) : List α → Nat → α
  | [] => cells
  | a :: l => store cap (Function.update cells (tail % cap) a) (tail + 1) l

def write (g : Gap α cap) (l : List α) : Gap α cap where
  cells := store cap g.cells g.tail l
  head := g.head
  tail := (g.tail + l.length) % cap
  head_lt := g.head_lt
  tail_lt := Nat.mod_lt _ (Nat.zero_lt_of_lt g.head_lt)

theorem mod_add_ne {t k : Nat} (positive : 0 < k) (small : k < cap) : (t + k) % cap ≠ t % cap := by
  intro same
  have div := Nat.sub_mod_eq_zero_of_mod_eq same
  rw [Nat.add_sub_cancel_left, Nat.mod_eq_of_lt small] at div
  omega

theorem store_other {cells : Nat → α} {p : Nat} (l : List α) {tail : Nat}
    (other : ∀ k, k < l.length → (tail + k) % cap ≠ p) : store cap cells tail l p = cells p := by
  induction l generalizing cells tail with
  | nil => rfl
  | cons a l ih =>
    rw [store, ih fun k small => ?_]
    · exact Function.update_of_ne (Ne.symm (other 0 (by simp))) ..
    · rw [Nat.add_assoc, Nat.add_comm 1]
      exact other (k + 1) (by simpa using small)

theorem store_here {cells : Nat → α} (l : List α) {tail k : Nat} (fits : l.length ≤ cap)
    (small : k < l.length) : store cap cells tail l ((tail + k) % cap) = l[k] := by
  induction l generalizing cells tail k with
  | nil => cases small
  | cons a l ih =>
    rw [length_cons] at fits small
    cases k with
    | zero =>
      rw [store, store_other l fun k inside => ?_]
      · simp
      · rw [Nat.add_assoc, Nat.add_zero]
        exact mod_add_ne (by omega) (by omega)
    | succ k =>
      rw [store, show tail + (k + 1) = tail + 1 + k by omega, ih (by omega) (by omega)]
      rfl

theorem write_available {g : Gap α cap} {l : List α} (fits : l.length ≤ g.room) :
    (g.write l).available = g.available + l.length := by
  have head := g.head_lt
  have tail := g.tail_lt
  have total := g.room_add_available
  unfold available at total ⊢
  change (if g.head ≤ (g.tail + l.length) % cap then (g.tail + l.length) % cap - g.head
    else cap - g.head + (g.tail + l.length) % cap) = _
  rw [Ring.mod_wrap (by omega)]
  split at total <;> split <;> split <;> omega

theorem write_contents {g : Gap α cap} {l : List α} (fits : l.length ≤ g.room) :
    (g.write l).contents = g.contents ++ l := by
  have total := g.room_add_available
  have tail := g.ring.tail_eq
  change g.tail = (g.head + g.available) % cap at tail
  have behind : ∀ k, (g.tail + k) % cap = (g.head + (g.available + k)) % cap := by
    intro k
    rw [tail, Nat.mod_add_mod, Nat.add_assoc]
  refine ext_getElem (by simp [write_available fits]) fun k small _ => ?_
  rw [contents_length, write_available fits] at small
  rw [contents_getElem, getElem_append]
  change store cap g.cells g.tail l ((g.head + k) % cap) = _
  split
  next old =>
    rw [contents_length] at old
    rw [contents_getElem, store_other l fun j inside => ?_]
    rw [behind, show g.head + (g.available + j) = g.head + k + (g.available + j - k) by omega]
    exact mod_add_ne (by omega) (by omega)
  rename_i new
  rw [contents_length] at new
  rw [show g.head + k = g.head + (g.available + (k - g.available)) by omega, ← behind,
    store_here l (by omega) (by omega)]
  simp

def peek (g : Gap α cap) (n : Nat) : List α :=
  (List.range n).map fun i => g.cells ((g.head + i) % cap)

def advance (g : Gap α cap) (n : Nat) : Gap α cap where
  cells := g.cells
  head := (g.head + n) % cap
  tail := g.tail
  head_lt := Nat.mod_lt _ (Nat.zero_lt_of_lt g.head_lt)
  tail_lt := g.tail_lt

theorem peek_eq {g : Gap α cap} {n : Nat} (enough : n ≤ g.available) :
    g.peek n = g.contents.take n := by
  refine ext_getElem (by simp [peek, enough]) fun k small _ => ?_
  rw [getElem_take, contents_getElem]
  simp [peek]

theorem advance_available {g : Gap α cap} {n : Nat} (enough : n ≤ g.available) :
    (g.advance n).available = g.available - n := by
  have head := g.head_lt
  have tail := g.tail_lt
  have bound := g.available_lt
  unfold available at enough bound ⊢
  change (if (g.head + n) % cap ≤ g.tail then g.tail - (g.head + n) % cap
    else cap - (g.head + n) % cap + g.tail) = _
  rw [Ring.mod_wrap (by split at enough <;> omega)]
  split at enough <;> split <;> split <;> omega

theorem advance_contents {g : Gap α cap} {n : Nat} (enough : n ≤ g.available) :
    (g.advance n).contents = g.contents.drop n := by
  refine ext_getElem (by simp [advance_available enough]) fun k small _ => ?_
  rw [getElem_drop, contents_getElem, contents_getElem]
  change g.cells (((g.head + n) % cap + k) % cap) = _
  rw [Nat.mod_add_mod, Nat.add_assoc]

end Gap

end Osnos
