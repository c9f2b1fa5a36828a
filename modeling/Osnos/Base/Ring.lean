import Osnos.Base.Index
import Mathlib.Tactic

/-! Ring buffers: cells with a head, a tail and a count, seen as a list. -/
namespace Osnos
open Function List Nat

structure Ring (α : Type) (cap : Nat) where
  cells : Nat → α
  head : Nat
  tail : Nat
  count : Nat
  head_lt : head < cap
  fits : count ≤ cap
  tail_eq : tail = (head + count) % cap

namespace Ring
variable {α : Type} {cap : Nat}

def empty (a : α) (positive : 0 < cap) : Ring α cap where
  cells _ := a
  head := 0
  tail := 0
  count := 0
  head_lt := positive
  fits := Nat.zero_le _
  tail_eq := by simp

def clear (q : Ring α cap) : Ring α cap where
  cells := q.cells
  head := 0
  tail := 0
  count := 0
  head_lt := by have := q.head_lt; omega
  fits := Nat.zero_le _
  tail_eq := by simp

def contents (q : Ring α cap) : List α :=
  (List.range q.count).map fun k => q.cells ((q.head + k) % cap)

def push (q : Ring α cap) (a : α) : Ring α cap :=
  if room : q.count < cap then
    { q with
      cells := update q.cells q.tail a
      tail := (q.tail + 1) % cap
      count := q.count + 1
      fits := room
      tail_eq := by rw [q.tail_eq, Nat.mod_add_mod, Nat.add_assoc] }
  else q

def pop (q : Ring α cap) : Option (α × Ring α cap) :=
  if some_left : 0 < q.count then
    some (q.cells q.head,
      { q with
        head := (q.head + 1) % cap
        count := q.count - 1
        head_lt := Nat.mod_lt _ (by have := q.head_lt; omega)
        fits := by have := q.fits; omega
        tail_eq := by rw [q.tail_eq, Nat.mod_add_mod]; congr 1; omega })
  else none

@[simp] theorem contents_length (q : Ring α cap) : q.contents.length = q.count := by
  simp [contents]

@[simp] theorem empty_contents (a : α) (positive : 0 < cap) : (empty a positive).contents = [] := rfl
@[simp] theorem clear_contents (q : Ring α cap) : q.clear.contents = [] := rfl

theorem contents_eq_nil {q : Ring α cap} : q.contents = [] ↔ q.count = 0 := by
  rw [← contents_length, length_eq_zero_iff]

theorem push_count {q : Ring α cap} (a : α) (room : q.count < cap) :
    (q.push a).count = q.count + 1 := by
  rw [push, dif_pos room]

theorem push_contents {q : Ring α cap} (a : α) (room : q.count < cap) :
    (q.push a).contents = q.contents ++ [a] := by
  rw [push, dif_pos room]
  simp only [contents, range_succ, map_append, map_cons, map_nil]
  rw [← q.tail_eq, update_self]
  congr 1
  refine map_congr_left fun k hk => ?_
  have small : k < q.count := List.mem_range.1 hk
  refine update_of_ne ?_ ..
  -- the cell at the tail is not one of the occupied ones
  rw [q.tail_eq]
  intro same
  have := q.head_lt
  rcases lt_or_ge (q.head + q.count) cap with low | high
  · rw [mod_eq_of_lt low, mod_eq_of_lt (by omega)] at same
    omega
  rw [mod_eq_sub_mod high, mod_eq_of_lt (by omega : q.head + q.count - cap < cap)] at same
  rcases lt_or_ge (q.head + k) cap with low' | high'
  · rw [mod_eq_of_lt low'] at same
    omega
  · rw [mod_eq_sub_mod high', mod_eq_of_lt (by omega)] at same
    omega

theorem pop_none {q : Ring α cap} : q.pop = none ↔ q.contents = [] := by
  rw [contents_eq_nil, pop]
  split <;> simp <;> omega

theorem count_of_pop {q : Ring α cap} {p : α × Ring α cap} (popped : q.pop = some p) :
    q.count ≠ 0 := by
  intro empty
  rw [pop_none.2 (contents_eq_nil.2 empty)] at popped
  cases popped

theorem pop_contents {q q' : Ring α cap} {a : α} (popped : q.pop = some (a, q')) :
    q.contents = a :: q'.contents := by
  rw [pop] at popped
  split at popped
  next some_left =>
    cases popped
    obtain ⟨n, hn⟩ : ∃ n, q.count = n + 1 := ⟨q.count - 1, by omega⟩
    simp only [contents, hn, range_succ_eq_map, map_cons, map_map, add_zero, mod_eq_of_lt q.head_lt]
    congr 1
    refine map_congr_left fun k _ => ?_
    simp only [comp_apply, mod_add_mod]
    congr 2
    omega
  · cases popped

def enqueue (q : Ring α cap) (l : List α) : Ring α cap := (l.take (cap - q.count)).foldl push q

theorem foldl_push_contents (l : List α) {q : Ring α cap} (room : q.count + l.length ≤ cap) :
    (l.foldl push q).contents = q.contents ++ l := by
  induction l generalizing q with
  | nil => simp
  | cons a l ih =>
    simp only [length_cons] at room
    rw [foldl_cons, ih (by rw [push_count a (by omega)]; omega), push_contents a (by omega)]
    simp

theorem enqueue_contents (q : Ring α cap) (l : List α) :
    (q.enqueue l).contents = q.contents ++ l.take (cap - q.count) := by
  refine foldl_push_contents _ ?_
  have := q.fits
  rw [length_take]
  omega

def dequeue (q : Ring α cap) : Nat → List α × Ring α cap
  | 0 => ([], q)
  | n + 1 =>
    match q.pop with
    | none => ([], q)
    | some p => (p.1 :: (dequeue p.2 n).1, (dequeue p.2 n).2)

theorem dequeue_contents (n : Nat) (q : Ring α cap) :
    (q.dequeue n).1 = q.contents.take n ∧ (q.dequeue n).2.contents = q.contents.drop n := by
  induction n generalizing q with
  | zero => simp [dequeue]
  | succ n ih =>
    rw [dequeue]
    cases popped : q.pop with
    | none => simp [pop_none.1 popped]
    | some p =>
      have front := pop_contents popped
      simp [front, ih p.2]

end Ring

end Osnos
