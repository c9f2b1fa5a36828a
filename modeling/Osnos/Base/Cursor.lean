import Mathlib.Tactic

/-! A text with a position in it: what reading, writing and seeking do there. A write
behind the end of the text fills the gap. -/
namespace Osnos
open List

section
variable {α : Type} {fill : α} {l : List α} {off : Nat} {data : List α}

def overlay (fill : α) (l : List α) (off : Nat) (data : List α) : List α :=
  l.take off ++ List.replicate (off - l.length) fill ++ data ++ l.drop (off + data.length)

@[simp] theorem overlay_length :
    (overlay fill l off data).length = max l.length (off + data.length) := by
  simp only [overlay, length_append, length_take, length_replicate, length_drop]
  omega

theorem overlay_end : overlay fill l l.length data = l ++ data := by
  simp [overlay]

theorem overlay_getElem? (i : Nat) (inside : i < max l.length (off + data.length)) :
    (overlay fill l off data)[i]? =
      if off ≤ i ∧ i < off + data.length then data[i - off]?
      else if l.length ≤ i then some fill else l[i]? := by
  have front : (l.take off ++ replicate (off - l.length) fill).length = off := by
    simp only [length_append, length_take, length_replicate]
    omega
  rw [overlay, append_assoc]
  by_cases before : i < off
  · rw [getElem?_append_left (by omega), if_neg (by omega)]
    by_cases gap : l.length ≤ i
    · rw [getElem?_append_right (by simp; omega), if_pos gap,
        getElem?_replicate_of_lt (by simp only [length_take]; omega)]
    · rw [getElem?_append_left (by simp; omega), if_neg gap, getElem?_take_of_lt before]
  rw [getElem?_append_right (by omega), front]
  by_cases within : i < off + data.length
  · rw [getElem?_append_left (by omega), if_pos (by omega)]
  rw [getElem?_append_right (by omega), if_neg (by omega), if_neg (by omega), getElem?_drop]
  congr 1
  omega

theorem map_range_eq_overlay {f g : Nat → α} {n : Nat}
    (new : ∀ i < n, f (off + i) = g i)
    (gap : ∀ i < off, l.length ≤ i → f i = fill)
    (old : ∀ i, i < off ∨ off + n ≤ i → ∀ inside : i < l.length, f i = l[i]) :
    (range (max l.length (off + n))).map f = overlay fill l off ((range n).map g) := by
  apply ext_getElem?
  intro i
  by_cases inside : i < max l.length (off + n)
  · rw [overlay_getElem? i (by simpa using inside), getElem?_map, getElem?_range inside]
    simp only [length_map, length_range, Option.map_some, getElem?_map]
    by_cases here : off ≤ i ∧ i < off + n
    · rw [if_pos here, getElem?_range (by omega), Option.map_some, ← new (i - off) (by omega)]
      congr 2
      omega
    · rw [if_neg here]
      by_cases past : l.length ≤ i
      · rw [if_pos past, gap i (by omega) past]
      · rw [if_neg past, getElem?_eq_getElem (by omega), old i (by omega) (by omega)]
  · rw [getElem?_eq_none (by simpa using inside), getElem?_eq_none (by simp at *; omega)]

end

structure Cursor (α : Type) where
  text : List α
  pos : Nat

namespace Cursor

variable {α : Type} (c : Cursor α)

def slice (n : Nat) : List α := (c.text.drop c.pos).take n
def seek (pos : Nat) : Cursor α := { c with pos := pos }
def start (append : Bool) : Nat := if append then c.text.length else c.pos

def put (fill : α) (append : Bool) (data : List α) : Cursor α :=
  if data = [] then c
  else ⟨overlay fill c.text (c.start append) data, c.start append + data.length⟩

end Cursor

end Osnos
