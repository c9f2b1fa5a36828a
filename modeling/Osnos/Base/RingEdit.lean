import Osnos.Base.Ring

/-! Removing elements from the middle of a ring: by closing the gap one leaves, and by
compacting the ring in place. -/
namespace Osnos.Ring
open Function List

variable {α : Type} {cap : Nat} (q : Ring α cap)

def slot (k : Nat) : Nat := (q.head + k) % cap

theorem mod_wrap {x : Nat} (near : x < cap + cap) : x % cap = if x < cap then x else x - cap := by
  split
  next low =>
    exact Nat.mod_eq_of_lt low
  · rw [Nat.mod_eq_sub_mod (by omega), Nat.mod_eq_of_lt (by omega)]

variable {q} {k : Nat}

theorem slot_inj {j : Nat} (hj : j < cap) (hk : k < cap) (same : q.slot j = q.slot k) : j = k := by
  have head := q.head_lt
  unfold slot at same
  rw [mod_wrap (by omega), mod_wrap (by omega)] at same
  split at same <;> split at same <;> omega

theorem contents_eq {cells : Nat → α} {n : Nat} {l : List α} (length : l.length = n)
    (each : ∀ k, (small : k < l.length) → cells (q.slot k) = l[k]) :
    (range n).map (fun k => cells (q.slot k)) = l := by
  refine ext_getElem (by simp [length]) fun k hk hk' => ?_
  simp [each k hk']

theorem contents_getElem (small : k < q.contents.length) : q.contents[k] = q.cells (q.slot k) := by
  simp [contents, slot]

variable (q)

def locate (p : α → Bool) : Option Nat :=
  (List.range q.count).find? fun k => p (q.cells (q.slot k))

variable {q}

theorem find?_range_eq_findIdx? (n : Nat) (p : Nat → Bool) :
    (range n).find? p = (range n).findIdx? p := by
  induction n with
  | zero => rfl
  | succ n ih =>
    rw [range_succ, find?_append, findIdx?_append, ih]
    by_cases holds : p n = true <;> simp [holds]

theorem locate_eq (p : α → Bool) : q.locate p = q.contents.findIdx? p := by
  unfold locate contents
  rw [find?_range_eq_findIdx?, findIdx?_map]
  rfl

theorem locate_lt {p : α → Bool} (found : q.locate p = some k) : k < q.count := by
  rw [locate_eq] at found
  have inside := (List.findIdx?_eq_some_iff_findIdx_eq.1 found).1
  rwa [contents_length] at inside

theorem locate_find? {p : α → Bool} (found : q.locate p = some k) :
    q.contents.find? p = some (q.cells (q.slot k)) := by
  rw [locate_eq] at found
  obtain ⟨small, holds, before⟩ := List.findIdx?_eq_some_iff_getElem.1 found
  rw [contents_getElem small] at holds
  rw [find?_eq_some_iff_getElem]
  refine ⟨holds, k, small, contents_getElem small, fun j below => ?_⟩
  simpa using before j below

theorem locate_none {p : α → Bool} (absent : q.locate p = none) : q.contents.find? p = none := by
  rw [locate_eq, findIdx?_eq_none_iff] at absent
  exact List.find?_eq_none.2 fun a member => by simp [absent a member]

variable (q)

def shift (i n : Nat) : Nat → α :=
  (List.range' i n).foldl (fun c j => update c (q.slot j) (c (q.slot (j + 1)))) q.cells

variable {q}

theorem shift_slot {i n : Nat} (fits : i + n < cap) (small : k < cap) : q.shift i n (q.slot k) =
      if i ≤ k ∧ k < i + n then q.cells (q.slot (k + 1)) else q.cells (q.slot k) := by
  induction n generalizing k with
  | zero =>
    rw [if_neg (by omega)]
    rfl
  | succ n ih =>
    have last : q.shift i (n + 1) = update (q.shift i n) (q.slot (i + n))
        (q.shift i n (q.slot (i + n + 1))) := by
      unfold shift
      rw [range'_1_concat, foldl_append, foldl_cons, foldl_nil]
    rw [last]
    by_cases here : k = i + n
    · subst here
      rw [update_self, ih (by omega) (by omega), if_neg (by omega), if_pos (by omega)]
    rw [update_of_ne fun same => here (slot_inj small (by omega) same), ih (by omega) small]
    by_cases moved : i ≤ k ∧ k < i + n
    · rw [if_pos moved, if_pos (by omega)]
    · rw [if_neg moved, if_neg (by omega)]

variable (q)

def removeAt (i : Nat) (there : i < q.count) : Ring α cap where
  cells := q.shift i (q.count - 1 - i)
  head := q.head
  tail := (q.tail + cap - 1) % cap
  count := q.count - 1
  head_lt := q.head_lt
  fits := by have := q.fits; omega
  tail_eq := by
    have fits := q.fits
    have head := q.head_lt
    have whole : (q.head + q.count) % cap + cap - 1 = (q.head + q.count) % cap + (cap - 1) := by omega
    rw [q.tail_eq, whole, Nat.mod_add_mod]
    have shifted : q.head + q.count + (cap - 1) = q.head + (q.count - 1) + cap := by omega
    rw [shifted, Nat.add_mod_right]

variable {q}

theorem removeAt_contents {i : Nat} (there : i < q.count) :
    (q.removeAt i there).contents = q.contents.eraseIdx i := by
  have fits := q.fits
  have length : (q.contents.eraseIdx i).length = q.count - 1 := by
    rw [length_eraseIdx_of_lt (by rwa [contents_length]), contents_length]
  refine contents_eq length fun k small => ?_
  change q.shift i (q.count - 1 - i) (q.slot k) = _
  rw [shift_slot (by omega) (by omega), getElem_eraseIdx]
  by_cases before : k < i
  · rw [dif_pos before, if_neg (by omega), contents_getElem]
  · rw [dif_neg before, if_pos (by omega), contents_getElem]

theorem removeAt_locate {p : α → Bool} (found : q.locate p = some k) :
    (q.removeAt k (locate_lt found)).contents = q.contents.eraseP p := by
  rw [removeAt_contents, eraseP_eq_eraseIdx, ← locate_eq, found]

structure Compaction (α : Type) where
  cells : Nat → α
  write : Nat
  kept : Nat

variable (q)

variable (keep : α → Bool)

def compactRound (c : Compaction α) (k : Nat) : Compaction α :=
  if keep (c.cells (q.slot k)) then
    { cells := if q.slot k ≠ c.write then update c.cells c.write (c.cells (q.slot k))
        else c.cells
      write := (c.write + 1) % cap
      kept := c.kept + 1 }
  else c

def compactLoop (n : Nat) : Compaction α :=
  (List.range n).foldl (q.compactRound keep) ⟨q.cells, q.head, 0⟩

variable {q}

structure Compacted (q : Ring α cap) (keep : α → Bool) (m : Nat) (c : Compaction α) : Prop where
  write : c.write = q.slot c.kept
  kept : c.kept = ((q.contents.take m).filter keep).length
  front : ∀ k, (small : k < ((q.contents.take m).filter keep).length) →
    c.cells (q.slot k) = ((q.contents.take m).filter keep)[k]
  rest : ∀ k, m ≤ k → k < cap → c.cells (q.slot k) = q.cells (q.slot k)

theorem Compacted.start : q.Compacted keep 0 ⟨q.cells, q.head, 0⟩ where
  write := by
    unfold slot
    rw [Nat.add_zero, Nat.mod_eq_of_lt q.head_lt]
  kept := by simp
  front k small := by simp at small
  rest _ _ _ := rfl

theorem Compacted.round {keep : α → Bool} {m : Nat} {c : Compaction α} (done : q.Compacted keep m c)
    (more : m < q.count) : q.Compacted keep (m + 1) (q.compactRound keep c m) := by
  have fits := q.fits
  have here : c.cells (q.slot m) = q.cells (q.slot m) := done.rest m le_rfl (by omega)
  have next : q.contents.take (m + 1) = q.contents.take m ++ [q.cells (q.slot m)] := by
    rw [take_succ_eq_append_getElem (by rwa [contents_length]), contents_getElem]
  have few : c.kept ≤ m := by
    rw [done.kept]
    exact (length_filter_le _ _).trans (length_take_le ..)
  unfold compactRound
  by_cases keeps : keep (q.cells (q.slot m)) = true
  · have grown : (q.contents.take (m + 1)).filter keep =
        (q.contents.take m).filter keep ++ [q.cells (q.slot m)] := by
      rw [next, filter_append, filter_cons_of_pos keeps, filter_nil]
    have cells : ∀ k, k < cap → (if q.slot m ≠ c.write then update c.cells c.write
          (c.cells (q.slot m)) else c.cells) (q.slot k) =
        if k = c.kept then q.cells (q.slot m) else c.cells (q.slot k) := by
      intro k small
      rw [here, done.write]
      by_cases stays : q.slot m = q.slot c.kept
      · have same : m = c.kept := slot_inj (by omega) (by omega) stays
        rw [if_neg (not_not.2 stays), ← same]
        split
        next at_m =>
          rw [at_m, here]
        · rfl
      · rw [if_pos stays]
        split
        next at_kept =>
          rw [at_kept, update_self]
        next other =>
          exact update_of_ne (fun same => other (slot_inj small (by omega) same)) ..
    rw [if_pos (by rwa [here])]
    refine ⟨?_, ?_, fun k small => ?_, fun k above small => ?_⟩
    · change (c.write + 1) % cap = q.slot (c.kept + 1)
      rw [done.write]
      unfold slot
      rw [Nat.mod_add_mod, Nat.add_assoc]
    · rw [grown, length_append, ← done.kept]
      rfl
    · have bound : k < c.kept + 1 := by
        rw [grown, length_append, ← done.kept] at small
        exact small
      refine (cells k (by omega)).trans ?_
      simp only [grown, getElem_append]
      by_cases last : k = c.kept
      · rw [if_pos last, dif_neg (by rw [← done.kept]; omega)]
        simp
      have inside : k < ((q.contents.take m).filter keep).length := by
        rw [← done.kept]
        omega
      rw [if_neg last, dif_pos inside]
      exact done.front k inside
    · refine (cells k small).trans ?_
      rw [if_neg (by omega)]
      exact done.rest k (by omega) small
  · have same : (q.contents.take (m + 1)).filter keep = (q.contents.take m).filter keep := by
      rw [next, filter_append, filter_cons_of_neg keeps, filter_nil, append_nil]
    rw [if_neg (by rwa [here])]
    refine ⟨done.write, ?_, fun k small => ?_, fun k above small => done.rest k (by omega) small⟩
    · rw [same]
      exact done.kept
    · simp only [same] at small ⊢
      exact done.front k small

theorem compactLoop_done {n : Nat} (fits : n ≤ q.count) :
    q.Compacted keep n (q.compactLoop keep n) := by
  induction n with
  | zero => exact .start keep
  | succ n ih =>
    have last : q.compactLoop keep (n + 1) = q.compactRound keep (q.compactLoop keep n) n := by
      unfold compactLoop
      rw [range_succ, foldl_append, foldl_cons, foldl_nil]
    rw [last]
    exact (ih (by omega)).round (by omega)

variable (q)

def compact : Ring α cap where
  cells := (q.compactLoop keep q.count).cells
  head := q.head
  tail := (q.compactLoop keep q.count).write
  count := (q.compactLoop keep q.count).kept
  head_lt := q.head_lt
  fits := by
    rw [(compactLoop_done keep le_rfl).kept]
    have shorter := List.length_filter_le keep (q.contents.take q.count)
    have taken := List.length_take_le q.count q.contents
    exact (shorter.trans taken).trans q.fits
  tail_eq := (compactLoop_done keep le_rfl).write

variable {q}

theorem compact_contents : (q.compact keep).contents = q.contents.filter keep := by
  have done := compactLoop_done (q := q) keep le_rfl
  have all : q.contents.take q.count = q.contents := take_of_length_le (by rw [contents_length])
  have length : (q.contents.filter keep).length = (q.compactLoop keep q.count).kept := by
    rw [done.kept, all]
  refine contents_eq length fun k small => ?_
  have front := done.front k (by rwa [all])
  simp only [all] at front
  exact front

end Osnos.Ring
