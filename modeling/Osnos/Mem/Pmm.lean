import Mathlib.Tactic
import Mathlib.Data.Finset.Card
import Mathlib.Order.Interval.Finset.Nat

/-! `micro/pmm.c`: one bit per page frame, a count of the free frames and a hint. A frame number
stands for the address `page * PAGE_SIZE`, so frame 0 is the address 0 that the callers take
for a failure. -/
namespace Osnos.Mem
open Function List

structure Pmm where
  /-- `bitmap` is not null. -/
  ready : Bool
  bitmap : Nat → Bool
  totalPages : Nat
  freePages : Nat
  firstFreeHint : Nat
  hint_le : firstFreeHint ≤ totalPages

namespace Pmm
variable (p : Pmm)

def scanFreeFrom (start stop : Nat) : Option Nat :=
  (List.range' start (stop - start)).find? fun i => !p.bitmap i

theorem scanFreeFrom_some {start stop page : Nat} (found : p.scanFreeFrom start stop = some page) :
    page < stop ∧ p.bitmap page = false := by
  have inside := mem_of_find?_eq_some found
  have clear := find?_some found
  simp only [mem_range'_1, Bool.not_eq_true'] at inside clear
  exact ⟨by omega, clear⟩

theorem scanFreeFrom_none {start stop : Nat} (missed : p.scanFreeFrom start stop = none) {f : Nat}
    (above : start ≤ f) (below : f < stop) : p.bitmap f := by
  have used := List.find?_eq_none.1 missed f (List.mem_range'_1.2 (by omega))
  simpa using used

def nextFree : Option Nat :=
  (p.scanFreeFrom p.firstFreeHint p.totalPages).or (p.scanFreeFrom 0 p.firstFreeHint)

theorem nextFree_some {page : Nat} (found : p.nextFree = some page) :
    page < p.totalPages ∧ p.bitmap page = false := by
  have hint := p.hint_le
  rcases Option.or_eq_some_iff.1 found with found | ⟨_, found⟩
  · exact p.scanFreeFrom_some found
  · have := p.scanFreeFrom_some found
    exact ⟨by omega, this.2⟩

theorem nextFree_none (missed : p.nextFree = none) {f : Nat} (inside : f < p.totalPages) :
    p.bitmap f = true := by
  obtain ⟨upper, lower⟩ := Option.or_eq_none_iff.1 missed
  by_cases above : p.firstFreeHint ≤ f
  · exact p.scanFreeFrom_none upper above inside
  · exact p.scanFreeFrom_none lower (Nat.zero_le f) (by omega)

/-- `pmm_alloc_page`, with the frame of the address it returns. -/
def allocPage : Nat × Pmm :=
  if !p.ready || p.freePages == 0 then (0, p) else
    match found : p.nextFree with
    | none => (0, p)
    | some page => (page,
      { p with
        bitmap := update p.bitmap page true
        freePages := p.freePages - 1
        firstFreeHint := page + 1
        hint_le := (p.nextFree_some found).1 })

def blocker (i n : Nat) : Option Nat := (List.range n).find? fun k => p.bitmap (i + k)

theorem blocker_some {i n k : Nat} (found : p.blocker i n = some k) :
    k < n ∧ p.bitmap (i + k) := by
  have used := find?_some found
  exact ⟨List.mem_range.1 (mem_of_find?_eq_some found), used⟩

theorem blocker_none {i n k : Nat} (missed : p.blocker i n = none) (inside : k < n) :
    p.bitmap (i + k) = false := by
  simpa using List.find?_eq_none.1 missed k (List.mem_range.2 inside)

/-- The search of `pmm_alloc_pages_contig`, which goes on behind each page in use. -/
def findRun (n i : Nat) : Option Nat :=
  if i + n ≤ p.totalPages then
    match found : p.blocker i n with
    | none => some i
    | some k => findRun n (i + k + 1)
  else none
termination_by p.totalPages - i
decreasing_by
  have := (p.blocker_some found).1
  omega

theorem findRun_some {n i : Nat} {j : Nat} (found : p.findRun n i = some j) :
    j + n ≤ p.totalPages ∧ ∀ k < n, p.bitmap (j + k) = false := by
  fun_induction findRun p n i with
  | case1 i fits missed =>
    cases found
    exact ⟨fits, fun k inside => p.blocker_none missed inside⟩
  | case2 i fits k blocked ih => exact ih found
  | case3 i past => cases found

theorem findRun_none {n i : Nat} (missed : p.findRun n i = none) {j : Nat} (above : i ≤ j)
    (fits : j + n ≤ p.totalPages) : ∃ k < n, p.bitmap (j + k) := by
  fun_induction findRun p n i with
  | case1 i fits clear => cases missed
  | case2 i _ k blocked ih =>
    obtain ⟨inside, used⟩ := p.blocker_some blocked
    by_cases behind : i + k + 1 ≤ j
    · exact ih missed behind
    · refine ⟨i + k - j, by omega, ?_⟩
      rwa [show j + (i + k - j) = i + k by omega]
  | case3 i past => omega

def allocPagesContig (n : Nat) : Nat × Pmm :=
  if !p.ready || n == 0 || decide (p.freePages < n) then (0, p) else
    match found : p.findRun n 0 with
    | none => (0, p)
    | some i => (i,
      { p with
        bitmap := fun f => decide (i ≤ f ∧ f < i + n) || p.bitmap f
        freePages := p.freePages - n
        firstFreeHint := if p.firstFreeHint < i + n then i + n else p.firstFreeHint
        hint_le := by
          have := (p.findRun_some found).1
          have := p.hint_le
          split <;> omega })

def freePage (page : Nat) : Pmm :=
  if !p.ready then p
  else if page ≥ p.totalPages then p
  else if !p.bitmap page then p
  else
    { p with
      bitmap := update p.bitmap page false
      freePages := p.freePages + 1
      firstFreeHint := if page < p.firstFreeHint then page else p.firstFreeHint
      hint_le := by
        have := p.hint_le
        split <;> omega }

@[simp] theorem allocPage_total : p.allocPage.2.totalPages = p.totalPages := by
  unfold allocPage
  split
  · rfl
  · split <;> rfl

@[simp] theorem freePage_total (page : Nat) : (p.freePage page).totalPages = p.totalPages := by
  unfold freePage
  split_ifs <;> rfl

@[simp] theorem freePage_ready (page : Nat) : (p.freePage page).ready = p.ready := by
  unfold freePage
  split_ifs <;> rfl

def free : Finset Nat := {f ∈ Finset.range p.totalPages | p.bitmap f = false}

@[simp] theorem mem_free {f : Nat} : f ∈ p.free ↔ f < p.totalPages ∧ p.bitmap f = false := by
  simp [free]

variable {p}

theorem free_mark {q : Pmm} {page : Nat} (total : q.totalPages = p.totalPages)
    (bits : q.bitmap = update p.bitmap page true) : q.free = p.free.erase page := by
  ext f
  by_cases here : f = page
  · simp [here, bits]
  · simp [here, bits, total]

theorem free_unmark {q : Pmm} {page : Nat} (total : q.totalPages = p.totalPages)
    (inside : page < p.totalPages) (bits : q.bitmap = update p.bitmap page false) :
    q.free = insert page p.free := by
  ext f
  by_cases here : f = page
  · simp [here, bits, total, inside]
  · simp [here, bits, total]

variable (p)

/-- What `pmm_alloc_page` does: it hands out a free frame and marks it, or nothing happens. -/
inductive Allocated : Nat → Pmm → Prop
  | failed (none : p.ready = true → p.freePages ≠ 0 → p.free = ∅) : Allocated 0 p
  | got (page : Nat) (q : Pmm) (here : page ∈ p.free) (total : q.totalPages = p.totalPages)
      (ready : q.ready = p.ready) (available : p.ready = true)
      (bits : q.bitmap = update p.bitmap page true)
      (count : q.freePages = p.freePages - 1) : Allocated page q

variable {p} in
theorem Allocated.here {page : Nat} {q : Pmm} (alloc : p.Allocated page q) (nonzero : page ≠ 0) :
    page ∈ p.free := by
  cases alloc with
  | failed => exact absurd rfl nonzero
  | got _ _ here => exact here

theorem allocPage_allocated : p.Allocated p.allocPage.1 p.allocPage.2 := by
  unfold allocPage
  split
  next none =>
    refine .failed fun ready some => ?_
    simp [ready, some] at none
  rename_i some
  have available : p.ready := by
    cases ready : p.ready with
    | true => rfl
    | false => simp [ready] at some
  split
  next missed =>
    refine .failed fun _ _ => ?_
    ext f
    simpa using p.nextFree_none missed
  next page found =>
    exact .got page _ (p.mem_free.2 (p.nextFree_some found)) rfl rfl available rfl rfl

end Pmm

end Osnos.Mem
