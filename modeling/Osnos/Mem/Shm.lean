import Osnos.Base.Prog

/-! `shm_truncate` of `micro/shm.c`: an object's size is in bytes, its memory in pages. -/
namespace Osnos.Shm

abbrev SHM_PAGES_PER_OBJ : Nat := 1024

inductive Status
  | OK | EBADF | EINVAL | ENOMEM
  deriving DecidableEq, Repr

/-- `mem i` is the byte at `i % 4096` of page `i / 4096`, if there is such a page. -/
structure Obj where
  used : Bool := true
  sizeBytes : Nat := 0
  nPages : Nat := 0
  mem : Nat → UInt8 := fun _ => 0

def pagesNeeded (size : Nat) : Nat := (size + 4095) % 2 ^ 64 / 4096

namespace Obj
variable (o : Obj)

/-- The allocation loop at page `i`, with `k` pages to go and `free` frames left. When there
is no frame it gives back those it took. -/
def grow (i : Nat) (mem : Nat → UInt8) : Nat → Nat → Option (Nat → UInt8) × Nat
  | 0, free => (some mem, free)
  | _ + 1, 0 => (none, i - o.nPages)
  | k + 1, free + 1 => grow (i + 1) (fun b => if b / 4096 = i then 0 else mem b) k free

/-- The answer, the object and the number of free frames. -/
def truncate (size free : Nat) : Status × Obj × Nat :=
  let needed := pagesNeeded size
  if o.used = false then (.EBADF, o, free)
  else if needed > SHM_PAGES_PER_OBJ then (.EINVAL, o, free)
  else if needed > o.nPages then
    match o.grow o.nPages o.mem (needed - o.nPages) free with
    | (none, free) => (.ENOMEM, o, free)
    | (some mem, free) => (.OK, { o with sizeBytes := size, nPages := needed, mem }, free)
  else (.OK, { o with sizeBytes := size, nPages := needed }, free + (o.nPages - needed))

inductive Event
  | truncate (size free : Nat)
  | store (i : Nat) (b : UInt8)

def step : Event → Obj
  | .truncate size free => (o.truncate size free).2.1
  | .store i b => if i < 4096 * o.nPages then { o with mem := Function.update o.mem i b } else o

def Truncates : Event → Prop
  | .truncate size free =>
    let r := o.truncate size free
    if r.1 = .OK then
      r.2.1.sizeBytes = size ∧ r.2.1.nPages = (size + 4095) / 4096 ∧
      (∀ i, i < o.sizeBytes → i < size → r.2.1.mem i = o.mem i) ∧
      ∀ i, o.sizeBytes ≤ i → i < size → r.2.1.mem i = 0
    else r.2 = (o, free)
  | .store _ _ => True

/-- The size does not wrap, and the bytes of the last page that come back were never written,
or were cleared. -/
def Clean : Event → Prop
  | .truncate size free =>
    o.used = true → pagesNeeded size ≤ SHM_PAGES_PER_OBJ → pagesNeeded size ≤ o.nPages + free →
      size + 4095 < 2 ^ 64 ∧
      ∀ i, o.sizeBytes ≤ i → i < size → i < 4096 * o.nPages → o.mem i = 0
  | .store _ _ => True

def Owns : Prop := o.nPages = (o.sizeBytes + 4095) / 4096

variable {o}

theorem grow_eq (k : Nat) {i free : Nat} (mem : Nat → UInt8) (start : o.nPages ≤ i) :
    o.grow i mem k free = if k ≤ free
      then (some fun b => if i ≤ b / 4096 ∧ b / 4096 < i + k then 0 else mem b, free - k)
      else (none, free + (i - o.nPages)) := by
  induction k generalizing i free mem with
  | zero => simp [grow, show ∀ a, ¬ (i ≤ a ∧ a < i) by omega]
  | succ k ih =>
    cases free with
    | zero => simp [grow]
    | succ free =>
      rw [grow, ih _ (by omega), Nat.add_sub_add_right]
      simp only [Nat.add_le_add_iff_right]
      split
      · refine congrArg (some · , free - k) (funext fun b => ?_)
        split_ifs <;> first | rfl | omega
      · rw [show free + 1 + (i - o.nPages) = free + (i + 1 - o.nPages) by omega]

theorem pagesNeeded_eq (size : Nat) :
    pagesNeeded size = (size + 4095) / 4096 ↔ size + 4095 < 2 ^ 64 := by
  unfold pagesNeeded
  omega

theorem tail_iff {mem : Nat → UInt8} {size : Nat} (owns : o.Owns)
    (cleared : ∀ i, mem i = if o.nPages ≤ i / 4096 ∧ i / 4096 < (size + 4095) / 4096 then 0
      else o.mem i) :
    ((∀ i, i < o.sizeBytes → i < size → mem i = o.mem i) ∧
      ∀ i, o.sizeBytes ≤ i → i < size → mem i = 0) ↔
    ∀ i, o.sizeBytes ≤ i → i < size → i < 4096 * o.nPages → o.mem i = 0 := by
  unfold Owns at owns
  constructor
  · rintro ⟨-, zero⟩ i out below owned
    rw [← zero i out below, cleared, if_neg (by omega)]
  refine fun clean => ⟨fun i inside _ => by rw [cleared, if_neg (by omega)], ?_⟩
  intro i out below
  rw [cleared]
  split
  · rfl
  · exact clean i out below (by omega)

theorem truncate_iff (owns : o.Owns) (size free : Nat) :
    o.Truncates (.truncate size free) ↔ o.Clean (.truncate size free) := by
  simp only [Truncates, Clean, truncate, grow_eq _ _ le_rfl, ← pagesNeeded_eq]
  generalize pagesNeeded size = needed
  by_cases used : o.used = false
  · simp [used]
  by_cases big : needed > SHM_PAGES_PER_OBJ
  · simp [used, big, Nat.not_le.2 big]
  have fits := Nat.le_of_not_lt big
  by_cases more : needed > o.nPages
  · have enough : needed - o.nPages ≤ free ↔ needed ≤ o.nPages + free := by omega
    by_cases room : needed ≤ o.nPages + free
    · simp only [used, big, fits, more, enough, room, Bool.true_eq_false, if_true, if_false,
        true_and, forall_const]
      refine and_congr_right fun pages => tail_iff owns fun i => ?_
      rw [Nat.add_sub_cancel' (by omega), pages]
    · simp [used, big, more, enough, room]
  · have room : needed ≤ o.nPages + free := by omega
    simp only [used, big, fits, more, room, Bool.true_eq_false, if_true, if_false, true_and,
      forall_const]
    refine and_congr_right fun pages => ⟨fun kept i out below _ => kept.2 i out below, ?_⟩
    exact fun clean => ⟨fun _ _ _ => trivial, fun i out below => clean i out below (by omega)⟩

theorem step_owns {e : Event} (owns : o.Owns) (done : o.Truncates e) : (o.step e).Owns := by
  cases e with
  | store =>
    rw [step]
    split <;> exact owns
  | truncate =>
    simp only [Truncates] at done
    split at done
    · rw [Owns, step, done.1, done.2.1]
    · rw [step, done]
      exact owns

def exec (e : Event) (o : Obj) : Option (Unit × Obj) := some ((), o.step e)

theorem truncations_exact_iff (es : List Event) (o : Obj) :
    Prog.Runs exec Truncates {} es o ↔ Prog.Runs exec Clean {} es o :=
  Prog.Runs.congr
    (fun _ e owns => match e with
      | .truncate size free => truncate_iff owns size free
      | .store _ _ => Iff.rfl)
    (fun _ _ _ _ owns done run => by cases run; exact step_owns owns done) (show Owns {} from rfl)

/-- Cut to five bytes and grown to ten again, the object shows its ninth byte as it was. -/
theorem old_tail_shown :
    let o : Obj := [.truncate 10 1, .store 9 7, .truncate 5 0].foldl step {}
    (o.truncate 10 0).1 = .OK ∧ o.sizeBytes = 5 ∧ (o.truncate 10 0).2.1.mem 9 = 7 := by
  decide

end Obj

end Osnos.Shm
