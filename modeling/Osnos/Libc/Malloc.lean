import Mathlib.Tactic

/-! `malloc`, `calloc` and `realloc` of `libc/stdlib.c` on `sbrk` and `sys_brk`. A size is
rounded up, a header is added and the sum is the increment of the break, all modulo 2^64. -/
namespace Osnos.Malloc

abbrev OSNOS_USER_VIRT_MAX : Nat := 0x800000000000

/-- A block at its header, with the size of its payload. -/
structure Block where
  hdr : Nat
  size : Nat
  deriving DecidableEq, Repr

structure Heap where
  heapStart : Nat
  heapBrk : Nat
  freeList : List Block := []
  deriving DecidableEq, Repr

def roundUp (n : Nat) : Nat := (n + 15) % 2 ^ 64 / 16 * 16

namespace Heap
variable (h : Heap) (frames : Bool)

/-- `sys_brk`; `frames` says whether there is memory for the pages. -/
def sysBrk (newBrk : Nat) : Nat × Heap :=
  if newBrk = 0 ∨ newBrk < h.heapStart ∨ newBrk ≥ OSNOS_USER_VIRT_MAX - 4096 ∨
    newBrk > h.heapBrk ∧ frames = false then (h.heapBrk, h)
  else (newBrk, { h with heapBrk := newBrk })

def sbrk (increment : Nat) : Option Nat × Heap :=
  if increment = 0 then (some h.heapBrk, h)
  else
    let want := (h.heapBrk + increment) % 2 ^ 64
    let r := h.sysBrk frames want
    (if r.1 = want then some h.heapBrk else none, r.2)

def malloc (size : Nat) : Option Block × Heap :=
  let size := roundUp (if size = 0 then 1 else size)
  match h.freeList.find? (size ≤ ·.size) with
  | some b => (some b, { h with freeList := h.freeList.erase b })
  | none =>
    let r := h.sbrk frames ((16 + size) % 2 ^ 64)
    (r.1.map (⟨·, size⟩), r.2)

def free (b : Block) : Heap := { h with freeList := b :: h.freeList }

def calloc (nmemb size : Nat) : Option Block × Heap :=
  if nmemb ≠ 0 ∧ size > (2 ^ 64 - 1) / nmemb then (none, h)
  else h.malloc frames (nmemb * size % 2 ^ 64)

def realloc (ptr : Option Block) (size : Nat) : Option Block × Heap :=
  match ptr with
  | none => h.malloc frames size
  | some b =>
    if size = 0 then (none, h.free b)
    else if b.size ≥ size then (some b, h)
    else
      match h.malloc frames size with
      | (none, h') => (none, h')
      | (some b', h') => (some b', h'.free b)

abbrev Holds (b : Block) : Prop := b.hdr + 16 + b.size ≤ h.heapBrk

structure Valid : Prop where
  start : h.heapStart ≤ h.heapBrk
  low : h.heapBrk < OSNOS_USER_VIRT_MAX - 4096
  held : ∀ b ∈ h.freeList, h.Holds b

/-- The answer is a block with room for `size` bytes above a break that was not lowered, or
nothing, with everything as before. -/
def Meets (size : Nat) (r : Option Block × Heap) : Prop :=
  r.2.Valid ∧ match r.1 with
    | none => r.2 = h
    | some b => size ≤ b.size ∧ r.2.Holds b ∧ h.heapBrk ≤ r.2.heapBrk

/-- The size stays positive as an increment of the break, or the free block that is taken is
large enough, or `sys_brk` refuses the break that the sum wraps to. -/
def Serves (size : Nat) : Prop :=
  size ≤ 2 ^ 63 - 32 ∨
    match h.freeList.find? (roundUp (if size = 0 then 1 else size) ≤ ·.size) with
    | some b => size ≤ b.size
    | none =>
      let increment := (16 + roundUp (if size = 0 then 1 else size)) % 2 ^ 64
      let want := (h.heapBrk + increment) % 2 ^ 64
      increment ≠ 0 ∧ (want = 0 ∨ want < h.heapStart ∨ want ≥ OSNOS_USER_VIRT_MAX - 4096 ∨
        want > h.heapBrk ∧ frames = false)

variable {h frames}

theorem Valid.free_iff {b : Block} : (h.free b).Valid ↔ h.Holds b ∧ h.Valid := by
  constructor
  · rintro ⟨start, low, held⟩
    exact ⟨held b (by simp [free]), start, low, fun x mem => held x (by simp [free, mem])⟩
  · rintro ⟨mine, start, low, held⟩
    exact ⟨start, low, by simpa [free] using ⟨mine, held⟩⟩

theorem malloc_small (valid : h.Valid) {size : Nat} (small : size ≤ 2 ^ 63 - 32) :
    h.Meets size (h.malloc frames size) := by
  obtain ⟨start, low, held⟩ := valid
  have room : size ≤ roundUp (if size = 0 then 1 else size) ∧
      roundUp (if size = 0 then 1 else size) ≤ 2 ^ 63 - 32 := by
    unfold roundUp
    split <;> omega
  rw [malloc]
  generalize roundUp (if size = 0 then 1 else size) = n at room
  cases found : h.freeList.find? (n ≤ ·.size) with
  | some b =>
    have fits := List.find?_some found
    have mem := List.mem_of_find?_eq_some found
    refine ⟨⟨start, low, fun x hx => held x (List.mem_of_mem_erase hx)⟩, ?_, held b mem, le_rfl⟩
    exact room.1.trans (of_decide_eq_true fits)
  | none =>
    -- the increment is positive, so the break is raised or stays
    have below : h.heapBrk < 0x800000000000 - 4096 := low
    have raised : (h.heapBrk + (16 + n) % 2 ^ 64) % 2 ^ 64 = h.heapBrk + 16 + n := by omega
    simp only [sbrk, sysBrk, raised, if_neg (show ¬ (16 + n) % 2 ^ 64 = 0 by omega)]
    split
    · rw [if_neg (by simp only; omega)]
      exact ⟨⟨start, low, held⟩, rfl⟩
    rename_i accepted
    rw [if_pos rfl]
    refine ⟨⟨by simp only; omega, by simp only; omega, fun x hx => ?_⟩, room.1, le_rfl, ?_⟩
    · have := held x hx
      simp only [Holds] at this ⊢
      omega
    · simp only
      omega

theorem malloc_meets (valid : h.Valid) {size : Nat} (word : size < 2 ^ 64) :
    h.Meets size (h.malloc frames size) ↔ h.Serves frames size := by
  by_cases small : size ≤ 2 ^ 63 - 32
  · exact iff_of_true (malloc_small valid small) (.inl small)
  obtain ⟨start, low, held⟩ := valid
  have below : h.heapBrk < 0x800000000000 - 4096 := low
  -- too large for a positive increment: the rounded size is 0 or at least 2^63 - 16
  have round : roundUp (if size = 0 then 1 else size) = 0 ∧ 0 < size ∨
      2 ^ 63 - 16 ≤ roundUp (if size = 0 then 1 else size) ∧
        roundUp (if size = 0 then 1 else size) ≤ 2 ^ 64 - 16 := by
    unfold roundUp
    split <;> omega
  simp only [malloc, Serves, small, false_or]
  generalize roundUp (if size = 0 then 1 else size) = n at round
  cases found : h.freeList.find? (n ≤ ·.size) with
  | some b =>
    have mem := List.mem_of_find?_eq_some found
    exact ⟨fun met => met.2.1, fun large =>
      ⟨⟨start, low, fun x hx => held x (List.mem_of_mem_erase hx)⟩, large, held b mem, le_rfl⟩⟩
  | none =>
    simp only [sbrk, sysBrk]
    generalize sum : (16 + n) % 2 ^ 64 = increment
    by_cases still : increment = 0
    · refine iff_of_false (fun met => ?_) (fun moves => moves.1 still)
      simp only [still, if_true, Meets, Option.map_some, Holds] at met
      omega
    simp only [still, if_false, ne_eq, not_false_eq_true, true_and]
    split
    next refused =>
      refine iff_of_true ?_ refused
      rw [if_neg (by simp only; omega)]
      exact ⟨⟨start, low, held⟩, rfl⟩
    next accepted =>
      refine iff_of_false (fun met => ?_) accepted
      simp only [if_true, Meets, Option.map_some] at met
      obtain ⟨-, large, -, raised⟩ := met
      dsimp only [OSNOS_USER_VIRT_MAX] at accepted large raised
      omega

/-- The three calls on a heap and a live block of it. -/
theorem sizes_met (valid : h.Valid) {b : Block} (live : h.Holds b) {nmemb size : Nat}
    (word : size < 2 ^ 64) :
    (h.Meets size (h.malloc frames size) ↔ h.Serves frames size) ∧
    (h.Meets (nmemb * size) (h.calloc frames nmemb size) ↔
      2 ^ 64 ≤ nmemb * size ∨ h.Serves frames (nmemb * size)) ∧
    (h.Meets size (h.realloc frames none size) ↔ h.Serves frames size) ∧
    (size ≠ 0 → (h.Meets size (h.realloc frames (some b) size) ↔
      size ≤ b.size ∨ h.Serves frames size)) := by
  have met : h.Meets size (h.malloc frames size) ↔ _ := malloc_meets valid word
  refine ⟨met, ?_, met, fun some_size => ?_⟩
  · have overflow : (nmemb ≠ 0 ∧ size > (2 ^ 64 - 1) / nmemb) ↔ 2 ^ 64 ≤ nmemb * size := by
      rcases Nat.eq_zero_or_pos nmemb with rfl | some_members
      · simp
      · rw [gt_iff_lt, Nat.div_lt_iff_lt_mul some_members, Nat.mul_comm size]
        omega
    rw [calloc]
    split
    next large =>
      exact iff_of_true ⟨valid, rfl⟩ (.inl (overflow.1 large))
    next fits =>
      have bound : nmemb * size < 2 ^ 64 := not_le.1 fun large => fits (overflow.2 large)
      rw [Nat.mod_eq_of_lt bound, malloc_meets valid bound]
      exact (or_iff_right (by omega)).symm
  · rw [realloc, if_neg some_size, ← met]
    split
    next fits =>
      exact iff_of_true ⟨valid, fits, live, le_rfl⟩ (.inl fits)
    next short =>
      rw [or_iff_right short]
      generalize h.malloc frames size = r
      obtain ⟨_ | b', h'⟩ := r
      · rfl
      · simp only [Meets, Valid.free_iff]
        constructor
        · exact fun ⟨⟨_, after⟩, answer⟩ => ⟨after, answer⟩
        · exact fun ⟨after, answer⟩ => ⟨⟨live.trans answer.2.2, after⟩, answer⟩

/-- A size whose sum wraps below the start of the heap is refused, and so are the products of
`calloc` that reach 2^64. -/
theorem sizes_met_small :
    Meets ⟨0x1000, 0x3000, []⟩ (2 ^ 63) (malloc ⟨0x1000, 0x3000, []⟩ true (2 ^ 63)) ∧
    Meets ⟨0x1000, 0x3000, []⟩ (2 * 2 ^ 63) (calloc ⟨0x1000, 0x3000, []⟩ true 2 (2 ^ 63)) := by
  have valid : Valid ⟨0x1000, 0x3000, []⟩ := ⟨by decide, by decide, by simp⟩
  have met := @sizes_met ⟨0x1000, 0x3000, []⟩ true valid ⟨0x1000, 16⟩ (by decide) 2 (2 ^ 63) (by decide)
  exact ⟨met.1.2 (.inr ⟨by decide, by decide⟩), met.2.1.2 (.inl (by decide))⟩

/-- The largest size is given a block without payload, and one near it pulls the break down
below memory in use. -/
theorem huge_sizes_granted :
    let h : Heap := ⟨0x1000, 0x3000, []⟩
    h.malloc true (2 ^ 64 - 1) = (some ⟨0x3000, 0⟩, { h with heapBrk := 0x3010 }) ∧
    h.malloc true (2 ^ 64 - 0x1010) =
      (some ⟨0x3000, 2 ^ 64 - 0x1010⟩, { h with heapBrk := 0x2000 }) := by
  decide

end Heap

end Osnos.Malloc
