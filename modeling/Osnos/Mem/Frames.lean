import Osnos.Base.Prog
import Osnos.Mem.Pmm

/-! `pmm_init` reads the boot loader's memory map. From there on the bitmap, its counter and
its hint act as a set of free frames. -/
namespace Osnos.Mem
open Function Finset

structure MemmapEntry where
  base : Nat
  length : Nat
  /-- `LIMINE_MEMMAP_USABLE` -/
  usable : Bool
  -- physical addresses have 52 bits, so no sum wraps
  bounded : base + length ≤ 2 ^ 52

abbrev Memmap := List MemmapEntry

/-- The page that contains the start of the `k`-th page-sized part of an entry. -/
def MemmapEntry.page (e : MemmapEntry) (k : Nat) : Nat := (e.base + k * 4096) / 4096

def Usable (map : Memmap) (f : Nat) : Prop :=
  ∃ e ∈ map, e.usable = true ∧ ∃ k, e.base + k * 4096 + 4096 ≤ e.base + e.length ∧ e.page k = f

namespace Pmm

def release (p : Pmm) (page : Nat) : Pmm :=
  if p.bitmap page then
    { p with bitmap := update p.bitmap page false, freePages := p.freePages + 1 }
  else p

/-- `if (!bit_get(page)) { bit_set(page); free_pages--; }`; behind the last page the loop ends. -/
def reserve (p : Pmm) (page : Nat) : Pmm :=
  if page ≥ p.totalPages then p
  else if !p.bitmap page then
    { p with bitmap := update p.bitmap page true, freePages := p.freePages - 1 }
  else p

def higher (h : Nat) (e : MemmapEntry) : Nat :=
  if e.usable && decide (e.base + e.length > h) then e.base + e.length else h

def highest (map : Memmap) : Nat := map.foldl higher 0
def bitmapBytes (map : Memmap) : Nat := (highest map / 4096 + 7) / 8

def home (map : Memmap) : Option MemmapEntry :=
  map.find? fun e => e.usable && decide (e.length ≥ bitmapBytes map)

def usablePages (map : Memmap) : List Nat :=
  map.flatMap fun e => if e.usable then (List.range (e.length / 4096)).map e.page else []

def ownPages (map : Memmap) (e : MemmapEntry) : List Nat :=
  (List.range ((bitmapBytes map + 4096 - 1) / 4096)).map fun k => e.base / 4096 + k

def init (map : Memmap) : Pmm :=
  let start : Pmm := ⟨false, fun _ => true, highest map / 4096, 0, 0, Nat.zero_le _⟩
  match home map with
  | none => start
  | some e => (ownPages map e).foldl reserve ((usablePages map).foldl release { start with ready := true })

inductive Call
  | allocPage
  | allocPagesContig (n : Nat)
  | freePage (phys : Nat)

def call (p : Pmm) : Call → Nat × Pmm
  | .allocPage => (p.allocPage.1 * 4096, p.allocPage.2)
  | .allocPagesContig n => ((p.allocPagesContig n).1 * 4096, (p.allocPagesContig n).2)
  | .freePage phys => (0, if phys % 4096 ≠ 0 then p else p.freePage (phys / 4096))

end Pmm

def frames (i n : Nat) : Finset Nat := Finset.Ico i (i + n)

inductive Takes (free : Finset Nat) : Pmm.Call → Nat → Finset Nat → Prop
  | page (f : Nat) (here : f ∈ free) : Takes free .allocPage (f * 4096) (free.erase f)
  | noPage (empty : free = ∅) : Takes free .allocPage 0 free
  | run (i n : Nat) (pos : 0 < n) (here : frames i n ⊆ free) :
      Takes free (.allocPagesContig n) (i * 4096) (free \ frames i n)
  | noRun (n : Nat) (full : ∀ i, 0 < n → ¬frames i n ⊆ free) : Takes free (.allocPagesContig n) 0 free
  | freed (f : Nat) : Takes free (.freePage (f * 4096)) 0 (insert f free)

def handedOut (held : Finset Nat) (phys : Nat) : Pmm.Call → Finset Nat
  | .allocPage => if phys = 0 then held else insert (phys / 4096) held
  | .allocPagesContig n => if phys = 0 then held else held ∪ frames (phys / 4096) n
  | .freePage phys => held.erase (phys / 4096)

def allocate (c : Pmm.Call) : Prog (Pmm × Finset Nat) Nat := fun s =>
  some ((s.1.call c).1, (s.1.call c).2, handedOut s.2 (s.1.call c).1 c)

def Returns (s : Pmm × Finset Nat) : Pmm.Call → Prop
  | .freePage phys => phys % 4096 = 0 ∧ phys / 4096 ∈ s.2
  | _ => True

variable {map : Memmap} {p : Pmm}

structure Counted (map : Memmap) (p : Pmm) : Prop where
  counter : p.freePages = p.free.card
  usable : ∀ f ∈ p.free, Usable map f

variable {q : Pmm}

theorem Counted.unmark (counted : Counted map p) {page : Nat} (usable : Usable map page)
    (inside : page < p.totalPages) (used : p.bitmap page)
    (total : q.totalPages = p.totalPages)
    (bits : q.bitmap = update p.bitmap page false) (count : q.freePages = p.freePages + 1) :
    Counted map q := by
  have grown := Pmm.free_unmark total inside bits
  refine ⟨?_, ?_⟩
  · rw [grown, card_insert_of_notMem (by simp [used]), count, counted.counter]
  intro f free
  rw [grown] at free
  rcases mem_insert.1 free with rfl | free
  · exact usable
  · exact counted.usable f free

theorem Counted.mark (counted : Counted map p) {page : Nat} (here : page ∈ p.free)
    (total : q.totalPages = p.totalPages) (bits : q.bitmap = update p.bitmap page true)
    (count : q.freePages = p.freePages - 1) : Counted map q := by
  have shrunk := Pmm.free_mark total bits
  refine ⟨?_, ?_⟩
  · rw [shrunk, card_erase_of_mem here, count, counted.counter]
  intro f free
  rw [shrunk] at free
  exact counted.usable f (mem_of_mem_erase free)

theorem Counted.release (counted : Counted map p) {page : Nat} (usable : Usable map page)
    (inside : page < p.totalPages) : Counted map (p.release page) := by
  unfold Pmm.release
  split
  next used =>
    exact counted.unmark usable inside used rfl rfl rfl
  · exact counted

theorem Counted.reserve (counted : Counted map p) (page : Nat) : Counted map (p.reserve page) := by
  unfold Pmm.reserve
  split
  · exact counted
  rename_i inside
  split
  next unused =>
    have here : page ∈ p.free := p.mem_free.2 ⟨by omega, by simpa using unused⟩
    exact counted.mark here rfl rfl rfl
  · exact counted

theorem le_higher (h : Nat) (e : MemmapEntry) :
    h ≤ Pmm.higher h e ∧ (e.usable → e.base + e.length ≤ Pmm.higher h e) := by
  unfold Pmm.higher
  cases e.usable with
  | false => simp
  | true =>
    simp only [Bool.true_and, decide_eq_true_eq]
    split <;> omega

theorem le_foldl_higher (map : Memmap) (h : Nat) : h ≤ map.foldl Pmm.higher h ∧
    ∀ e ∈ map, e.usable → e.base + e.length ≤ map.foldl Pmm.higher h := by
  induction map generalizing h with
  | nil => exact ⟨le_rfl, by simp⟩
  | cons e _ ih =>
    obtain ⟨above, each⟩ := ih (Pmm.higher h e)
    refine ⟨(le_higher h e).1.trans above, fun e' listed usable => ?_⟩
    rcases List.mem_cons.1 listed with rfl | listed
    · exact ((le_higher h e').2 usable).trans above
    · exact each e' listed usable

theorem usablePages_usable {page : Nat} (listed : page ∈ Pmm.usablePages map) :
    Usable map page ∧ page < Pmm.highest map / 4096 := by
  obtain ⟨e, entry, inside⟩ := List.mem_flatMap.1 listed
  split at inside
  next usable =>
    obtain ⟨k, small, rfl⟩ := List.mem_map.1 inside
    have top : e.base + e.length ≤ Pmm.highest map := (le_foldl_higher map 0).2 e entry usable
    have small := List.mem_range.1 small
    refine ⟨⟨e, entry, usable, k, by omega, rfl⟩, ?_⟩
    unfold MemmapEntry.page
    omega
  · cases inside

theorem released (pages : List Nat) (counted : Counted map p)
    (usable : ∀ f ∈ pages, Usable map f ∧ f < p.totalPages) :
    Counted map (pages.foldl Pmm.release p) := by
  induction pages generalizing p with
  | nil => exact counted
  | cons page _ ih =>
    have total : (p.release page).totalPages = p.totalPages := by
      unfold Pmm.release
      split <;> rfl
    have here := usable page (by simp)
    refine ih (counted.release here.1 here.2) fun f later => ?_
    rw [total]
    exact usable f (by simp [later])

theorem reserved (pages : List Nat) (counted : Counted map p) :
    Counted map (pages.foldl Pmm.reserve p) := by
  induction pages generalizing p with
  | nil => exact counted
  | cons page _ ih => exact ih (counted.reserve page)

theorem foldl_ready {g : Pmm → Nat → Pmm} (keeps : ∀ p f, (g p f).ready = p.ready)
    (pages : List Nat)
    (p : Pmm) : (pages.foldl g p).ready = p.ready := by
  induction pages generalizing p with
  | nil => rfl
  | cons f _ ih => exact (ih _).trans (keeps p f)

theorem init_counted (map : Memmap) :
    Counted map (Pmm.init map) ∧ ((Pmm.init map).ready = false → (Pmm.init map).free = ∅) := by
  have all_used (p : Pmm) (used : ∀ f, p.bitmap f) : p.free = ∅ := by
    ext f
    simp [used f]
  have full (p : Pmm) (used : ∀ f, p.bitmap f) (zero : p.freePages = 0) : Counted map p :=
    ⟨by rw [all_used p used, zero]; rfl, by simp [all_used p used]⟩
  unfold Pmm.init
  split
  · exact ⟨full _ (fun _ => rfl) rfl, fun _ => all_used _ fun _ => rfl⟩
  refine ⟨reserved _ (released _ (full _ (fun _ => rfl) rfl) fun f => usablePages_usable), ?_⟩
  rw [foldl_ready, foldl_ready]
  · simp
  · intro p f
    unfold Pmm.release
    split <;> rfl
  · intro p f
    unfold Pmm.reserve
    split_ifs <;> rfl

structure Kept (map : Memmap) (p : Pmm) (held : Finset Nat) : Prop extends Counted map p where
  used : ∀ f ∈ held, Usable map f ∧ f < p.totalPages ∧ p.bitmap f = true
  unready : p.ready = false → p.free = ∅ ∧ held = ∅

variable {held : Finset Nat}

theorem Kept.handed (kept : Kept map p held) (counted : Counted map q) {taken : Finset Nat}
    (here : taken ⊆ p.free) (total : q.totalPages = p.totalPages) (ready : q.ready)
    (bits : ∀ f, q.bitmap f ↔ f ∈ taken ∨ p.bitmap f) : Kept map q
    (held ∪ taken) where
  toCounted := counted
  used f mem := by
    rw [total, bits]
    rcases mem_union.1 mem with old | new
    · obtain ⟨usable, inside, used⟩ := kept.used f old
      exact ⟨usable, inside, .inr used⟩
    · have free := here new
      exact ⟨kept.usable f free, (p.mem_free.1 free).1, .inl new⟩
  unready off := by rw [ready] at off; cases off

theorem Kept.allocated {page : Nat} (kept : Kept map p held) (zero : ¬Usable map 0)
    (alloc : p.Allocated page q) : Takes p.free .allocPage (page * 4096) q.free ∧
      Kept map q (handedOut held (page * 4096) .allocPage) := by
  unfold handedOut
  cases alloc with
  | failed full =>
    have empty : p.free = ∅ := by
      cases ready : p.ready with
      | false => exact (kept.unready ready).1
      | true =>
        by_cases zero : p.freePages = 0
        · rw [kept.counter] at zero
          exact card_eq_zero.1 zero
        · exact full ready zero
    exact ⟨by simpa using .noPage empty, by simpa using kept⟩
  | got _ _ here total ready available bits count =>
    have nonzero : page ≠ 0 := by
      rintro rfl
      exact zero (kept.usable 0 here)
    refine ⟨?_, ?_⟩
    · rw [Pmm.free_mark total bits]
      exact .page page here
    rw [if_neg (by omega), Nat.mul_div_cancel page (by omega), insert_eq, union_comm]
    refine kept.handed (kept.toCounted.mark here total bits count) (by simpa using here) total
      (ready.trans available) fun f => ?_
    by_cases same : f = page
    · simp [bits, same]
    · simp [bits, same]

theorem free_run {i n : Nat} (total : q.totalPages = p.totalPages)
    (bits : ∀ f, q.bitmap f ↔ f ∈ frames i n ∨ p.bitmap f) :
    q.free = p.free \ frames i n := by
  ext f
  have clear : q.bitmap f = false ↔ f ∉ frames i n ∧ p.bitmap f = false := by
    rw [← Bool.not_eq_true, bits, not_or, Bool.not_eq_true]
  rw [mem_sdiff, p.mem_free, q.mem_free, total, clear]
  tauto

theorem Kept.took_run {i n : Nat} (kept : Kept map p held) (zero : ¬Usable map 0)
    (pos : 0 < n) (run : frames i n ⊆ p.free) (total : q.totalPages = p.totalPages)
    (ready : q.ready) (bits : ∀ f, q.bitmap f ↔ f ∈ frames i n ∨ p.bitmap f)
    (count : q.freePages = p.freePages - n) :
    Takes p.free (.allocPagesContig n) (i * 4096) q.free ∧
      Kept map q (handedOut held (i * 4096) (.allocPagesContig n)) := by
  have nonzero : i ≠ 0 := by
    rintro rfl
    exact zero (kept.usable 0 (run (mem_Ico.2 ⟨le_rfl, by omega⟩)))
  have left := free_run total bits
  have out : handedOut held (i * 4096) (.allocPagesContig n) = held ∪ frames i n := by
    simp [handedOut, nonzero]
  rw [out]
  refine ⟨left ▸ .run i n pos run, kept.handed ⟨?_, fun f free => ?_⟩ run total ready bits⟩
  · rw [left, card_sdiff_of_subset run, ← kept.counter, frames, Nat.card_Ico, count]
    omega
  · rw [left] at free
    exact kept.usable f (mem_sdiff.1 free).1

theorem Kept.allocated_run (kept : Kept map p held) (zero : ¬Usable map 0) (n : Nat) :
    Takes p.free (.allocPagesContig n) ((p.allocPagesContig n).1 * 4096)
    (p.allocPagesContig n).2.free ∧ Kept map (p.allocPagesContig n).2
        (handedOut held ((p.allocPagesContig n).1 * 4096) (.allocPagesContig n)) := by
  have failed (full : ∀ i, 0 < n → ¬frames i n ⊆ p.free) :
      Takes p.free (.allocPagesContig n) (0 * 4096) p.free ∧
        Kept map p (handedOut held (0 * 4096) (.allocPagesContig n)) :=
    ⟨by simpa using .noRun n full, by simpa [handedOut] using kept⟩
  unfold Pmm.allocPagesContig
  split
  next unable =>
    simp only [Bool.or_eq_true, Bool.not_eq_true', beq_iff_eq, decide_eq_true_eq] at unable
    refine failed fun i pos run => ?_
    have size := card_le_card run
    rw [← kept.counter, frames, Nat.card_Ico] at size
    rcases unable with (unready | rfl) | few
    · have := run (mem_Ico.2 ⟨le_rfl, by omega⟩)
      rw [(kept.unready unready).1] at this
      simp at this
    · omega
    · omega
  rename_i able
  simp only [Bool.or_eq_true, Bool.not_eq_true', beq_iff_eq, decide_eq_true_eq, not_or] at able
  obtain ⟨⟨ready, nonzero⟩, -⟩ := able
  split
  next missed =>
    refine failed fun i _ run => ?_
    have last := (p.mem_free.1 (run (mem_Ico.2 (⟨by omega, by omega⟩ : i ≤ i + n - 1 ∧ _)))).1
    obtain ⟨k, inside, used⟩ := p.findRun_none missed (Nat.zero_le i) (by omega)
    have clear := (p.mem_free.1 (run (mem_Ico.2 (⟨by omega, by omega⟩ : i ≤ i + k ∧ _)))).2
    rw [used] at clear
    cases clear
  rename_i i found
  obtain ⟨fits, clear⟩ := p.findRun_some found
  have run : frames i n ⊆ p.free := by
    intro f mem
    obtain ⟨above, below⟩ := mem_Ico.1 mem
    have := clear (f - i) (by omega)
    rw [Nat.add_sub_cancel' above] at this
    exact p.mem_free.2 ⟨by omega, this⟩
  exact kept.took_run zero (by omega) run rfl (by simpa using ready) (fun f => by simp [frames]) rfl

theorem Kept.returned (kept : Kept map p held) {f : Nat} (mem : f ∈ held) :
    (p.freePage f).free = insert f p.free ∧ Kept map (p.freePage f) (held.erase f) := by
  obtain ⟨usable, inside, used⟩ := kept.used f mem
  have ready : p.ready := by
    cases off : p.ready with
    | true => rfl
    | false =>
      rw [(kept.unready off).2] at mem
      simp at mem
  unfold Pmm.freePage
  rw [if_neg (by simp [ready]), if_neg (by omega), if_neg (by simp [used])]
  refine ⟨Pmm.free_unmark rfl inside rfl, ⟨kept.toCounted.unmark usable inside used rfl rfl rfl, ?_, ?_⟩⟩
  · intro g other
    obtain ⟨different, mem⟩ := mem_erase.1 other
    simpa [update_of_ne different] using kept.used g mem
  · intro off
    cases ready.symm.trans off

theorem Kept.call (kept : Kept map p held) (zero : ¬Usable map 0) (c : Pmm.Call)
    (returns : Returns (p, held) c) : Takes p.free c (p.call c).1 (p.call c).2.free ∧
      Kept map (p.call c).2 (handedOut held (p.call c).1 c) := by
  cases c with
  | allocPage => exact kept.allocated zero p.allocPage_allocated
  | allocPagesContig n => exact kept.allocated_run zero n
  | freePage phys =>
    obtain ⟨aligned, mem⟩ := returns
    obtain ⟨free, after⟩ := kept.returned mem
    have address : phys = phys / 4096 * 4096 := by omega
    simp only [Pmm.call, handedOut, aligned, ne_eq, not_true_eq_false, if_false]
    refine ⟨?_, after⟩
    rw [free]
    nth_rewrite 1 [address]
    exact .freed (phys / 4096)

/-- From boot on, whatever is asked of the allocator, its counter is the size of its set of
free frames, the set holds usable frames only, and each call does to it what it should. -/
theorem allocator_refines_set (map : Memmap) (zero : ¬Usable map 0) (calls : List Pmm.Call)
    (p : Pmm) (held : Finset Nat)
    (run : Prog.Runs allocate Returns (Pmm.init map, ∅) calls (p, held)) :
    p.freePages = p.free.card ∧ (∀ f ∈ p.free, Usable map f) ∧
      ∀ c, Returns (p, held) c → Takes p.free c (p.call c).1 (p.call c).2.free := by
  have start : Kept map (Pmm.init map) ∅ :=
    ⟨(init_counted map).1, by simp, fun unready => ⟨(init_counted map).2 unready, rfl⟩⟩
  have step : ∀ (s : Pmm × Finset Nat) c a s', Kept map s.1 s.2 → Returns s c →
      allocate c s = some (a, s') → Kept map s'.1 s'.2 := by
    rintro ⟨p, held⟩ c a ⟨q, held'⟩ kept returns done
    cases done
    exact (kept.call zero c returns).2
  have kept := Prog.Runs.invariant step run start
  exact ⟨kept.counter, kept.usable, fun c returns => (kept.call zero c returns).1⟩

def smallMap : Memmap := [⟨4096, 16384, true, by decide⟩]

theorem allocator_refines_set_small : ¬Usable smallMap 0 ∧ ∃ p held,
    Prog.Runs allocate Returns (Pmm.init smallMap, ∅)
    [.allocPage, .freePage 8192, .allocPagesContig 3]
      (p, held) ∧ p.freePages = p.free.card ∧ (∀ f ∈ p.free, Usable smallMap f) ∧
      ∀ c, Returns (p, held) c → Takes p.free c (p.call c).1 (p.call c).2.free := by
  have zero : ¬Usable smallMap 0 := by
    rintro ⟨e, listed, -, k, -, first⟩
    cases List.mem_singleton.1 listed
    simp only [MemmapEntry.page] at first
    omega
  have run : Prog.Runs allocate Returns (Pmm.init smallMap, ∅)
      [.allocPage, .freePage 8192, .allocPagesContig 3] _ :=
    .cons trivial rfl (.cons ⟨by decide, by decide⟩ rfl (.cons trivial rfl (.nil _)))
  exact ⟨zero, _, _, run, allocator_refines_set smallMap zero _ _ _ run⟩

end Osnos.Mem
