import Osnos.Base.Prog

/-! `sys_brk`, `sys_mmap` and `sys_munmap` for a task with an address space of its own, page
by page. Each mapped page carries who put it there. Where an allocation fails is not decided
here: every call comes with the number of pages that can still be had. -/
namespace Osnos.Ranges
open Function Nat

abbrev PAGE_SIZE : Nat := 4096
abbrev OSNOS_USER_VIRT_MAX : Nat := 0x800000000000
abbrev USER_HEAP_BASE : Nat := 0x10000000
abbrev USER_MMAP_BASE : Nat := 0x20000000
abbrev USER_MMAP_LIMIT : Nat := 0x40000000
abbrev USER_STACK_TOP : Nat := 0x80000000
abbrev USER_STACK_PAGES : Nat := 16
abbrev TASK_MMAP_MAX : Nat := 16

inductive Origin
  | image
  | stack
  | heap
  | mapping
deriving DecidableEq

/-- An entry of `mmap_regions`; address 0 is an unused one. -/
structure Region where
  addr : Nat := 0
  len : Nat := 0
  shmBacked : Bool := false
deriving DecidableEq

abbrev Pages := Nat → Option Origin

structure Task where
  pages : Pages
  heapBrk : Nat := USER_HEAP_BASE
  mmapNext : Nat := 0
  regions : Fin TASK_MMAP_MAX → Region := fun _ => {}

inductive Errno
  | einval
  | enomem
deriving DecidableEq, Repr

def pageUp (a : Nat) : Nat := (a + (PAGE_SIZE - 1)) / PAGE_SIZE
def requested (length : Nat) : Nat := (length + (PAGE_SIZE - 1)) % 2 ^ 64 / PAGE_SIZE

/-- Page `i` from `base`; the tables have 36 bits for a page number. -/
def pageAt (base i : Nat) : Nat := (base + i) % 2 ^ 36

namespace Pages

variable (m : Pages)

/-- The loop of a growing heap: `n` pages from `p`; the second part is the page that could
not be had. -/
def grow (m : Pages) : Nat → Nat → Nat → Pages × Option Nat
  | 0, _, _ => (m, none)
  | n + 1, p, avail =>
    if (m p).isSome then grow m n (p + 1) avail
    else
      match avail with
      | 0 => (m, some p)
      | avail + 1 => grow (update m p (some .heap)) n (p + 1) avail

def clear (lo hi : Nat) : Pages := fun q => if lo ≤ q ∧ q < hi then none else m q

def setRange (base n : Nat) (o : Option Origin) : Pages := fun q =>
  if ∃ i < n, pageAt base i = q then o else m q

end Pages

namespace Task

variable (t : Task)

def sysBrk (newBrk avail : Nat) : Nat × Task :=
  if newBrk = 0 then (t.heapBrk, t)
  else if newBrk < USER_HEAP_BASE then (t.heapBrk, t)
  else if OSNOS_USER_VIRT_MAX - PAGE_SIZE ≤ newBrk then (t.heapBrk, t)
  else if newBrk = t.heapBrk then (t.heapBrk, t)
  else if t.heapBrk < newBrk then
    let lo := pageUp t.heapBrk
    match t.pages.grow (pageUp newBrk - lo) lo avail with
    | (pages, none) => (newBrk, { t with pages := pages, heapBrk := newBrk })
    | (pages, some failed) => (t.heapBrk, { t with pages := pages.clear lo failed })
  else
    (newBrk, { t with
      pages := t.pages.clear (pageUp newBrk) (pageUp t.heapBrk), heapBrk := newBrk })

def cursor : Nat := if t.mmapNext = 0 then USER_MMAP_BASE else t.mmapNext

def freeRegion : Option (Fin TASK_MMAP_MAX) :=
  (List.finRange TASK_MMAP_MAX).find? fun i => decide ((t.regions i).addr = 0)

/-- The common part of the two branches of `sys_mmap`: `pages` pages at the cursor, of which
`avail` can be had before `short` is reported. Sums are those of 64-bit numbers. -/
def mapPages (shm : Bool) (pages avail : Nat) (short : Errno) : Except Errno Nat × Task :=
  let base := t.cursor
  let t := { t with mmapNext := base }
  if USER_MMAP_LIMIT < (base + pages * PAGE_SIZE) % 2 ^ 64 then (.error .enomem, t)
  else
    match t.freeRegion with
    | none => (.error .enomem, t)
    | some slot =>
      if avail < pages then
        -- the pages mapped so far are unmapped again
        (.error short, { t with pages := t.pages.setRange (base / PAGE_SIZE) avail none })
      else
        (.ok base, { t with
          pages := t.pages.setRange (base / PAGE_SIZE) pages (some .mapping)
          regions := update t.regions slot
            ⟨base, pages * PAGE_SIZE % 2 ^ 64, shm⟩
          mmapNext := (base + pages * PAGE_SIZE) % 2 ^ 64 })

def mmapAnonymous (length avail : Nat) : Except Errno Nat × Task :=
  if length = 0 then (.error .einval, t)
  else if requested length = 0 then (.error .einval, t)
  else t.mapPages false (requested length) avail .enomem

/-- `sys_mmap` of a shared-memory object of `size` bytes. -/
def mmapShared (length offset size avail : Nat) (short : Errno) : Except Errno Nat × Task :=
  if length = 0 then (.error .einval, t)
  else if offset % PAGE_SIZE ≠ 0 then (.error .einval, t)
  else if size < (offset / PAGE_SIZE + requested length) * PAGE_SIZE % 2 ^ 64 then (.error .einval, t)
  else t.mapPages true (requested length) avail short

def regionAt (addr : Nat) : Option (Fin TASK_MMAP_MAX) :=
  (List.finRange TASK_MMAP_MAX).find? fun i => decide ((t.regions i).addr = addr)

def sysMunmap (addr length : Nat) : Except Errno Nat × Task :=
  if length = 0 then (.error .einval, t)
  else
    match t.regionAt addr with
    | none => (.error .einval, t)
    | some i =>
      (.ok 0, { t with
        pages := t.pages.setRange (addr / PAGE_SIZE) (pageUp (t.regions i).len) none
        regions := update t.regions i {} })

end Task

inductive Call
  | brk (newBrk avail : Nat)
  | mmap (length avail : Nat)
  | mmapShm (length offset size avail : Nat) (short : Errno)
  | munmap (addr length : Nat)

def Task.step (t : Task) : Call → Except Errno Nat × Task
  | .brk newBrk avail => (.ok (t.sysBrk newBrk avail).1, (t.sysBrk newBrk avail).2)
  | .mmap length avail => t.mmapAnonymous length avail
  | .mmapShm length offset size avail short => t.mmapShared length offset size avail short
  | .munmap addr length => t.sysMunmap addr length

def exec (c : Call) (t : Task) : Option (Except Errno Nat × Task) := some (t.step c)

def StackPage (p : Nat) : Prop :=
  USER_STACK_TOP / PAGE_SIZE - USER_STACK_PAGES ≤ p ∧ p < USER_STACK_TOP / PAGE_SIZE

instance (p : Nat) : Decidable (StackPage p) := inferInstanceAs (Decidable (_ ∧ _))

def start (image : Nat → Bool) : Task where
  pages p := if StackPage p then some .stack else if image p then some .image else none

def Task.HeapPage (t : Task) (p : Nat) : Prop := pageUp USER_HEAP_BASE ≤ p ∧ p < pageUp t.heapBrk

def Region.Page (g : Region) (p : Nat) : Prop :=
  g.addr ≠ 0 ∧ ∃ k < pageUp g.len, pageAt (g.addr / PAGE_SIZE) k = p

section
variable (image : Nat → Bool)

def Loaded (p : Nat) : Prop := image p = true ∨ StackPage p

structure Disjoint (t : Task) : Prop where
  image_stack : ∀ p, image p = true → ¬StackPage p
  heap_loaded : ∀ p, t.HeapPage p → ¬Loaded image p
  heap_region : ∀ p i, t.HeapPage p → ¬(t.regions i).Page p
  region_loaded : ∀ p i, (t.regions i).Page p → ¬Loaded image p
  regions : ∀ p i j, (t.regions i).Page p → (t.regions j).Page p → i = j

def Foreign (t : Task) (p : Nat) : Call → Prop
  | .brk _ _ => Loaded image p ∨ ∃ i, (t.regions i).Page p
  | .mmap _ _ => Loaded image p ∨ t.HeapPage p ∨ ∃ i, (t.regions i).Page p
  | .mmapShm _ _ _ _ _ => Loaded image p ∨ t.HeapPage p ∨ ∃ i, (t.regions i).Page p
  | .munmap addr _ => Loaded image p ∨ t.HeapPage p ∨
      ∃ i, t.regionAt addr ≠ some i ∧ (t.regions i).Page p

structure Keeps (t : Task) (c : Call) : Prop where
  disjoint : Disjoint image (t.step c).2
  others : ∀ p, Foreign image t p c → (t.step c).2.pages p = t.pages p

def Task.stop (t : Task) (newBrk avail : Nat) : Nat :=
  (t.pages.grow (pageUp newBrk - pageUp t.heapBrk) (pageUp t.heapBrk) avail).2.getD (pageUp newBrk)

def Task.Maps (t : Task) (pages avail p : Nat) : Prop :=
  (t.cursor + pages * PAGE_SIZE) % 2 ^ 64 ≤ USER_MMAP_LIMIT ∧ t.freeRegion ≠ none ∧
    ∃ k < min pages avail, pageAt (t.cursor / PAGE_SIZE) k = p

def Visits (t : Task) (p : Nat) : Call → Prop
  | .brk newBrk avail =>
      (USER_HEAP_BASE ≤ newBrk ∧ newBrk < OSNOS_USER_VIRT_MAX - PAGE_SIZE) ∧
        pageUp t.heapBrk ≤ p ∧ p < t.stop newBrk avail
  | .mmap length avail => length ≠ 0 ∧ t.Maps (requested length) avail p
  | .mmapShm length offset size avail _ =>
      (length ≠ 0 ∧ offset % PAGE_SIZE = 0 ∧
        (offset / PAGE_SIZE + requested length) * PAGE_SIZE % 2 ^ 64 ≤ size) ∧
        t.Maps (requested length) avail p
  | .munmap _ _ => False

def Careful (t : Task) (c : Call) : Prop := ∀ p, Visits t p c → ¬Foreign image t p c

structure Inv (t : Task) : Prop where
  disjoint : Disjoint image t
  mapped : ∀ p, Loaded image p ∨ t.HeapPage p ∨ (∃ i, (t.regions i).Page p) → t.pages p ≠ none
  low : USER_HEAP_BASE ≤ t.heapBrk
  unused : ∀ i, (t.regions i).addr = 0 → (t.regions i).len = 0

end

variable {image : Nat → Bool} {t : Task}

inductive Owner
  | loader
  | heap
  | region (i : Fin TASK_MMAP_MAX)

def Task.Owns (image : Nat → Bool) (t : Task) (p : Nat) : Owner → Prop
  | .loader => Loaded image p
  | .heap => t.HeapPage p
  | .region i => (t.regions i).Page p

theorem disjoint_iff : Disjoint image t ↔ (∀ p, image p → ¬StackPage p) ∧
    ∀ p o o', t.Owns image p o → t.Owns image p o' → o = o' := by
  constructor
  · intro disjoint
    refine ⟨disjoint.image_stack, fun p o o' first second => ?_⟩
    cases o <;> cases o'
    case loader.loader | heap.heap => rfl
    case loader.heap => exact absurd first (disjoint.heap_loaded p second)
    case loader.region j => exact absurd first (disjoint.region_loaded p j second)
    case heap.loader => exact absurd second (disjoint.heap_loaded p first)
    case heap.region j => exact absurd second (disjoint.heap_region p j first)
    case region.loader i => exact absurd second (disjoint.region_loaded p i first)
    case region.heap i => exact absurd first (disjoint.heap_region p i second)
    case region.region i j => exact congrArg _ (disjoint.regions p i j first second)
  · rintro ⟨apart, one⟩
    constructor
    · exact apart
    · exact fun p heap loaded => nomatch one p .heap .loader heap loaded
    · exact fun p i heap page => nomatch one p .heap (.region i) heap page
    · exact fun p i page loaded => nomatch one p (.region i) .loader page loaded
    · exact fun p i j first second => Owner.region.inj (one p (.region i) (.region j) first second)

theorem taken_iff {p : Nat} : (Loaded image p ∨ t.HeapPage p ∨ ∃ i, (t.regions i).Page p) ↔
    ∃ o, t.Owns image p o := by
  constructor
  · rintro (loaded | heap | ⟨i, page⟩)
    · exact ⟨.loader, loaded⟩
    · exact ⟨.heap, heap⟩
    · exact ⟨.region i, page⟩
  rintro ⟨o, owns⟩
  cases o with
  | loader => exact .inl owns
  | heap => exact .inr (.inl owns)
  | region i => exact .inr (.inr ⟨i, owns⟩)

section
variable {pages : Pages} {brk next : Nat}

theorem owns_same (p : Nat) (o : Owner) :
    Task.Owns image ⟨pages, t.heapBrk, next, t.regions⟩ p o ↔ t.Owns image p o := by
  cases o <;> exact Iff.rfl

theorem owns_of_heap (p : Nat) (o : Owner) (other : some Owner.heap ≠ some o) :
    Task.Owns image ⟨pages, brk, next, t.regions⟩ p o ↔ t.Owns image p o := by
  cases o with
  | heap => exact absurd rfl other
  | _ => exact Iff.rfl

theorem owns_of_region {i : Fin TASK_MMAP_MAX} {g : Region} (p : Nat) (o : Owner)
    (other : some (Owner.region i) ≠ some o) :
    Task.Owns image ⟨pages, t.heapBrk, next, update t.regions i g⟩ p o ↔
      t.Owns image p o := by
  cases o with
  | region j =>
    have elsewhere : j ≠ i := fun same => other (by rw [same])
    simp only [Task.Owns, update_of_ne elsewhere]
  | _ => exact Iff.rfl

end

/-- A call goes through the pages `V`, for the owner `w` if there is one: the others own what
they owned, the pages gone through are that owner's in the end or unmapped, and beside them
only the owner's pages change. -/
structure Works (image : Nat → Bool) (t t' : Task) (w : Option Owner) (V : Nat → Prop) : Prop where
  others : ∀ p o, w ≠ some o → (t'.Owns image p o ↔ t.Owns image p o)
  own : ∀ p o, w = some o → t'.Owns image p o →
    t.Owns image p o ∧ t'.pages p = t.pages p ∨ V p ∧ t'.pages p ≠ none
  alone : ∀ p, ¬V p → t'.pages p ≠ t.pages p → ∃ o, w = some o ∧ t.Owns image p o
  visited : ∀ p, V p → t'.pages p = none ∨ ∃ o, w = some o ∧ t'.Owns image p o
  low : USER_HEAP_BASE ≤ t'.heapBrk
  unused : ∀ i, (t'.regions i).addr = 0 → (t'.regions i).len = 0

namespace Works

variable {t' : Task} {w : Option Owner} {V : Nat → Prop}

theorem idle (inv : Inv image t) {next : Nat} (idle : ∀ p, ¬V p) :
    Works image t ⟨t.pages, t.heapBrk, next, t.regions⟩ w V :=
  ⟨fun p o _ => owns_same p o, fun p o _ owns => .inl ⟨(owns_same p o).1 owns, rfl⟩,
    fun _ _ changed => absurd rfl changed, fun p visit => absurd visit (idle p), inv.low, inv.unused⟩

theorem congr {V' : Nat → Prop} (works : Works image t t' w V) (same : ∀ p, V' p ↔ V p) :
    Works image t t' w V' := by
  obtain rfl : V' = V := funext fun p => propext (same p)
  exact works

theorem keeps_iff (works : Works image t t' w V) (inv : Inv image t) :
    Disjoint image t' ∧ (∀ p o, w ≠ some o → t.Owns image p o → t'.pages p = t.pages p) ↔
      ∀ p o, V p → w ≠ some o → ¬t.Owns image p o := by
  obtain ⟨apart, one⟩ := disjoint_iff.1 inv.disjoint
  constructor
  · rintro ⟨disjoint, same⟩ p o visit other owns
    rcases works.visited p visit with gone | ⟨w', rfl, owns'⟩
    · exact inv.mapped p (taken_iff.2 ⟨o, owns⟩) ((same p o other owns).symm.trans gone)
    · rw [← works.others p o other] at owns
      exact other (congrArg some ((disjoint_iff.1 disjoint).2 p w' o owns' owns))
  intro careful
  -- what the owner has in the end was its own before, or of no one else
  have clash : ∀ p o o', w = some o → w ≠ some o' → t'.Owns image p o → ¬t'.Owns image p o' := by
    intro p o o' own other owns owns'
    rw [works.others p o' other] at owns'
    rcases works.own p o own owns with ⟨old, -⟩ | ⟨visit, -⟩
    · exact other (one p o o' old owns' ▸ own)
    · exact careful p o' visit other owns'
  refine ⟨disjoint_iff.2 ⟨apart, fun p o o' first second => ?_⟩, fun p o other owns => ?_⟩
  · by_cases own : w = some o
    · by_cases own' : w = some o'
      · exact Option.some.inj (own.symm.trans own')
      · exact absurd second (clash p o o' own own' first)
    · by_cases own' : w = some o'
      · exact absurd first (clash p o' o own' own second)
      · exact one p o o' ((works.others p o own).1 first) ((works.others p o' own').1 second)
  · by_contra changed
    obtain ⟨o', own, owns'⟩ := works.alone p (fun visit => careful p o visit other owns) changed
    exact other (one p o' o owns' owns ▸ own)

theorem inv (works : Works image t t' w V) (inv : Inv image t) (disjoint : Disjoint image t')
    (same : ∀ p o, w ≠ some o → t.Owns image p o → t'.pages p = t.pages p) : Inv image t' := by
  refine ⟨disjoint, fun p taken => ?_, works.low, works.unused⟩
  obtain ⟨o, owns⟩ := taken_iff.1 taken
  have mapped : ∀ {o}, t.Owns image p o → t.pages p ≠ none := fun owns =>
    inv.mapped p (taken_iff.2 ⟨_, owns⟩)
  by_cases own : w = some o
  · rcases works.own p o own owns with ⟨old, kept⟩ | ⟨-, some⟩
    · rw [kept]
      exact mapped old
    · exact some
  · rw [works.others p o own] at owns
    rw [same p o own owns]
    exact mapped owns

end Works

def Pages.fill (m : Pages) (lo hi : Nat) : Pages := fun q =>
  if lo ≤ q ∧ q < hi ∧ m q = none then some .heap else m q

theorem fill_mapped {m : Pages} {lo hi : Nat} (mapped : m lo ≠ none) :
    m.fill (lo + 1) hi = m.fill lo hi := by
  funext q
  unfold Pages.fill
  by_cases here : q = lo
  · subst here
    simp [mapped]
  · have same : lo + 1 ≤ q ↔ lo ≤ q := by omega
    simp only [same]

theorem fill_update {m : Pages} {lo hi : Nat} (missing : m lo = none) (below : lo < hi) :
    Pages.fill (update m lo (some .heap)) (lo + 1) hi = m.fill lo hi := by
  funext q
  unfold Pages.fill
  by_cases here : q = lo
  · subst here
    simp [missing, below]
  · have same : lo + 1 ≤ q ↔ lo ≤ q := by omega
    simp only [same, update_of_ne here]

theorem fill_empty (m : Pages) {lo hi : Nat} (empty : hi ≤ lo) : m.fill lo hi = m := by
  funext q
  unfold Pages.fill
  rw [if_neg (by omega)]

theorem grow_eq (m : Pages) (n lo avail : Nat) :
    (m.grow n lo avail).1 = m.fill lo ((m.grow n lo avail).2.getD (lo + n)) ∧
      ∀ failed, (m.grow n lo avail).2 = some failed → lo ≤ failed ∧ failed < lo + n := by
  induction n generalizing m lo avail with
  | zero => exact ⟨(fill_empty m (le_of_eq (add_zero lo))).symm, nofun⟩
  | succ n ih =>
    have total : lo + 1 + n = lo + (n + 1) := by omega
    unfold Pages.grow
    split
    next mapped =>
      obtain ⟨filled, range⟩ := ih m (lo + 1) avail
      rw [total] at filled range
      refine ⟨?_, fun failed h => ?_⟩
      · rw [filled, fill_mapped (by simpa [Option.isSome_iff_ne_none] using mapped)]
      · have := range failed h
        omega
    rename_i missing
    have missing : m lo = none := by simpa using missing
    split
    · refine ⟨(fill_empty m le_rfl).symm, fun failed h => ?_⟩
      cases h
      omega
    rename_i avail
    obtain ⟨filled, range⟩ := ih (update m lo (some .heap)) (lo + 1) avail
    rw [total] at filled range
    refine ⟨?_, fun failed h => ?_⟩
    · rw [filled, fill_update missing]
      cases result : (Pages.grow (update m lo (some .heap)) n (lo + 1) avail).2 with
      | none => exact (by omega : lo < lo + (n + 1))
      | some failed => exact (by have := range failed result; omega : lo < failed)
    · have := range failed h
      omega

theorem pageUp_mono {a b : Nat} (le : a ≤ b) : pageUp a ≤ pageUp b :=
  Nat.div_le_div_right (Nat.add_le_add_right le _)

theorem brk_cases (t : Task) (newBrk avail : Nat) :
    (t.sysBrk newBrk avail).2 = t ∧ (∀ p, ¬Visits t p (.brk newBrk avail)) ∨
    ((USER_HEAP_BASE ≤ newBrk ∧ newBrk < OSNOS_USER_VIRT_MAX - PAGE_SIZE) ∧ t.heapBrk < newBrk ∧
      t.stop newBrk avail = pageUp newBrk ∧
      (t.sysBrk newBrk avail).2 = { t with
        pages := t.pages.fill (pageUp t.heapBrk) (pageUp newBrk), heapBrk := newBrk }) ∨
    ((USER_HEAP_BASE ≤ newBrk ∧ newBrk < OSNOS_USER_VIRT_MAX - PAGE_SIZE) ∧
      t.stop newBrk avail < pageUp newBrk ∧ (t.sysBrk newBrk avail).2 = { t with
        pages := t.pages.clear (pageUp t.heapBrk) (t.stop newBrk avail) }) ∨
    ((∀ p, ¬Visits t p (.brk newBrk avail)) ∧ USER_HEAP_BASE ≤ newBrk ∧ newBrk ≤ t.heapBrk ∧
      (t.sysBrk newBrk avail).2 = { t with
        pages := t.pages.clear (pageUp newBrk) (pageUp t.heapBrk), heapBrk := newBrk }) := by
  have idle : newBrk ≤ t.heapBrk → ∀ p, ¬Visits t p (.brk newBrk avail) := by
    rintro le p ⟨-, low, high⟩
    have none := pageUp_mono le
    have empty : pageUp newBrk - pageUp t.heapBrk = 0 := by omega
    rw [Task.stop, empty] at high
    change p < pageUp newBrk at high
    omega
  unfold Task.sysBrk
  split
  next zero =>
    subst zero
    exact .inl ⟨rfl, fun p visit => absurd visit.1.1 (by decide)⟩
  split
  next low =>
    exact .inl ⟨rfl, fun p visit => absurd low (not_lt.2 visit.1.1)⟩
  split
  next high =>
    exact .inl ⟨rfl, fun p visit => absurd visit.1.2 (not_lt.2 high)⟩
  rename_i low high
  split
  next same =>
    exact .inl ⟨rfl, idle same.le⟩
  have accepted := And.intro (not_lt.1 low) (not_le.1 high)
  split
  next up =>
    have le := pageUp_mono up.le
    have span : pageUp t.heapBrk + (pageUp newBrk - pageUp t.heapBrk) = pageUp newBrk := by omega
    obtain ⟨filled, range⟩ :=
      grow_eq t.pages (pageUp newBrk - pageUp t.heapBrk) (pageUp t.heapBrk) avail
    rw [span] at filled
    dsimp only
    split
    next pages grown =>
      rw [grown] at filled
      refine .inr (.inl ⟨accepted, up, ?_, ?_⟩)
      · rw [Task.stop, grown]
        rfl
      · dsimp only at filled ⊢
        rw [filled]
        rfl
    next pages failed grown =>
      rw [grown] at filled range
      have stop : t.stop newBrk avail = failed := by
        rw [Task.stop, grown]
        rfl
      refine .inr (.inr (.inl ⟨accepted, ?_, ?_⟩))
      · rw [stop, ← span]
        exact (range failed rfl).2
      -- what the loop filled is unmapped again
      have undone : pages.clear (pageUp t.heapBrk) failed = t.pages.clear (pageUp t.heapBrk) failed := by
        dsimp only [Option.getD_some] at filled
        rw [filled]
        funext q
        unfold Pages.clear Pages.fill
        split
        · rfl
        · rw [if_neg (by tauto)]
      rw [undone, stop]
  next down =>
    exact .inr (.inr (.inr ⟨idle (by omega), accepted.1, by omega, rfl⟩))

theorem brk_works (inv : Inv image t) (newBrk avail : Nat) :
    Works image t (t.sysBrk newBrk avail).2 (some .heap) (Visits t · (.brk newBrk avail)) := by
  rcases brk_cases t newBrk avail with ⟨same, idle⟩ | ⟨accepted, up, stop, grown⟩ |
    ⟨accepted, -, failed⟩ | ⟨idle, low, down, shrunk⟩
  · rw [same]
    exact .idle inv idle
  · have inside : ∀ p, Visits t p (.brk newBrk avail) ↔
        pageUp t.heapBrk ≤ p ∧ p < pageUp newBrk := by
      intro p
      rw [← stop]
      exact ⟨And.right, fun here => ⟨accepted, here⟩⟩
    rw [grown]
    refine ⟨owns_of_heap, fun p o own heap => ?_, fun p outside changed => ?_,
      fun p visit => ?_, accepted.1, inv.unused⟩
    · cases own
      by_cases old : p < pageUp t.heapBrk
      · exact .inl ⟨⟨heap.1, old⟩, if_neg (by omega)⟩
      have here : pageUp t.heapBrk ≤ p ∧ p < pageUp newBrk := ⟨not_lt.1 old, heap.2⟩
      refine .inr ⟨(inside p).2 here, ?_⟩
      change Pages.fill _ _ _ p ≠ none
      unfold Pages.fill
      split
      · nofun
      · exact fun missing => absurd missing (by tauto)
    · rw [inside] at outside
      exact absurd (if_neg (by tauto)) changed
    · have here := (inside p).1 visit
      exact .inr ⟨.heap, rfl, (pageUp_mono inv.low).trans here.1, here.2⟩
  · rw [failed]
    refine ⟨owns_of_heap, fun p o own heap => ?_, fun p outside changed => ?_,
      fun p visit => .inl (if_pos visit.2), inv.low, inv.unused⟩
    · cases own
      have below : p < pageUp t.heapBrk := heap.2
      exact .inl ⟨heap, if_neg (by omega)⟩
    · exact absurd (if_neg fun here => outside ⟨accepted, here⟩) changed
  · have less := pageUp_mono down
    rw [shrunk]
    refine ⟨owns_of_heap, fun p o own heap => ?_, fun p _ changed => ?_,
      fun p visit => absurd visit (idle p), low, inv.unused⟩
    · cases own
      have below : p < pageUp newBrk := heap.2
      exact .inl ⟨⟨heap.1, by omega⟩, if_neg (by omega)⟩
    · have here : pageUp newBrk ≤ p ∧ p < pageUp t.heapBrk := by
        by_contra other
        exact changed (if_neg other)
      exact ⟨.heap, rfl, (pageUp_mono low).trans here.1, here.2⟩

theorem requested_lt (length : Nat) : requested length < 2 ^ 52 := by
  unfold requested PAGE_SIZE
  omega

theorem cursor_ne_zero (t : Task) : t.cursor ≠ 0 := by
  unfold Task.cursor
  split
  · decide
  · assumption

theorem freeRegion_addr {slot : Fin TASK_MMAP_MAX} (free : t.freeRegion = some slot) :
    (t.regions slot).addr = 0 := by
  simpa using List.find?_some free

theorem map_cases (t : Task) (shm : Bool) (pages avail : Nat) (short : Errno) :
    (t.mapPages shm pages avail short).2 = { t with mmapNext := t.cursor } ∧
      (∀ p, ¬t.Maps pages avail p) ∨
    (avail < pages ∧ (∀ p, t.Maps pages avail p ↔
        ∃ k < avail, pageAt (t.cursor / PAGE_SIZE) k = p) ∧
      (t.mapPages shm pages avail short).2 = { t with
        pages := t.pages.setRange (t.cursor / PAGE_SIZE) avail none, mmapNext := t.cursor }) ∨
    ∃ slot, t.freeRegion = some slot ∧ (∀ p, t.Maps pages avail p ↔
        ∃ k < pages, pageAt (t.cursor / PAGE_SIZE) k = p) ∧
      (t.mapPages shm pages avail short).2 = { t with
        pages := t.pages.setRange (t.cursor / PAGE_SIZE) pages (some .mapping)
        regions := update t.regions slot ⟨t.cursor, pages * PAGE_SIZE % 2 ^ 64, shm⟩
        mmapNext := (t.cursor + pages * PAGE_SIZE) % 2 ^ 64 } := by
  unfold Task.mapPages
  dsimp only
  split
  next beyond =>
    exact .inl ⟨rfl, fun p maps => absurd maps.1 (not_le.2 beyond)⟩
  rename_i within
  have within := not_lt.1 within
  change _ ∨ _ ∨ ∃ slot, t.freeRegion = some slot ∧ _
  have region : Task.freeRegion { t with mmapNext := t.cursor } = t.freeRegion := rfl
  rw [region]
  cases free : t.freeRegion with
  | none => exact .inl ⟨rfl, fun p maps => maps.2.1 free⟩
  | some slot =>
    have some_slot : t.freeRegion ≠ none := by rw [free]; nofun
    dsimp only
    split
    next few =>
      refine .inr (.inl ⟨few, fun p => ?_, rfl⟩)
      unfold Task.Maps
      rw [min_eq_right few.le]
      exact ⟨fun maps => maps.2.2, fun reached => ⟨within, some_slot, reached⟩⟩
    rename_i enough
    refine .inr (.inr ⟨slot, rfl, fun p => ?_, rfl⟩)
    unfold Task.Maps
    rw [min_eq_left (not_lt.1 enough)]
    exact ⟨fun maps => maps.2.2, fun reached => ⟨within, some_slot, reached⟩⟩

theorem newRegion_page {shm : Bool} {pages p : Nat} (small : pages < 2 ^ 52) :
    Region.Page ⟨t.cursor, pages * PAGE_SIZE % 2 ^ 64, shm⟩ p ↔
      ∃ k < pages, pageAt (t.cursor / PAGE_SIZE) k = p := by
  have count : pageUp (pages * PAGE_SIZE % 2 ^ 64) = pages := by
    unfold pageUp PAGE_SIZE
    omega
  unfold Region.Page
  rw [count]
  exact ⟨fun page => page.2, fun reached => ⟨cursor_ne_zero t, reached⟩⟩

theorem unused_page {g : Region} (unused : g.addr = 0) (p : Nat) : ¬g.Page p :=
  fun page => page.1 unused

theorem unused_update (inv : Inv image t) (slot : Fin TASK_MMAP_MAX) {g : Region}
    (unused : g.addr = 0 → g.len = 0) (i : Fin TASK_MMAP_MAX) :
    (update t.regions slot g i).addr = 0 → (update t.regions slot g i).len = 0 := by
  by_cases here : i = slot
  · rw [here, update_self]
    exact unused
  · rw [update_of_ne here]
    exact inv.unused i

theorem map_works (inv : Inv image t) (shm : Bool) {pages : Nat} (avail : Nat) (short : Errno)
    (small : pages < 2 ^ 52) :
    ∃ w, (∀ p o, t.Owns image p o → w ≠ some o) ∧
      Works image t (t.mapPages shm pages avail short).2 w (t.Maps pages avail) := by
  rcases map_cases t shm pages avail short with ⟨same, idle⟩ | ⟨few, reached, undone⟩ |
    ⟨slot, free, reached, mapped⟩
  · rw [same]
    exact ⟨none, nofun, .idle inv idle⟩
  · rw [undone]
    refine ⟨none, nofun, fun p o _ => owns_same p o, nofun, fun p outside changed => ?_,
      fun p visit => .inl (if_pos ((reached p).1 visit)), inv.low, inv.unused⟩
    exact absurd (if_neg fun here => outside ((reached p).2 here)) changed
  rw [mapped]
  have page : ∀ p, (update t.regions slot
      ⟨t.cursor, pages * PAGE_SIZE % 2 ^ 64, shm⟩ slot).Page p ↔ t.Maps pages avail p := fun p => by
    rw [update_self, reached p, newRegion_page small]
  refine ⟨some (.region slot), fun p o owns same => ?_, owns_of_region,
    fun p o own owns => ?_, fun p outside changed => ?_,
    fun p visit => .inr ⟨_, rfl, (page p).2 visit⟩, inv.low,
    unused_update inv slot fun unused => absurd unused (cursor_ne_zero t)⟩
  · cases same
    exact unused_page (freeRegion_addr free) p owns
  · cases own
    have visit := (page p).1 owns
    refine .inr ⟨visit, ?_⟩
    change Pages.setRange _ _ _ _ p ≠ none
    rw [Pages.setRange, if_pos ((reached p).1 visit)]
    nofun
  · exact absurd (if_neg fun here => outside ((reached p).2 here)) changed

theorem munmap_works (inv : Inv image t) (addr length : Nat) :
    Works image t (t.sysMunmap addr length).2 ((t.regionAt addr).map .region) (fun _ => False) := by
  unfold Task.sysMunmap
  split
  · exact .idle inv fun _ => id
  cases found : t.regionAt addr with
  | none => exact .idle inv fun _ => id
  | some i =>
    have here : (t.regions i).addr = addr := by simpa using List.find?_some found
    refine ⟨owns_of_region, fun p o own owns => ?_, fun p _ changed => ?_,
      fun p => False.elim, inv.low, unused_update inv i fun _ => rfl⟩
    · cases own
      simp only [Task.Owns, update_self] at owns
      exact absurd owns (unused_page rfl p)
    -- the pages gone through are those of the region; an unused one has none
    · have gone : ∃ k < pageUp (t.regions i).len, pageAt (addr / PAGE_SIZE) k = p := by
        by_contra other
        exact changed (if_neg other)
      obtain ⟨k, small, at_k⟩ := gone
      refine ⟨_, rfl, fun unused => ?_, k, small, here.symm ▸ at_k⟩
      rw [inv.unused i unused] at small
      exact absurd small (not_lt_zero k)

/-- Every call works for one owner, and the pages of the others are those foreign to it. -/
theorem step_works (inv : Inv image t) (c : Call) :
    ∃ w, (∀ p, Foreign image t p c ↔ ∃ o, w ≠ some o ∧ t.Owns image p o) ∧
      Works image t (t.step c).2 w (Visits t · c) := by
  have all : ∀ {w : Option Owner}, (∀ p o, t.Owns image p o → w ≠ some o) → ∀ p,
      (Loaded image p ∨ t.HeapPage p ∨ ∃ i, (t.regions i).Page p) ↔
        ∃ o, w ≠ some o ∧ t.Owns image p o := fun other p =>
    taken_iff.trans (exists_congr fun o => ⟨fun owns => ⟨other p o owns, owns⟩, And.right⟩)
  have idle : ∀ c : Call, (t.step c).2 = t → (∀ p, ¬Visits t p c) →
      Works image t (t.step c).2 none (Visits t · c) := by
    intro c same idle
    rw [same]
    exact .idle inv idle
  cases c with
  | brk newBrk avail =>
    refine ⟨some .heap, fun p => ⟨?_, ?_⟩, brk_works inv newBrk avail⟩
    · rintro (loaded | ⟨i, page⟩)
      · exact ⟨.loader, nofun, loaded⟩
      · exact ⟨.region i, nofun, page⟩
    rintro ⟨o, other, owns⟩
    cases o with
    | loader => exact .inl owns
    | heap => exact absurd rfl other
    | region i => exact .inr ⟨i, owns⟩
  | mmap length avail =>
    by_cases zero : length = 0
    · refine ⟨none, all nofun, idle _ ?_ fun p visit => visit.1 zero⟩
      exact congrArg Prod.snd (if_pos zero)
    by_cases wrapped : requested length = 0
    · refine ⟨none, all nofun, idle _ ?_ fun p visit => ?_⟩
      · exact congrArg Prod.snd ((if_neg zero).trans (if_pos wrapped))
      · obtain ⟨k, few, -⟩ := visit.2.2.2
        omega
    obtain ⟨w, fresh, works⟩ := map_works inv false avail .enomem (requested_lt length)
    refine ⟨w, all fresh, ?_⟩
    have step : t.step (.mmap length avail) = _ := (if_neg zero).trans (if_neg wrapped)
    rw [step]
    exact works.congr fun p => ⟨fun visit => visit.2, fun maps => ⟨zero, maps⟩⟩
  | mmapShm length offset size avail short =>
    by_cases accepted : length ≠ 0 ∧ offset % PAGE_SIZE = 0 ∧
        (offset / PAGE_SIZE + requested length) * PAGE_SIZE % 2 ^ 64 ≤ size
    · obtain ⟨w, fresh, works⟩ := map_works inv true avail short (requested_lt length)
      refine ⟨w, all fresh, ?_⟩
      have step : t.step (.mmapShm length offset size avail short) = _ :=
        (if_neg accepted.1).trans ((if_neg (not_not.2 accepted.2.1)).trans
          (if_neg (not_lt.2 accepted.2.2)))
      rw [step]
      exact works.congr fun p => ⟨fun visit => visit.2, fun maps => ⟨accepted, maps⟩⟩
    refine ⟨none, all nofun, idle _ ?_ fun p visit => accepted visit.1⟩
    change (t.mmapShared length offset size avail short).2 = t
    unfold Task.mmapShared
    split
    · rfl
    split
    · rfl
    split
    · rfl
    next some aligned large =>
      exact absurd ⟨some, not_not.1 aligned, not_lt.1 large⟩ accepted
  | munmap addr length =>
    refine ⟨_, fun p => ⟨?_, ?_⟩, munmap_works inv addr length⟩
    · rintro (loaded | heap | ⟨i, other, page⟩)
      · exact ⟨.loader, by simp, loaded⟩
      · exact ⟨.heap, by simp, heap⟩
      · exact ⟨.region i, by simpa using other, page⟩
    rintro ⟨o, other, owns⟩
    cases o with
    | loader => exact .inl owns
    | heap => exact .inr (.inl owns)
    | region i => exact .inr (.inr ⟨i, by simpa using other, owns⟩)

theorem keeps_iff (inv : Inv image t) (c : Call) : Keeps image t c ↔ Careful image t c := by
  obtain ⟨w, foreign, works⟩ := step_works inv c
  constructor
  · rintro ⟨disjoint, others⟩ p visit strange
    obtain ⟨o, other, owns⟩ := (foreign p).1 strange
    exact (works.keeps_iff inv).1 ⟨disjoint, fun p o other owns =>
      others p ((foreign p).2 ⟨o, other, owns⟩)⟩ p o visit other owns
  intro careful
  obtain ⟨disjoint, same⟩ := (works.keeps_iff inv).2 fun p o visit other owns =>
    careful p visit ((foreign p).2 ⟨o, other, owns⟩)
  refine ⟨disjoint, fun p strange => ?_⟩
  obtain ⟨o, other, owns⟩ := (foreign p).1 strange
  exact same p o other owns

theorem step_inv (inv : Inv image t) {c : Call} (keeps : Keeps image t c) :
    Inv image (t.step c).2 := by
  obtain ⟨w, foreign, works⟩ := step_works inv c
  exact works.inv inv keeps.disjoint fun p o other owns =>
    keeps.others p ((foreign p).2 ⟨o, other, owns⟩)

theorem inv_start (apart : ∀ p, image p → ¬StackPage p) : Inv image (start image) := by
  have no_heap : ∀ p, ¬(start image).HeapPage p := fun p heap =>
    absurd (heap.1.trans_lt heap.2) (lt_irrefl _)
  have no_region : ∀ p i, ¬((start image).regions i).Page p := fun p i => unused_page rfl p
  refine ⟨⟨apart, fun p heap => absurd heap (no_heap p), fun p i heap => absurd heap (no_heap p),
    fun p i page => absurd page (no_region p i), fun p i j page => absurd page (no_region p i)⟩,
    fun p owned => ?_, le_refl _, fun _ _ => rfl⟩
  rcases owned with loaded | heap | ⟨i, page⟩
  · change (if StackPage p then some Origin.stack else if image p then some .image else none) ≠ none
    rcases loaded with loaded | stack
    · rw [if_neg (apart p loaded), if_pos loaded]
      nofun
    · rw [if_pos stack]
      nofun
  · exact absurd heap (no_heap p)
  · exact absurd page (no_region p i)

/-- From the start of a program on, the four ranges stay disjoint and each call keeps to its
own pages, exactly if the image leaves the stack alone and no loop of `brk` or `mmap` goes
through a page that belongs to another. -/
theorem ranges_apart (image : Nat → Bool) (cs : List Call) (t : Task) :
    Disjoint image (start image) ∧ Prog.Runs exec (Keeps image) (start image) cs t ↔
      (∀ p, image p = true → ¬StackPage p) ∧
        Prog.Runs exec (Careful image) (start image) cs t := by
  have same : (∀ p, image p = true → ¬StackPage p) →
      (Prog.Runs exec (Keeps image) (start image) cs t ↔
        Prog.Runs exec (Careful image) (start image) cs t) := by
    intro apart
    refine Prog.Runs.congr (fun t c (inv : Inv image t) => keeps_iff inv c)
      (fun t c a t' inv keeps run => ?_) (inv_start apart)
    obtain rfl : (t.step c).2 = t' := congrArg Prod.snd (Option.some.inj run)
    exact step_inv inv keeps
  constructor
  · rintro ⟨disjoint, runs⟩
    exact ⟨disjoint.image_stack, (same disjoint.image_stack).1 runs⟩
  · rintro ⟨apart, runs⟩
    exact ⟨(inv_start apart).disjoint, (same apart).2 runs⟩

variable {avail : Nat}

theorem grow_enough {m : Pages} {n lo : Nat} (enough : n ≤ avail) :
    (m.grow n lo avail).2 = none := by
  induction n generalizing m lo avail with
  | zero => rfl
  | succ n ih =>
    unfold Pages.grow
    split
    · exact ih (by omega)
    cases avail with
    | zero => omega
    | succ avail => exact ih (by omega)

theorem brk_grows {newBrk : Nat} (high : newBrk < OSNOS_USER_VIRT_MAX - PAGE_SIZE)
    (low : USER_HEAP_BASE ≤ newBrk) (up : pageUp t.heapBrk < pageUp newBrk)
    (enough : pageUp newBrk - pageUp t.heapBrk ≤ avail) :
    (t.sysBrk newBrk avail).2 = { t with
      pages := t.pages.fill (pageUp t.heapBrk) (pageUp newBrk), heapBrk := newBrk } := by
  have stop : t.stop newBrk avail = pageUp newBrk := by
    rw [Task.stop, grow_enough enough]
    rfl
  have visited : Visits t (pageUp t.heapBrk) (.brk newBrk avail) :=
    ⟨⟨low, high⟩, le_rfl, stop.symm ▸ up⟩
  rcases brk_cases t newBrk avail with ⟨-, idle⟩ | ⟨-, -, -, grown⟩ | ⟨-, short, -⟩ | ⟨idle, -⟩
  · exact absurd visited (idle _)
  · exact grown
  · omega
  · exact absurd visited (idle _)

theorem brk_shrinks {newBrk : Nat} (low : USER_HEAP_BASE ≤ newBrk) (down : newBrk < t.heapBrk)
    (high : t.heapBrk < OSNOS_USER_VIRT_MAX - PAGE_SIZE) :
    (t.sysBrk newBrk avail).2 = { t with
      pages := t.pages.clear (pageUp newBrk) (pageUp t.heapBrk), heapBrk := newBrk } := by
  have some : newBrk ≠ 0 := by
    rintro rfl
    exact absurd low (by decide)
  unfold Task.sysBrk
  rw [if_neg some, if_neg (not_lt.2 low), if_neg (not_le.2 (down.trans high)),
    if_neg down.ne, if_neg (not_lt.2 down.le)]

theorem exec_brk (t : Task) (newBrk avail : Nat) : exec (.brk newBrk avail) t =
    some (.ok (t.sysBrk newBrk avail).1, (t.sysBrk newBrk avail).2) := rfl

/-- A heap that grows over a page of the mappings and then shrinks to nothing takes the page
with it; the regions stay as they are. -/
theorem grow_and_shrink {newBrk p : Nat} (fresh : t.heapBrk = USER_HEAP_BASE)
    (high : newBrk < OSNOS_USER_VIRT_MAX - PAGE_SIZE) (low : USER_HEAP_BASE < newBrk)
    (inside : pageUp USER_HEAP_BASE ≤ p ∧ p < pageUp newBrk) (enough : pageUp newBrk ≤ avail) :
    ∃ t', Prog.Runs exec (fun _ _ => True) t [.brk newBrk avail, .brk USER_HEAP_BASE 0] t' ∧
      t'.regions = t.regions ∧ t'.pages p = none := by
  have first := exec_brk t newBrk avail
  rw [brk_grows high low.le (by rw [fresh]; omega) (by omega)] at first
  have second := exec_brk { t with
    pages := t.pages.fill (pageUp t.heapBrk) (pageUp newBrk), heapBrk := newBrk } USER_HEAP_BASE 0
  rw [brk_shrinks le_rfl low high] at second
  refine ⟨_, .cons trivial first (.cons trivial second (.nil _)), rfl, ?_⟩
  unfold Pages.clear
  exact if_pos inside

def oneMapping : Task := ((start fun _ => false).step (.mmap 4096 1)).2

/-- The heap grows over the page and shrinks again: the page is gone, and `mmap_regions`
still lists it. -/
theorem heap_frees_mapping :
    (oneMapping.regions 0).Page 0x20000 ∧ oneMapping.pages 0x20000 = some .mapping ∧
      ∃ t, Prog.Runs exec (fun _ _ => True) oneMapping
          [.brk 0x20001000 0x20001, .brk USER_HEAP_BASE 0] t ∧
        (t.regions 0).Page 0x20000 ∧ t.pages 0x20000 = none := by
  have page : (oneMapping.regions 0).Page 0x20000 := ⟨by decide, 0, by decide, by decide⟩
  have fresh : oneMapping.heapBrk = USER_HEAP_BASE := by decide
  have mapped : oneMapping.pages 0x20000 = some .mapping := by decide
  generalize oneMapping = t at page fresh mapped ⊢
  obtain ⟨t', runs, regions, gone⟩ := grow_and_shrink fresh (show 0x20001000 < _ by norm_num)
    (by norm_num) (show _ ∧ 0x20000 < _ by norm_num [pageUp]) (show _ ≤ 0x20001 by norm_num [pageUp])
  exact ⟨page, mapped, t', runs, by rw [regions]; exact page, gone⟩

end Osnos.Ranges
