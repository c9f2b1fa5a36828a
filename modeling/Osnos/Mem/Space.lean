import Osnos.Base.Radix
import Osnos.Mem.Vmm

/-! A tree of table frames with leaf entries below it, and what adding a table, setting a
leaf and giving an empty table back do to it. -/
namespace Osnos.Mem
open Radix Ram Option List

def Ram.child (r : Ram) (t i : Nat) : Option Nat :=
  if present (r.entry t i) then some (frameOf (r.entry t i)) else none

structure UserPath (p : List Nat) : Prop where
  short : p.length ≤ 3
  slots : ∀ i ∈ p, i < 512
  lower : ∀ i ∈ p.head?, i < 256

theorem UserPath.shorter (p q : List Nat) (initial : q <+: p) (path : UserPath p) : UserPath q where
  short := initial.length_le.trans path.short
  slots i mem := path.slots i (initial.subset mem)
  lower i mem := by
    obtain ⟨_, rfl⟩ := initial
    refine path.lower i ?_
    rw [head?_append, Option.mem_def.1 mem]
    rfl

def tablePath (virt : Nat) : List Nat := [idx virt 4, idx virt 3, idx virt 2]
def tableAt (r : Ram) (pml4 : Nat) (p : List Nat) : Option Nat := descend r.child pml4 p

theorem idx_lt (virt level : Nat) : idx virt level < 512 := Nat.mod_lt _ (by norm_num)

theorem tablePath_user {virt : Nat} (user : virt < 2 ^ 47) : UserPath (tablePath virt) where
  short := le_rfl
  slots i mem := by
    simp only [tablePath, mem_cons, not_mem_nil, or_false] at mem
    rcases mem with rfl | rfl | rfl <;> exact idx_lt ..
  lower i mem := by
    simp only [tablePath, head?_cons, mem_some_iff] at mem
    subst mem
    simp only [idx]
    norm_num
    omega

theorem samePage_iff {virt virt' : Nat} (user : virt < 2 ^ 47) (user' : virt' < 2 ^ 47) :
    tablePath virt = tablePath virt' ∧ idx virt 1 = idx virt' 1 ↔ virt / 4096 = virt' / 4096 := by
  simp only [tablePath, idx, List.cons.injEq, and_true]
  norm_num
  constructor
  · omega
  · intro same
    omega

theorem tableAt_leaf (r : Ram) (pml4 virt : Nat) : leafEntry r pml4 virt =
      ((tableAt r pml4 (tablePath virt)).map fun pt => r.entry pt (idx virt 1)).getD 0 := by
  simp only [leafEntry, tableAt, tablePath, descend, child]
  by_cases p₄ : present (r.entry pml4 (idx virt 4)) = true
  · simp only [p₄, Bool.not_true, Bool.false_eq_true, if_false, if_true, bind_some]
    generalize frameOf (r.entry pml4 (idx virt 4)) = pdpt
    by_cases p₃ : present (r.entry pdpt (idx virt 3)) = true
    · simp only [p₃, Bool.not_true, Bool.false_eq_true, if_false, if_true, bind_some]
      generalize frameOf (r.entry pdpt (idx virt 3)) = pd
      by_cases p₂ : present (r.entry pd (idx virt 2)) = true
      · simp [p₂]
      · simp [p₂]
    · simp [p₃]
  · simp [p₄]

def Ram.leaf (r : Ram) (pml4 virt : Nat) : Option Word :=
  (tableAt r pml4 (tablePath virt)).bind fun pt =>
    if present (r.entry pt (idx virt 1)) then some (r.entry pt (idx virt 1)) else none

theorem vmmLookup_eq (r : Ram) (pml4 virt : Nat) : vmmLookup r pml4 virt =
    ((r.leaf pml4 virt).map fun e => frameOf e * 4096 + virt % 4096).getD 0 := by
  unfold vmmLookup leaf
  rw [tableAt_leaf]
  cases tableAt r pml4 (tablePath virt) with
  | none =>
    have absent : present 0#64 = false := present_zero
    simp [absent]
  | some pt =>
    simp only [map_some, getD_some, bind_some]
    cases present (r.entry pt (idx virt 1)) <;> rfl

structure Space (s : Phys) (pml4 : Nat) : Prop where
  ready : s.pmm.ready = true
  unshared : Unshared s.ram.child UserPath pml4
  inUse : ∀ p f, UserPath p → tableAt s.ram pml4 p = some f →
    s.pmm.bitmap f = true ∧ f < s.pmm.totalPages

section
variable {s : Phys} {r r' : Ram} {pml4 t i virt : Nat} {p : List Nat}

theorem child_eq (same : r'.entry t i = r.entry t i) : r'.child t i = r.child t i := by
  rw [child, child, same]

theorem tableAt_snoc (leads : tableAt r pml4 p = some t) (i : Nat) :
    tableAt r pml4 (p ++ [i]) = r.child t i := by
  rw [tableAt, descend_snoc, show descend r.child pml4 p = some t from leads]
  rfl

theorem leaf_congr (table : tableAt r' pml4 (tablePath virt) = tableAt r pml4 (tablePath virt))
    (entry : ∀ pt, tableAt r pml4 (tablePath virt) = some pt →
      r'.entry pt (idx virt 1) = r.entry pt (idx virt 1)) : r'.leaf pml4 virt = r.leaf pml4 virt := by
  unfold leaf
  rw [table]
  cases there : tableAt r pml4 (tablePath virt) with
  | none => rfl
  | some pt => simp only [bind_some, entry pt there]

variable {pt : Nat} (space : Space s pml4) (user : virt < 2 ^ 47)
  (leads : tableAt s.ram pml4 (tablePath virt) = some pt)

include space user leads

theorem Space.not_parent {q : List Nat} {j : Nat} (path : UserPath (q ++ [j])) :
    tableAt s.ram pml4 q ≠ some pt := by
  intro found
  have same := space.unshared _ q pt (tablePath_user user)
    (path.shorter _ _ (prefix_append q [j])) leads found
  have short := path.short
  rw [← same] at short
  simp [tablePath] at short

theorem Space.tables_setLeaf (e : Word) {q : List Nat} (path : UserPath q) :
    tableAt (s.ram.setEntry pt (idx virt 1) e) pml4 q = tableAt s.ram pml4 q := by
  refine descend_congr fun q' j n initial found => child_eq ?_
  have longer := path.shorter _ _ initial
  refine entry_setEntry_ne _ e (idx_lt ..) (longer.slots j (by simp)) ?_
  rintro ⟨rfl, -⟩
  exact space.not_parent user leads longer found

theorem Space.setLeaf (e : Word) : Space (s.edit fun r => r.setEntry pt (idx virt 1) e) pml4 where
  ready := space.ready
  unshared := by
    intro p q n hp hq reached reached'
    have hp' := space.tables_setLeaf user leads e hp
    have hq' := space.tables_setLeaf user leads e hq
    exact space.unshared p q n hp hq (hp'.symm.trans reached) (hq'.symm.trans reached')
  inUse p f hp found := space.inUse p f hp ((space.tables_setLeaf user leads e hp).symm.trans found)

theorem Space.leaf_setLeaf (e : Word) {v : Nat} (user' : v < 2 ^ 47) :
    (s.ram.setEntry pt (idx virt 1) e).leaf pml4 v =
      if v / 4096 = virt / 4096 then (if present e then some e else none) else s.ram.leaf pml4 v := by
  have table := space.tables_setLeaf user leads e (tablePath_user user')
  split
  next same =>
    obtain ⟨path, slot⟩ := (samePage_iff user' user).2 same
    rw [leaf, table, path, leads, slot]
    simp only [bind_some, entry_setEntry]
  rename_i other
  refine leaf_congr table fun pt' there => ?_
  refine entry_setEntry_ne _ e (idx_lt ..) (idx_lt ..) ?_
  rintro ⟨rfl, slot⟩
  have path := space.unshared _ _ pt' (tablePath_user user') (tablePath_user user) there leads
  exact other ((samePage_iff user' user).1 ⟨path, slot⟩)

end

structure Grown (way : List Nat) (s s' : Phys) (pml4 : Nat) : Prop where
  space : Space s' pml4
  total : s'.pmm.totalPages = s.pmm.totalPages
  kept : ∀ f, s.pmm.bitmap f = true → s'.pmm.bitmap f = true
  taken : 0 ∉ s.pmm.free → ∀ f, s'.pmm.bitmap f = true → s.pmm.bitmap f = true ∨
    ∃ p, UserPath p ∧ tableAt s'.ram pml4 p = some f
  tables : ∀ p f, UserPath p → tableAt s.ram pml4 p = some f → tableAt s'.ram pml4 p = some f
  fresh : ∀ p f, UserPath p → tableAt s'.ram pml4 p = some f →
    tableAt s.ram pml4 p = some f ∨ s.pmm.bitmap f = false ∧ p <+: way
  leaves : ∀ virt, virt < 2 ^ 47 → s'.ram.leaf pml4 virt = s.ram.leaf pml4 virt

namespace Grown
variable {s s₁ s' : Phys} {pml4 : Nat} {way : List Nat}

theorem refl (space : Space s pml4) : Grown way s s pml4 where
  space := space
  total := rfl
  kept _ used := used
  taken _ _ used := .inl used
  tables _ _ _ leads := leads
  fresh _ _ _ leads := .inl leads
  leaves _ _ := rfl

theorem zero_used (grown : Grown way s s' pml4) (zero : 0 ∉ s.pmm.free) : 0 ∉ s'.pmm.free := by
  intro free
  obtain ⟨inside, clear⟩ := s'.pmm.mem_free.1 free
  refine zero (s.pmm.mem_free.2 ⟨grown.total ▸ inside, ?_⟩)
  cases used : s.pmm.bitmap 0 with
  | false => rfl
  | true => rw [grown.kept 0 used] at clear; cases clear

theorem trans (first : Grown way s s₁ pml4) (next : Grown way s₁ s' pml4) :
    Grown way s s' pml4 where
  space := next.space
  total := next.total.trans first.total
  kept f used := next.kept f (first.kept f used)
  taken zero f used := by
    rcases next.taken (first.zero_used zero) f used with used | table
    · rcases first.taken zero f used with used | ⟨p, path, leads⟩
      · exact .inl used
      · exact .inr ⟨p, path, next.tables p f path leads⟩
    · exact .inr table
  tables p f path leads := next.tables p f path (first.tables p f path leads)
  fresh p f path leads := by
    rcases next.fresh p f path leads with leads | ⟨clear, near⟩
    · exact first.fresh p f path leads
    refine .inr ⟨?_, near⟩
    cases used : s.pmm.bitmap f with
    | false => rfl
    | true => rw [first.kept f used] at clear; cases clear
  leaves virt user := (next.leaves virt user).trans (first.leaves virt user)

/-- An allocation failed. If it took frame 0, that was a free frame. -/
theorem failed (space : Space s pml4) (ram : s'.ram = s.ram)
    (alloc : s.pmm.Allocated 0 s'.pmm) : Grown way s s' pml4 := by
  have bits : s'.pmm.totalPages = s.pmm.totalPages ∧ s'.pmm.ready = s.pmm.ready ∧
      (∀ f, s.pmm.bitmap f → s'.pmm.bitmap f) ∧
      (0 ∉ s.pmm.free → ∀ f, s'.pmm.bitmap f → s.pmm.bitmap f) := by
    generalize s'.pmm = q at alloc
    cases alloc with
    | failed => exact ⟨rfl, rfl, fun _ used => used, fun _ _ used => used⟩
    | got _ _ here total ready _ bits =>
      refine ⟨total, ready, fun f used => ?_, fun zero => absurd here zero⟩
      rw [bits]
      by_cases same : f = 0
      · simp [same]
      · simpa [same] using used
  obtain ⟨total, ready, kept, taken⟩ := bits
  refine ⟨⟨ready.trans space.ready, ram ▸ space.unshared, fun p f path leads => ?_⟩, total, kept,
    fun zero f used => .inl (taken zero f used), fun p f _ leads => ram ▸ leads,
    fun p f _ leads => .inl (ram ▸ leads), fun _ _ => by rw [ram]⟩
  obtain ⟨used, inside⟩ := space.inUse p f path (ram ▸ leads)
  exact ⟨kept f used, total ▸ inside⟩

end Grown

section Attach
variable {s s' : Phys} {pml4 page t i : Nat} {p way : List Nat} {e : Word} (space : Space s pml4)
  (leads : tableAt s.ram pml4 p = some t) (path : UserPath (p ++ [i]))
  (empty : present (s.ram.entry t i) = false) (clear : s.pmm.bitmap page = false)
  (ram : s'.ram = (s.ram.zeroPage page).setEntry t i e) (here : present e) (names : frameOf e = page)

theorem ne_of_clear {f : Nat} (clear : s.pmm.bitmap page = false) (used : s.pmm.bitmap f) :
    f ≠ page := by
  rintro rfl
  rw [clear] at used
  cases used

include path ram

theorem entry_attach (n j : Nat) (hj : j < 512) (other : n ≠ page) (apart : ¬(n = t ∧ j = i)) :
    s'.ram.entry n j = s.ram.entry n j := by
  rw [ram, entry_setEntry_ne _ e (path.slots i (by simp)) hj apart,
    (s.ram.zeroPage_samePage other).entry hj]

include space leads clear

theorem Space.entry_new (j : Nat) (hj : j < 512) : s'.ram.entry page j = 0 := by
  have inside_p : UserPath p := path.shorter _ _ (prefix_append p [i])
  have t_ne : t ≠ page := ne_of_clear clear (space.inUse p t inside_p leads).1
  rw [ram, entry_setEntry_ne _ e (path.slots i (by simp)) hj (by tauto), entry_zeroPage _ _ hj]

include empty here names

theorem Space.tableAt_attach : tableAt s'.ram pml4 (p ++ [i]) = some page ∧
    ∀ q, UserPath q → q ≠ p ++ [i] → tableAt s'.ram pml4 q = tableAt s.ram pml4 q := by
  have inside_p : UserPath p := path.shorter _ _ (prefix_append p [i])
  have same : ∀ q n j, UserPath (q ++ [j]) → descend s.ram.child pml4 q = some n →
      ¬(n = t ∧ j = i) → s'.ram.child n j = s.ram.child n j := by
    intro q n j hq found apart
    refine child_eq (entry_attach path ram n j (hq.slots j (by simp)) ?_ apart)
    exact ne_of_clear clear (space.inUse q n (hq.shorter _ _ (prefix_append q [j])) found).1
  have filled : s'.ram.child t i = some page := by
    rw [child, ram, entry_setEntry, here, names]
    rfl
  refine ⟨(space.unshared.descend_here UserPath.shorter leads inside_p same).trans filled,
    fun q hq other => ?_⟩
  refine space.unshared.descend_attach UserPath.shorter leads inside_p same ?_ filled ?_ hq other
  · rw [child, empty]
    rfl
  intro j below
  rw [child, space.entry_new leads path clear ram j (below.slots j (by simp))]
  rfl

end Attach

theorem Space.attach {s : Phys} (s' : Phys) {pml4 page t i : Nat} {p way : List Nat} {e : Word}
    (space : Space s pml4) (leads : tableAt s.ram pml4 p = some t) (path : UserPath (p ++ [i]))
    (near : p ++ [i] <+: way) (empty : present (s.ram.entry t i) = false) (nonzero : page ≠ 0)
    (alloc : s.pmm.Allocated page s'.pmm) (ram : s'.ram = (s.ram.zeroPage page).setEntry t i e)
    (here : present e) (names : frameOf e = page) :
    Grown way s s' pml4 ∧ tableAt s'.ram pml4 (p ++ [i]) = some page := by
  generalize pmm : s'.pmm = q at alloc
  cases alloc with
  | failed => exact absurd rfl nonzero
  | got _ _ free total ready _ bits count =>
  obtain ⟨inside, clear⟩ := s.pmm.mem_free.1 free
  obtain ⟨through, elsewhere⟩ := space.tableAt_attach leads path empty clear ram here names
  have not_table : ∀ q, UserPath q → tableAt s.ram pml4 q ≠ some page := by
    intro q hq found
    exact ne_of_clear clear (space.inUse q page hq found).1 rfl
  have grown : ∀ f, s'.pmm.bitmap f ↔ f = page ∨ s.pmm.bitmap f := by
    intro f
    rw [pmm, bits]
    by_cases eq : f = page
    · simp [eq]
    · simp [eq]
  have before : tableAt s.ram pml4 (p ++ [i]) = none := by
    rw [tableAt_snoc leads, child, empty]
    rfl
  refine ⟨⟨⟨by rw [pmm, ready, space.ready], ?_, ?_⟩, pmm ▸ total, ?_, ?_, ?_, ?_, ?_⟩, through⟩
  · exact space.unshared.attach not_table (fun q hq other => elsewhere q hq other) through
  · intro q f hq found
    rw [grown, pmm, total]
    by_cases eq : q = p ++ [i]
    · rw [eq, through] at found
      cases found
      exact ⟨.inl rfl, inside⟩
    · rw [elsewhere q hq eq] at found
      exact ⟨.inr (space.inUse q f hq found).1, (space.inUse q f hq found).2⟩
  · intro f used
    exact (grown f).2 (.inr used)
  · intro _ f used
    rcases (grown f).1 used with rfl | used
    · exact .inr ⟨p ++ [i], path, through⟩
    · exact .inl used
  · intro q f hq found
    rw [elsewhere q hq, found]
    rintro rfl
    rw [before] at found
    cases found
  · intro q f hq found
    by_cases eq : q = p ++ [i]
    · rw [eq, through] at found
      cases found
      exact .inr ⟨clear, eq ▸ near⟩
    · exact .inl (elsewhere q hq eq ▸ found)
  · intro virt user
    have hq := tablePath_user user
    by_cases eq : tablePath virt = p ++ [i]
    · rw [leaf, leaf, eq, through, before, bind_some, space.entry_new leads path clear ram _ (idx_lt ..)]
      rfl
    refine leaf_congr (elsewhere _ hq eq) fun pt found => ?_
    refine entry_attach path ram pt _ (idx_lt ..) (ne_of_clear clear (space.inUse _ pt hq found).1) ?_
    rintro ⟨rfl, -⟩
    exact space.not_parent user found path leads

structure Shrunk (way : List Nat) (s s' : Phys) (pml4 : Nat) : Prop where
  space : Space s' pml4
  total : s'.pmm.totalPages = s.pmm.totalPages
  tables : ∀ p f, UserPath p → tableAt s'.ram pml4 p = some f → tableAt s.ram pml4 p = some f
  removed : ∀ p f, UserPath p → tableAt s.ram pml4 p = some f → tableAt s'.ram pml4 p = some f ∨
    p <+: way ∧ ∀ j < 512, present (s'.ram.entry f j) = false
  used : ∀ f, s'.pmm.bitmap f = true ↔
    s.pmm.bitmap f = true ∧ ∀ p, UserPath p → tableAt s.ram pml4 p = some f → tableAt s'.ram pml4 p = some f
  pages : ∀ f, (∀ p, UserPath p → tableAt s.ram pml4 p ≠ some f) →
    ∀ j < 512, s'.ram.entry f j = s.ram.entry f j
  leaves : ∀ virt, virt < 2 ^ 47 → s'.ram.leaf pml4 virt = s.ram.leaf pml4 virt

namespace Shrunk
variable {s s₁ s' : Phys} {pml4 : Nat} {way : List Nat}

theorem refl (space : Space s pml4) : Shrunk way s s pml4 where
  space := space
  total := rfl
  tables _ _ _ found := found
  removed _ _ _ found := .inl found
  used _ := ⟨fun used => ⟨used, fun _ _ found => found⟩, And.left⟩
  pages _ _ _ _ := rfl
  leaves _ _ := rfl

theorem trans (before : Space s pml4) (first : Shrunk way s s₁ pml4) (next : Shrunk way s₁ s' pml4) :
    Shrunk way s s' pml4 where
  space := next.space
  total := next.total.trans first.total
  tables p f path found := first.tables p f path (next.tables p f path found)
  removed p f path found := by
    rcases first.removed p f path found with still | ⟨near, empty⟩
    · exact next.removed p f path still
    by_cases there : ∃ q, UserPath q ∧ tableAt s₁.ram pml4 q = some f
    · obtain ⟨q, hq, still⟩ := there
      cases before.unshared p q f path hq found (first.tables q f hq still)
      exact next.removed p f path still
    refine .inr ⟨near, fun j hj => ?_⟩
    rw [next.pages f (fun q hq leads => there ⟨q, hq, leads⟩) j hj]
    exact empty j hj
  used f := by
    rw [next.used, first.used]
    constructor
    · rintro ⟨⟨used, still⟩, later⟩
      exact ⟨used, fun p path found => later p path (still p path found)⟩
    rintro ⟨used, still⟩
    exact ⟨⟨used, fun p path found => next.tables p f path (still p path found)⟩,
      fun p path found => still p path (first.tables p f path found)⟩
  pages f apart j hj := by
    rw [next.pages f (fun p path found => apart p path (first.tables p f path found)) j hj,
      first.pages f apart j hj]
  leaves virt user := (next.leaves virt user).trans (first.leaves virt user)

end Shrunk

theorem tableEmpty_iff {r : Ram} {t : Nat} :
    tableEmpty r t = true ↔ ∀ j < 512, present (r.entry t j) = false := by
  simp [tableEmpty]

theorem Pmm.freePage_bitmap {p : Pmm} {page : Nat} (ready : p.ready)
    (inside : page < p.totalPages) (f : Nat) :
    (p.freePage page).bitmap f = true ↔ p.bitmap f ∧ f ≠ page := by
  unfold freePage
  rw [if_neg (by simp [ready]), if_neg (by omega)]
  by_cases used : p.bitmap page = true
  · rw [if_neg (by simp [used])]
    by_cases here : f = page
    · simp [here]
    · simp [here]
  rw [if_pos (by simpa using used)]
  refine ⟨fun set => ⟨set, ?_⟩, And.left⟩
  rintro rfl
  exact used set

section Reclaim
variable {s : Phys} {pml4 t i c : Nat} {p way : List Nat} (space : Space s pml4)
  (leads : tableAt s.ram pml4 p = some t) (path : UserPath (p ++ [i]))
  (child : tableAt s.ram pml4 (p ++ [i]) = some c) (empty : tableEmpty s.ram c)

include path in
theorem entry_reclaim (n j : Nat) (hj : j < 512) (apart : ¬(n = t ∧ j = i)) :
    (reclaim s t i).ram.entry n j = s.ram.entry n j :=
  entry_setEntry_ne _ _ (path.slots i (by simp)) hj apart

include space leads path child empty

theorem Space.tableAt_reclaim {q : List Nat} (hq : UserPath q) : tableAt (reclaim s t i).ram pml4 q =
    if q = p ++ [i] then none else tableAt s.ram pml4 q := by
  have inside_p : UserPath p := path.shorter _ _ (prefix_append p [i])
  have same : ∀ q n j, UserPath (q ++ [j]) → descend s.ram.child pml4 q = some n →
      ¬(n = t ∧ j = i) → (reclaim s t i).ram.child n j = s.ram.child n j := fun q n j hq _ apart =>
    child_eq (entry_reclaim path n j (hq.slots j (by simp)) apart)
  have emptied : (reclaim s t i).ram.child t i = none := by
    rw [show (reclaim s t i).ram = s.ram.setEntry t i 0 from rfl, Ram.child, entry_setEntry, present_zero]
    rfl
  by_cases beyond : p ++ [i] <+: q
  · have gone := space.unshared.descend_detach UserPath.shorter leads inside_p same emptied beyond
    split
    · exact gone
    next longer =>
      -- behind the empty table there was nothing
      refine gone.trans (Eq.symm ?_)
      obtain ⟨rest, rfl⟩ := beyond
      rw [tableAt, descend_append, show descend s.ram.child pml4 (p ++ [i]) = some c from child]
      cases rest with
      | nil => simp at longer
      | cons j =>
        have absent := tableEmpty_iff.1 empty j (hq.slots j (by simp))
        simp [descend, Ram.child, absent]
  · rw [if_neg (by rintro rfl; exact beyond (prefix_refl _))]
    exact space.unshared.descend_other UserPath.shorter leads inside_p same hq beyond

theorem Space.reclaimed (near : p ++ [i] <+: way) :
    Shrunk way s (reclaim s t i) pml4 ∧ tableAt (reclaim s t i).ram pml4 (p ++ [i]) = none ∧
      ∀ q, UserPath q → q ≠ p ++ [i] → tableAt (reclaim s t i).ram pml4 q = tableAt s.ram pml4 q := by
  have inside_p : UserPath p := path.shorter _ _ (prefix_append p [i])
  have names : frameOf (s.ram.entry t i) = c := by
    have there := (tableAt_snoc leads i).symm.trans child
    unfold Ram.child at there
    split at there
    · exact Option.some.inj there
    · cases there
  have after : ∀ q, UserPath q → tableAt (reclaim s t i).ram pml4 q = _ := fun q hq =>
    space.tableAt_reclaim leads path child empty hq
  have kept : ∀ q f, UserPath q → (tableAt (reclaim s t i).ram pml4 q = some f ↔
      tableAt s.ram pml4 q = some f ∧ f ≠ c) := by
    intro q f hq
    rw [after q hq]
    split
    next here =>
      subst here
      simp only [child, reduceCtorEq, Option.some.injEq, false_iff, not_and, not_not]
      exact Eq.symm
    rename_i other
    refine ⟨fun found => ⟨found, ?_⟩, And.left⟩
    rintro rfl
    exact other (space.unshared _ _ _ hq path found child)
  have bits : ∀ f, (reclaim s t i).pmm.bitmap f ↔ s.pmm.bitmap f ∧ f ≠ c := by
    intro f
    rw [← Pmm.freePage_bitmap space.ready (space.inUse _ c path child).2, ← names]
    rfl
  have frees : (reclaim s t i).pmm = s.pmm.freePage (frameOf (s.ram.entry t i)) := rfl
  have t_ne : t ≠ c := by
    rintro rfl
    have := space.unshared _ _ _ path inside_p child leads
    simp at this
  refine ⟨⟨⟨by rw [frees, Pmm.freePage_ready, space.ready], ?_, ?_⟩, by rw [frees, Pmm.freePage_total],
    ?_, ?_, ?_, ?_, ?_⟩, (after _ path).trans (if_pos rfl),
    fun q hq other => (after q hq).trans (if_neg other)⟩
  · exact space.unshared.mono fun q n hq found => ((kept q n hq).1 found).1
  · intro q f hq found
    obtain ⟨old, other⟩ := (kept q f hq).1 found
    rw [bits, frees, Pmm.freePage_total]
    exact ⟨⟨(space.inUse q f hq old).1, other⟩, (space.inUse q f hq old).2⟩
  · exact fun q f hq found => ((kept q f hq).1 found).1
  · intro q f hq found
    by_cases here : f = c
    · subst here
      have at_slot := space.unshared _ _ _ hq path found child
      refine .inr ⟨at_slot ▸ near, fun j hj => ?_⟩
      rw [entry_reclaim path f j hj (by rintro ⟨rfl, -⟩; exact t_ne rfl)]
      exact tableEmpty_iff.1 empty j hj
    · exact .inl ((kept q f hq).2 ⟨found, here⟩)
  · intro f
    rw [bits]
    constructor
    · rintro ⟨used, other⟩
      exact ⟨used, fun q hq found => (kept q f hq).2 ⟨found, other⟩⟩
    rintro ⟨used, still⟩
    refine ⟨used, ?_⟩
    rintro rfl
    exact ((kept _ _ path).1 (still _ path child)).2 rfl
  · intro f apart j hj
    refine entry_reclaim path f j hj ?_
    rintro ⟨rfl, -⟩
    exact apart p inside_p leads
  · intro virt user
    have hq := tablePath_user user
    by_cases eq : tablePath virt = p ++ [i]
    · have absent := tableEmpty_iff.1 empty (idx virt 1) (idx_lt ..)
      rw [leaf, leaf, after _ hq, if_pos eq, eq, child]
      simp [absent]
    · refine leaf_congr (by rw [after _ hq, if_neg eq]) fun pt found => ?_
      refine entry_reclaim path pt _ (idx_lt ..) ?_
      rintro ⟨rfl, -⟩
      exact space.not_parent user found path leads

end Reclaim

end Osnos.Mem
