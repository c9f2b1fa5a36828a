import Osnos.Base.Prog
import Osnos.Mem.Space

/-! What `vmm_map` and `vmm_unmap` do to the tree of tables, and the page tables as a map
from user pages to physical pages. -/
namespace Osnos.Mem
open Radix Function List

variable {s s' : Phys} {r : Ram} {pml4 virt phys : Nat} {flags : Flags}

theorem tableEntry_present (page : Nat) :
    present (BitVec.ofNat 64 (page * 4096) ||| pteP ||| pteW ||| pteU) = true := by
  have order : ∀ a : Word, a ||| pteP ||| pteW ||| pteU = a ||| pteW ||| pteU ||| pteP := by
    intro a
    ac_rfl
  rw [order]
  exact present_or _

theorem tableEntry_frame {page : Nat} (low : page < 2 ^ 40) :
    frameOf (BitVec.ofNat 64 (page * 4096) ||| pteP ||| pteW ||| pteU) = page := by
  rw [BitVec.or_assoc, BitVec.or_assoc]
  exact frameOf_or low (by decide)

variable {p : List Nat}

theorem walkOrAlloc_grown {t i : Nat} {way : List Nat} (space : Space s pml4)
    (leads : tableAt s.ram pml4 p = some t) (path : UserPath (p ++ [i])) (near : p ++ [i] <+: way) :
    Grown way s (walkOrAlloc s t i).2 pml4 ∧ ∀ c, (walkOrAlloc s t i).1 = some c →
      tableAt (walkOrAlloc s t i).2.ram pml4 (p ++ [i]) = some c := by
  unfold walkOrAlloc
  split
  next absent =>
    have absent : present (s.ram.entry t i) = false := by simpa using absent
    have alloc : s.pmm.Allocated s.allocPage.1 s.allocPage.2.pmm := s.pmm.allocPage_allocated
    dsimp only
    split
    next zero =>
      rw [zero] at alloc
      exact ⟨.failed space rfl alloc, by rintro c ⟨⟩⟩
    next got =>
      have low : s.allocPage.1 < 2 ^ 40 :=
        lt_of_lt_of_le (s.pmm.mem_free.1 (alloc.here got)).1 s.low
      obtain ⟨grown, through⟩ := space.attach (s.allocPage.2.edit fun r =>
        (r.zeroPage s.allocPage.1).setEntry t i
          (BitVec.ofNat 64 (s.allocPage.1 * 4096) ||| pteP ||| pteW ||| pteU))
        leads path near absent got alloc rfl (tableEntry_present _) (tableEntry_frame low)
      refine ⟨grown, ?_⟩
      rintro c ⟨⟩
      exact through
  next there =>
    have there : present (s.ram.entry t i) := by simpa using there
    refine ⟨.refl space, ?_⟩
    rintro c ⟨⟩
    rw [tableAt_snoc leads, Ram.child, there]
    rfl

def leafWord (phys : Nat) (flags : Flags) : Word :=
  (BitVec.ofNat 64 phys &&& pteAddrMask) ||| flags.1 ||| pteP

inductive Mapped (s : Phys) (pml4 virt phys : Nat) (flags : Flags) : Bool → Phys → Prop
  | failed (s' : Phys) (grown : Grown (tablePath virt) s s' pml4) : Mapped s pml4 virt phys flags false s'
  | done (s₁ : Phys) (pt : Nat) (grown : Grown (tablePath virt) s s₁ pml4)
      (leads : tableAt s₁.ram pml4 (tablePath virt) = some pt) : Mapped s pml4 virt phys flags true
        (s₁.edit fun r => r.setEntry pt (idx virt 1) (leafWord phys flags))

theorem vmmMap_mapped (space : Space s pml4) (user : virt < 2 ^ 47) :
    Mapped s pml4 virt phys flags (vmmMap s pml4 virt phys flags).1
    (vmmMap s pml4 virt phys flags).2 := by
  have whole := tablePath_user user
  have near₄ : [] ++ [idx virt 4] <+: tablePath virt := ⟨[idx virt 3, idx virt 2], rfl⟩
  have near₃ : [idx virt 4] ++ [idx virt 3] <+: tablePath virt := ⟨[idx virt 2], rfl⟩
  unfold vmmMap
  split
  · exact .failed s (.refl space)
  split
  · exact .failed s (.refl space)
  obtain ⟨grown₄, leads₄⟩ := walkOrAlloc_grown space rfl (whole.shorter _ _ near₄) near₄
  generalize walkOrAlloc s pml4 (idx virt 4) = w₄ at grown₄ leads₄
  obtain ⟨_ | pdpt, s₁⟩ := w₄
  · exact .failed s₁ grown₄
  obtain ⟨grown₃, leads₃⟩ := walkOrAlloc_grown grown₄.space (leads₄ pdpt rfl) (whole.shorter _ _ near₃) near₃
  dsimp only
  generalize walkOrAlloc s₁ pdpt (idx virt 3) = w₃ at grown₃ leads₃
  obtain ⟨_ | pd, s₂⟩ := w₃
  · exact .failed s₂ (grown₄.trans grown₃)
  obtain ⟨grown₂, leads₂⟩ := walkOrAlloc_grown grown₃.space (leads₃ pd rfl) whole (prefix_refl _)
  dsimp only
  generalize walkOrAlloc s₂ pd (idx virt 2) = w₂ at grown₂ leads₂
  obtain ⟨_ | pt, s₃⟩ := w₂
  · exact .failed s₃ ((grown₄.trans grown₃).trans grown₂)
  · exact .done s₃ pt ((grown₄.trans grown₃).trans grown₂) (leads₂ pt rfl)

theorem parent_nonempty {t c i : Nat} (leads : tableAt r pml4 p = some t)
    (slot : i < 512) (child : tableAt r pml4 (p ++ [i]) = some c) : tableEmpty r t = false := by
  rw [tableAt_snoc leads, Ram.child] at child
  rw [← Bool.not_eq_true, tableEmpty_iff]
  intro empty
  simp [empty i slot] at child

theorem nonempty_way {q : List Nat} {t : Nat} (path : UserPath q)
    (leads : tableAt r pml4 q = some t)
    (nonempty : tableEmpty r t = false) {f : Nat} (initial : p <+: q)
    (found : tableAt r pml4 p = some f) : tableEmpty r f = false := by
  obtain ⟨rest, rfl⟩ := initial
  cases rest with
  | nil =>
    rw [append_nil, found] at leads
    cases leads
    exact nonempty
  | cons i rest =>
    have next : p ++ [i] <+: p ++ i :: rest := ⟨rest, by simp⟩
    obtain ⟨c, child⟩ := descend_prefix next leads
    exact parent_nonempty found (path.slots i (by simp)) child

theorem before_gap {way q : List Nat} {i f : Nat} (initial : p <+: way) (near : q ++ [i] <+: way)
    (gap : tableAt r pml4 (q ++ [i]) = none) (found : tableAt r pml4 p = some f) : p <+: q := by
  rcases prefix_or_prefix_of_prefix initial near with short | long
  · rcases List.prefix_concat_iff.1 short with same | short
    · rw [same, gap] at found
      cases found
    · exact short
  · obtain ⟨c, there⟩ := descend_prefix long found
    rw [show descend r.child pml4 (q ++ [i]) = none from gap] at there
    cases there

/-- What `vmm_unmap` does: the leaf is cleared, and the tables that are empty after that are
given back from the last one upwards. -/
inductive Unmapped (s : Phys) (pml4 virt : Nat) : Phys → Prop
  | missing (none : tableAt s.ram pml4 (tablePath virt) = none) : Unmapped s pml4 virt s
  | cleared (s' : Phys) (pt : Nat) (leads : tableAt s.ram pml4 (tablePath virt) = some pt)
      (shrunk : Shrunk (tablePath virt) (s.edit fun r => r.setEntry pt (idx virt 1) 0) s' pml4)
      (tight : ∀ p f, p ≠ [] → p <+: tablePath virt → tableAt s'.ram pml4 p = some f →
        tableEmpty s'.ram f = false) : Unmapped s pml4 virt s'

theorem reclaims {pdpt pd pt : Nat} (space : Space s pml4) (user : virt < 2 ^ 47)
    (leads₄ : tableAt s.ram pml4 [idx virt 4] = some pdpt)
    (leads₃ : tableAt s.ram pml4 [idx virt 4, idx virt 3] = some pd)
    (leads₂ : tableAt s.ram pml4 (tablePath virt) = some pt) :
    ∃ s', s' = (if !tableEmpty s.ram pt then s else
      let s := reclaim s pd (idx virt 2)
      if !tableEmpty s.ram pd then s else
      let s := reclaim s pdpt (idx virt 3)
      if !tableEmpty s.ram pdpt then s else
      reclaim s pml4 (idx virt 4)) ∧ Shrunk (tablePath virt) s s' pml4 ∧
      ∀ p f, p ≠ [] → p <+: tablePath virt → tableAt s'.ram pml4 p = some f →
        tableEmpty s'.ram f = false := by
  have whole := tablePath_user user
  have near₄ : [] ++ [idx virt 4] <+: tablePath virt := ⟨[idx virt 3, idx virt 2], rfl⟩
  have near₃ : [idx virt 4] ++ [idx virt 3] <+: tablePath virt := ⟨[idx virt 2], rfl⟩
  have near₂ : [idx virt 4, idx virt 3] ++ [idx virt 2] <+: tablePath virt := prefix_refl _
  refine ⟨_, rfl, ?_⟩
  split
  next some₂ =>
    exact ⟨.refl space, fun p f _ initial found =>
      nonempty_way whole leads₂ (by simpa using some₂) initial found⟩
  rename_i none₂
  obtain ⟨first, gap₂, after₂⟩ := space.reclaimed leads₃ whole leads₂ (by simpa using none₂) near₂
  generalize reclaim s pd (idx virt 2) = s₁ at first gap₂ after₂
  have leads₄ := (after₂ [idx virt 4] (whole.shorter _ _ near₄) (by simp)).trans leads₄
  have leads₃ := (after₂ [idx virt 4, idx virt 3] (whole.shorter _ _ near₃) (by simp)).trans leads₃
  dsimp only
  split
  next some₃ =>
    refine ⟨first, fun p f _ initial found => ?_⟩
    exact nonempty_way (whole.shorter _ _ near₃) leads₃ (by simpa using some₃)
      (before_gap initial near₂ gap₂ found) found
  rename_i none₃
  obtain ⟨second, gap₃, after₃⟩ := first.space.reclaimed leads₄ (whole.shorter _ _ near₃) leads₃
    (by simpa using none₃) near₃
  generalize reclaim s₁ pdpt (idx virt 3) = s₂ at second gap₃ after₃
  have leads₄ := (after₃ [idx virt 4] (whole.shorter _ _ near₄) (by simp)).trans leads₄
  split
  next some₄ =>
    refine ⟨first.trans space second, fun p f _ initial found => ?_⟩
    exact nonempty_way (whole.shorter _ _ near₄) leads₄ (by simpa using some₄)
      (before_gap initial near₃ gap₃ found) found
  rename_i none₄
  obtain ⟨third, gap₄, -⟩ := second.space.reclaimed rfl (whole.shorter _ _ near₄) leads₄
    (by simpa using none₄) near₄
  refine ⟨(first.trans space second).trans space third, fun p f below initial found => ?_⟩
  exact absurd (List.prefix_nil.1 (before_gap initial near₄ gap₄ found)) below

theorem vmmUnmap_unmapped (space : Space s pml4) (user : virt < 2 ^ 47) :
    Unmapped s pml4 virt (vmmUnmap s pml4 virt) := by
  have missing {q : List Nat} {t i : Nat} (near : q ++ [i] <+: tablePath virt)
      (leads : tableAt s.ram pml4 q = some t) (absent : (!present (s.ram.entry t i))) :
      tableAt s.ram pml4 (tablePath virt) = none := by
    cases found : tableAt s.ram pml4 (tablePath virt) with
    | none => rfl
    | some pt =>
      obtain ⟨c, child⟩ := descend_prefix near found
      have := (tableAt_snoc leads i).symm.trans child
      simp_all [Ram.child]
  have child {q : List Nat} {t i : Nat} (leads : tableAt s.ram pml4 q = some t)
      (there : ¬(!present (s.ram.entry t i)) = true) :
      tableAt s.ram pml4 (q ++ [i]) = some (frameOf (s.ram.entry t i)) := by
    rw [tableAt_snoc leads]
    simp_all [Ram.child]
  have root : tableAt s.ram pml4 [] = some pml4 := rfl
  unfold vmmUnmap
  split
  next absent =>
    exact .missing (missing ⟨[idx virt 3, idx virt 2], rfl⟩ root absent)
  rename_i there₄
  have leads₄ := child root there₄
  dsimp only
  split
  next absent =>
    exact .missing (missing ⟨[idx virt 2], rfl⟩ leads₄ absent)
  rename_i there₃
  have leads₃ := child leads₄ there₃
  split
  next absent =>
    exact .missing (missing (prefix_refl _) leads₃ absent)
  rename_i there₂
  have leads₂ := child leads₃ there₂
  have cleared := space.setLeaf user leads₂ 0
  have same := fun q path => space.tables_setLeaf user leads₂ 0 (q := q) path
  have whole := tablePath_user user
  obtain ⟨s', eq, shrunk, tight⟩ := reclaims cleared user
    ((same _ (whole.shorter _ [idx virt 4] ⟨[idx virt 3, idx virt 2], rfl⟩)).trans leads₄)
    ((same _ (whole.shorter _ [idx virt 4, idx virt 3] ⟨[idx virt 2], rfl⟩)).trans leads₃)
    ((same _ whole).trans leads₂)
  exact eq ▸ .cleared s' _ leads₂ shrunk tight

theorem copyUpperHalf_lower (r : Ram) (src dst : Nat) {i : Nat} (lower : i < 256) :
    (r.copyUpperHalf src dst).entry dst i = r.entry dst i := by
  refine Ram.word_congr fun k hk => ?_
  rw [Ram.copyUpperHalf, if_neg (by omega)]

theorem only_root (empty : ∀ i < 256, present (r.entry pml4 i) = false) {f : Nat}
    (path : UserPath p) (found : tableAt r pml4 p = some f) : p = [] ∧ f = pml4 := by
  cases p with
  | nil =>
    cases found
    exact ⟨rfl, rfl⟩
  | cons i =>
    have absent := empty i (path.lower i rfl)
    simp [tableAt, descend, Ram.child, absent] at found

theorem no_leaf (empty : ∀ i < 256, present (r.entry pml4 i) = false) (user : virt < 2 ^ 47) :
    r.leaf pml4 virt = none := by
  unfold Ram.leaf
  cases table : tableAt r pml4 (tablePath virt) with
  | none => rfl
  | some pt =>
    have := (only_root empty (tablePath_user user) table).1
    simp [tablePath] at this

theorem created_space {s₀ : Phys} (created : addressSpaceCreate s₀ = (some pml4, s)) :
    Space s pml4 ∧ ∀ virt, virt < 2 ^ 47 → s.ram.leaf pml4 virt = none := by
  have alloc : s₀.pmm.Allocated s₀.allocPage.1 s₀.allocPage.2.pmm := s₀.pmm.allocPage_allocated
  unfold addressSpaceCreate at created
  dsimp only at created
  split at created
  · cases created
  rename_i nonzero
  obtain ⟨rfl, rfl⟩ := created
  have empty : ∀ i < 256, present (((s₀.ram.zeroPage s₀.allocPage.1).copyUpperHalf s₀.kernelPml4
      s₀.allocPage.1).entry s₀.allocPage.1 i) = false := by
    intro i lower
    rw [copyUpperHalf_lower _ _ _ lower, Ram.entry_zeroPage _ _ (by omega), present_zero]
  have held : s₀.allocPage.2.pmm.ready ∧ s₀.allocPage.2.pmm.bitmap s₀.allocPage.1 ∧
      s₀.allocPage.1 < s₀.allocPage.2.pmm.totalPages := by
    revert alloc nonzero
    generalize s₀.allocPage.2.pmm = q, s₀.allocPage.1 = page
    intro alloc nonzero
    cases alloc with
    | failed => exact absurd rfl nonzero
    | got _ _ here total ready available bits =>
      exact ⟨ready.trans available, by simp [bits], total ▸ (s₀.pmm.mem_free.1 here).1⟩
  refine ⟨⟨held.1, ?_, ?_⟩, ?_⟩
  · intro p q n hp hq reached reached'
    rw [(only_root empty hp reached).1, (only_root empty hq reached').1]
  · intro p f hp found
    rw [(only_root empty hp found).2]
    exact held.2
  · exact fun virt user => no_leaf empty user

inductive PageOp
  | map (virt phys : Nat) (flags : Flags)
  | unmap (virt : Nat)

namespace PageOp

def User : PageOp → Prop
  | map virt _ _ => virt < 2 ^ 47
  | unmap virt => virt < 2 ^ 47

def run (pml4 : Nat) (s : Phys) : PageOp → Bool × Phys
  | map virt phys flags => vmmMap s pml4 virt phys flags
  | unmap virt => (true, vmmUnmap s pml4 virt)

def apply (m : Nat → Option Nat) (done : Bool) : PageOp → Nat → Option Nat
  | map virt phys _ => bif done then update m (virt / 4096) (some (phys / 4096 % 2 ^ 40)) else m
  | unmap virt => update m (virt / 4096) none

end PageOp

def edit (pml4 : Nat) (op : PageOp) : Prog (Phys × (Nat → Option Nat)) Bool := fun w =>
  some ((op.run pml4 w.1).1, (op.run pml4 w.1).2, op.apply w.2 (op.run pml4 w.1).1)

structure Translates (pml4 : Nat) (s : Phys) (m : Nat → Option Nat) : Prop where
  space : Space s pml4
  leaves : ∀ virt, virt < 2 ^ 47 → (s.ram.leaf pml4 virt).map frameOf = m (virt / 4096)

theorem leafWord_leaf (phys : Nat) (flags : Flags) : present (leafWord phys flags) ∧ frameOf
    (leafWord phys flags) = phys / 4096 % 2 ^ 40 := by
  refine ⟨present_or _, ?_⟩
  rw [leafWord, frameOf_leaf _ flags.2, BitVec.toNat_ofNat]
  omega

theorem Translates.run {m : Nat → Option Nat} (holds : Translates pml4 s m) {op : PageOp}
    (user : op.User) : Translates pml4 (op.run pml4 s).2 (op.apply m (op.run pml4 s).1) := by
  cases op with
  | map virt phys flags =>
    have mapped : Mapped s pml4 virt phys flags _ _ := vmmMap_mapped holds.space user
    simp only [PageOp.run, PageOp.apply]
    generalize vmmMap s pml4 virt phys flags = result at mapped
    obtain ⟨done, s'⟩ := result
    cases mapped with
    | failed _ grown =>
      exact ⟨grown.space, fun v user' => by rw [grown.leaves v user']; exact holds.leaves v user'⟩
    | done _ _ grown leads =>
      refine ⟨grown.space.setLeaf user leads _, fun v user' => ?_⟩
      have leaf := grown.space.leaf_setLeaf user leads (leafWord phys flags) user'
      obtain ⟨here, frame⟩ := leafWord_leaf phys flags
      simp only [leaf, cond_true]
      by_cases same : v / 4096 = virt / 4096
      · simp [same, here, frame]
      · rw [if_neg same, update_of_ne same, grown.leaves v user']
        exact holds.leaves v user'
  | unmap virt =>
    have unmapped := vmmUnmap_unmapped holds.space user
    simp only [PageOp.run, PageOp.apply]
    generalize vmmUnmap s pml4 virt = s' at unmapped
    cases unmapped with
    | missing none =>
      refine ⟨holds.space, fun v user' => ?_⟩
      by_cases same : v / 4096 = virt / 4096
      · have path := ((samePage_iff user' user).2 same).1
        rw [same, update_self, Ram.leaf, path, show tableAt _ _ _ = Option.none from none]
        rfl
      · rw [update_of_ne same]
        exact holds.leaves v user'
    | cleared _ _ leads shrunk =>
      refine ⟨shrunk.space, fun v user' => ?_⟩
      have leaf := holds.space.leaf_setLeaf user leads 0 user'
      rw [shrunk.leaves v user']
      simp only [Phys.edit, leaf, present_zero]
      by_cases same : v / 4096 = virt / 4096
      · simp [same]
      · rw [if_neg same, update_of_ne same]
        exact holds.leaves v user'

theorem unmap_frees_empty (space : Space s pml4) (user : virt < 2 ^ 47) {t : Nat}
    (used : s.pmm.bitmap t) (freed : (vmmUnmap s pml4 virt).pmm.bitmap t = false) :
    ∀ j < 512, present ((vmmUnmap s pml4 virt).ram.entry t j) = false := by
  have unmapped := vmmUnmap_unmapped space user
  generalize vmmUnmap s pml4 virt = s' at unmapped freed
  cases unmapped with
  | missing => rw [used] at freed; cases freed
  | cleared _ pt leads shrunk =>
    by_contra holds
    have : s'.pmm.bitmap t := by
      refine (shrunk.used t).2 ⟨used, fun p path found => ?_⟩
      exact (shrunk.removed p t path found).resolve_right fun empty => holds empty.2
    rw [freed] at this
    cases this

/-- Whatever is mapped and unmapped in a new address space, the page tables translate as the
map does in which the operations that succeeded are recorded, and the tables that an unmapping
frees hold no entry. -/
theorem page_tables_refine_map {s₀ s₁ s : Phys} {pml4 : Nat} {ops : List PageOp}
    {m : Nat → Option Nat} (created : addressSpaceCreate s₀ = (some pml4, s₁))
    (run : Prog.Runs (edit pml4) (fun _ op => op.User) (s₁, fun _ => none) ops (s, m)) :
    (∀ virt < 2 ^ 47, vmmLookup s.ram pml4 virt =
      ((m (virt / 4096)).map fun f => f * 4096 + virt % 4096).getD 0) ∧
      ∀ virt < 2 ^ 47, ∀ t, s.pmm.bitmap t = true → (vmmUnmap s pml4 virt).pmm.bitmap t = false →
        ∀ j < 512, present ((vmmUnmap s pml4 virt).ram.entry t j) = false := by
  obtain ⟨space, empty⟩ := created_space created
  have start : Translates pml4 s₁ fun _ => none := ⟨space, fun v user => by rw [empty v user]; rfl⟩
  have step : ∀ w op a w', Translates pml4 w.1 w.2 → op.User → edit pml4 op w = some (a, w') →
      Translates pml4 w'.1 w'.2 := by
    intro w op a w' holds user done
    cases done
    exact holds.run user
  have holds : Translates pml4 s m := Prog.Runs.invariant step run start
  refine ⟨fun virt user => ?_, fun virt user t => unmap_frees_empty holds.space user⟩
  rw [vmmLookup_eq, ← holds.leaves virt user, Option.map_map]
  rfl

def smallPhys : Phys where
  ram _ := 0
  pmm := ⟨true, fun f => f == 0 || decide (8 ≤ f), 8, 7, 0, by decide⟩
  kernelPml4 := 8
  low := by decide

theorem page_tables_refine_map_small :
    addressSpaceCreate smallPhys = (some 1, (addressSpaceCreate smallPhys).2) ∧ ∃ s m,
      Prog.Runs (edit 1) (fun _ op => op.User) ((addressSpaceCreate smallPhys).2, fun _ => none)
        [.map 0x400000 0x7000 ⟨pteU, by decide⟩, .map 0x401000 0x6000 ⟨pteW, by decide⟩, .unmap 0x400000]
        (s, m) ∧
      (∀ virt < 2 ^ 47, vmmLookup s.ram 1 virt =
        ((m (virt / 4096)).map fun f => f * 4096 + virt % 4096).getD 0) ∧
      ∀ virt < 2 ^ 47, ∀ t, s.pmm.bitmap t = true → (vmmUnmap s 1 virt).pmm.bitmap t = false →
        ∀ j < 512, present ((vmmUnmap s 1 virt).ram.entry t j) = false := by
  have created : addressSpaceCreate smallPhys = (some 1, (addressSpaceCreate smallPhys).2) := rfl
  have run : Prog.Runs (edit 1) (fun _ op => op.User) ((addressSpaceCreate smallPhys).2, fun _ => none)
      [.map 0x400000 0x7000 ⟨pteU, by decide⟩, .map 0x401000 0x6000 ⟨pteW, by decide⟩, .unmap 0x400000] _ :=
    .cons (show 0x400000 < 2 ^ 47 by norm_num) rfl (.cons (show 0x401000 < 2 ^ 47 by norm_num) rfl
      (.cons (show 0x400000 < 2 ^ 47 by norm_num) rfl (.nil _)))
  exact ⟨created, _, _, run, page_tables_refine_map created run⟩

end Osnos.Mem
