import Osnos.Fat.Tree

/-! One entry of a well-formed volume is replaced or removed. Its old clusters are
given up, its new ones come from it or from the free ones, everything else stays:
then the volume is well formed again, and every other entry and file is as before. -/
namespace Osnos.Fat
open List

structure Group where
  lfn : List (Pos × Slot)
  pos : Pos
  slot : Slot

def groupsFrom : List (Pos × Slot) → List (Pos × Slot) → List Group
  | _, [] => []
  | lfn, (pos, slot) :: rest =>
    if slot 0 = 0 then []
    else if slot 0 = 0xE5 then groupsFrom [] rest
    else if isLfnSlot slot then groupsFrom (lfn ++ [(pos, slot)]) rest
    else if isVolSlot slot then groupsFrom [] rest
    else ⟨lfn, pos, slot⟩ :: groupsFrom [] rest

def groups (g : Geometry) (V : Vol) (dir : Nat) : List Group := groupsFrom [] (slots g V dir)

def amend (pos : Pos) (entry : Option Slot) (G : List Group) : List Group :=
  G.filterMap fun x => if x.pos = pos then entry.map fun slot => { x with slot := slot } else some x

def SameHead (slot slot' : Slot) : Prop := ∀ k < 26, slot' k = slot k

structure EntryStep (g : Geometry) (V V' : Vol) (pos : Pos) (slot : Slot) (entry : Option Slot)
    (old new : List Nat) : Prop where
  node : Node g V pos slot
  chain : EntryChain g V slot old
  links : ∀ c, c ∉ old → c ∉ new → V'.fat c = V.fat c
  freed : ∀ c ∈ old, c ∉ new → V'.fat c = 0
  fresh : ∀ c ∈ new, c ∉ old → V.fat c = 0
  put : ∀ slot', entry = some slot' → isDirSlot slot = false ∧ isDirSlot slot' = false ∧
    isDots slot' = false ∧ EntryChain g V' slot' new
  kept : ∀ slot', entry = some slot' → SameHead slot slot' ∧ ∀ dir, IsDirectory g V dir →
    slots g V' dir = (slots g V dir).map fun e => (e.1, if e.1 = pos then slot' else e.2)
  gone : entry = none → new = [] ∧ (isDirSlot slot → ∀ e ∈ live g V (firstOf slot), isDots e.2)
  groups : ∀ dir, IsDirectory g V dir → ¬ (isDirSlot slot ∧ dir = firstOf slot) →
    groups g V' dir = amend pos entry (groups g V dir)
  frame : ∀ lba, (∀ c ∈ old, ¬ InCluster g c lba) → (∀ c ∈ new, ¬ InCluster g c lba) →
    (∀ dir, IsDirectory g V dir → lba ∉ dirLbas g V dir) → V'.sec lba = V.sec lba

variable {l : List Nat} {q : Pos} {dir : Nat} {slot : Slot}

section
variable {g : Geometry} {V V' : Vol}

theorem groupsFrom_live (lfn S : List (Pos × Slot)) :
    (groupsFrom lfn S).map (fun x => (x.pos, x.slot)) = liveIn S := by
  induction S generalizing lfn with
  | nil => rfl
  | cons e rest ih =>
    obtain ⟨_, slot⟩ := e
    rw [groupsFrom, liveIn_cons, direntIsValid]
    by_cases fin : slot 0 = 0
    · simp [fin]
    by_cases deleted : slot 0 = 0xE5
    · simpa [deleted] using ih _
    by_cases long : isLfnSlot slot
    · simpa [fin, deleted, long] using ih _
    by_cases vol : isVolSlot slot
    all_goals simpa [fin, deleted, long, vol] using ih _

theorem groups_live (dir : Nat) :
    (groups g V dir).map (fun x => (x.pos, x.slot)) = live g V dir := groupsFrom_live _ _

theorem mem_live_amend {pos : Pos} {entry : Option Slot}
    (h : groups g V' dir = amend pos entry (groups g V dir)) {e : Pos × Slot} :
    e ∈ live g V' dir ↔ e.1 ≠ pos ∧ e ∈ live g V dir ∨
      e.1 = pos ∧ entry = some e.2 ∧ ∃ slot, (pos, slot) ∈ live g V dir := by
  rw [← groups_live, ← groups_live, h, amend]
  simp only [mem_map, mem_filterMap]
  constructor
  · rintro ⟨x, ⟨y, mem, eq⟩, rfl⟩
    by_cases same : y.pos = pos
    · simp only [same, if_true, Option.map_eq_some_iff] at eq
      obtain ⟨slot, entry_eq, rfl⟩ := eq
      exact .inr ⟨rfl, entry_eq, y.slot, y, mem, by rw [same]⟩
    · simp only [same, if_false, Option.some.injEq] at eq
      subst eq
      exact .inl ⟨same, y, mem, rfl⟩
  · rintro (⟨differ, y, mem, rfl⟩ | ⟨same, entry_eq, slot, y, mem, eq⟩)
    · exact ⟨y, ⟨y, mem, by simp only [differ, if_false]⟩, rfl⟩
    · obtain ⟨here, -⟩ := Prod.mk.inj eq
      refine ⟨{ y with slot := e.2 }, ⟨y, mem, by simp [here, entry_eq]⟩, ?_⟩
      simp only [here, ← same]

theorem slots_edit (edit : Pos → Slot → Slot) (same : dirLbas g V' dir = dirLbas g V dir)
    (edited : ∀ lba ∈ dirLbas g V dir, ∀ i < 16,
      slotIn (V'.sec lba) i = edit (lba, i * 32) (slotIn (V.sec lba) i)) :
    slots g V' dir = (slots g V dir).map fun e => (e.1, edit e.1 e.2) := by
  rw [slots, slots, same, map_flatMap]
  apply flatMap_congr
  intro lba mem
  rw [sectorSlots, sectorSlots, map_map]
  apply map_congr_left
  intro i hi
  rw [edited lba mem i (List.mem_range.1 hi)]
  rfl

def fileBytes (g : Geometry) (V : Vol) (slot : Slot) : List UInt8 :=
  slice g V (chainWalk V.fat 65537 (firstOf slot)) 0 (sizeOf slot)

open Classical in
noncomputable def fileMap (g : Geometry) (V : Vol) (pos : Pos) : Option (List UInt8) :=
  if Node g V pos (slotAt V pos) ∧ isDirSlot (slotAt V pos) = false then
    some (fileBytes g V (slotAt V pos))
  else none

theorem EntryChain.file (h : EntryChain g V slot l) (is_file : isDirSlot slot = false) :
    sizeOf slot ≤ l.length * g.clusterSize ∧
      (l = [] ∧ firstOf slot = 0 ∧ sizeOf slot = 0 ∨ Chain g V (firstOf slot) l) := by
  rw [EntryChain, is_file] at h
  simp only [Bool.false_eq_true, if_false] at h
  rcases h with ⟨rfl, first, size⟩ | ⟨chain, _, fits⟩
  · exact ⟨by omega, .inl ⟨rfl, first, size⟩⟩
  · exact ⟨fits, .inr chain⟩

theorem fileBytes_eq (chain : EntryChain g V slot l)
    (is_file : isDirSlot slot = false) : fileBytes g V slot = slice g V l 0 (sizeOf slot) := by
  rw [fileBytes]
  rcases (chain.file is_file).2 with ⟨rfl, first, size⟩ | chain
  · simp only [size, slice, range_zero, map_nil]
  · rw [chainWalk_eq chain chain.length_lt]

theorem fileMap_some {pos : Pos} (node : Node g V pos slot)
    (is_file : isDirSlot slot = false) : fileMap g V pos = some (fileBytes g V slot) := by
  obtain rfl := node.slotAt
  rw [fileMap, if_pos ⟨node, is_file⟩]

theorem fileMap_none {pos : Pos} (no_file : ∀ s, Node g V pos s → isDirSlot s) :
    fileMap g V pos = none := by
  rw [fileMap, if_neg]
  rintro ⟨node, is_file⟩
  simp [no_file _ node] at is_file

theorem EntryChain.congr (h : EntryChain g V slot l)
    (agree : ∀ x ∈ l, V'.fat x = V.fat x) : EntryChain g V' slot l := by
  rw [EntryChain] at h ⊢
  split at h
  next is_dir =>
    rw [if_pos is_dir]
    exact h.congr agree
  rename_i is_file
  rw [if_neg is_file]
  exact h.imp_right fun file => ⟨file.1.congr agree, file.2⟩

theorem two_le_firstOf (chain : EntryChain g V slot l)
    (is_dir : isDirSlot slot) : 2 ≤ firstOf slot :=
  (chain.dir is_dir).first.1

theorem pos_of_first (wf : WellFormed g V) {pos pos' : Pos} {slot' : Slot}
    (node : Node g V pos slot) (node' : Node g V pos' slot') (is_dir : isDirSlot slot)
    (is_dir' : isDirSlot slot') (same : firstOf slot = firstOf slot') : pos = pos' := by
  obtain ⟨l, chain⟩ := wf.chains node
  obtain ⟨_, chain'⟩ := wf.chains node'
  have first := (chain.dir is_dir).path.first_mem
  have first' := (chain'.dir is_dir').path.first_mem
  rw [same] at first
  exact wf.owned.owner_eq ⟨slot, node, chain⟩ ⟨slot', node', chain'⟩ first first'

namespace EntryStep
variable {pos : Pos} {slot : Slot} {entry : Option Slot} {old new : List Nat}

def Gone (_ : EntryStep g V V' pos slot entry old new) (dir : Nat) : Prop :=
  entry = none ∧ isDirSlot slot ∧ dir = firstOf slot

variable (h : EntryStep g V V' pos slot entry old new)
include h

theorem mem_live (at_dir : IsDirectory g V dir) (stays : ¬ h.Gone dir) {e : Pos × Slot} :
    e ∈ live g V' dir ↔ e.1 ≠ pos ∧ e ∈ live g V dir ∨
      e.1 = pos ∧ entry = some e.2 ∧ ∃ slot, (pos, slot) ∈ live g V dir := by
  refine mem_live_amend (h.groups dir at_dir ?_)
  rintro ⟨is_dir, same⟩
  cases removed : entry with
  | none => exact stays ⟨removed, is_dir, same⟩
  | some slot' =>
    have := (h.put slot' removed).1
    simp [this] at is_dir

theorem gone_dots (gone : h.Gone dir) {e : Pos × Slot} (mem : e ∈ live g V dir) : isDots e.2 := by
  obtain ⟨removed, is_dir, rfl⟩ := gone
  exact (h.gone removed).2 is_dir e mem

theorem dirAt_keep {parent : Nat}
    (at_dir : DirAt g V dir parent) (stays : ¬ h.Gone dir) : DirAt g V' dir parent := by
  induction at_dir with
  | root => exact .root
  | @sub dir parent e at_dir mem is_dir real ih =>
    have up : ¬ h.Gone dir := fun gone => real (h.gone_dots gone mem)
    refine .sub (ih up) ((h.mem_live ⟨_, at_dir⟩ up).2 (.inl ⟨fun here => ?_, mem⟩)) is_dir real
    -- the entry at `pos` is a directory, so the step has removed it
    have same : e.2 = slot := (live_slotAt mem).trans (here ▸ h.node.slotAt.symm)
    rw [same] at is_dir stays
    cases removed : entry with
    | none => exact stays ⟨removed, is_dir, rfl⟩
    | some slot' =>
      have := (h.put slot' removed).1
      simp [this] at is_dir

theorem new_cluster {c : Nat} (mem : c ∈ new) : 2 ≤ c := by
  cases entry_eq : entry with
  | none => simp [(h.gone entry_eq).1] at mem
  | some s =>
    have chain := (h.put s entry_eq).2.2.2
    exact ((chain.chain (ne_nil_of_mem mem)).clusters c mem).1

variable (wf : WellFormed g V)
include wf

theorem agree (other : q ≠ pos) (owns : Owns g V q l) : ∀ x ∈ l, V'.fat x = V.fat x := by
  intro x hx
  have outside : x ∉ old := fun hx' =>
    wf.owned.disjoint owns ⟨slot, h.node, h.chain⟩ other hx hx'
  apply h.links x outside
  intro hx'
  exact (owns.allocated hx).2.1 (h.fresh x hx' outside)

theorem dirAt_of {parent : Nat} (at_dir : DirAt g V' dir parent) :
    DirAt g V dir parent ∧ ¬ h.Gone dir := by
  induction at_dir with
  | root =>
    refine ⟨.root, fun gone => ?_⟩
    have := two_le_firstOf h.chain gone.2.1
    have := gone.2.2
    omega
  | sub _ mem is_dir real ih =>
    rcases (h.mem_live ⟨_, ih.1⟩ ih.2).1 mem with ⟨other, was⟩ | ⟨_, entry_eq, _⟩
    · refine ⟨.sub ih.1 was is_dir real, fun gone => other ?_⟩
      exact pos_of_first wf ⟨_, ⟨_, ih.1⟩, was, real⟩ h.node is_dir gone.2.1 gone.2.2
    · have := (h.put _ entry_eq).2.1
      simp [this] at is_dir

theorem node_iff {s : Slot} :
    Node g V' q s ↔ q ≠ pos ∧ Node g V q s ∨ q = pos ∧ entry = some s := by
  constructor
  · rintro ⟨dir, ⟨parent, at_dir⟩, mem, real⟩
    obtain ⟨was, stays⟩ := h.dirAt_of wf at_dir
    rcases (h.mem_live ⟨_, was⟩ stays).1 mem with ⟨other, mem⟩ | ⟨here, entry_eq, _⟩
    · exact .inl ⟨other, dir, ⟨parent, was⟩, mem, real⟩
    · exact .inr ⟨here, entry_eq⟩
  rintro (⟨other, dir, ⟨parent, at_dir⟩, mem, real⟩ | ⟨rfl, entry_eq⟩)
  · have stays : ¬ h.Gone dir := fun gone => real (h.gone_dots gone mem)
    exact ⟨dir, ⟨parent, h.dirAt_keep at_dir stays⟩,
      (h.mem_live ⟨_, at_dir⟩ stays).2 (.inl ⟨other, mem⟩), real⟩
  obtain ⟨dir, ⟨parent, at_dir⟩, mem, _⟩ := h.node
  have stays : ¬ h.Gone dir := fun gone => by simp [gone.1] at entry_eq
  refine ⟨dir, ⟨parent, h.dirAt_keep at_dir stays⟩,
    (h.mem_live ⟨_, at_dir⟩ stays).2 (.inr ⟨rfl, entry_eq, slot, mem⟩), ?_⟩
  simp [(h.put s entry_eq).2.2.1]

theorem entryChain_iff {s : Slot} (other : q ≠ pos) (node : Node g V q s) :
    EntryChain g V' s l ↔ EntryChain g V s l := by
  obtain ⟨l₀, chain⟩ := wf.chains node
  have now := chain.congr (h.agree wf other ⟨s, node, chain⟩)
  constructor
  · intro c
    rwa [c.unique now]
  · intro c
    rwa [c.unique chain]

theorem owns_iff (other : q ≠ pos) : Owns g V' q l ↔ Owns g V q l := by
  constructor
  · rintro ⟨s, node, chain⟩
    rcases (h.node_iff wf).1 node with ⟨_, was⟩ | ⟨here, _⟩
    · exact ⟨s, was, (h.entryChain_iff wf other was).1 chain⟩
    · exact absurd here other
  · rintro ⟨s, node, chain⟩
    exact ⟨s, (h.node_iff wf).2 (.inl ⟨other, node⟩), (h.entryChain_iff wf other node).2 chain⟩

theorem owned : Owned (Owns g V') := by
  refine wf.owned.exchange new ⟨slot, h.node, h.chain⟩
    (fun q l other => h.owns_iff wf other) ?_ (fun q l owns c hc => owns.allocated hc) ?_
  · rintro l ⟨s, node, chain⟩
    rcases (h.node_iff wf).1 node with ⟨other, _⟩ | ⟨_, entry_eq⟩
    · exact absurd rfl other
    · exact chain.unique (h.put s entry_eq).2.2.2
  · intro c hc
    by_cases mem : c ∈ old
    · exact .inl mem
    · exact .inr fun used => used.2.1 (h.fresh c hc mem)

theorem noLost (whole : NoLost g V) : NoLost g V' := by
  refine Covered.exchange new whole (fun l owns => owns.unique ⟨slot, h.node, h.chain⟩)
    (fun q l other => h.owns_iff wf other) ?_ ?_
  · intro some_new
    cases entry_eq : entry with
    | none => exact absurd (h.gone entry_eq).1 some_new
    | some s => exact ⟨s, (h.node_iff wf).2 (.inr ⟨rfl, entry_eq⟩), (h.put s entry_eq).2.2.2⟩
  · rintro c ⟨cluster, used, good⟩
    by_cases mem : c ∈ new
    · exact .inl mem
    · have outside : c ∉ old := fun was => used (h.freed c was mem)
      rw [h.links c outside mem] at used good
      exact .inr ⟨⟨cluster, used, good⟩, outside⟩

theorem wellFormed : WellFormed g V' := by
  -- a dot entry is not the one that changed, so it was there before
  have dots : ∀ {dir parent}, DirAt g V' dir parent → ∀ e ∈ live g V' dir, isDots e.2 →
      DirAt g V dir parent ∧ e ∈ live g V dir := by
    intro dir parent at_dir e mem dots
    obtain ⟨was, stays⟩ := h.dirAt_of wf at_dir
    rcases (h.mem_live ⟨_, was⟩ stays).1 mem with ⟨_, mem⟩ | ⟨_, entry_eq, _⟩
    · exact ⟨was, mem⟩
    · simp [(h.put _ entry_eq).2.2.1] at dots
  refine ⟨?_, ?_, ?_, h.owned wf⟩
  · intro q s node
    rcases (h.node_iff wf).1 node with ⟨other, was⟩ | ⟨_, entry_eq⟩
    · obtain ⟨l, chain⟩ := wf.chains was
      exact ⟨l, (h.entryChain_iff wf other was).2 chain⟩
    · exact ⟨new, (h.put s entry_eq).2.2.2⟩
  · intro dir parent at_dir e mem dot
    obtain ⟨was, mem⟩ := dots at_dir e mem (by simp [isDots, dot])
    exact wf.dot was e mem dot
  · intro dir parent at_dir e mem dotDot
    obtain ⟨was, mem⟩ := dots at_dir e mem (by simp [isDots, dotDot])
    exact wf.dotDot was e mem dotDot

theorem other_sector {s : Slot} (other : q ≠ pos) (node : Node g V q s) (chain : EntryChain g V s l)
    (is_file : isDirSlot s = false) :
    ∀ c ∈ l, ∀ lba, InCluster g c lba → V'.sec lba = V.sec lba := by
  intro c hc lba inside
  have used := Owns.allocated ⟨s, node, chain⟩ hc
  -- no other list of clusters in play has this sector
  have apart : ∀ d, 2 ≤ d → InCluster g d lba → d = c := fun d two hd =>
    cluster_inj two used.1.1 hd inside
  have outside : c ∉ old := fun hd =>
    wf.owned.disjoint ⟨s, node, chain⟩ ⟨slot, h.node, h.chain⟩ other hc hd
  refine h.frame lba ?_ ?_ ?_
  · intro d hd hd'
    have two := (Owns.allocated ⟨slot, h.node, h.chain⟩ hd).1.1
    exact outside (apart d two hd' ▸ hd)
  · intro d hd hd'
    by_cases was : d ∈ old
    · have two := (Owns.allocated ⟨slot, h.node, h.chain⟩ was).1.1
      exact outside (apart d two hd' ▸ was)
    · have free := h.fresh d hd was
      rw [apart d (h.new_cluster hd) hd'] at free
      exact used.2.1 free
  intro dir at_dir mem
  rcases at_dir.storage wf with rfl | ⟨q', s', l', node', is_dir, rfl, entry', chain'⟩
  · exact not_inCluster_root mem c inside
  obtain ⟨d, hd, hd'⟩ := (mem_dirLbas_chain chain').1 mem
  obtain rfl := apart d (chain'.clusters d hd).1 hd'
  obtain rfl := wf.owned.owner_eq ⟨s, node, chain⟩ ⟨s', node', entry'⟩ hc hd
  rw [node.unique node', is_dir] at is_file
  exact absurd is_file (by simp)

theorem other_bytes {s : Slot} (other : q ≠ pos) (node : Node g V q s)
    (is_file : isDirSlot s = false) :
    fileBytes g V' s = fileBytes g V s := by
  obtain ⟨l, chain⟩ := wf.chains node
  have fits := (chain.file is_file).1
  rw [fileBytes_eq chain is_file, fileBytes_eq ((h.entryChain_iff wf other node).2 chain) is_file]
  exact slice_congr l (by omega) (h.other_sector wf other node chain is_file)

theorem fileMap_eq :
    fileMap g V' = Function.update (fileMap g V) pos (entry.map (fileBytes g V')) := by
  funext q
  by_cases here : q = pos
  · subst here
    rw [Function.update_self]
    cases entry_eq : entry with
    | none =>
      refine fileMap_none fun s node => ?_
      rcases (h.node_iff wf).1 node with ⟨other, _⟩ | ⟨_, some_entry⟩
      · exact absurd rfl other
      · simp [entry_eq] at some_entry
    | some s =>
      exact fileMap_some ((h.node_iff wf).2 (.inr ⟨rfl, entry_eq⟩)) (h.put s entry_eq).2.1
  rw [Function.update_of_ne here]
  by_cases file : ∃ s, Node g V q s ∧ isDirSlot s = false
  · obtain ⟨s, node, is_file⟩ := file
    rw [fileMap_some node is_file, fileMap_some ((h.node_iff wf).2 (.inl ⟨here, node⟩)) is_file,
      h.other_bytes wf here node is_file]
  have no_file : ∀ s, Node g V q s → isDirSlot s := by
    intro s node
    by_contra is_file
    exact file ⟨s, node, by simpa using is_file⟩
  rw [fileMap_none no_file]
  refine fileMap_none fun s node => ?_
  rcases (h.node_iff wf).1 node with ⟨_, was⟩ | ⟨same, _⟩
  · exact no_file s was
  · exact absurd same here

end EntryStep

end

end Osnos.Fat
