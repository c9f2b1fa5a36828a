import Osnos.Base.Owned
import Osnos.Fat.Listing

/-! The directory tree of a volume and what makes the volume well formed. -/
namespace Osnos.Fat
open List

def firstOf (slot : Slot) : Nat := rd16 slot 26
def sizeOf (slot : Slot) : Nat := rd32 slot 28
def isDot (slot : Slot) : Bool := name11 slot = pad 11 [46]
def isDotDot (slot : Slot) : Bool := name11 slot = pad 11 [46, 46]
def isDots (slot : Slot) : Bool := isDot slot || isDotDot slot

def liveIn (S : List (Pos × Slot)) : List (Pos × Slot) :=
  (S.takeWhile fun e => e.2 0 ≠ 0).filter fun e => direntIsValid e.2

section
variable (g : Geometry) (V : Vol)

def live (dir : Nat) : List (Pos × Slot) := liveIn (slots g V dir)

inductive DirAt : Nat → Nat → Prop
  | root : DirAt 0 0
  | sub {dir parent : Nat} {e : Pos × Slot} (at_dir : DirAt dir parent) (mem : e ∈ live g V dir)
      (is_dir : isDirSlot e.2) (real : ¬ isDots e.2) : DirAt (firstOf e.2) dir

def IsDirectory (dir : Nat) : Prop := ∃ parent, DirAt g V dir parent

def Node (pos : Pos) (slot : Slot) : Prop :=
  ∃ dir, IsDirectory g V dir ∧ (pos, slot) ∈ live g V dir ∧ ¬ isDots slot

def EntryChain (slot : Slot) (l : List Nat) : Prop :=
  if isDirSlot slot then Chain g V (firstOf slot) l
  else l = [] ∧ firstOf slot = 0 ∧ sizeOf slot = 0 ∨
    Chain g V (firstOf slot) l ∧ (l.length - 1) * g.clusterSize < sizeOf slot ∧
      sizeOf slot ≤ l.length * g.clusterSize

def Owns (pos : Pos) (l : List Nat) : Prop := ∃ slot, Node g V pos slot ∧ EntryChain g V slot l
def Allocated (c : Nat) : Prop := IsCluster g c ∧ V.fat c ≠ 0 ∧ V.fat c ≠ 0xFFF7

structure WellFormed : Prop where
  chains : ∀ {pos slot}, Node g V pos slot → ∃ l, EntryChain g V slot l
  dot : ∀ {dir parent}, DirAt g V dir parent → ∀ e ∈ live g V dir, isDot e.2 →
    isDirSlot e.2 ∧ firstOf e.2 = dir
  dotDot : ∀ {dir parent}, DirAt g V dir parent → ∀ e ∈ live g V dir, isDotDot e.2 →
    isDirSlot e.2 ∧ firstOf e.2 = parent
  owned : Owned (Owns g V)

def NoLost : Prop := Covered (Owns g V) (Allocated g V)

end

variable {de : Dirent} {l : List Nat} {e : Pos × Slot}

section
variable {g : Geometry} {V : Vol}

theorem liveIn_cons (pos : Pos) (slot : Slot) (rest : List (Pos × Slot)) :
    liveIn ((pos, slot) :: rest) =
      if slot 0 = 0 then []
      else if direntIsValid slot then (pos, slot) :: liveIn rest else liveIn rest := by
  by_cases fin : slot 0 = 0
  · simp [liveIn, fin]
  · by_cases valid : direntIsValid slot <;> simp [liveIn, fin, valid]

theorem mem_sectorSlots {lba : Nat} :
    e ∈ sectorSlots V lba ↔ ∃ i < 16, e = ((lba, i * 32), slotIn (V.sec lba) i) := by
  simp only [sectorSlots, mem_map, mem_range]
  constructor
  all_goals
    rintro ⟨i, hi, rfl⟩
    exact ⟨i, hi, rfl⟩

theorem mem_slots {dir : Nat} : e ∈ slots g V dir ↔
      ∃ lba ∈ dirLbas g V dir, ∃ i < 16, e = ((lba, i * 32), slotIn (V.sec lba) i) := by
  simp only [slots, mem_flatMap, mem_sectorSlots]

def slotAt (V : Vol) (pos : Pos) : Slot := slotIn (V.sec pos.1) (pos.2 / 32)

theorem slots_slotAt {dir : Nat} {pos : Pos} {slot : Slot} (h : (pos, slot) ∈ slots g V dir) :
    slot = slotAt V pos := by
  obtain ⟨_, _, i, _, e⟩ := mem_slots.1 h
  obtain ⟨rfl, rfl⟩ := Prod.mk.inj e
  rw [slotAt, Nat.mul_div_cancel i (by decide)]

theorem slots_lba {dir : Nat} (h : e ∈ slots g V dir) : e.1.1 ∈ dirLbas g V dir := by
  obtain ⟨_, mem, i, _, rfl⟩ := mem_slots.1 h
  exact mem

theorem live_slots {dir : Nat} (h : e ∈ live g V dir) : e ∈ slots g V dir :=
  (takeWhile_sublist _).subset (mem_of_mem_filter h)

theorem live_valid {dir : Nat} (h : e ∈ live g V dir) : direntIsValid e.2 :=
  (List.mem_filter.1 h).2

theorem live_slotAt {dir : Nat} {pos : Pos} {slot : Slot} (h : (pos, slot) ∈ live g V dir) :
    slot = slotAt V pos := slots_slotAt (live_slots h)

theorem Node.slotAt {pos : Pos} {slot : Slot} (h : Node g V pos slot) : slot = slotAt V pos := by
  obtain ⟨_, _, mem, _⟩ := h
  exact live_slotAt mem

theorem Node.unique {pos : Pos} {slot slot' : Slot} (h : Node g V pos slot)
    (h' : Node g V pos slot') : slot = slot' := h.slotAt.trans h'.slotAt.symm

theorem EntryChain.unique {slot : Slot} {l' : List Nat} (h : EntryChain g V slot l)
    (h' : EntryChain g V slot l') : l = l' := by
  rw [EntryChain] at h h'
  split at h
  next is_dir =>
    rw [if_pos is_dir] at h'
    exact h.unique h'
  rename_i is_file
  rw [if_neg is_file] at h'
  rcases h with ⟨rfl, zero, _⟩ | ⟨chain, _⟩ <;> rcases h' with ⟨rfl, zero', _⟩ | ⟨chain', _⟩
  · rfl
  · have := chain'.first.1
    omega
  · have := (chain.clusters _ chain.path.first_mem).1
    omega
  · exact chain.unique chain'

theorem EntryChain.chain {slot : Slot} (h : EntryChain g V slot l) (ne : l ≠ []) :
    Chain g V (firstOf slot) l := by
  rw [EntryChain] at h
  split at h
  · exact h
  rcases h with ⟨nil, _⟩ | ⟨chain, _⟩
  · exact absurd nil ne
  · exact chain

theorem EntryChain.dir {slot : Slot} (h : EntryChain g V slot l) (is_dir : isDirSlot slot) :
    Chain g V (firstOf slot) l := by rwa [EntryChain, if_pos is_dir] at h

theorem Owns.unique {pos : Pos} {l' : List Nat} (h : Owns g V pos l) (h' : Owns g V pos l') :
    l = l' := by
  obtain ⟨_, node, chain⟩ := h
  obtain ⟨_, node', chain'⟩ := h'
  obtain rfl := node.unique node'
  exact chain.unique chain'

theorem Chain.allocated {c : Nat} (h : Chain g V c l) {x : Nat} (mem : x ∈ l) :
    Allocated g V x := by
  refine ⟨h.clusters x mem, ?_⟩
  by_cases fin : 0xFFF8 ≤ V.fat x
  · omega
  have := h.clusters _ (h.path.next_mem mem fin)
  simp only [IsCluster] at this
  omega

theorem Owns.allocated {pos : Pos} (h : Owns g V pos l) {x : Nat} (mem : x ∈ l) :
    Allocated g V x := by
  obtain ⟨_, _, chain⟩ := h
  exact (chain.chain (ne_nil_of_mem mem)).allocated mem

theorem mem_dirLbas_chain {dir lba : Nat} (chain : Chain g V dir l) :
    lba ∈ dirLbas g V dir ↔ ∃ c ∈ l, InCluster g c lba := by
  simp only [dirLbas_chain chain, mem_flatMap, clusterLbas, mem_range'_1, InCluster]

theorem mem_rootLbas {lba : Nat} : lba ∈ rootLbas g ↔ g.rootDirLba ≤ lba ∧ lba < g.dataLba := by
  simp only [rootLbas, mem_range'_1, Bpb.dataLba]

theorem not_inCluster_root {lba : Nat} (mem : lba ∈ rootLbas g) (c : Nat) :
    ¬ InCluster g c lba := by
  intro inside
  have := (mem_rootLbas.1 mem).2
  have := dataLba_le_cluster (g := g) c
  have := inside.1
  omega

theorem DirAt.node {dir parent : Nat} (h : DirAt g V dir parent) : dir = 0 ∧ parent = 0 ∨
      ∃ pos slot, Node g V pos slot ∧ isDirSlot slot ∧ firstOf slot = dir ∧
        (pos, slot) ∈ live g V parent := by
  cases h with
  | root => exact .inl ⟨rfl, rfl⟩
  | sub at_dir mem is_dir real =>
    exact .inr ⟨_, _, ⟨_, ⟨_, at_dir⟩, mem, real⟩, is_dir, rfl, mem⟩

theorem DirAt.parent_dir {dir parent : Nat} (h : DirAt g V dir parent) :
    IsDirectory g V parent := by
  cases h with
  | root => exact ⟨0, .root⟩
  | sub at_dir => exact ⟨_, at_dir⟩

theorem IsDirectory.storage (wf : WellFormed g V) {dir : Nat} (h : IsDirectory g V dir) :
    dir = 0 ∨ ∃ pos slot l, Node g V pos slot ∧ isDirSlot slot ∧ firstOf slot = dir ∧
      EntryChain g V slot l ∧ Chain g V dir l := by
  obtain ⟨_, h⟩ := h
  rcases h.node with ⟨rfl, _⟩ | ⟨pos, slot, node, is_dir, rfl, _⟩
  · exact .inl rfl
  · obtain ⟨l, chain⟩ := wf.chains node
    exact .inr ⟨pos, slot, l, node, is_dir, rfl, chain, chain.dir is_dir⟩

theorem IsDirectory.ok (wf : WellFormed g V) {dir : Nat} (h : IsDirectory g V dir) :
    DirOk g V dir := by
  rcases h.storage wf with rfl | ⟨_, _, l, _, _, _, _, chain⟩
  · exact .inl rfl
  · exact .inr ⟨l, chain⟩

theorem dir_of_lba (wf : WellFormed g V) {dir dir' lba : Nat} (h : IsDirectory g V dir)
    (h' : IsDirectory g V dir') (mem : lba ∈ dirLbas g V dir) (mem' : lba ∈ dirLbas g V dir') :
    dir = dir' := by
  rcases h.storage wf with rfl | ⟨pos, slot, l, node, is_dir, rfl, entry, chain⟩ <;>
    rcases h'.storage wf with rfl | ⟨pos', slot', l', node', is_dir', rfl, entry', chain'⟩
  · rfl
  · obtain ⟨c, _, inside⟩ := (mem_dirLbas_chain chain').1 mem'
    exact (not_inCluster_root mem c inside).elim
  · obtain ⟨c, _, inside⟩ := (mem_dirLbas_chain chain).1 mem
    exact (not_inCluster_root mem' c inside).elim
  obtain ⟨c, hc, inside⟩ := (mem_dirLbas_chain chain).1 mem
  obtain ⟨c', hc', inside'⟩ := (mem_dirLbas_chain chain').1 mem'
  obtain rfl := cluster_inj (chain.clusters c hc).1 (chain'.clusters c' hc').1 inside inside'
  obtain rfl := wf.owned.owner_eq ⟨slot, node, entry⟩ ⟨slot', node', entry'⟩ hc hc'
  rw [node.unique node']

def EntryOf (de : Dirent) (e : Pos × Slot) : Prop :=
  de = { parseDirent e.2 e.1.1 e.1.2 with name := de.name }

theorem decodeEntry_entryOf (accum : LfnAccum) (pos : Pos) (slot : Slot) :
    EntryOf (decodeEntry accum slot pos.1 pos.2) (pos, slot) := by
  rw [decodeEntry, EntryOf]
  cases accum.finalize (name11 slot) with
  | none => rfl
  | some => rfl

theorem entriesFrom_live (accum : LfnAccum) (S : List (Pos × Slot)) :
    Forall₂ EntryOf (entriesFrom accum S) (liveIn S) := by
  induction S generalizing accum with
  | nil => exact .nil
  | cons e rest ih =>
    obtain ⟨pos, slot⟩ := e
    rw [entriesFrom, liveIn_cons, direntIsValid]
    by_cases fin : slot 0 = 0
    · simp [fin]
    by_cases deleted : slot 0 = 0xE5
    · simpa [deleted] using ih _
    by_cases lfn : isLfnSlot slot
    · simpa [fin, deleted, lfn] using ih _
    by_cases vol : isVolSlot slot
    · simpa [fin, deleted, lfn, vol] using ih _
    · simpa [fin, deleted, lfn, vol] using ⟨decodeEntry_entryOf accum pos slot, ih _⟩

theorem entries_live {dir : Nat} (h : de ∈ entries g V dir) : ∃ e ∈ live g V dir, EntryOf de e := by
  have both := entriesFrom_live .empty (slots g V dir)
  obtain ⟨i, hi, rfl⟩ := getElem_of_mem h
  have len := both.length_eq
  exact ⟨_, getElem_mem (len ▸ hi), (List.forall₂_iff_get.1 both).2 i hi (len ▸ hi)⟩

theorem EntryOf.isDir (h : EntryOf de e) : de.isDir = isDirSlot e.2 := by
  rw [h]
  rfl

theorem EntryOf.size (h : EntryOf de e) : de.size = sizeOf e.2 := by
  rw [h]
  rfl

theorem EntryOf.firstCluster (h : EntryOf de e) : de.firstCluster = firstOf e.2 := by
  rw [h]
  rfl

theorem EntryOf.pos (h : EntryOf de e) : (de.direntLba, de.direntOffset) = e.1 := by
  rw [h]
  rfl

theorem WellFormed.closed (wf : WellFormed g V) : Closed g V (IsDirectory g V) := by
  refine ⟨⟨0, .root⟩, fun dir h => h.ok wf, ?_⟩
  rintro dir ⟨parent, at_dir⟩ de member is_dir
  obtain ⟨e, mem, of⟩ := entries_live member
  rw [of.firstCluster]
  by_cases dot : isDot e.2
  · rw [(wf.dot at_dir e mem dot).2]
    exact ⟨parent, at_dir⟩
  by_cases dotDot : isDotDot e.2
  · rw [(wf.dotDot at_dir e mem dotDot).2]
    exact at_dir.parent_dir
  refine ⟨dir, .sub at_dir mem ?_ (by simp [isDots, dot, dotDot])⟩
  rw [← of.isDir]
  exact is_dir

end

end Osnos.Fat
