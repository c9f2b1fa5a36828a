import Osnos.Fat.Step

/-! Every view is the view of some mounted disk, and small volumes built that way. -/
namespace Osnos.Fat

/-- A view as reading a disk gives it: 16-bit table entries, nothing outside the
table, nothing in front of the root directory. -/
structure Vol.Normal (g : Geometry) (V : Vol) : Prop where
  small : ∀ c, V.fat c < 65536
  table : ∀ c, g.fatEntries ≤ c → V.fat c = 0
  area : ∀ lba, lba < g.rootDirLba → V.sec lba = fun _ => 0

def diskOf (g : Geometry) (V : Vol) (lba : Nat) : Sector :=
  if g.fatLba ≤ lba ∧ lba < g.rootDirLba then fun o =>
    let value := V.fat (((lba - g.fatLba) % g.fatSizeSectors * 512 + o) / 2)
    UInt8.ofNat (if o % 2 = 0 then value else value / 256)
  else V.sec lba

def mount (g : Geometry) (V : Vol) : State where
  fs := some g
  fatCacheSec := noSector
  fatCacheBuf := fun _ => 0
  disk := diskOf g V
  blockOk := fun _ _ => true
  requests := 0
  writes := []

section
variable {g : Geometry} {V : Vol}

theorem diskOf_entry (normal : V.Normal g) {c : Nat} (hc : c < g.fatEntries) :
    rd16 (diskOf g V (g.fatLba + c * 2 / 512)) (c * 2 % 512) = V.fat c := by
  have inside := entry_sector_lt g hc
  have area := first_copy_lt g hc
  have sector : (g.fatLba + c * 2 / 512 - g.fatLba) % g.fatSizeSectors = c * 2 / 512 := by
    rw [Nat.add_sub_cancel_left, Nat.mod_eq_of_lt inside]
  have low : (c * 2 / 512 * 512 + c * 2 % 512) / 2 = c := by omega
  have high : (c * 2 / 512 * 512 + (c * 2 % 512 + 1)) / 2 = c := by omega
  have even : c * 2 % 512 % 2 = 0 := by omega
  have odd : ¬ (c * 2 % 512 + 1) % 2 = 0 := by omega
  have here : g.fatLba ≤ g.fatLba + c * 2 / 512 ∧ g.fatLba + c * 2 / 512 < g.rootDirLba :=
    ⟨Nat.le_add_right _ _, area⟩
  have small := normal.small c
  simp only [rd16, diskOf, here, and_self, if_true, sector, low, high, even, odd, if_false, ofNat_toNat]
  omega

theorem mount_holds (normal : V.Normal g) : Holds g V (mount g V) := by
  refine ⟨rfl, fun _ _ => rfl, .inl rfl, ?_, ?_⟩
  · intro k hk i hi o _
    have copy := fat_copy_lt g hk hi
    have first := fat_copy_lt g g.numFats_pos hi
    have at_copy : g.fatLba ≤ g.fatLba + k * g.fatSizeSectors + i ∧
        g.fatLba + k * g.fatSizeSectors + i < g.rootDirLba := ⟨by omega, copy⟩
    have at_first : g.fatLba ≤ g.fatLba + i ∧ g.fatLba + i < g.rootDirLba := ⟨by omega, by omega⟩
    have index : (g.fatLba + k * g.fatSizeSectors + i - g.fatLba) % g.fatSizeSectors =
        (g.fatLba + i - g.fatLba) % g.fatSizeSectors := by
      rw [Nat.add_assoc, Nat.add_sub_cancel_left, Nat.add_sub_cancel_left, Nat.add_comm,
        Nat.add_mul_mod_self_right]
    simp only [mount, diskOf, at_copy, at_first, and_self, if_true, index]
  have fat : (view g (diskOf g V)).fat = V.fat := by
    funext c
    by_cases hc : c < g.fatEntries
    · rw [view_fat hc, diskOf_entry normal hc]
    · simp only [view, if_neg hc, normal.table c (by omega)]
  have sec : (view g (diskOf g V)).sec = V.sec := by
    funext lba
    by_cases hl : g.rootDirLba ≤ lba
    · have behind : ¬ (g.fatLba ≤ lba ∧ lba < g.rootDirLba) := by omega
      simp only [view, if_pos hl, diskOf, behind, if_false]
    · simp only [view, if_neg hl, normal.area lba (by omega)]
  show view g (diskOf g V) = V
  cases V
  exact congrArg₂ Vol.mk fat sec

theorem root_only {pos : Pos} {slot : Slot} (only : live g V 0 = [(pos, slot)])
    (is_file : isDirSlot slot = false) {dir parent : Nat} (h : DirAt g V dir parent) : dir = 0 := by
  induction h with
  | root => rfl
  | sub _ mem is_dir _ ih =>
    rw [ih, only, List.mem_singleton] at mem
    rw [mem, is_file] at is_dir
    cases is_dir

theorem wellFormed_single {pos : Pos} {slot : Slot} {l : List Nat} (only : live g V 0 = [(pos, slot)])
    (is_file : isDirSlot slot = false) (real : isDots slot = false) (chain : EntryChain g V slot l)
    (covered : ∀ c, Allocated g V c → c ∈ l) : WellFormed g V ∧ NoLost g V := by
  have root : ∀ {dir parent}, DirAt g V dir parent → dir = 0 := fun h => root_only only is_file h
  have one : ∀ {q s}, Node g V q s → q = pos ∧ s = slot := by
    rintro q s ⟨dir, ⟨parent, at_dir⟩, mem, _⟩
    rw [root at_dir, only, List.mem_singleton] at mem
    exact Prod.mk.inj mem
  have node : Node g V pos slot := ⟨0, ⟨0, .root⟩, by simp [only], by simp [real]⟩
  have undotted : ∀ {dir parent}, DirAt g V dir parent → ∀ e ∈ live g V dir, ¬ isDots e.2 := by
    intro dir parent at_dir e mem
    rw [root at_dir, only, List.mem_singleton] at mem
    simp [mem, real]
  refine ⟨⟨fun h => ⟨l, (one h).2 ▸ chain⟩, ?_, ?_, ⟨?_⟩⟩, ?_⟩
  · intro dir parent at_dir e mem dot
    exact absurd (by simp [isDots, dot]) (undotted at_dir e mem)
  · intro dir parent at_dir e mem dotDot
    exact absurd (by simp [isDots, dotDot]) (undotted at_dir e mem)
  · rintro q q' m m' ⟨s, node₁, _⟩ ⟨s', node₂, _⟩ differ
    exact absurd ((one node₁).1.trans (one node₂).1.symm) differ
  · exact fun c used => ⟨pos, l, ⟨slot, node, chain⟩, covered c used⟩

def smallGeometry : Geometry where
  bytesPerSector := 512
  sectorsPerCluster := 1
  reservedSectors := 1
  numFats := 1
  rootEntries := 16
  totalSectors := 4103
  fatSizeSectors := 16
  ranged := by constructor <;> decide
  accepted := by decide

/-- The file `A`, 512 bytes in cluster 2, and nothing else. -/
def smallVol : Vol where
  fat c := if c = 2 then 0xFFFF else 0
  sec lba := if lba = 17 then fun i =>
      if i = 0 then 65 else if i < 11 then 32 else if i = 26 then 2 else if i = 29 then 2 else 0
    else fun _ => 0

theorem small_normal : smallVol.Normal smallGeometry := by
  refine ⟨fun c => ?_, fun c hc => ?_, fun lba hl => ?_⟩
  · simp only [smallVol]
    split <;> decide
  · have : c ≠ 2 := by
      rintro rfl
      exact absurd hc (by decide)
    simp [smallVol, this]
  · have : lba ≠ 17 := by
      rintro rfl
      exact absurd hl (by decide)
    simp [smallVol, this]

theorem small_live : live smallGeometry smallVol 0 = [((17, 0), slotAt smallVol (17, 0))] := by
  have shape : slots smallGeometry smallVol 0 = ((17, 0), slotAt smallVol (17, 0)) ::
      ((17, 32), slotAt smallVol (17, 32)) :: (sectorSlots smallVol 17).drop 2 := rfl
  rw [live, shape, liveIn_cons, liveIn_cons]
  rfl

theorem small_chain : EntryChain smallGeometry smallVol (slotAt smallVol (17, 0)) [2] := by
  refine .inr ⟨⟨.last (by decide), fun x hx => ?_⟩, by decide, by decide⟩
  rw [List.mem_singleton.1 hx]
  exact ⟨by decide, by decide, by decide⟩

theorem small_whole : WellFormed smallGeometry smallVol ∧ NoLost smallGeometry smallVol := by
  refine wellFormed_single small_live (by decide) (by decide) small_chain ?_
  rintro c ⟨_, used, _⟩
  by_contra other
  simp [smallVol, List.mem_singleton.not.1 other] at used

theorem small_wellFormed : WellFormed smallGeometry smallVol := small_whole.1

end

end Osnos.Fat
