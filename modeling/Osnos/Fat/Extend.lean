import Osnos.Fat.FileOps

/-! Append on an existing file: the tail cluster is filled up, further clusters are
linked behind it, the size goes up. -/
namespace Osnos.Fat
open Function List Prog Vol Nat

section
variable {g : Geometry} {V V' : Vol}

theorem byteAt_last {l : List Nat} (ne : l ≠ []) {q : Nat} (inside : q < g.clusterSize) :
    byteAt g V l ((l.length - 1) * g.clusterSize + q) =
      V.sec (g.clusterToLba (l.getLast ne) + q / 512) (q % 512) := by
  rw [← byteAt_drop, drop_length_sub_one ne, byteAt_head _ _ inside]

theorem fillTail_chain (toLast : Nat) {c size : Nat} {l : List Nat} (chain : Chain g V c l)
    (low : (l.length - 1) * g.clusterSize < size) (fits : size + toLast ≤ l.length * g.clusterSize)
    (src : Nat → UInt8) :
    ∃ V', Does (Holds g) V
        (fillTail (g.clusterToLba (l.getLast chain.path.ne_nil)) src toLast (toLast + 1)
          ((size - (l.length - 1) * g.clusterSize) / 512)
          ((size - (l.length - 1) * g.clusterSize) % 512) 0) true V' ∧
      OnlyClusters g [l.getLast chain.path.ne_nil] V V' ∧
      ∀ i < l.length * g.clusterSize, byteAt g V' l i =
        if size ≤ i ∧ i < size + toLast then src (i - size) else byteAt g V l i := by
  have ne := chain.path.ne_nil
  have len : 0 < l.length := length_pos_iff.2 ne
  have whole : l.length * g.clusterSize = (l.length - 1) * g.clusterSize + g.clusterSize := by
    rw [← succ_mul, succ_eq_add_one, Nat.sub_add_cancel len]
  generalize before_eq : (l.length - 1) * g.clusterSize = before at *
  obtain ⟨V', does, fat, frame, bytes⟩ := fillTail_does
    (g.clusterToLba (l.getLast ne)) toLast (toLast + 1) ((size - before) / 512) ((size - before) % 512) 0
    src V (rootDirLba_le_cluster _) (mod_lt _ (by decide)) (zero_le _) (by omega)
    (div_add_mod (size - before) 512).symm
  have only : OnlyClusters g [l.getLast ne] V V' := by
    refine ⟨fat, fun lba out => frame lba fun q lo hi same => ?_⟩
    refine out _ (mem_singleton.2 rfl) ⟨by omega, ?_⟩
    have : q / 512 < g.sectorsPerCluster := by
      have : q < g.clusterSize := by omega
      simp only [Bpb.clusterSize] at this
      omega
    omega
  refine ⟨V', does, only, fun i hi => ?_⟩
  by_cases tail : before ≤ i
  · obtain ⟨q, rfl⟩ : ∃ q, i = before + q := ⟨i - before, by omega⟩
    have inside : q < g.clusterSize := by omega
    have now := byteAt_last (V := V') ne inside
    have was := byteAt_last (V := V) ne inside
    rw [before_eq] at now was
    rw [now, was, bytes q]
    by_cases hit : size ≤ before + q ∧ before + q < size + toLast
    · rw [if_pos hit, if_pos (by omega)]
      congr 1
      omega
    · rw [if_neg hit, if_neg (by omega)]
  -- an earlier cluster of the chain is not the last one
  have miss : ¬ (size ≤ i ∧ i < size + toLast) := by omega
  rw [if_neg miss]
  have early : i < (l.length - 1) * g.clusterSize := by omega
  have split : l.dropLast ++ [l.getLast ne] = l := dropLast_append_getLast ne
  have short : l.dropLast.length = l.length - 1 := length_dropLast
  rw [← split, byteAt_append_left _ _ (by rw [short]; exact early),
    byteAt_append_left _ _ (by rw [short]; exact early)]
  refine byteAt_congr _ (by rw [short]; exact early) fun d hd lba inside => only.sec lba ?_
  intro e he inside'
  obtain rfl := mem_singleton.1 he
  have nodup := chain.path.nodup
  rw [← split] at nodup
  have hd' := (chain.clusters d (mem_of_mem_dropLast hd)).1
  have he' := (chain.clusters _ (getLast_mem ne)).1
  exact (nodup_append.1 nodup).2.2 d hd _ (mem_singleton.2 rfl)
    (cluster_inj hd' he' inside inside')

theorem byteAt_append_right (l l' : List Nat) (j : Nat) :
    byteAt g V (l ++ l') (l.length * g.clusterSize + j) = byteAt g V l' j := by
  rw [← byteAt_drop, drop_left]

section
variable (buf : Nat → UInt8) (toLast : Nat) {remaining : Nat} {c : Nat} {old : List Nat}

theorem extendChain_none (last : Nat) : Does (Holds g) V (extendChain g last buf toLast 0) 0 V := by
  exact .pure _

/-- The cluster count wraps to 0: no chain is allocated, the last cluster is
pointed at 0 and the data has nowhere to go. -/
theorem extendChain_wrap {last : Nat} (inside : last < g.fatEntries) (small : remaining < 2 ^ 32)
    (wrap : 2 ^ 32 < remaining + g.clusterSize) :
    Does (Holds g) V (extendChain g last buf toLast remaining) (-5) (V.setFat last 0) := by
  have some_data : 0 < remaining := by
    have := g.ranged.spc
    simp only [Bpb.clusterSize] at wrap
    omega
  have alloc := fatAllocChain_does (g := g) (V := V) 0
  simp only [zero_le, if_true, take_zero, head?_nil, Option.getD_none] at alloc
  have none : clustersFor g remaining = 0 := by rw [clustersFor_eq small, if_neg (by omega)]
  rw [extendChain, none]
  simp only [gt_iff_lt, some_data, not_true_eq_false, if_false]
  refine .bind alloc ?_
  refine .bind (fatSetEntry_does inside (by decide)) ?_
  exact writeDataIntoChain_zero_does _ _ some_data

theorem extendChain_full (last : Nat) (some_data : 0 < remaining)
    (fits : remaining + g.clusterSize ≤ 2 ^ 32)
    (full : (V.freeList g).length < (remaining + g.clusterSize - 1) / g.clusterSize) :
    Does (Holds g) V (extendChain g last buf toLast remaining) (-28) V := by
  have pos := g.clusterSize_pos
  have alloc := fatAllocChain_does (g := g) (V := V) ((remaining + g.clusterSize - 1) / g.clusterSize)
  rw [if_neg (by omega), if_neg (by omega)] at alloc
  rw [extendChain, clustersFor_eq (by omega), if_pos fits]
  simp only [gt_iff_lt, some_data, not_true_eq_false, if_false]
  refine .bind alloc ?_
  exact .pure _

structure Grown (g : Geometry) (V W : Vol) (c : Nat) (old add : List Nat) (src : Nat → UInt8)
    (n : Nat) : Prop where
  chain : Chain g W c (old ++ add)
  fat : ∀ x, x ∉ old ++ add → W.fat x = V.fat x
  free : ∀ x ∈ add, 2 ≤ x ∧ V.fat x = 0
  sec : ∀ lba, (∀ x ∈ add, ¬ InCluster g x lba) → W.sec lba = V.sec lba
  low : (add.length - 1) * g.clusterSize < n
  fits : n ≤ add.length * g.clusterSize
  bytes : ∀ i < n, byteAt g W add i = src i

theorem extendChain_grows (chain : Chain g V c old) (some_data : 0 < remaining)
    (fits : remaining + g.clusterSize ≤ 2 ^ 32)
    (room : (remaining + g.clusterSize - 1) / g.clusterSize ≤ (V.freeList g).length) :
    ∃ W add, add ≠ [] ∧ Does (Holds g) V
        (extendChain g (old.getLast chain.path.ne_nil) buf toLast remaining) 0 W ∧
      Grown g V W c old add (fun i => buf (toLast + i)) remaining := by
  have pos := g.clusterSize_pos
  have ne := chain.path.ne_nil
  have last_mem := getLast_mem ne
  have alloc := fatAllocChain_does (g := g) (V := V) ((remaining + g.clusterSize - 1) / g.clusterSize)
  obtain ⟨enough, tight, _⟩ := ceil_spec (g := g) remaining
  have tight := tight some_data
  rw [if_pos room, if_pos room] at alloc
  have free : ∀ x ∈ (V.freeList g).take ((remaining + g.clusterSize - 1) / g.clusterSize),
      IsCluster g x ∧ V.fat x = 0 := fun x hx =>
    ⟨freeList_cluster (mem_of_mem_take hx), (mem_freeList.1 (mem_of_mem_take hx)).2.2⟩
  have count := length_take_of_le room
  have nodup : ((V.freeList g).take ((remaining + g.clusterSize - 1) / g.clusterSize)).Nodup :=
    freeList_nodup.sublist (take_sublist _ _)
  rw [extendChain, clustersFor_eq (by omega), if_pos fits]
  simp only [gt_iff_lt, some_data, not_true_eq_false, if_false]
  generalize (V.freeList g).take ((remaining + g.clusterSize - 1) / g.clusterSize) = add at *
  rw [← count] at enough tight
  cases add with
  | nil => simp at tight
  | cons d l =>
    have apart : ∀ x ∈ d :: l, x ∉ old := fun x hx hx' =>
      (chain.allocated hx').2.1 (free x hx).2
    have small : d < 0xFFF7 := (free d (by simp)).1.2.1
    have tail := linked_chain (V := V) nodup fun x hx => (free x hx).1
    -- the last cluster of the old chain now points at the first new one
    have kept : ∀ x ∈ d :: l,
        ((V.linked (d :: l)).setFat (old.getLast ne) d).fat x = (V.linked (d :: l)).fat x :=
      fun x hx => update_of_ne (fun same : x = old.getLast ne => apart x hx (same ▸ last_mem)) _ _
    have was : Links.Path (V.linked (d :: l)).fat (0xFFF8 ≤ ·) c old :=
      chain.path.congr fun x hx => Links.link_of_not_mem _ fun hx' => apart x hx' hx
    have joined := was.extend tail.path apart (by omega)
    obtain ⟨W, data, only, bytes⟩ := writeDataIntoChain_does d remaining (fun i => buf (toLast + i))
      (d :: l) (tail.congr kept) enough
    refine ⟨W, d :: l, by simp, ?_, ?_, ?_, fun x hx => ⟨(free x hx).1.1, (free x hx).2⟩, ?_, tight.2,
      enough, bytes⟩
    · refine .bind alloc ?_
      simp only [ne_eq, not_true_eq_false, if_false, head?_cons, Option.getD_some]
      refine .bind (fatSetEntry_does (chain.clusters _ last_mem).2.2 (by omega)) ?_
      exact data
    · refine ⟨?_, ?_⟩
      · rw [only.fat]
        exact joined
      · intro x hx
        exact (mem_append.1 hx).elim (chain.clusters x) fun h => (free x h).1
    · intro x hx
      have notLast : x ≠ old.getLast ne := fun same => hx (by simp [same])
      have notAdd : x ∉ d :: l := fun h => hx (mem_append_right _ h)
      rw [only.fat, setFat_fat, update_of_ne notLast]
      exact Links.link_of_not_mem _ notAdd
    · intro lba out
      rw [only.sec lba out]
      rfl

end

def sizedSector (buf : Sector) (off size : Nat) : Sector :=
  putSlot buf off (put32 (fun i => buf (off + i)) 28 size)

theorem putSlot_self (buf : Sector) (off : Nat) : putSlot buf off
    (fun i => buf (off + i)) = buf := by
  funext i
  by_cases inside : off ≤ i ∧ i < off + 32
  · simp only [putSlot, inside, and_self, if_true]
    congr 1
    omega
  · simp only [putSlot, inside, if_false]

namespace FileAt
variable {path : List UInt8} {de : Dirent} {pos : Pos} {slot : Slot} {old add : List Nat} {W : Vol}

structure Extended (g : Geometry) (V W : Vol) (slot : Slot) (old add : List Nat) (buf : Nat → UInt8)
    (len : Nat) : Prop where
  chain : Chain g W (firstOf slot) (old ++ add)
  fat : ∀ c, c ∉ old ++ add → W.fat c = V.fat c
  free : ∀ c ∈ add, 2 ≤ c ∧ V.fat c = 0
  sec : ∀ lba, (∀ c ∈ old ++ add, ¬ InCluster g c lba) → W.sec lba = V.sec lba
  low : ((old ++ add).length - 1) * g.clusterSize < sizeOf slot + len
  fits : sizeOf slot + len ≤ (old ++ add).length * g.clusterSize
  bytes : ∀ i < sizeOf slot + len, byteAt g W (old ++ add) i =
    if i < sizeOf slot then byteAt g V old i else buf (i - sizeOf slot)

def sized (W : Vol) (pos : Pos) (size : Nat) : Vol :=
  W.setSec pos.1 (sizedSector (W.sec pos.1) pos.2 size)

def spare (g : Geometry) (slot : Slot) (old : List Nat) : Nat := old.length * g.clusterSize - sizeOf slot

def extendRest (g : Geometry) (de : Dirent) (last : Nat) (buf : Nat → UInt8) (len toLast : Nat) :
    Driver Int := do
  let rc ← extendChain g last buf toLast (len - toLast)
  if rc ≠ 0 then return rc
  bumpSize de ((de.size + len) % 2 ^ 32)

theorem rest_only {last : Nat} {V₁ : Vol} (mem : last ∈ old) (only : OnlyClusters g [last] V V₁) :
    OnlyClusters g old V V₁ :=
  ⟨only.fat, fun lba out => only.sec lba fun x hx => out x (mem_singleton.1 hx ▸ mem)⟩

section
variable {buf : Nat → UInt8} {len : Nat} {V₁ : Vol}

theorem extended_nil (chain : Chain g V (firstOf slot) old) (only : OnlyClusters g old V V₁)
    (low : (old.length - 1) * g.clusterSize < sizeOf slot)
    (fits : sizeOf slot + len ≤ old.length * g.clusterSize)
    (bytes : ∀ i < old.length * g.clusterSize, byteAt g V₁ old i =
      if sizeOf slot ≤ i ∧ i < sizeOf slot + len then buf (i - sizeOf slot) else byteAt g V old i) :
    Extended g V V₁ slot old [] buf len := by
  refine ⟨?_, fun c _ => by rw [only.fat], by simp, ?_, ?_, ?_, ?_⟩
  · rw [append_nil]
    exact chain.congr fun _ _ => by rw [only.fat]
  · intro lba out
    exact only.sec lba fun c hc => out c (by simp [hc])
  · rw [append_nil]
    omega
  · rw [append_nil]
    exact fits
  intro i hi
  rw [append_nil, bytes i (by omega)]
  by_cases kept : i < sizeOf slot
  · rw [if_neg (by omega), if_pos kept]
  · rw [if_pos (by omega), if_neg kept]

theorem extended_add (chain : Chain g V (firstOf slot) old) (only : OnlyClusters g old V V₁)
    (fits : sizeOf slot ≤ old.length * g.clusterSize) (more : spare g slot old < len)
    (some_add : add ≠ [])
    (bytes : ∀ i < old.length * g.clusterSize, byteAt g V₁ old i =
      if sizeOf slot ≤ i ∧ i < sizeOf slot + spare g slot old then buf (i - sizeOf slot)
      else byteAt g V old i)
    (grown : Grown g V₁ W (firstOf slot) old add (fun i => buf (spare g slot old + i))
      (len - spare g slot old)) : Extended g V W slot old add buf len := by
  have add_count : 0 < add.length := length_pos_iff.2 some_add
  have total : sizeOf slot + spare g slot old = old.length * g.clusterSize := by
    rw [spare]
    omega
  have length : (old ++ add).length * g.clusterSize =
      old.length * g.clusterSize + add.length * g.clusterSize := by
    rw [length_append, Nat.add_mul]
  have length' : ((old ++ add).length - 1) * g.clusterSize =
      old.length * g.clusterSize + (add.length - 1) * g.clusterSize := by
    rw [length_append, Nat.add_sub_assoc add_count, Nat.add_mul]
  have grown_low := grown.low
  have grown_fits := grown.fits
  have free : ∀ c ∈ add, 2 ≤ c ∧ V.fat c = 0 := fun c hc => only.fat ▸ grown.free c hc
  refine ⟨grown.chain, ?_, free, ?_, by omega, by omega, ?_⟩
  · intro c hc
    rw [grown.fat c hc, only.fat]
  · intro lba out
    rw [grown.sec lba fun c hc => out c (by simp [hc]), only.sec lba fun c hc => out c (by simp [hc])]
  intro i hi
  by_cases front : i < old.length * g.clusterSize
  · -- the old clusters are not among the new ones
    have frame : ∀ c ∈ old, ∀ lba, InCluster g c lba → W.sec lba = V₁.sec lba := by
      intro c hc lba inside
      refine grown.sec lba fun d hd inside' => ?_
      obtain rfl := cluster_inj (chain.clusters c hc).1 (free d hd).1 inside inside'
      exact (chain.allocated hc).2.1 (free c hd).2
    rw [byteAt_append_left _ _ front, byteAt_congr old front frame, bytes i front]
    by_cases kept : i < sizeOf slot
    · rw [if_neg (by omega), if_pos kept]
    · rw [if_pos (by omega), if_neg kept]
  · obtain ⟨j, rfl⟩ : ∃ j, i = old.length * g.clusterSize + j :=
      ⟨i - old.length * g.clusterSize, by omega⟩
    rw [byteAt_append_right, grown.bytes j (by omega), if_neg (by omega)]
    congr 1
    omega

end

section
variable (f : FileAt g V path de pos slot old)
include f

theorem offset : ∃ i < 16, pos.2 = i * 32 := by
  obtain ⟨_, _, mem, _⟩ := f.node
  exact slots_offset (live_slots mem)

theorem slot_eq {i : Nat} (offset : pos.2 = i * 32) : slot = slotIn (V.sec pos.1) i := by
  rw [f.node.slotAt, slotAt, offset, Nat.mul_div_cancel i (by decide)]

variable (wf : WellFormed g V)
include wf

theorem slack_step (only : OnlyClusters g old V W) : EntryStep g V W pos slot
    (some slot) old old := by
  obtain ⟨i, _, offset⟩ := f.offset
  refine .of_put wf (fun k => V.sec pos.1 (pos.2 + k)) f.node f.is_file f.chain (.refl slot) (fun c _ _ => by rw [only.fat])
    (fun c hc hc' => absurd hc hc') (fun c hc hc' => absurd hc hc')
    (f.chain.congr fun _ _ => by rw [only.fat]) ?_ ?_
  · rw [f.slot_eq offset, offset]
    rfl
  intro lba notOld _
  rw [only.sec lba notOld]
  by_cases here : lba = pos.1
  · rw [if_pos here, here, putSlot_self]
  · rw [if_neg here]

variable {buf : Nat → UInt8} {len : Nat}

theorem grow_step (ext : Extended g V W slot old add buf len) (small : sizeOf slot + len < 2 ^ 32) :
    EntryStep g V (sized W pos (sizeOf slot + len)) pos slot
      (some (withSize slot (sizeOf slot + len))) old (old ++ add) := by
  have apart := f.apart wf ext.free
  have outside : ∀ c ∈ old ++ add, ¬ InCluster g c pos.1 := fun c hc =>
    (mem_append.1 hc).elim (apart.1 c) (apart.2 c)
  have home := ext.sec pos.1 outside
  have head := withSize_head slot (sizeOf slot + len)
  obtain ⟨i, _, offset⟩ := f.offset
  refine .of_put wf _ f.node f.is_file f.chain head ?_ ?_ ?_ ?_
    (put32_slotIn (V.sec pos.1) i (sizeOf slot + len) |>.trans ?_) ?_
  · intro c _ hc'
    exact ext.fat c hc'
  · intro c hc hc'
    exact absurd (mem_append_left _ hc) hc'
  · intro c hc hc'
    exact ext.free c ((mem_append.1 hc).resolve_left hc')
  · rw [EntryChain, head.isDirSlot, f.is_file, firstOf_withSize, sizeOf_withSize _ small]
    exact .inr ⟨ext.chain.congr fun _ _ => rfl, ext.low, ext.fits⟩
  · rw [withSize, f.slot_eq offset]
  intro lba _ notNew
  by_cases here : lba = pos.1
  · subst here
    rw [sized, setSec_sec, update_self, if_pos rfl, sizedSector, home, offset]
  · rw [sized, setSec_sec, update_of_ne here, if_neg here, ext.sec lba notNew]

theorem grow_bytes (ext : Extended g V W slot old add buf len)
    (small : sizeOf slot + len < 2 ^ 32) :
    fileBytes g (sized W pos (sizeOf slot + len)) (withSize slot (sizeOf slot + len)) =
      fileBytes g V slot ++ (List.range len).map buf := by
  have put := ((f.grow_step wf ext small).put _ rfl).2
  have apart := f.apart wf ext.free
  have fits := ext.fits
  have same : ∀ i < sizeOf slot + len, byteAt g (sized W pos (sizeOf slot + len)) (old ++ add) i =
      if i < sizeOf slot then byteAt g V old i else buf (i - sizeOf slot) := by
    intro i hi
    rw [← ext.bytes i hi]
    refine byteAt_congr _ (by omega) fun c hc lba inside => ?_
    have differ : lba ≠ pos.1 := by
      rintro rfl
      exact (mem_append.1 hc).elim (fun h => apart.1 c h inside) (fun h => apart.2 c h inside)
    rw [sized, setSec_sec, update_of_ne differ]
  rw [fileBytes_eq put.2.2 put.1, fileBytes_eq f.chain f.is_file, sizeOf_withSize _ small, slice, slice,
    range_add, map_append, map_map]
  congr 1
  · apply map_congr_left
    intro i hi
    have inside := mem_range.1 hi
    rw [zero_add, same i (by omega), if_pos inside]
  apply map_congr_left
  intro i hi
  have inside := mem_range.1 hi
  simp only [comp_apply, zero_add]
  rw [same _ (by omega), if_neg (by omega)]
  congr 1
  omega

end

section
variable (f : FileAt g V path de pos slot old) (chain : Chain g V (firstOf slot) old)
  (low : (old.length - 1) * g.clusterSize < sizeOf slot)
  (fits : sizeOf slot ≤ old.length * g.clusterSize) (buf : Nat → UInt8) {len : Nat} (some_data : 0 < len)
include f chain low fits some_data

theorem extend_start : ∃ V₁, OnlyClusters g [old.getLast chain.path.ne_nil] V V₁ ∧
      (∀ i < old.length * g.clusterSize, byteAt g V₁ old i =
        if sizeOf slot ≤ i ∧ i < sizeOf slot + min len (spare g slot old) then buf (i - sizeOf slot)
        else byteAt g V old i) ∧
      ∀ rc V', Does (Holds g) V₁ (extendRest g de (old.getLast chain.path.ne_nil) buf len
          (min len (spare g slot old))) rc V' →
        Does (Holds g) V (fatExtendExisting g de buf len) rc V' := by
  have ne := chain.path.ne_nil
  have count : 0 < old.length := length_pos_iff.2 ne
  have whole : old.length * g.clusterSize = (old.length - 1) * g.clusterSize + g.clusterSize := by
    rw [← succ_mul, succ_eq_add_one, Nat.sub_add_cancel count]
  have walk := tailWalk_does 65537 (firstOf slot) 0 old chain (le_of_lt chain.length_lt) (by decide)
  have size_lt : sizeOf slot < 2 ^ 32 := rd32_lt _ _
  rw [zero_add, mod_eq_of_lt (by omega)] at walk
  have room : g.clusterSize - (sizeOf slot - (old.length - 1) * g.clusterSize) = spare g slot old := by
    rw [spare]
    omega
  obtain ⟨V₁, fill, only, bytes⟩ := fillTail_chain (min len (spare g slot old)) chain low
    (by rw [spare]; omega) buf
  -- the program up to the end of the fill, whatever volume the fill leaves
  have start : ∀ V₂ rc V', Does (Holds g) V (fillLast g (old.getLast ne)
        (sizeOf slot - (old.length - 1) * g.clusterSize) buf (min len (spare g slot old))) true V₂ →
      Does (Holds g) V₂ (extendRest g de (old.getLast ne) buf len (min len (spare g slot old))) rc V' →
      Does (Holds g) V (fatExtendExisting g de buf len) rc V' := by
    intro V₂ rc V' filled rest
    rw [fatExtendExisting, if_neg (by omega), f.of.firstCluster]
    refine .bind walk ?_
    simp only [f.of.size, room]
    refine .bind filled ?_
    rw [extendRest, f.of.size] at rest
    exact rest
  by_cases some_fill : 0 < min len (spare g slot old)
  · refine ⟨V₁, only, bytes, fun rc V' => start V₁ rc V' ?_⟩
    rw [fillLast, if_pos some_fill]
    exact fill
  refine ⟨V, .refl _, fun i _ => by rw [if_neg (by omega)], fun rc V' => start V rc V' ?_⟩
  rw [fillLast, if_neg some_fill]
  exact .pure _

theorem extend_wrap (small : len < 2 ^ 32)
    (wrap : 2 ^ 32 < len - min len (spare g slot old) + g.clusterSize) :
    ∃ V', Does (Holds g) V (fatExtendExisting g de buf len) (-5) V' ∧
      V'.fat = update V.fat (old.getLast chain.path.ne_nil) 0 := by
  obtain ⟨V₁, only, _, start⟩ := f.extend_start chain low fits buf some_data
  refine ⟨V₁.setFat (old.getLast chain.path.ne_nil) 0, start _ _ ?_, by rw [setFat_fat, only.fat]⟩
  refine .bind (extendChain_wrap buf _ (chain.clusters _ (getLast_mem _)).2.2 (by omega) wrap) ?_
  exact .pure _

variable (wf : WellFormed g V)
include wf

theorem extend_full (range : len - min len (spare g slot old) + g.clusterSize ≤ 2 ^ 32)
    (full : (V.freeList g).length <
      (len - min len (spare g slot old) + g.clusterSize - 1) / g.clusterSize) :
    ∃ V', Does (Holds g) V (fatExtendExisting g de buf len) (-28) V' ∧ V'.fat = V.fat ∧
      EntryStep g V V' pos slot (some slot) old old ∧ fileBytes g V' slot = fileBytes g V slot := by
  have more : 0 < len - min len (spare g slot old) := pos_of_ne_zero fun zero => by
    have := (ceil_spec (g := g) _).2.2 zero
    omega
  obtain ⟨V₁, only, bytes, start⟩ := f.extend_start chain low fits buf some_data
  have same_free : V₁.freeList g = V.freeList g := by simp only [freeList, only.fat]
  have step := f.slack_step wf (rest_only (getLast_mem _) only)
  refine ⟨V₁, start _ _ ?_, only.fat, step, ?_⟩
  · rw [extendRest]
    refine .bind (extendChain_full buf _ _ more range (by rw [same_free]; exact full)) ?_
    exact .pure _
  rw [fileBytes_eq (step.put _ rfl).2.2.2 f.is_file, fileBytes_eq f.chain f.is_file]
  apply map_congr_left
  intro i hi
  have := mem_range.1 hi
  rw [zero_add, bytes i (by omega), if_neg (by omega)]

theorem extend_ok (range : len - min len (spare g slot old) + g.clusterSize ≤ 2 ^ 32)
    (room : (len - min len (spare g slot old) + g.clusterSize - 1) / g.clusterSize ≤
      (V.freeList g).length) :
    ∃ V', Does (Holds g) V (fatExtendExisting g de buf len) 0 V' ∧
      (sizeOf slot + len < 2 ^ 32 → ∃ new,
        EntryStep g V V' pos slot (some (withSize slot (sizeOf slot + len))) old new ∧
        fileBytes g V' (withSize slot (sizeOf slot + len)) =
          fileBytes g V slot ++ (List.range len).map buf) := by
  have area := f.node.area wf
  obtain ⟨V₁, only, bytes, start⟩ := f.extend_start chain low fits buf some_data
  have old_only := rest_only (getLast_mem chain.path.ne_nil) only
  -- in both cases the chain grows, by no cluster in the first
  obtain ⟨W, add, run, ext⟩ : ∃ W add, Does (Holds g) V₁
      (extendChain g (old.getLast chain.path.ne_nil) buf (min len (spare g slot old))
        (len - min len (spare g slot old))) 0 W ∧ Extended g V W slot old add buf len := by
    by_cases more : spare g slot old < len
    · have same_free : V₁.freeList g = V.freeList g := by simp only [freeList, only.fat]
      have chain₁ : Chain g V₁ (firstOf slot) old := chain.congr fun _ _ => by rw [only.fat]
      obtain ⟨W, add, some_add, run, grown⟩ := extendChain_grows buf (min len (spare g slot old)) chain₁
        (by omega) range (by rw [same_free]; exact room)
      have full : min len (spare g slot old) = spare g slot old := by omega
      rw [full] at grown bytes
      exact ⟨W, add, run, extended_add chain old_only fits more some_add bytes grown⟩
    · have all_in : min len (spare g slot old) = len := by omega
      rw [all_in] at bytes ⊢
      rw [Nat.sub_self]
      refine ⟨V₁, [], extendChain_none buf _ _, extended_nil chain old_only low ?_ bytes⟩
      rw [spare] at more
      omega
  refine ⟨sized W pos ((sizeOf slot + len) % 2 ^ 32), start _ _ (.bind run ?_), fun small => ?_⟩
  · simp only [ne_eq, not_true_eq_false, if_false, f.of.size]
    rw [bumpSize, (Prod.mk.inj f.of.pos).1, (Prod.mk.inj f.of.pos).2]
    exact .bind (read_does area) (readModifyWriteDirent_does _ _ area)
  · rw [mod_eq_of_lt small]
    exact ⟨old ++ add, f.grow_step wf ext small, f.grow_bytes wf ext small⟩

end

end FileAt

end

end Osnos.Fat
