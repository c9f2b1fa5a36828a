import Osnos.Fat.Entry
import Osnos.Fat.Step

/-! What writes into directory sectors do to slots and to the groups they form. -/
namespace Osnos.Fat
open Function List

def erase (slot : Slot) : Slot := update slot 0 0xE5

def eraseAt (erased : List Pos) (S : List (Pos × Slot)) : List (Pos × Slot) :=
  S.map fun e => (e.1, if e.1 ∈ erased then erase e.2 else e.2)

variable {A B L S : List (Pos × Slot)} {erased : List Pos} {dir : Nat} {pos : Pos}

section
variable {g : Geometry} {V V' : Vol}

theorem slotIn_putSlot_self (buf : Sector) (i : Nat) (raw : Slot) :
    slotIn (putSlot buf (i * 32) raw) i = fun k => if k < 32 then raw k else 0 := by
  funext k
  by_cases hk : k < 32
  · have inside : i * 32 ≤ i * 32 + k ∧ i * 32 + k < i * 32 + 32 := by omega
    simp only [slotIn, hk, if_true, putSlot, inside, and_self, Nat.add_sub_cancel_left]
  · simp only [slotIn, hk, if_false]

theorem slotIn_putSlot_other (buf : Sector) {i j : Nat} (raw : Slot) (differ : j ≠ i) :
    slotIn (putSlot buf (i * 32) raw) j = slotIn buf j := by
  funext k
  by_cases hk : k < 32
  · have outside : ¬ (i * 32 ≤ j * 32 + k ∧ j * 32 + k < i * 32 + 32) := by omega
    simp only [slotIn, hk, if_true, putSlot, outside, if_false]
  · simp only [slotIn, hk, if_false]

theorem slotIn_erase_at {lba : Nat} (buf : Sector) (i : Nat)
    (aligned : ∀ p ∈ erased, ∃ j, p.2 = j * 32) :
    slotIn (fun k => if (lba, k) ∈ erased then 0xE5 else buf k) i =
      if (lba, i * 32) ∈ erased then erase (slotIn buf i) else slotIn buf i := by
  funext k
  by_cases first : k = 0
  · subst first
    by_cases mem : (lba, i * 32) ∈ erased <;> simp [slotIn, erase, mem]
  by_cases small : k < 32
  · have miss : (lba, i * 32 + k) ∉ erased := by
      intro mem
      obtain ⟨j, hj⟩ := aligned _ mem
      omega
    by_cases mem : (lba, i * 32) ∈ erased <;>
      simp [slotIn, erase, mem, small, miss, update_of_ne first]
  · by_cases mem : (lba, i * 32) ∈ erased <;>
      simp [slotIn, erase, mem, small, update_of_ne first]

theorem rd32_put32 (b : Sector) (o v : Nat) : rd32 (put32 b o v) o = v % 2 ^ 32 := by
  have far : o ≠ o + 2 + 1 := by omega
  have e₀ : put32 b o v o = UInt8.ofNat v := by simp [put32, put16, update_of_ne far]
  have e₁ : put32 b o v (o + 1) = UInt8.ofNat (v / 256) := by simp [put32, put16]
  have e₂ : put32 b o v (o + 2) = UInt8.ofNat (v / 65536) := by simp [put32, put16]
  have e₃ : put32 b o v (o + 3) = UInt8.ofNat (v / 65536 / 256) := by simp [put32, put16]
  simp only [rd32, e₀, e₁, e₂, e₃, ofNat_toNat]
  omega

theorem put32_of_lt (b : Sector) {o k : Nat} (v : Nat) (below : k < o) : put32 b o v k = b k := by
  rw [put32, put16_of_ne _ _ _ _ (by omega) (by omega), put16_of_ne _ _ _ _ (by omega) (by omega)]

theorem rd16_put32_below (b : Sector) (v : Nat) : rd16 (put32 b 28 v) 26 = rd16 b 26 := by
  rw [rd16, rd16, put32_of_lt _ _ (by omega), put32_of_lt _ _ (by omega)]

/-- The entry as `fat_write_path` rewrites it, and as `fat_extend_existing` does. -/
def withChain (slot : Slot) (first size : Nat) : Slot := put32 (put16 slot 26 first) 28 size
def withSize (slot : Slot) (size : Nat) : Slot := put32 slot 28 size

theorem withChain_head (slot : Slot) (first size : Nat) : SameHead slot
    (withChain slot first size) := by
  intro k hk
  rw [withChain, put32_of_lt _ _ (by omega), put16_of_ne _ _ _ _ (by omega) (by omega)]

theorem withSize_head (slot : Slot) (size : Nat) : SameHead slot (withSize slot size) := by
  intro k hk
  rw [withSize, put32_of_lt _ _ (by omega)]

theorem firstOf_withChain (slot : Slot) {first : Nat} (size : Nat) (small : first < 65536) :
    firstOf (withChain slot first size) = first := by
  rw [firstOf, withChain, rd16_put32_below, rd16_put16_self _ _ _ small]

theorem sizeOf_withChain (slot : Slot) (first : Nat) {size : Nat} (small : size < 2 ^ 32) :
    sizeOf (withChain slot first size) = size := by
  rw [sizeOf, withChain, rd32_put32, Nat.mod_eq_of_lt small]

theorem firstOf_withSize (slot : Slot) (size : Nat) : firstOf (withSize slot size) = firstOf slot :=
  rd16_put32_below _ _

theorem sizeOf_withSize (slot : Slot) {size : Nat} (small : size < 2 ^ 32) :
    sizeOf (withSize slot size) = size := by
  rw [sizeOf, withSize, rd32_put32, Nat.mod_eq_of_lt small]

theorem put16_cut (f : Sector) (v : Nat) {o : Nat} (inside : o + 1 < 32) :
    (fun k => if k < 32 then put16 f o v k else 0) =
      put16 (fun k => if k < 32 then f k else 0) o v := by
  funext k
  simp only [put16, update_apply]
  by_cases hk : k < 32
  · simp [hk]
  · simp [hk, show k ≠ o by omega, show k ≠ o + 1 by omega]

theorem put32_slotIn (b : Sector) (i v : Nat) :
    (fun k => if k < 32 then put32 (fun j => b (i * 32 + j)) 28 v k else 0) =
      put32 (slotIn b i) 28 v := by
  rw [put32, put16_cut _ _ (by decide), put16_cut _ _ (by decide)]
  rfl

theorem put16_put32_slotIn (b : Sector) (i c v : Nat) :
    (fun k => if k < 32 then put32 (put16 (fun j => b (i * 32 + j)) 26 c) 28 v k else 0) =
      put32 (put16 (slotIn b i) 26 c) 28 v := by
  rw [put32, put16_cut _ _ (by decide), put16_cut _ _ (by decide), put16_cut _ _ (by decide)]
  rfl

namespace SameHead
variable {slot slot' : Slot}

theorem refl (slot : Slot) : SameHead slot slot := fun _ _ => rfl

variable (h : SameHead slot slot')
include h

theorem name11 : name11 slot' = name11 slot := by
  apply map_congr_left
  intro i hi
  have small := mem_range.1 hi
  simp only [Nat.zero_add]
  exact h i (by omega)

theorem isDirSlot : isDirSlot slot' = isDirSlot slot := by
  rw [Fat.isDirSlot, Fat.isDirSlot, h 11 (by decide)]

theorem isLfnSlot : isLfnSlot slot' = isLfnSlot slot := by
  rw [Fat.isLfnSlot, Fat.isLfnSlot, h 11 (by decide)]

theorem isVolSlot : isVolSlot slot' = isVolSlot slot := by
  rw [Fat.isVolSlot, Fat.isVolSlot, h 11 (by decide)]

theorem isDots : isDots slot' = isDots slot := by
  rw [Fat.isDots, Fat.isDots, isDot, isDot, isDotDot, isDotDot, h.name11]

end SameHead

theorem amend_of_not_mem {entry : Option Slot} {G : List Group}
    (absent : ∀ x ∈ G, x.pos ≠ pos) : amend pos entry G = G := by
  rw [amend, filterMap_congr (g := some) fun x hx => by simp [absent x hx], filterMap_some]

theorem groupsFrom_put {slot' : Slot} (lfn S : List (Pos × Slot))
    (entry : ∀ e ∈ S, e.1 = pos → direntIsValid e.2 ∧ SameHead e.2 slot') :
    groupsFrom lfn (S.map fun e => (e.1, if e.1 = pos then slot' else e.2)) =
      amend pos (some slot') (groupsFrom lfn S) := by
  induction S generalizing lfn with
  | nil => rfl
  | cons e rest ih =>
    obtain ⟨q, s⟩ := e
    have first := entry (q, s) (by simp)
    have head : SameHead s (if q = pos then slot' else s) := by
      split
      · exact (first (by assumption)).2
      · exact .refl s
    have tail := fun lfn => ih lfn fun e he => entry e (by simp [he])
    simp only [map_cons, groupsFrom, head 0 (by decide), head.isLfnSlot, head.isVolSlot, tail]
    split_ifs <;> simp_all [amend, direntIsValid]

theorem groupsFrom_mem {lfn : List (Pos × Slot)} {x : Group} (h : x ∈ groupsFrom lfn S) :
    (x.pos, x.slot) ∈ S := by
  have mem := mem_map_of_mem (f := fun x : Group => (x.pos, x.slot)) h
  rw [groupsFrom_live, liveIn] at mem
  exact (takeWhile_sublist _).subset (mem_of_mem_filter mem)

theorem groupsFrom_append {entry : Option Slot} {X Y : List (Pos × Slot)}
    (A lfn : List (Pos × Slot)) (absent : ∀ e ∈ A, e.1 ≠ pos)
    (behind : ∀ lfn, groupsFrom lfn X = amend pos entry (groupsFrom lfn Y)) :
    groupsFrom lfn (A ++ X) = amend pos entry (groupsFrom lfn (A ++ Y)) := by
  induction A generalizing lfn with
  | nil => exact behind lfn
  | cons e _ ih =>
    obtain ⟨q, s⟩ := e
    have tail := fun lfn => ih lfn fun e he => absent e (by simp [he])
    have here : q ≠ pos := absent (q, s) (by simp)
    rw [cons_append, cons_append, groupsFrom, groupsFrom]
    by_cases fin : s 0 = 0
    · simp [fin, amend]
    by_cases deleted : s 0 = 0xE5
    · simp [deleted, tail]
    by_cases long : isLfnSlot s
    · simp [fin, deleted, long, tail]
    by_cases vol : isVolSlot s
    · simp [fin, deleted, long, vol, tail]
    · simp only [fin, deleted, long, vol, tail, Bool.false_eq_true, if_false]
      simp [amend, here]

theorem groupsFrom_erased (L lfn : List (Pos × Slot)) (pos : Pos) (t : Slot)
    (B : List (Pos × Slot)) :
    groupsFrom lfn (L.map (fun e => (e.1, erase e.2)) ++ (pos, erase t) :: B) = groupsFrom
    [] B := by
  induction L generalizing lfn with
  | nil => simp [groupsFrom, erase]
  | cons e rest ih => simpa [groupsFrom, erase] using ih []

theorem groupsFrom_group (L lfn : List (Pos × Slot)) (pos : Pos) (t : Slot) (B : List (Pos × Slot))
    (long : ∀ e ∈ L, e.2 0 ≠ 0 ∧ e.2 0 ≠ 0xE5 ∧ isLfnSlot e.2) (valid : direntIsValid t)
    (used : t 0 ≠ 0) :
    groupsFrom lfn (L ++ (pos, t) :: B) = ⟨lfn ++ L, pos, t⟩ :: groupsFrom [] B := by
  induction L generalizing lfn with
  | nil =>
    simp only [direntIsValid, Bool.and_eq_true, decide_eq_true_eq, Bool.not_eq_true'] at valid
    simp [groupsFrom, used, valid]
  | cons e _ ih =>
    obtain ⟨fin, deleted, lfn_slot⟩ := long e (by simp)
    rw [cons_append, groupsFrom, if_neg fin, if_neg deleted, if_pos lfn_slot,
      ih _ fun e he => long e (by simp [he])]
    simp

theorem groupsFrom_remove {t : Slot} (A L B lfn : List (Pos × Slot))
    (long : ∀ e ∈ L, e.2 0 ≠ 0 ∧ e.2 0 ≠ 0xE5 ∧ isLfnSlot e.2) (valid : direntIsValid t)
    (used : t 0 ≠ 0) (before : ∀ e ∈ A, e.1 ≠ pos) (after : ∀ e ∈ B, e.1 ≠ pos) :
    groupsFrom lfn (A ++ (L.map (fun e => (e.1, erase e.2)) ++ (pos, erase t) :: B)) =
      amend pos none (groupsFrom lfn (A ++ (L ++ (pos, t) :: B))) := by
  refine groupsFrom_append A lfn before fun lfn => ?_
  have rest : amend pos none (groupsFrom [] B) = groupsFrom [] B :=
    amend_of_not_mem fun x hx => after _ (groupsFrom_mem hx)
  rw [groupsFrom_erased, groupsFrom_group L lfn pos t B long valid used]
  simpa [amend] using rest.symm

theorem eraseAt_append (erased : List Pos) (S T : List (Pos × Slot)) :
    eraseAt erased (S ++ T) = eraseAt erased S ++ eraseAt erased T := map_append

theorem eraseAt_cons (erased : List Pos) (e : Pos × Slot) (S : List (Pos × Slot)) :
    eraseAt erased (e :: S) =
      (e.1, if e.1 ∈ erased then erase e.2 else e.2) :: eraseAt erased S := rfl

theorem eraseAt_of_not_mem (out : ∀ e ∈ S, e.1 ∉ erased) : eraseAt erased S = S := by
  conv_rhs => rw [← map_id S]
  exact map_congr_left fun e he => by simp [out e he]

theorem eraseAt_of_mem (inside : ∀ e ∈ S, e.1 ∈ erased) :
    eraseAt erased S = S.map fun e => (e.1, erase e.2) :=
  map_congr_left fun e he => by simp [inside e he]

theorem clusterLbas_disjoint {c d : Nat} (hc : 2 ≤ c) (hd : 2 ≤ d) (differ : c ≠ d) :
    (clusterLbas g c).Disjoint (clusterLbas g d) := by
  intro lba mem mem'
  simp only [clusterLbas, mem_range'_1] at mem mem'
  exact differ (cluster_inj hc hd mem mem')

theorem dirLbas_nodup (ok : DirOk g V dir) : (dirLbas g V dir).Nodup := by
  rcases ok with rfl | ⟨l, chain⟩
  · exact nodup_range' ..
  rw [dirLbas_chain chain, nodup_flatMap]
  refine ⟨fun c _ => nodup_range' .., ?_⟩
  refine List.Pairwise.imp_of_mem ?_ chain.path.nodup
  intro c d hc hd differ
  exact clusterLbas_disjoint (chain.clusters c hc).1 (chain.clusters d hd).1 differ

theorem slots_nodup (ok : DirOk g V dir) : ((slots g V dir).map (·.1)).Nodup := by
  have shape : (slots g V dir).map (·.1) =
      (dirLbas g V dir).flatMap fun lba => (range 16).map fun i => (lba, i * 32) := by
    rw [slots, map_flatMap]
    apply flatMap_congr
    intro lba _
    rfl
  rw [shape, nodup_flatMap]
  refine ⟨fun lba _ => ?_, ?_⟩
  · refine List.Nodup.map (fun i j same => ?_) nodup_range
    have := (Prod.mk.inj same).2
    omega
  refine (dirLbas_nodup ok).imp ?_
  intro lba lba' differ pos mem mem'
  obtain ⟨i, _, rfl⟩ := mem_map.1 mem
  obtain ⟨j, _, same⟩ := mem_map.1 mem'
  exact differ (Prod.mk.inj same).1.symm

theorem slots_offset {e : Pos × Slot} (h : e ∈ slots g V dir) : ∃ i < 16, e.1.2 = i * 32 := by
  obtain ⟨_, _, i, hi, rfl⟩ := mem_slots.1 h
  exact ⟨i, hi, rfl⟩

theorem slots_erased (same : dirLbas g V' dir = dirLbas g V dir)
    (aligned : ∀ p ∈ erased, ∃ j, p.2 = j * 32)
    (sec : ∀ lba k, V'.sec lba k = if (lba, k) ∈ erased then 0xE5 else V.sec lba k) :
    slots g V' dir = eraseAt erased (slots g V dir) := by
  refine slots_edit (fun q s => if q ∈ erased then erase s else s) same ?_
  intro lba _ i _
  rw [funext (sec lba), slotIn_erase_at _ _ aligned]

theorem eraseAt_group {slot : Slot} (nodup : (S.map (·.1)).Nodup)
    (split : S = A ++ (L ++ (pos, slot) :: B)) :
    eraseAt (pos :: L.map (·.1)) S =
        A ++ (L.map (fun e => (e.1, erase e.2)) ++ (pos, erase slot) :: B) ∧
      (∀ e ∈ A, e.1 ≠ pos) ∧ ∀ e ∈ B, e.1 ≠ pos := by
  rw [split] at nodup
  simp only [map_append, map_cons] at nodup
  obtain ⟨_, nodup', apartA⟩ := nodup_append.1 nodup
  obtain ⟨_, nodupB, apartL⟩ := nodup_append.1 nodup'
  have front : ∀ e ∈ A, e.1 ∉ pos :: L.map (·.1) := by
    intro e he hp
    have mem : e.1 ∈ L.map (·.1) ++ pos :: B.map (·.1) := by
      rcases mem_cons.1 hp with eq | hp
      · simp [eq]
      · exact mem_append_left _ hp
    exact apartA _ (mem_map_of_mem he) _ mem rfl
  have back : ∀ e ∈ B, e.1 ∉ pos :: L.map (·.1) := by
    intro e he hp
    rcases mem_cons.1 hp with eq | hp
    · exact (nodup_cons.1 nodupB).1 (eq ▸ mem_map_of_mem he)
    · exact apartL _ hp e.1 (by simp [mem_map_of_mem he]) rfl
  refine ⟨?_, fun e he eq => front e he (by simp [eq]), fun e he eq => back e he (by simp [eq])⟩
  rw [split, eraseAt_append, eraseAt_append, eraseAt_cons, eraseAt_of_not_mem front,
    eraseAt_of_not_mem back, eraseAt_of_mem fun e he => by simp [mem_map_of_mem he]]
  simp

theorem group_slots {slot : Slot} (split : slots g V dir = A ++ (L ++ (pos, slot) :: B)) :
    ∀ p ∈ pos :: L.map (·.1), ∃ e ∈ slots g V dir, e.1 = p := by
  intro p hp
  rcases mem_cons.1 hp with rfl | hp
  · exact ⟨(p, slot), by simp [split], rfl⟩
  · obtain ⟨e, he, rfl⟩ := mem_map.1 hp
    exact ⟨e, by simp [split, he], rfl⟩

theorem aligned_of_slots (inside : ∀ p ∈ erased, ∃ e ∈ slots g V dir, e.1 = p) :
    ∀ p ∈ erased, ∃ j, p.2 = j * 32 := by
  intro p hp
  obtain ⟨e, he, rfl⟩ := inside p hp
  obtain ⟨i, _, eq⟩ := slots_offset he
  exact ⟨i, eq⟩

section
variable {pos : Pos} {slot : Slot} {old new : List Nat}

theorem dir_keep (wf : WellFormed g V) (new : List Nat) (node : Node g V pos slot)
    (chain : EntryChain g V slot old) (links : ∀ c, c ∉ old → c ∉ new → V'.fat c = V.fat c)
    (fresh : ∀ c ∈ new, c ∉ old → 2 ≤ c ∧ V.fat c = 0) (at_dir : IsDirectory g V dir)
    (stays : ¬ (isDirSlot slot ∧ dir = firstOf slot)) :
    DirOk g V' dir ∧ dirLbas g V' dir = dirLbas g V dir ∧ ∀ lba ∈ dirLbas g V dir,
      (∀ c ∈ old, ¬ InCluster g c lba) ∧ ∀ c ∈ new, ¬ InCluster g c lba := by
  rcases at_dir.storage wf with rfl | ⟨q, s, l, node', is_dir, rfl, entry, chain'⟩
  · refine ⟨.inl rfl, rfl, fun lba mem => ?_⟩
    exact ⟨fun c _ => not_inCluster_root mem c, fun c _ => not_inCluster_root mem c⟩
  have other : q ≠ pos := by
    rintro rfl
    obtain rfl := node.unique node'
    exact stays ⟨is_dir, rfl⟩
  have owns : Owns g V q l := ⟨s, node', entry⟩
  have outside : ∀ x ∈ l, x ∉ old := fun x hx hx' =>
    wf.owned.disjoint owns ⟨slot, node, chain⟩ other hx hx'
  have notNew : ∀ x ∈ l, x ∉ new := fun x hx hx' =>
    (owns.allocated hx).2.1 (fresh x hx' (outside x hx)).2
  have same : Chain g V' (firstOf s) l :=
    chain'.congr fun x hx => links x (outside x hx) (notNew x hx)
  refine ⟨.inr ⟨l, same⟩, by rw [dirLbas_chain same, dirLbas_chain chain'], fun lba mem => ?_⟩
  obtain ⟨d, hd, inside⟩ := (mem_dirLbas_chain chain').1 mem
  have two := (chain'.clusters d hd).1
  have apartOld : ∀ c ∈ old, ¬ InCluster g c lba := by
    intro c hc hin
    have twoC := (Owns.allocated ⟨slot, node, chain⟩ hc).1.1
    exact outside d hd (cluster_inj twoC two hin inside ▸ hc)
  refine ⟨apartOld, fun c hc hin => ?_⟩
  by_cases was : c ∈ old
  · exact apartOld c was hin
  · exact notNew d hd (cluster_inj (fresh c hc was).1 two hin inside ▸ hc)

theorem EntryStep.of_put (wf : WellFormed g V) (raw : Slot) {slot' : Slot}
    (node : Node g V pos slot) (is_file : isDirSlot slot = false) (chain : EntryChain g V slot old)
    (head : SameHead slot slot') (links : ∀ c, c ∉ old → c ∉ new → V'.fat c = V.fat c)
    (freed : ∀ c ∈ old, c ∉ new → V'.fat c = 0)
    (fresh : ∀ c ∈ new, c ∉ old → 2 ≤ c ∧ V.fat c = 0) (put : EntryChain g V' slot' new)
    (stored : (fun k => if k < 32 then raw k else 0) = slot')
    (sec : ∀ lba, (∀ c ∈ old, ¬ InCluster g c lba) → (∀ c ∈ new, ¬ InCluster g c lba) →
      V'.sec lba = if lba = pos.1 then putSlot (V.sec lba) pos.2 raw else V.sec lba) :
    EntryStep g V V' pos slot (some slot') old new := by
  obtain ⟨home, at_home, mem, real⟩ := id node
  obtain ⟨lba₀, at_lba, i₀, hi₀, here⟩ := mem_slots.1 (live_slots mem)
  obtain ⟨rfl, slot_eq⟩ := Prod.mk.inj here
  have slots_eq : ∀ dir, IsDirectory g V dir → slots g V' dir =
      (slots g V dir).map fun e => (e.1, if e.1 = (lba₀, i₀ * 32) then slot' else e.2) := by
    intro dir at_dir
    obtain ⟨_, same, apart⟩ := dir_keep wf new node chain links fresh at_dir (by simp [is_file])
    refine slots_edit (fun q s => if q = (lba₀, i₀ * 32) then slot' else s) same ?_
    intro lba hl i hi
    rw [sec lba (apart lba hl).1 (apart lba hl).2]
    by_cases at_sector : lba = lba₀
    · subst at_sector
      simp only [if_true, Prod.mk.injEq, true_and]
      by_cases at_slot : i = i₀
      · subst at_slot
        rw [slotIn_putSlot_self, stored, if_pos rfl]
      · have differ : ¬ i * 32 = i₀ * 32 := by omega
        rw [slotIn_putSlot_other _ _ at_slot, if_neg differ]
    · simp [at_sector]
  refine ⟨node, chain, links, freed, fun c hc was => (fresh c hc was).2, ?_, ?_, ?_, ?_, ?_⟩
  · rintro s ⟨⟩
    refine ⟨is_file, by rw [head.isDirSlot, is_file], ?_, put⟩
    rw [head.isDots]
    simpa using real
  · rintro s ⟨⟩
    exact ⟨head, slots_eq⟩
  · simp
  · intro dir at_dir stays
    rw [Fat.groups, Fat.groups, slots_eq dir at_dir]
    refine groupsFrom_put [] _ ?_
    rintro ⟨q, s⟩ he rfl
    obtain rfl : s = slot := (slots_slotAt he).trans node.slotAt.symm
    exact ⟨live_valid mem, head⟩
  · intro lba notOld notNew noDir
    have differ : lba ≠ lba₀ := by
      rintro rfl
      exact noDir home at_home at_lba
    rw [sec lba notOld notNew, if_neg differ]

/-- An entry and the long-name slots `L` in front of it are marked deleted and its
chain is freed. A directory that goes this way has only dot entries. -/
theorem EntryStep.of_erase (wf : WellFormed g V) {home : Nat} (node : Node g V pos slot)
    (chain : EntryChain g V slot old) (at_home : IsDirectory g V home)
    (split : slots g V home = A ++ (L ++ (pos, slot) :: B))
    (long : ∀ e ∈ L, e.2 0 ≠ 0 ∧ e.2 0 ≠ 0xE5 ∧ isLfnSlot e.2) (used : slot 0 ≠ 0)
    (empty : isDirSlot slot → ∀ e ∈ live g V (firstOf slot), isDots e.2)
    (links : ∀ c, c ∉ old → V'.fat c = V.fat c) (freed : ∀ c ∈ old, V'.fat c = 0)
    (sec : ∀ lba k, V'.sec lba k = if (lba, k) ∈ pos :: L.map (·.1) then 0xE5 else V.sec lba k) :
    EntryStep g V V' pos slot none old [] := by
  have inHome := group_slots split
  have aligned := aligned_of_slots inHome
  have elsewhere : ∀ lba, lba ∉ dirLbas g V home → V'.sec lba = V.sec lba := by
    intro lba out
    funext k
    have miss : (lba, k) ∉ pos :: L.map (·.1) := by
      intro hp
      obtain ⟨e, he, eq⟩ := inHome _ hp
      exact out (by simpa [eq] using slots_lba he)
    rw [sec, if_neg miss]
  obtain ⟨_, _, mem', _⟩ := id node
  have valid := live_valid mem'
  refine ⟨node, chain, fun c hc _ => links c hc, fun c hc _ => freed c hc, by simp, by simp, by simp,
    fun _ => ⟨rfl, empty⟩, ?_, ?_⟩
  · intro dir at_dir stays
    obtain ⟨_, same, _⟩ := dir_keep wf [] node chain (fun c hc _ => links c hc) (by simp) at_dir stays
    have slots_eq := slots_erased same aligned sec
    by_cases at_home_dir : dir = home
    · subst at_home_dir
      obtain ⟨edited, front, back⟩ := eraseAt_group (slots_nodup (at_dir.ok wf)) split
      rw [Fat.groups, Fat.groups, slots_eq, edited, split]
      exact groupsFrom_remove A L B [] long valid used front back
    · -- another directory has none of these positions
      have out : ∀ e ∈ slots g V dir, e.1 ∉ pos :: L.map (·.1) := by
        intro e he hp
        obtain ⟨_, he', eq⟩ := inHome _ hp
        exact at_home_dir (dir_of_lba wf at_dir at_home (slots_lba he) (eq ▸ slots_lba he'))
      rw [Fat.groups, Fat.groups, slots_eq, eraseAt_of_not_mem out, amend_of_not_mem]
      intro x hx eq
      exact out _ (groupsFrom_mem hx) (by simp [eq])
  · intro lba _ _ noDir
    exact elsewhere lba (noDir home at_home)

end

end

end Osnos.Fat
