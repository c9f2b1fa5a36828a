import Osnos.Fat.FileOps
import Osnos.Fat.Paths

/-! Finding an entry's slots in its parent and marking them deleted, as unlink and
rmdir do. -/
namespace Osnos.Fat
open Function List Prog

namespace Vol

def erasePos (V : Vol) (pos : Pos) : Vol :=
  V.setSec pos.1 (update (V.sec pos.1) pos.2 0xE5)

def eraseAll (V : Vol) (erased : List Pos) : Vol := erased.foldl erasePos V

end Vol

def locateFrom (target : Pos) : LfnRun → Nat → List (Pos × Slot) → Option (Nat × Nat)
  | _, _, [] => none
  | run, idx, (pos, slot) :: rest =>
    if pos = target then
      some (idx, if run.active ∧ run.cksum = lfnChecksum11 (name11 slot) then run.count else 0)
    else locateFrom target (run.step slot) (idx + 1) rest

variable {dir : Nat}

section
variable {g : Geometry} {V V' : Vol}

theorem eraseAll_fat (erased : List Pos) : (V.eraseAll erased).fat = V.fat := by
  induction erased generalizing V with
  | nil => rfl
  | cons _ _ ih => exact ih

theorem eraseAll_sec (erased : List Pos) (lba k : Nat) :
    (V.eraseAll erased).sec lba k = if (lba, k) ∈ erased then 0xE5 else V.sec lba k := by
  induction erased generalizing V with
  | nil => rfl
  | cons pos rest ih =>
    rw [Vol.eraseAll, foldl_cons, ← Vol.eraseAll, ih]
    by_cases later : (lba, k) ∈ rest
    · simp [later]
    by_cases here : (lba, k) = pos
    · subst here
      simp [later, Vol.erasePos]
    have miss : (lba, k) ∉ pos :: rest := by simp [here, later]
    rw [if_neg later, if_neg miss, Vol.erasePos, Vol.setSec_sec]
    by_cases sector : lba = pos.1
    · subst sector
      have off : k ≠ pos.2 := fun eq => here (by rw [eq])
      rw [update_self, update_of_ne off]
    · rw [update_of_ne sector]

theorem dirLbas_congr (same : V'.fat = V.fat) (dir : Nat) : dirLbas g V' dir = dirLbas g V dir := by
  rw [dirLbas, dirLbas, same]

theorem DirOk.congr (same : V'.fat = V.fat) (ok : DirOk g V dir) : DirOk g V' dir :=
  ok.imp_right fun ⟨l, chain⟩ => ⟨l, chain.congr fun _ _ => by rw [same]⟩

theorem positions_congr (same : dirLbas g V' dir = dirLbas g V dir) (idx : Nat) :
    (slots g V' dir)[idx]?.map (·.1) = (slots g V dir)[idx]?.map (·.1) := by
  rw [slots_getElem?, slots_getElem?, same, Option.map_map, Option.map_map]
  rfl

theorem deleteSlotByIdx_does {idx : Nat} {pos : Pos} (ok : DirOk g V dir)
    (here : (slots g V dir)[idx]?.map (·.1) = some pos) :
    Does (Holds g) V (deleteSlotByIdx g dir idx) 0 (V.erasePos pos) := by
  obtain ⟨⟨p, slot⟩, entry, rfl⟩ := Option.map_eq_some_iff.1 here
  have located := dirSlotLocate_does ok idx
  rw [locatedAt, entry] at located
  have area := dirLbas_area ok (slots_lba (mem_of_getElem? entry))
  rw [deleteSlotByIdx]
  exact .bind located (.bind (read_does area) (.bind (write_does _ _ area) (.pure _)))

theorem deleteGroup_does {idx count : Nat} (n : Nat) (L : List Pos) (len : L.length = n)
    (le : n ≤ count) (V : Vol) (ok : DirOk g V dir)
    (here : ∀ j < n, (slots g V dir)[idx - count + (count - n + j)]?.map (·.1) = L[j]?) :
    Does (Holds g) V (deleteGroup g dir idx count n) () (V.eraseAll L) := by
  induction n generalizing V L with
  | zero =>
    obtain rfl := List.length_eq_zero_iff.1 len
    exact .pure _
  | succ n ih =>
    obtain ⟨pos, rest, rfl⟩ := exists_cons_of_length_eq_add_one len
    have first := here 0 (by omega)
    rw [Nat.add_zero, getElem?_cons_zero] at first
    rw [deleteGroup]
    refine .bind (deleteSlotByIdx_does ok first) ?_
    have same : (V.erasePos pos).fat = V.fat := rfl
    refine ih rest (by simpa using len) (by omega) _ (ok.congr same) fun j hj => ?_
    have next := here (j + 1) (by omega)
    rw [getElem?_cons_succ] at next
    rw [positions_congr (dirLbas_congr same dir), ← next]
    congr 3
    omega

theorem eraseGroup_does {A L B : List (Pos × Slot)} {pos : Pos} {slot : Slot} (ok : DirOk g V dir)
    (here : ∀ i : Nat, (slots g V dir)[i]?.map (·.1) = (A ++ (L ++ (pos, slot) :: B))[i]?.map (·.1)) :
    Does (Holds g) V (do
      if (← deleteSlotByIdx g dir (A ++ L).length) ≠ 0 then return -5
      deleteGroup g dir (A ++ L).length L.length L.length
      return (0 : Int)) 0 (V.eraseAll (pos :: L.map (·.1))) := by
  have target : (slots g V dir)[(A ++ L).length]?.map (·.1) = some pos := by
    rw [here, ← append_assoc, getElem?_append_right (Nat.le_refl _)]
    simp
  refine .bind (deleteSlotByIdx_does ok target) ?_
  simp only [ne_eq, not_true_eq_false, if_false]
  have kept : (V.erasePos pos).fat = V.fat := rfl
  refine .bind (deleteGroup_does L.length (L.map (·.1)) (by simp) (Nat.le_refl _) _
    (ok.congr kept) fun j hj => ?_) (.pure _)
  have index : (A ++ L).length - L.length + (L.length - L.length + j) = A.length + j := by
    simp only [length_append]
    omega
  rw [positions_congr (dirLbas_congr kept _), here, index, getElem?_append_right (by omega),
    getElem?_append_left (by omega), getElem?_map]
  congr 2
  omega

theorem locateLoop_does {parent : Nat} (ok : DirOk g V parent) (target : Pos) (n idx : Nat)
    (run : LfnRun)
    (rounds : (slots g V parent).length - idx < n) :
    Does (Holds g) V (locateLoop g parent target.1 target.2 n run idx)
      (locateFrom target run idx ((slots g V parent).drop idx)) V := by
  induction n generalizing idx run with
  | zero => omega
  | succ n ih =>
    have located := dirSlotLocate_does ok idx
    rw [locateLoop]
    rw [locatedAt] at located
    cases h : (slots g V parent)[idx]? with
    | none =>
      rw [h] at located
      rw [drop_eq_nil_of_le (List.getElem?_eq_none_iff.1 h)]
      exact .bind located (.pure _)
    | some e =>
      obtain ⟨pos, slot⟩ := e
      rw [h] at located
      obtain ⟨inside, step⟩ := slots_step ok h
      rw [drop_cons_of_getElem? h, locateFrom]
      refine .bind located ?_
      by_cases here : pos = target
      · subst here
        simp only [and_self, if_true]
        by_cases own : run.active ∧ run.cksum = lfnChecksum11 (name11 slot)
        · rw [if_pos own, if_pos own]
          exact .pure _
        · rw [if_neg own, if_neg own]
          exact .pure _
      · have differ : ¬ (pos.1 = target.1 ∧ pos.2 = target.2) := fun same => here (Prod.ext same.1 same.2)
        simp only [differ, if_false, here, step]
        exact ih _ _ (by omega)

theorem locateTargetAndLfn_does {parent : Nat} (ok : DirOk g V parent) (target : Pos) :
    Does (Holds g) V (locateTargetAndLfn g parent target.1 target.2)
      (locateFrom target ⟨0, false, 0⟩ 0 (slots g V parent)) V := by
  have := slots_length_lt ok
  have h := locateLoop_does ok target scanRounds 0 ⟨0, false, 0⟩ (by simp only [scanRounds]; omega)
  simpa [locateTargetAndLfn] using h

def LfnRun.Counts (run : LfnRun) (seen : List (Pos × Slot)) : Prop :=
  ∃ A L, seen = A ++ L ∧ L.length = run.count ∧ ∀ e ∈ L, e.2 0 ≠ 0xE5 ∧ isLfnSlot e.2

theorem LfnRun.Counts.zero {run : LfnRun} (seen : List (Pos × Slot)) (h : run.count = 0) :
    run.Counts seen := ⟨seen, [], by simp, h.symm, by simp⟩

theorem LfnRun.Counts.step {run : LfnRun} {seen : List (Pos × Slot)} (h : run.Counts seen)
    (e : Pos × Slot) : (run.step e.2).Counts (seen ++ [e]) := by
  obtain ⟨A, L, rfl, len, long⟩ := h
  rw [LfnRun.step]
  by_cases slot : e.2 0 ≠ 0xE5 ∧ isLfnSlot e.2
  · rw [if_pos slot]
    by_cases first : e.2 0 &&& 0x40 ≠ 0
    · rw [if_pos first]
      exact ⟨A ++ L, [e], rfl, rfl, by simpa using slot⟩
    rw [if_neg first]
    by_cases next : run.active ∧ e.2 13 = run.cksum
    · rw [if_pos next]
      refine ⟨A, L ++ [e], by simp, by simp [len], fun x hx => ?_⟩
      rcases List.mem_append.1 hx with hx | hx
      · exact long x hx
      · rwa [List.mem_singleton.1 hx]
    · rw [if_neg next]
      exact .zero _ rfl
  · rw [if_neg slot]
    exact .zero _ rfl

theorem locateFrom_spec {target : Pos} (S : List (Pos × Slot)) (run : LfnRun)
    (seen : List (Pos × Slot))
    (counts : run.Counts seen) :
    (locateFrom target run seen.length S = none ∧ ∀ e ∈ S, e.1 ≠ target) ∨
      ∃ (A L : List (Pos × Slot)) (slot : Slot) (B : List (Pos × Slot)),
        seen ++ S = A ++ (L ++ (target, slot) :: B) ∧
        locateFrom target run seen.length S = some ((A ++ L).length, L.length) ∧
        ∀ e ∈ L, e.2 0 ≠ 0xE5 ∧ isLfnSlot e.2 := by
  induction S generalizing run seen with
  | nil => exact .inl ⟨rfl, by simp⟩
  | cons e rest ih =>
    obtain ⟨pos, slot⟩ := e
    rw [locateFrom]
    by_cases here : pos = target
    · right
      subst here
      rw [if_pos rfl]
      by_cases own : run.active ∧ run.cksum = lfnChecksum11 (name11 slot)
      · obtain ⟨A, L, rfl, len, long⟩ := counts
        exact ⟨A, L, slot, rest, by simp, by rw [if_pos own, len], long⟩
      · exact ⟨seen, [], slot, rest, by simp, by simp [own], by simp⟩
    rw [if_neg here]
    have next := ih (run.step slot) (seen ++ [(pos, slot)]) (counts.step (pos, slot))
    rw [length_append, length_singleton] at next
    rcases next with ⟨none, absent⟩ | ⟨A, L, t, B, split, found, long⟩
    · refine .inl ⟨none, fun e he => ?_⟩
      rcases List.mem_cons.1 he with rfl | he
      · exact here
      · exact absent e he
    · exact .inr ⟨A, L, t, B, by simpa using split, found, long⟩

theorem used_before {X B S : List (Pos × Slot)} {e : Pos × Slot} (split : S = X ++ e :: B)
    (nodup : (S.map (·.1)).Nodup) (mem : e ∈ S.takeWhile fun e => e.2 0 ≠ 0) :
    ∀ x ∈ X, x.2 0 ≠ 0 := by
  by_contra some_end
  push Not at some_end
  obtain ⟨x, hx, fin⟩ := some_end
  have stop : (X ++ e :: B).takeWhile (fun e => decide (e.2 0 ≠ 0)) =
      X.takeWhile fun e => decide (e.2 0 ≠ 0) := by
    rw [takeWhile_append, if_neg]
    intro all
    have := List.takeWhile_eq_self_iff.1 (List.IsPrefix.eq_of_length (List.takeWhile_prefix _) all) x hx
    simp [fin] at this
  rw [split, stop] at mem
  have inX := (takeWhile_sublist _).subset mem
  rw [split, map_append, map_cons] at nodup
  exact (List.nodup_append.1 nodup).2.2 e.1 (mem_map_of_mem inX) e.1 (by simp) rfl

theorem live_used {e : Pos × Slot} (h : e ∈ live g V dir) :
    e ∈ (slots g V dir).takeWhile fun e => e.2 0 ≠ 0 := mem_of_mem_filter h

theorem live_first {e : Pos × Slot} (h : e ∈ live g V dir) : e.2 0 ≠ 0 := by
  simpa using mem_takeWhile_imp (live_used h)

section
variable {path parentPath base : List UInt8} {de parent : Dirent} {pos : Pos} {slot : Slot}
  {old : List Nat}

theorem removeEntry_does (wf : WellFormed g V) (node : Node g V pos slot)
    (of : EntryOf de (pos, slot))
    (chain : EntryChain g V slot old) (split : splitParentBase path = some (parentPath, base))
    (up : lookup g V parentPath = some parent) (at_parent : IsDirectory g V parent.firstCluster)
    (empty : isDirSlot slot → ∀ e ∈ live g V (firstOf slot), isDots e.2) :
    Does (Holds g) V (removeEntry g path de) (-5) V ∧
        (∀ e ∈ slots g V parent.firstCluster, e.1 ≠ pos) ∨
      ∃ V', Does (Holds g) V (removeEntry g path de) 0 V' ∧
        EntryStep g V V' pos slot none old [] := by
  have look := lookupFrom_does wf.closed parentPath
  rw [up] at look
  have ok := at_parent.ok wf
  have locate := locateTargetAndLfn_does ok pos
  rw [removeEntry, split]
  simp only [(Prod.mk.inj of.pos).1, (Prod.mk.inj of.pos).2]
  rcases locateFrom_spec (slots g V parent.firstCluster) ⟨0, false, 0⟩ [] (.zero [] rfl) with
    ⟨none, absent⟩ | ⟨A, L, t, B, whole, found, long⟩
  · rw [length_nil] at none
    rw [none] at locate
    exact .inl ⟨.bind look (.bind locate (.pure _)), absent⟩
  right
  rw [length_nil] at found
  rw [nil_append] at whole
  rw [found] at locate
  -- the slot found in the parent is the entry's own
  have at_slots : (pos, t) ∈ slots g V parent.firstCluster := by simp [whole]
  obtain rfl : t = slot := (slots_slotAt at_slots).trans node.slotAt.symm
  obtain ⟨dir, at_dir, mem, real⟩ := id node
  obtain rfl : dir = parent.firstCluster :=
    dir_of_lba wf at_dir at_parent (slots_lba (live_slots mem)) (slots_lba at_slots)
  have stays : ¬ (isDirSlot t ∧ parent.firstCluster = firstOf t) := fun ⟨is_dir, same⟩ =>
    real (empty is_dir _ (same ▸ mem))
  have free : Does (Holds g) V (fatFreeChain g de.firstCluster) 0 (V.free old) := by
    rw [of.firstCluster]
    by_cases nil : old = []
    · subst nil
      have zero : firstOf t = 0 := by
        rw [EntryChain] at chain
        split at chain
        · exact absurd rfl chain.path.ne_nil
        · rcases chain with ⟨_, zero, _⟩ | ⟨chain, _⟩
          · exact zero
          · exact absurd rfl chain.path.ne_nil
      rw [zero, free_nil]
      exact fatFreeChain_zero_does
    · exact fatFreeChain_does (chain.chain nil)
  have links : ∀ c, c ∉ old → (V.free old).fat c = V.fat c := fun c hc => by simp [Vol.free, hc]
  obtain ⟨ok', same, _⟩ := dir_keep wf [] node chain (fun c hc _ => links c hc) (by simp) at_dir stays
  have here : ∀ i : Nat, (slots g (V.free old) parent.firstCluster)[i]?.map (·.1) =
      (A ++ (L ++ (pos, t) :: B))[i]?.map (·.1) := fun i => by rw [positions_congr same, whole]
  have before := used_before (X := A ++ L) (by rw [whole, append_assoc]) (slots_nodup ok) (live_used mem)
  refine ⟨(V.free old).eraseAll (pos :: L.map (·.1)), ?_, ?_⟩
  · refine .bind look (.bind locate (.bind free ?_))
    simp only [ne_eq, not_true_eq_false, if_false]
    exact eraseGroup_does ok' here
  refine .of_erase wf node chain at_dir whole ?_ (live_first mem) empty ?_ ?_ ?_
  · intro e he
    exact ⟨before e (by simp [he]), long e he⟩
  · intro c hc
    rw [eraseAll_fat, links c hc]
  · intro c hc
    rw [eraseAll_fat]
    simp [Vol.free, hc]
  · intro lba k
    rw [eraseAll_sec]
    rfl

theorem parent_of_lookup (wf : WellFormed g V) (look : lookup g V path = some de)
    (split : splitParentBase path = some (parentPath, base)) :
    ∃ parent, lookup g V parentPath = some parent ∧ parent.isDir ∧
      IsDirectory g V parent.firstCluster ∧
      resolve g V parent (components (lastSegment path)) = some de := by
  obtain ⟨some_segment, _, comps⟩ := splitParentBase_components split
  rw [lookup, comps, resolve_append, Option.bind_eq_some_iff] at look
  obtain ⟨parent, up, rest⟩ := look
  have trimmed : Trimmed (lastSegment path) := fun t same =>
    lastSegment_plain path (by simp [same])
  obtain ⟨_, _, cons⟩ := exists_cons_of_ne_nil (components_ne_nil trimmed some_segment)
  have is_dir : parent.isDir := by
    rw [cons, resolve] at rest
    by_contra no_dir
    simp [no_dir] at rest
  refine ⟨parent, up, is_dir, ?_, rest⟩
  rcases lookup_mem wf up with rfl | ⟨dir, at_dir, mem⟩
  · exact ⟨0, .root⟩
  · exact wf.closed.step dir at_dir parent mem is_dir

end

theorem FileAt.unlinkPath_does {path : List UInt8} {de : Dirent} {pos : Pos} {slot : Slot}
    {old : List Nat} (f : FileAt g V path de pos slot old) (wf : WellFormed g V) :
    ∃ rc V', Does (Holds g) V (unlinkPath g path) rc V' ∧
      (rc < 0 ∧ V' = V ∨ rc = 0 ∧ EntryStep g V V' pos slot none old []) := by
  have look := lookupFrom_does wf.closed path
  rw [f.look] at look
  have start : ∀ rc V', Does (Holds g) V (removeEntry g path de) rc V' →
      Does (Holds g) V (unlinkPath g path) rc V' := by
    intro rc V' rest
    rw [unlinkPath]
    refine .bind look ?_
    simp only [f.isDir, Bool.false_eq_true, if_false, f.lba_ne_zero wf]
    exact rest
  cases split : splitParentBase path with
  | none =>
    refine ⟨-22, V, start _ _ ?_, .inl ⟨by decide, rfl⟩⟩
    rw [removeEntry, split]
    exact .pure _
  | some parts =>
    obtain ⟨parent, up, _, at_parent, _⟩ := parent_of_lookup wf f.look split
    rcases removeEntry_does wf f.node f.of f.chain split up at_parent (by simp [f.is_file]) with
      ⟨fails, _⟩ | ⟨V', does, step⟩
    · exact ⟨-5, V, start _ _ fails, .inl ⟨by decide, rfl⟩⟩
    · exact ⟨0, V', start _ _ does, .inr ⟨rfl, step⟩⟩

end

end Osnos.Fat
