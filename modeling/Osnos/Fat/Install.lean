import Osnos.Fat.Remove
import Osnos.Fat.Reserve
import Osnos.Fat.ShortName

/-! Writing the slots of a new entry, and the directory that results. -/
namespace Osnos.Fat
open List Vol Prog

def entrySlots (naming : EntryNaming) (raw : Slot) : List Slot :=
  (if naming.needsLfn then lfnSlots naming.longName naming.nLfnSlots (lfnChecksum11 naming.alias11)
    else []) ++ [raw]

/-- From `V` to `V'` the slots `F` of a directory, which were free, became `N`. Before
that the directory may have grown, to `U`. -/
structure Installed (g : Geometry) (V U V' : Vol) (dir : Nat) (X F Y N : List (Pos × Slot)) : Prop where
  room : Room g V U dir
  ok : DirOk g U dir
  free : FreeAt (slots g U dir) N.length (N.map (·.1)) X F Y
  fat : V'.fat = U.fat
  now : slots g V' dir = X ++ (N ++ Y)
  sec : ∀ lba, lba ∉ dirLbas g U dir → V'.sec lba = U.sec lba

section
variable {g : Geometry} {V U V' : Vol} {dir : Nat}

theorem putAll_fat (put : List (Pos × Slot)) (V : Vol) : (V.putAll put).fat = V.fat := by
  induction put generalizing V with
  | nil => rfl
  | cons _ _ ih => exact ih _

theorem putAll_sec (put : List (Pos × Slot)) (V : Vol) {lba : Nat} (out : ∀ e ∈ put, e.1.1 ≠ lba) :
    (V.putAll put).sec lba = V.sec lba := by
  induction put generalizing V with
  | nil => rfl
  | cons e _ ih =>
    have rest := ih (V.putPos e) fun x hx => out x (by simp [hx])
    have first : (V.putPos e).sec lba = V.sec lba :=
      Function.update_of_ne (fun same => out e (by simp) same.symm) _ _
    exact rest.trans first

theorem slots_putPos {pos : Pos} (aligned : ∃ i, pos.2 = i * 32) (raw : Slot) :
    slots g (V.putPos (pos, raw)) dir =
      (slots g V dir).map fun e => (e.1, if e.1 = pos then cut raw else e.2) := by
  obtain ⟨lba₀, off⟩ := pos
  obtain ⟨i₀, rfl⟩ := aligned
  refine slots_edit (fun q s => if q = (lba₀, i₀ * 32) then cut raw else s) rfl ?_
  intro lba _ i _
  by_cases at_sector : lba = lba₀
  · subst at_sector
    simp only [putPos, setSec, Function.update_self, Prod.mk.injEq, true_and]
    by_cases at_slot : i = i₀
    · subst at_slot
      rw [slotIn_putSlot_self, if_pos rfl]
      rfl
    · have differ : ¬ i * 32 = i₀ * 32 := by omega
      rw [slotIn_putSlot_other _ _ at_slot, if_neg differ]
  · simp [putPos, setSec, at_sector]

theorem slots_putPos_at {A B : List (Pos × Slot)} {e : Pos × Slot} (raw : Slot)
    (whole : slots g V dir = A ++ e :: B) (nodup : ((slots g V dir).map (·.1)).Nodup) :
    slots g (V.putPos (e.1, raw)) dir = A ++ (e.1, cut raw) :: B := by
  have aligned : ∃ i, e.1.2 = i * 32 := by
    have mem : e ∈ slots g V dir := by simp [whole]
    obtain ⟨i, _, eq⟩ := slots_offset mem
    exact ⟨i, eq⟩
  rw [whole, map_append, map_cons] at nodup
  obtain ⟨_, nodupB, apart⟩ := List.nodup_append.1 nodup
  have keep : ∀ S : List (Pos × Slot), (∀ x ∈ S, x.1 ≠ e.1) →
      S.map (fun x => (x.1, if x.1 = e.1 then cut raw else x.2)) = S := by
    intro S out
    conv_rhs => rw [← map_id S]
    exact map_congr_left fun x hx => by simp [out x hx]
  rw [slots_putPos aligned, whole, map_append, map_cons, if_pos rfl, keep A, keep B]
  · exact fun x hx same => (List.nodup_cons.1 nodupB).1 (same ▸ mem_map_of_mem hx)
  · exact fun x hx same => apart x.1 (mem_map_of_mem hx) e.1 (by simp) same

theorem slots_putAll {X F Y : List (Pos × Slot)} {N : List Slot} (whole : slots g V dir = X ++ (F ++ Y))
    (nodup : ((slots g V dir).map (·.1)).Nodup) (len : N.length = F.length) :
    slots g (V.putAll ((F.map (·.1)).zip N)) dir = X ++ ((F.map (·.1)).zip (N.map cut) ++ Y) := by
  induction F generalizing V X N with
  | nil => simpa [putAll] using whole
  | cons f F ih =>
    obtain ⟨raw, N, rfl⟩ := exists_cons_of_length_eq_add_one len
    have first := slots_putPos_at raw whole nodup
    have nodup' : ((slots g (V.putPos (f.1, raw)) dir).map (·.1)).Nodup := by
      rw [first]
      rw [whole] at nodup
      simpa using nodup
    have rest := ih (X := X ++ [(f.1, cut raw)]) (by simpa using first) nodup'
      (by simpa using len)
    simpa [putAll] using rest

theorem writeLfnSlots_does (naming : EntryNaming) (cksum : UInt8) (run : List Pos)
    (area : ∀ p ∈ run, g.rootDirLba ≤ p.1) (n i : Nat) (inside : i + n ≤ run.length) (V : Vol) :
    Does (Holds g) V (writeLfnSlots naming cksum run n i) 0
      (V.putAll ((range' i n).map fun j => (run.getD j (0, 0),
        buildLfnSlot naming.longName (naming.nLfnSlots - j) (j = 0) cksum))) := by
  induction n generalizing i V with
  | zero => exact .pure _
  | succ n ih =>
    have here : run.getD i (0, 0) ∈ run := by
      rw [getD_eq_getElem _ _ (by omega)]
      exact getElem_mem _
    refine .bind (readModifyWriteDirent_does _ _ (area _ here)) ?_
    exact ih (i + 1) (by omega) _

theorem putAll_append (put put' : List (Pos × Slot)) (V : Vol) :
    V.putAll (put ++ put') = (V.putAll put).putAll put' := foldl_append ..

theorem zip_lfnSlots (run : List Pos) (longName : List UInt8) {n : Nat} (cksum : UInt8)
    (enough : n ≤ run.length) :
    (range' 0 n).map (fun j => (run.getD j (0, 0),
        buildLfnSlot longName (n - j) (decide (j = 0)) cksum)) =
      (run.take n).zip (lfnSlots longName n cksum) := by
  apply ext_getElem (by simp [lfnSlots, enough])
  intro j h h'
  simp only [length_map, length_range'] at h
  have inside : j < run.length := by omega
  simp [lfnSlots, inside]

theorem zip_entrySlots (run : List Pos) (L : List Slot) (raw : Slot) (len : run.length = L.length + 1) :
    (run.take L.length).zip L ++ [(run.getD L.length (0, 0), raw)] = run.zip (L ++ [raw]) := by
  obtain ⟨init, last, rfl⟩ : ∃ init last, run = init ++ [last] := by
    rcases eq_nil_or_concat' run with rfl | ⟨init, last, rfl⟩
    · simp at len
    · exact ⟨init, last, rfl⟩
  have same : init.length = L.length := by simpa using len
  rw [← same, take_left, zip_append same]
  simp

theorem entrySlots_length (naming : EntryNaming) (raw : Slot) :
    (entrySlots naming raw).length = if naming.needsLfn then naming.nLfnSlots + 1 else 1 := by
  rw [entrySlots]
  split_ifs <;> simp [lfnSlots]

theorem writeSlots_does (naming : EntryNaming) (raw : Slot) (run : List Pos) (V : Vol)
    (area : ∀ p ∈ run, g.rootDirLba ≤ p.1) (len : run.length = (entrySlots naming raw).length) :
    Does (Holds g) V
      (do
        if naming.needsLfn then
          let rc ← writeLfnSlots naming (lfnChecksum11 naming.alias11) run naming.nLfnSlots 0
          if rc ≠ 0 then return rc
        let (lba, off) := run.getD ((if naming.needsLfn then naming.nLfnSlots + 1 else 1) - 1) (0, 0)
        if (← readModifyWriteDirent lba off raw) ≠ 0 then
          if naming.needsLfn then rollbackSlots (run.take naming.nLfnSlots)
          return -5
        return 0) 0 (V.putAll (run.zip (entrySlots naming raw))) := by
  rw [entrySlots_length] at len
  cases lfn : naming.needsLfn with
  | false =>
    simp only [lfn, Bool.false_eq_true, if_false] at len ⊢
    obtain ⟨pos, rfl⟩ := List.length_eq_one_iff.1 len
    have at_pos := area pos (by simp)
    have single : V.putAll ([pos].zip (entrySlots naming raw)) =
        V.setSec pos.1 (putSlot (V.sec pos.1) pos.2 raw) := by
      simp [entrySlots, lfn, putAll, putPos]
    rw [single]
    exact .bind (readModifyWriteDirent_does _ _ at_pos) (.pure _)
  | true =>
    simp only [lfn, if_true, Nat.add_sub_cancel] at len ⊢
    have here : run.getD naming.nLfnSlots (0, 0) ∈ run := by
      rw [getD_eq_getElem _ _ (by omega)]
      exact getElem_mem _
    have lfnLen : (lfnSlots naming.longName naming.nLfnSlots (lfnChecksum11 naming.alias11)).length =
        naming.nLfnSlots := by simp [lfnSlots]
    have zipped := zip_entrySlots run
      (lfnSlots naming.longName naming.nLfnSlots (lfnChecksum11 naming.alias11)) raw (by rw [lfnLen, len])
    have all : V.putAll (run.zip (entrySlots naming raw)) =
        ((V.putAll ((run.take naming.nLfnSlots).zip (lfnSlots naming.longName naming.nLfnSlots
          (lfnChecksum11 naming.alias11)))).putPos (run.getD naming.nLfnSlots (0, 0), raw)) := by
      rw [lfnLen] at zipped
      rw [entrySlots, lfn, if_pos rfl, ← zipped, putAll_append]
      rfl
    have written := writeLfnSlots_does naming (lfnChecksum11 naming.alias11) run area
      naming.nLfnSlots 0 (by omega) V
    rw [zip_lfnSlots run naming.longName _ (by omega)] at written
    rw [all]
    refine .bind written ?_
    exact .bind (readModifyWriteDirent_does _ _ (area _ here)) (.pure _)

/-- A new entry with its long name: there is no room and nothing changed, or its
slots stand in a run that was free. -/
theorem writeEntryWithNaming_does (ok : DirOk g V dir) (naming : EntryNaming)
    (small : naming.nLfnSlots ≤ 5) (raw : Slot) :
    Does (Holds g) V (writeEntryWithNaming g dir naming raw) (-28) V ∨
      ∃ U V' X F Y N, Does (Holds g) V (writeEntryWithNaming g dir naming raw) 0 V' ∧
        Installed g V U V' dir X F Y N ∧ N.map (·.2) = (entrySlots naming raw).map cut := by
  have len := entrySlots_length naming raw
  have count : 0 < (entrySlots naming raw).length ∧ (entrySlots naming raw).length ≤ 16 := by
    rw [len]
    split_ifs <;> omega
  rcases reserveSlots_does ok count.1 count.2 with full | ⟨U, run, X, F, Y, found, room, ok', free⟩
  · rw [len] at full
    exact .inl (.bind full (.pure _))
  right
  have runLen : run.length = (entrySlots naming raw).length := by
    rw [← free.at_run, length_map, free.count]
  have inside : ∀ p ∈ run, p.1 ∈ dirLbas g U dir := by
    intro p hp
    rw [← free.at_run] at hp
    obtain ⟨e, he, rfl⟩ := List.mem_map.1 hp
    exact slots_lba (by simp [free.whole, he])
  have writes := writeSlots_does naming raw run U (fun p hp => dirLbas_area ok' (inside p hp)) runLen
  refine ⟨U, _, X, F, Y, run.zip ((entrySlots naming raw).map cut), .bind (by rw [← len]; exact found) writes,
    ⟨room, ok', ?_, putAll_fat _ _, ?_, ?_⟩, ?_⟩
  · have positions : (run.zip ((entrySlots naming raw).map cut)).map (·.1) = run :=
      map_fst_zip (by simp [runLen])
    rw [positions, length_zip, length_map, runLen, Nat.min_self]
    exact free
  · have put := slots_putAll free.whole (slots_nodup ok') free.count.symm
    rw [free.at_run] at put
    exact put
  · intro lba out
    refine putAll_sec _ _ fun e he same => ?_
    have mem := (of_mem_zip he).1
    exact out (same ▸ inside e.1 mem)
  · exact map_snd_zip (by simp [runLen])

end

end Osnos.Fat
