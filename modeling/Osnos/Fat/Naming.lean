import Osnos.Fat.Install

/-! The name a new entry is given, and the name it is then listed under. -/
namespace Osnos.Fat
open List Prog

/-- A last component that is stored as it will be looked up: lookup reads one byte
more than creation keeps, a dot at the end has no place in the packed form, and
0xE5 is the deleted mark there. -/
def GoodName (name : List UInt8) : Prop :=
  name.length ≤ 62 ∧ ((nameTo83 name).isSome → name.getLast? ≠ some 46 ∧ name.head? ≠ some 0xE5)

instance (name : List UInt8) : Decidable (GoodName name) := by
  unfold GoodName
  infer_instance

def storedName (name : List UInt8) : List UInt8 := if (nameTo83 name).isSome then upper name else name

inductive NamingOf (g : Geometry) (V : Vol) (dir : Nat) (name : List UInt8) : EntryNaming → Prop
  | short {alias11 : List UInt8} (fits : nameTo83 name = some alias11) :
      NamingOf g V dir name ⟨alias11, false, [], 0⟩
  | long {n : Nat} (none : nameTo83 name = none) (tried : 1 ≤ n ∧ n ≤ 99)
      (unused : ∀ e ∈ live g V dir, name11 e.2 ≠ aliasOf name n) (slots : (name.length + 12) / 13 ≤ 5) :
      NamingOf g V dir name ⟨aliasOf name n, true, name, (name.length + 12) / 13⟩

variable {naming : EntryNaming} {name : List UInt8}

section
variable {g : Geometry} {V : Vol} {dir : Nat}

theorem dirHas83Loop_does (ok : DirOk g V dir) (alias11 : List UInt8) (n idx : Nat)
    (rounds : (slots g V dir).length - idx < n) :
    Does (Holds g) V (dirHas83Loop g dir alias11 n idx)
      ((liveIn ((slots g V dir).drop idx)).any fun e => name11 e.2 = alias11) V := by
  induction n generalizing idx with
  | zero => omega
  | succ n ih =>
    rw [dirHas83Loop]
    refine .bind (readDirSlot_does ok idx) ?_
    cases h : (slots g V dir)[idx]? with
    | none =>
      rw [drop_eq_nil_of_le (List.getElem?_eq_none_iff.1 h)]
      exact .pure _
    | some e =>
      obtain ⟨pos, slot⟩ := e
      obtain ⟨inside, step⟩ := slots_step ok h
      rw [drop_cons_of_getElem? h, liveIn_cons]
      by_cases fin : slot 0 = 0
      · simp only [fin, if_true]
        exact .pure _
      simp only [fin, if_false, step]
      by_cases valid : direntIsValid slot
      · by_cases hit : name11 slot = alias11
        · simp only [valid, hit, and_self, if_true, any_cons, decide_true, Bool.true_or]
          exact .pure _
        · simp only [valid, hit, and_false, if_true, if_false, any_cons, decide_false,
            Bool.false_or]
          exact ih _ (by omega)
      · simp only [valid, false_and, Bool.false_eq_true, if_false]
        exact ih _ (by omega)

theorem dirHas83_does (ok : DirOk g V dir) (alias11 : List UInt8) :
    Does (Holds g) V (dirHas83 g dir alias11)
      ((live g V dir).any fun e => name11 e.2 = alias11) V := by
  have := slots_length_lt ok
  have h := dirHas83Loop_does ok alias11 scanRounds 0 (by simp only [scanRounds]; omega)
  simpa [dirHas83, live] using h

theorem genShortAliasFrom_does (ok : DirOk g V dir) (name : List UInt8) (k n : Nat) :
    Does (Holds g) V (genShortAliasFrom g dir name k n) (.error (-28)) V ∨
      ∃ m, n ≤ m ∧ m < n + k ∧ (∀ e ∈ live g V dir, name11 e.2 ≠ aliasOf name m) ∧
        Does (Holds g) V (genShortAliasFrom g dir name k n) (.ok (aliasOf name m)) V := by
  induction k generalizing n with
  | zero => exact .inl (.pure _)
  | succ k ih =>
    have has := dirHas83_does ok (aliasOf name n)
    rw [genShortAliasFrom]
    cases taken : (live g V dir).any fun e => name11 e.2 = aliasOf name n with
    | true =>
      rw [taken] at has
      rcases ih (n + 1) with fails | ⟨m, low, high, unused, does⟩
      · exact .inl (.bind has fails)
      · exact .inr ⟨m, by omega, by omega, unused, .bind has does⟩
    | false =>
      rw [taken] at has
      refine .inr ⟨n, Nat.le_refl n, by omega, ?_, .bind has (.pure _)⟩
      simpa using taken

theorem computeEntryNaming_does (ok : DirOk g V dir) (name : List UInt8) :
    (∃ rc, rc ≠ 0 ∧ Does (Holds g) V (computeEntryNaming g dir name) (.error rc) V) ∨
      ∃ naming, Does (Holds g) V (computeEntryNaming g dir name) (.ok naming) V ∧
        NamingOf g V dir name naming := by
  rw [computeEntryNaming]
  cases fits : nameTo83 name with
  | some => exact .inr ⟨_, .pure _, .short fits⟩
  | none =>
    by_cases size : name.length = 0 ∨ name.length > 63
    · simp only [size, if_true]
      exact .inl ⟨-22, by decide, .pure _⟩
    simp only [size, if_false]
    rcases genShortAliasFrom_does ok name 99 1 with fails | ⟨n, low, high, unused, does⟩
    · exact .inl ⟨-28, by decide, .bind fails (.pure _)⟩
    have enough : ¬ (name.length + 12) / 13 > 5 := by omega
    refine .inr ⟨_, .bind does ?_, .long fits ⟨low, by omega⟩ unused (by omega)⟩
    simp only [enough, if_false]
    exact .pure _

theorem NamingOf.slots_le (h : NamingOf g V dir name naming) : naming.nLfnSlots ≤ 5 := by
  cases h with
  | short => exact Nat.zero_le _
  | long _ _ _ slots => exact slots

theorem nameTo83_length {alias11 : List UInt8} (h : nameTo83 name = some alias11) :
    alias11.length = 11 := by
  obtain ⟨_, _, parts, rfl⟩ := nameTo83_parts h
  exact packed_length parts.upper.base_len parts.upper.ext_len

theorem aliasOf_length (name : List UInt8) {n : Nat} (small : n ≤ 99) :
    (aliasOf name n).length = 11 := by
  obtain ⟨_, _, eq, _, hb, he, _⟩ := aliasOf_parts name small
  rw [eq, packed_length hb he]

theorem NamingOf.length (h : NamingOf g V dir name naming) : naming.alias11.length = 11 := by
  cases h with
  | short fits => exact nameTo83_length fits
  | long _ tried => exact aliasOf_length name tried.2

theorem packed_head (base ext : List UInt8) : (packed base ext).getD 0 0 = base.headD 32 := by
  cases base with
  | nil => rfl
  | cons => rfl

theorem NamingOf.first (h : NamingOf g V dir name naming)
    (plain : 0 ∉ name) (good : GoodName name) :
    naming.alias11.getD 0 0 ≠ 0 ∧ naming.alias11.getD 0 0 ≠ 0xE5 := by
  cases h with
  | short fits =>
    have zero : (0 : UInt8).toNat < 65 ∨ 122 < (0 : UInt8).toNat := by decide
    have mark : (0xE5 : UInt8).toNat < 65 ∨ 122 < (0xE5 : UInt8).toNat := by decide
    have head := (good.2 (by simp [fits])).2
    obtain ⟨base, _, parts, rfl⟩ := nameTo83_parts fits
    rw [packed_head]
    cases base with
    | nil => decide
    | cons b =>
      have first : name.head? = some b := by
        rcases parts.name with ⟨rfl, _⟩ | rfl <;> rfl
      have inside : b ∈ name := mem_of_mem_head? first
      simp only [upper, map_cons, headD_cons, ne_eq, upcase_eq_iff b zero, upcase_eq_iff b mark]
      exact ⟨fun same => plain (same ▸ inside), fun same => head (same ▸ first)⟩
  | @long n none tried unused slots =>
    obtain ⟨_, _, eq, some_base, _, _, chars, _⟩ := aliasOf_parts name tried.2
    obtain ⟨b, _, rfl⟩ := exists_cons_of_ne_nil some_base
    rw [eq, packed_head]
    have char := chars b (by simp)
    exact ⟨char.ne (by decide), char.ne (by decide)⟩

theorem cut_apply (raw : Slot) {k : Nat} (h : k < 32) : cut raw k = raw k := if_pos h

theorem cut_head (raw : Slot) : SameHead raw (cut raw) := fun _ hk => cut_apply raw (by omega)

theorem cut_buildLfnSlot (longName : List UInt8) (seq : Nat) (isLast : Bool) (cksum : UInt8) :
    cut (buildLfnSlot longName seq isLast cksum) = buildLfnSlot longName seq isLast cksum := by
  funext k
  by_cases hk : k < 32
  · exact cut_apply _ hk
  have out : ∀ o ≤ 30, k ≠ o ∧ k ≠ o + 1 := fun o ho => ⟨by omega, by omega⟩
  rw [cut, if_neg hk]
  simp only [buildLfnSlot, lfnCharByteOffsets, zipIdx_cons, zipIdx_nil, foldl_cons, foldl_nil]
  repeat rw [put16_of_ne _ _ _ _ (by omega) (by omega)]
  have far : k ≠ 0 ∧ k ≠ 11 ∧ k ≠ 13 := by omega
  simp [far]

theorem cut_entrySlots (naming : EntryNaming) (raw : Slot) :
    (entrySlots naming raw).map cut = entrySlots naming (cut raw) := by
  have kept : ∀ L : List Slot, (∀ s ∈ L, cut s = s) → L.map cut = L := fun L all => by
    conv_rhs => rw [← map_id L]
    exact map_congr_left all
  simp only [entrySlots, map_append, map_cons, map_nil]
  rw [kept]
  intro s hs
  split_ifs at hs
  · obtain ⟨i, _, rfl⟩ := List.mem_map.1 hs
    exact cut_buildLfnSlot ..
  · cases hs

structure NewEntry (name alias11 : List UInt8) (raw : Slot) (pos : Pos) (de : Dirent) : Prop where
  of : EntryOf de (pos, cut raw)
  packed : name11 (cut raw) = alias11
  caps : upper de.name = upper name
  short : de.shortName = unpacked alias11
  stored : raw 12 = 0 → de.name = storedName name

variable {name : List UInt8} {naming : EntryNaming} {raw : Slot} {N : List (Pos × Slot)}

theorem NamingOf.headed (h : NamingOf g V dir name naming) (plain : 0 ∉ name)
    (some_name : name ≠ [])
    (good : GoodName name) (head : ∀ i < 11, raw i = naming.alias11.getD i 0)
    (kind : isLfnSlot raw = false ∧ isVolSlot raw = false)
    (written : N.map (·.2) = (entrySlots naming raw).map cut) :
    ∃ L pos, N = L ++ [(pos, cut raw)] ∧ Headed L (pos, cut raw) ∧
      NewEntry name naming.alias11 raw pos
    (decodeEntry (consumeAll .empty L) (cut raw) pos.1 pos.2) := by
  have same := cut_head raw
  have eleven : name11 (cut raw) = naming.alias11 :=
    name11_of_head h.length fun i hi => (same i (by omega)).trans (head i hi)
  obtain ⟨used, live⟩ := h.first plain good
  rw [← head 0 (by decide), ← same 0 (by decide)] at used live
  have valid : direntIsValid (cut raw) := by
    simp [direntIsValid, live, same.isLfnSlot, same.isVolSlot, kind]
  rw [cut_entrySlots] at written
  obtain ⟨L, last, rfl⟩ : ∃ L last, N = L ++ [last] := by
    rcases eq_nil_or_concat' N with rfl | ⟨L, last, rfl⟩
    · simp [entrySlots] at written
    · exact ⟨L, last, rfl⟩
  obtain ⟨pos, slot⟩ := last
  rw [entrySlots, map_append] at written
  obtain ⟨long, single⟩ := append_inj' written rfl
  obtain rfl : slot = cut raw := by simpa using single
  have of := decodeEntry_entryOf (consumeAll .empty L) pos (cut raw)
  have short_name : nameFrom83 (cut raw) = unpacked naming.alias11 := by rw [nameFrom83_eq, eleven]
  have shortName : (decodeEntry (consumeAll .empty L) (cut raw) pos.1 pos.2).shortName =
      unpacked naming.alias11 := by
    rw [of]
    exact short_name
  refine ⟨L, pos, rfl, ?_⟩
  cases h with
  | @short alias11 fits =>
    simp only [Bool.false_eq_true, if_false, map_eq_nil_iff] at long
    subst long
    have name_up := unpacked_nameTo83 fits plain (good.2 (by simp [fits])).1
    have listed : (decodeEntry (consumeAll .empty []) (cut raw) pos.1 pos.2).name =
        nameFrom83Ext (cut raw) (raw 12) := by
      have none : (consumeAll .empty []).finalize (name11 (cut raw)) = none := finalize_inactive rfl _
      rw [decodeEntry, none, ← same 12 (by decide)]
      rfl
    refine ⟨headed_short used valid, of, eleven, ?_, shortName, fun zero => ?_⟩
    · rw [listed, upper_nameFrom83Ext, short_name, name_up, upper_upper]
    have upper_stored : storedName name = upper name := by simp [storedName, fits]
    rw [listed, zero, upper_stored, ← name_up, ← short_name]
    rfl
  | @long n none tried unused slots =>
    simp only [if_true] at long
    have size : name.length ≤ 63 := by have := good.1; omega
    obtain ⟨headed, spelled⟩ := headed_long (L := L) (e := (pos, cut raw)) plain
      (List.length_pos_iff.2 some_name) size (by rw [eleven]; exact long) used valid
    have listed : (decodeEntry (consumeAll .empty L) (cut raw) pos.1 pos.2).name = name := by
      rw [decodeEntry, spelled]
    refine ⟨headed, of, eleven, by rw [listed], shortName, fun _ => ?_⟩
    rw [listed, storedName, none]
    rfl

end

end Osnos.Fat
