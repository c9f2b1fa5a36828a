import Osnos.Fat.Tidy

/-! Names written by the driver are read back: long names slot by slot through the
accumulator, short names through their packed form. -/
namespace Osnos.Fat
open List LfnAccum

def lfnSlots (longName : List UInt8) (n : Nat) (cksum : UInt8) : List Slot :=
  (List.range n).map fun i => buildLfnSlot longName (n - i) (i = 0) cksum

theorem lfnExtractFrom_text (slot : Slot) (offs : List Nat) (text : List UInt8) (plain : 0 ∉ text)
    (value : Nat → Nat)
    (stored : ∀ i o, offs[i]? = some o → slot o = UInt8.ofNat (value i) ∧ slot (o + 1) = UInt8.ofNat (value i / 256))
    (chars : ∀ i, value i = if i < text.length then (text.getD i 0).toNat
      else if i = text.length then 0 else 0xFFFF) :
    lfnExtractFrom slot offs = text.take offs.length := by
  induction offs generalizing text value with
  | nil => simp [lfnExtractFrom]
  | cons o offs ih =>
    obtain ⟨low, high⟩ := stored 0 o rfl
    have first := chars 0
    rw [lfnExtractFrom]
    cases text with
    | nil =>
      simp only [length_nil, Nat.lt_irrefl, if_false, if_true] at first
      rw [first] at low high
      simp [low, high]
    | cons c text =>
      simp only [length_cons, Nat.succ_pos, if_true, getD_cons_zero] at first
      have byte : c.toNat < 256 := UInt8.toNat_lt c
      rw [first] at low high
      rw [Nat.div_eq_of_lt byte] at high
      have char : slot o = c := low.trans (UInt8.ofNat_toNat)
      have nonzero : c ≠ 0 := fun h => plain (by simp [h])
      have rest := ih text (fun h => plain (by simp [h])) (fun i => value (i + 1))
        (fun i o h => stored (i + 1) o (by simpa using h)) (fun i => by
          rw [chars (i + 1)]
          simp)
      rw [length_cons, take_succ_cons, ← rest, char, high]
      simp [nonzero]

section
variable (longName : List UInt8) {seq : Nat} (isLast : Bool) (cksum : UInt8)

theorem buildLfnSlot_chars (i o : Nat) (h : lfnCharByteOffsets[i]? = some o) :
    buildLfnSlot longName seq isLast cksum o = UInt8.ofNat (lfnChar longName seq i) ∧
      buildLfnSlot longName seq isLast cksum (o + 1) = UInt8.ofNat (lfnChar longName seq i / 256) := by
  have inside : i < 13 := by simpa [lfnCharByteOffsets] using (List.getElem?_eq_some_iff.1 h).1
  interval_cases i <;> obtain rfl := Option.some.inj h <;>
    simp [buildLfnSlot, lfnCharByteOffsets, put16]

theorem buildLfnSlot_head (seq : Nat) :
    buildLfnSlot longName seq isLast cksum 0 = UInt8.ofNat (if isLast then seq + 0x40 else seq) ∧
      buildLfnSlot longName seq isLast cksum 11 = 0x0F ∧
      buildLfnSlot longName seq isLast cksum 13 = cksum := by
  simp [buildLfnSlot, lfnCharByteOffsets, put16]

variable {longName}

theorem lfnExtractChars_build (plain : 0 ∉ longName) (inside : (seq - 1) * 13 ≤ longName.length) :
    lfnExtractChars (buildLfnSlot longName seq isLast cksum) =
      (longName.drop ((seq - 1) * 13)).take 13 := by
  have text := lfnExtractFrom_text (buildLfnSlot longName seq isLast cksum) lfnCharByteOffsets
    (longName.drop ((seq - 1) * 13)) (fun h => plain (mem_of_mem_drop h)) (lfnChar longName seq)
    (buildLfnSlot_chars longName isLast cksum) ?_
  · simpa [lfnExtractChars, lfnCharByteOffsets] using text
  intro i
  have h₁ : (seq - 1) * 13 + i < longName.length ↔ i < longName.length - (seq - 1) * 13 := by omega
  have h₂ : (seq - 1) * 13 + i = longName.length ↔ i = longName.length - (seq - 1) * 13 := by omega
  simp only [lfnChar, length_drop, h₁, h₂, getD_eq_getElem?_getD, getElem?_drop]

theorem lfn_seq (positive : 1 ≤ seq) (small : seq ≤ 5) :
    let b := UInt8.ofNat (if isLast then seq + 0x40 else seq)
    (b &&& 0x1F).toNat = seq ∧ (b &&& 0x40 ≠ 0 ↔ isLast) ∧ b ≠ 0 ∧ b ≠ 0xE5 := by
  interval_cases seq <;> cases isLast <;> decide

variable {cksum}

structure Spelling (longName : List UInt8) (cksum : UInt8) (k : Nat) (a : LfnAccum) : Prop where
  active : a.active = true
  next : a.nextSeq = k
  cksum : a.checksum = cksum
  text : ∀ j, k * 13 ≤ j → ∀ h : j < longName.length, j < 63 → a.name j = longName.get ⟨j, h⟩
  fin : longName.length < 63 → a.name longName.length = 0

theorem store_text (name : Nat → UInt8) {k j : Nat} (low : k * 13 ≤ j) (h : j < longName.length)
    (fits : j < 63) (inside : j < k * 13 + 13) :
    store name (k * 13) ((longName.drop (k * 13)).take 13) j = longName.get ⟨j, h⟩ := by
  have len : ((longName.drop (k * 13)).take 13).length = min 13 (longName.length - k * 13) := by simp
  have hit : k * 13 ≤ j ∧ j < k * 13 + ((longName.drop (k * 13)).take 13).length ∧ j < 63 := by
    rw [len]
    omega
  rw [store, if_pos hit, getD_eq_getElem?_getD, getElem?_take_of_lt (by omega),
    getElem?_drop, Nat.add_sub_cancel' low, getElem?_eq_getElem h]
  rfl

theorem store_above (name : Nat → UInt8) {k j : Nat} (above : k * 13 + 13 ≤ j ∨ longName.length ≤ j) :
    store name (k * 13) ((longName.drop (k * 13)).take 13) j = name j := by
  have miss : ¬ (k * 13 ≤ j ∧ j < k * 13 + ((longName.drop (k * 13)).take 13).length ∧ j < 63) := by
    simp only [length_take, length_drop]
    omega
  rw [store, if_neg miss]

theorem consume_last (a : LfnAccum) {k : Nat} (plain : 0 ∉ longName) (small : k + 1 ≤ 5)
    (last : k * 13 < longName.length ∧ longName.length ≤ k * 13 + 13) :
    Spelling longName cksum k (a.consume (buildLfnSlot longName (k + 1) true cksum)) := by
  obtain ⟨h₀, _, h₁₃⟩ := buildLfnSlot_head longName true cksum (k + 1)
  obtain ⟨seq, is_last, _, _⟩ := lfn_seq true (Nat.le_add_left 1 k) small
  rw [← h₀] at seq is_last
  have is_last : decide (buildLfnSlot longName (k + 1) true cksum 0 &&& 64 ≠ 0) :=
    decide_eq_true (is_last.2 rfl)
  have inside : ¬ k + 1 > 5 := by omega
  have chars : lfnExtractChars (buildLfnSlot longName (k + 1) true cksum) =
      (longName.drop (k * 13)).take 13 := lfnExtractChars_build true cksum plain (Nat.le_of_lt last.1)
  have len : k * 13 + ((longName.drop (k * 13)).take 13).length = longName.length := by
    simp only [length_take, length_drop]
    omega
  rw [consume]
  simp only [seq, is_last, h₁₃, if_true, inside, false_or, if_false, LfnAccum.merge, chars,
    Nat.succ_ne_zero, Nat.add_sub_cancel, len]
  refine ⟨rfl, ?_, rfl, ?_, ?_⟩
  · show (k + 1 + 255) % 256 = k
    omega
  · intro j low h fits
    have differ : j ≠ min longName.length 63 := by omega
    dsimp only
    rw [Function.update_of_ne differ, store_text _ low h fits (by omega)]
  · intro fits
    dsimp only
    rw [Nat.min_eq_left (by omega), Function.update_self]

theorem consume_next {a : LfnAccum} {k : Nat} (plain : 0 ∉ longName) (small : k + 1 ≤ 5)
    (more : k * 13 + 13 < longName.length) (spelled : Spelling longName cksum (k + 1) a) :
    Spelling longName cksum k (a.consume (buildLfnSlot longName (k + 1) false cksum)) := by
  obtain ⟨h₀, _, h₁₃⟩ := buildLfnSlot_head longName false cksum (k + 1)
  obtain ⟨seq, is_last, _, _⟩ := lfn_seq false (Nat.le_add_left 1 k) small
  rw [← h₀] at seq is_last
  have not_last : decide (buildLfnSlot longName (k + 1) false cksum 0 &&& 64 ≠ 0) = false :=
    decide_eq_false fun h => Bool.false_ne_true (is_last.1 h)
  have below : k * 13 ≤ longName.length := by omega
  have chars : lfnExtractChars (buildLfnSlot longName (k + 1) false cksum) =
      (longName.drop (k * 13)).take 13 := lfnExtractChars_build false cksum plain below
  rw [consume]
  simp only [seq, not_last, h₁₃, Bool.false_eq_true, if_false, spelled.active, Bool.not_true,
    spelled.cksum, spelled.next, ne_eq, not_true_eq_false, LfnAccum.merge, chars, Nat.succ_ne_zero,
    Nat.add_sub_cancel]
  refine ⟨rfl, ?_, rfl, ?_, ?_⟩
  · show (k + 1 + 255) % 256 = k
    omega
  · intro j low h fits
    by_cases here : j < k * 13 + 13
    · exact store_text _ low h fits here
    · have kept := spelled.text j (by omega) h fits
      have above : k * 13 + 13 ≤ j ∨ longName.length ≤ j := by omega
      exact (store_above a.name above).trans kept
  · intro fits
    exact (store_above (k := k) a.name (.inr (Nat.le_refl _))).trans (spelled.fin fits)

theorem finalize_spelling {a : LfnAccum} {name11 : List UInt8} (plain : 0 ∉ longName)
    (fits : longName.length ≤ 63) (spelled : Spelling longName (lfnChecksum11 name11) 0 a) :
    a.finalize name11 = some longName := by
  have done : a.active ∧ a.nextSeq = 0 ∧ a.checksum = lfnChecksum11 name11 :=
    ⟨spelled.active, spelled.next, spelled.cksum⟩
  have text : (range longName.length).map a.name = longName := by
    apply ext_getElem (by simp)
    intro j h h'
    simpa using spelled.text j (by omega) h' (by omega)
  have whole : 63 = longName.length + (63 - longName.length) := by omega
  rw [finalize, if_pos done, whole, range_add, map_append, text, cstr,
    takeWhile_append_of_pos fun b hb => by simpa using fun h : b = 0 => plain (h ▸ hb)]
  -- behind the name there is the terminator, or the end of the buffer.
  cases rest : 63 - longName.length with
  | zero => simp
  | succ m =>
    have ends := spelled.fin (by omega)
    simp [range_succ_eq_map, ends]

theorem consume_lfnSlots (a : LfnAccum) (plain : 0 ∉ longName) (some_text : 0 < longName.length)
    (fits : longName.length ≤ 63) :
    Spelling longName cksum 0
      ((lfnSlots longName ((longName.length + 12) / 13) cksum).foldl consume a) := by
  generalize slots : (longName.length + 12) / 13 = n
  have step : ∀ m < n, Spelling longName cksum (n - 1 - m)
      (((range (m + 1)).map fun i => buildLfnSlot longName (n - i) (decide (i = 0)) cksum).foldl
        consume a) := by
    intro m
    induction m with
    | zero =>
      intro _
      have top : n - 0 = n - 1 - 0 + 1 := by omega
      simp only [Nat.zero_add, range_one, map_cons, map_nil, foldl_cons,
        foldl_nil, decide_true, top]
      exact consume_last a plain (by omega) (by omega)
    | succ m ih =>
      intro hm
      have down : n - (m + 1) = n - 1 - (m + 1) + 1 := by omega
      have not_first : decide (m + 1 = 0) = false := rfl
      rw [range_succ, map_append, foldl_append]
      simp only [map_cons, map_nil, foldl_cons, foldl_nil, not_first, down]
      refine consume_next plain (by omega) (by omega) ?_
      have above : n - 1 - (m + 1) + 1 = n - 1 - m := by omega
      rw [above]
      exact ih (by omega)
  have all := step (n - 1) (by omega)
  rw [Nat.sub_self, Nat.sub_add_cancel (by omega)] at all
  exact all

end

theorem consumeAll_eq (a : LfnAccum) (L : List (Pos × Slot)) :
    consumeAll a L = (L.map (·.2)).foldl consume a := by
  rw [foldl_map]
  rfl

theorem lfnSlots_long {longName : List UInt8} {n : Nat} {cksum : UInt8} (small : n ≤ 5) :
    ∀ slot ∈ lfnSlots longName n cksum, slot 0 ≠ 0 ∧ slot 0 ≠ 0xE5 ∧ isLfnSlot slot := by
  intro slot hs
  obtain ⟨i, hi, rfl⟩ := List.mem_map.1 hs
  have := List.mem_range.1 hi
  have range : 1 ≤ n - i ∧ n - i ≤ 5 := by omega
  obtain ⟨h₀, h₁₁, _⟩ := buildLfnSlot_head longName (decide (i = 0)) cksum (n - i)
  obtain ⟨_, _, used, live⟩ := lfn_seq (decide (i = 0)) range.1 range.2
  rw [← h₀] at used live
  refine ⟨used, live, ?_⟩
  rw [isLfnSlot, h₁₁]
  decide

theorem headed_long {longName : List UInt8} {L : List (Pos × Slot)} {e : Pos × Slot}
    (plain : 0 ∉ longName) (some_text : 0 < longName.length) (fits : longName.length ≤ 63)
    (spelled : L.map (·.2) =
      lfnSlots longName ((longName.length + 12) / 13) (lfnChecksum11 (name11 e.2)))
    (used : e.2 0 ≠ 0) (valid : direntIsValid e.2) :
    Headed L e ∧ ∀ a, (consumeAll a L).finalize (name11 e.2) = some longName := by
  have name : ∀ a, (consumeAll a L).finalize (name11 e.2) = some longName := by
    intro a
    rw [consumeAll_eq, spelled]
    exact finalize_spelling plain fits (consume_lfnSlots a plain some_text fits)
  refine ⟨⟨fun x hx => ?_, used, valid, .inr ⟨longName, name⟩⟩, name⟩
  have mem : x.2 ∈ lfnSlots longName ((longName.length + 12) / 13) (lfnChecksum11 (name11 e.2)) := by
    rw [← spelled]
    exact mem_map_of_mem hx
  exact lfnSlots_long (by omega) x.2 mem

/-- The slots written for a name and the entry behind them are listed under that name. -/
theorem long_name_read_back {name : List UInt8} {L S : List (Pos × Slot)} {e : Pos × Slot}
    (a : LfnAccum) (plain : 0 ∉ name) (some_text : 1 ≤ name.length) (fits : name.length ≤ 63)
    (written : L.map (·.2) = lfnSlots name ((name.length + 12) / 13) (lfnChecksum11 (name11 e.2)))
    (used : e.2 0 ≠ 0) (valid : direntIsValid e.2) :
    (entriesFrom a (L ++ e :: S)).head?.map (·.name) = some name ∧
      ∀ s ∈ L, s.2 13 = lfnChecksum11 (name11 e.2) := by
  obtain ⟨headed, spelled⟩ := headed_long plain some_text fits written used valid
  constructor
  · rw [headed.entriesFrom a S, head?_cons, Option.map_some, decodeEntry, spelled]
  · intro s mem
    have slot := mem_map_of_mem (f := (·.2)) mem
    rw [written] at slot
    obtain ⟨i, _, built⟩ := mem_map.1 slot
    rw [← built]
    exact (buildLfnSlot_head ..).2.2

/-- Twenty letters, in two slots. -/
theorem long_name_read_back_two :
    let e : Pos × Slot := ((0, 0), fun _ => 32)
    let slots := lfnSlots (replicate 20 97) 2 (lfnChecksum11 (name11 e.2))
    slots.length = 2 ∧ (entriesFrom .empty (slots.map ((0, 1), ·) ++ [e])).head?.map (·.name) =
      some (replicate 20 97) :=
  ⟨by decide, (long_name_read_back .empty (by decide) (by decide) (by decide)
    (by rw [map_map]; exact map_id _) (by decide) (by decide)).1⟩

theorem headed_short {e : Pos × Slot} (used : e.2 0 ≠ 0) (valid : direntIsValid e.2) :
    Headed [] e := ⟨by simp, used, valid, .inl rfl⟩

end Osnos.Fat
