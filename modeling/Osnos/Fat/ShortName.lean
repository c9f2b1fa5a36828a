import Osnos.Fat.LongName

/-! The packed form of short names. It does not depend on letter case, and what the
driver packs it unpacks to the same name in upper case, but for a dot at the end. -/
namespace Osnos.Fat
open List

def upper (name : List UInt8) : List UInt8 := name.map upcase
def packed (base ext : List UInt8) : List UInt8 := pad 8 base ++ pad 3 ext
def joined (base ext : List UInt8) : List UInt8 := if ext = [] then base else base ++ 46 :: ext

def unpacked (name11 : List UInt8) : List UInt8 :=
  cstr (joined ((name11.take 8).rdropWhile (· = 32)) ((name11.drop 8).rdropWhile (· = 32)))

theorem upcase_toNat (c : UInt8) :
    (upcase c).toNat = if 97 ≤ c.toNat ∧ c.toNat ≤ 122 then c.toNat - 32 else c.toNat := by
  have bounds : (97 ≤ c ∧ c ≤ 122) ↔ (97 ≤ c.toNat ∧ c.toNat ≤ 122) := by
    simp [UInt8.le_iff_toNat_le]
  by_cases h : 97 ≤ c ∧ c ≤ 122
  · have low : (32 : UInt8) ≤ c := by
      have := (bounds.1 h).1
      rw [UInt8.le_iff_toNat_le]
      simp
      omega
    rw [upcase, if_pos h, if_pos (bounds.1 h), UInt8.toNat_sub_of_le _ _ low]
    rfl
  · rw [upcase, if_neg h, if_neg (mt bounds.2 h)]

theorem upcase_upcase (c : UInt8) : upcase (upcase c) = upcase c := by
  apply UInt8.toNat_inj.1
  rw [upcase_toNat (upcase c), upcase_toNat c]
  split_ifs <;> omega

theorem upcase_eq_iff {b : UInt8} (c : UInt8) (out : b.toNat < 65 ∨ 122 < b.toNat) :
    upcase c = b ↔ c = b := by
  rw [← UInt8.toNat_inj, ← UInt8.toNat_inj, upcase_toNat]
  split_ifs <;> omega

variable {ext name xs : List UInt8}

theorem mem_upper {b : UInt8} (out : b.toNat < 65 ∨ 122 < b.toNat) : b ∈ upper name ↔ b ∈ name := by
  simp only [upper, mem_map, upcase_eq_iff _ out, exists_eq_right]

theorem upper_upper (name : List UInt8) : upper (upper name) = upper name := by
  simp [upper, upcase_upcase]

theorem nameIequal_iff {a b : List UInt8} : nameIequal a b ↔ upper a = upper b := by
  simp [nameIequal, upper]

theorem length_pad {n : Nat} (h : xs.length ≤ n) : (pad n xs).length = n := by
  simp only [pad, length_append, length_replicate]
  omega

variable {base : List UInt8}

theorem packed_length (hb : base.length ≤ 8) (he : ext.length ≤ 3) :
    (packed base ext).length = 11 := by rw
    [packed, length_append, length_pad hb, length_pad he]

theorem rdropWhile_pad (n : Nat) (plain : 32 ∉ xs) : (pad n xs).rdropWhile (· = 32) = xs := by
  rw [pad]
  induction n - xs.length with
  | zero =>
    rw [replicate_zero, append_nil, rdropWhile_eq_self_iff]
    intro ne blank
    exact plain (by simpa using (of_decide_eq_true blank) ▸ getLast_mem ne)
  | succ k ih =>
    rw [replicate_succ', ← append_assoc, rdropWhile_concat_pos _ _ _ (by simp), ih]

theorem unpacked_packed (hb : base.length ≤ 8) (blank : 32 ∉ base)
    (blank' : 32 ∉ ext) : unpacked (packed base ext) = cstr (joined base ext) := by
  have cut := length_pad hb
  rw [unpacked, packed, take_left' cut, drop_left' cut, rdropWhile_pad 8 blank,
    rdropWhile_pad 3 blank']

theorem cstr_of_plain (plain : 0 ∉ xs) : cstr xs = xs :=
  List.takeWhile_eq_self_iff.2 fun b hb => by simpa using fun h : b = 0 => plain (h ▸ hb)

theorem nameFrom83_eq (raw : Slot) : nameFrom83 raw = unpacked (name11 raw) := by
  simp [nameFrom83, nameFrom83Ext, unpacked, joined, name11, bytesAt, range_succ]

theorem upcase_downcase (c : UInt8) : upcase (downcase c) = upcase c := by
  by_cases h : 65 ≤ c ∧ c ≤ 90
  · have range : 65 ≤ c.toNat ∧ c.toNat ≤ 90 := by simpa [UInt8.le_iff_toNat_le] using h
    have low : (c + 32).toNat = c.toNat + 32 := by
      rw [UInt8.toNat_add, Nat.mod_eq_of_lt (by simp; omega)]
      rfl
    apply UInt8.toNat_inj.1
    rw [downcase, if_pos h, upcase_toNat, upcase_toNat, low]
    split_ifs <;> omega
  · rw [downcase, if_neg h]

theorem upper_cstr (xs : List UInt8) : upper (cstr xs) = cstr (upper xs) := by
  have zero : (0 : UInt8).toNat < 65 ∨ 122 < (0 : UInt8).toNat := by decide
  have same : (fun c : UInt8 => decide (c ≠ 0)) ∘ upcase = fun c => decide (c ≠ 0) := by
    funext c
    simp only [Function.comp_apply, ne_eq, upcase_eq_iff c zero]
  rw [upper, cstr, cstr, upper, takeWhile_map, same]

theorem upper_joined (base ext : List UInt8) : upper (joined base ext) = joined (upper base)
    (upper ext) := by
  cases ext with
  | nil => rfl
  | cons => simp [joined, upper, upcase]

theorem upper_nameFrom83Ext (raw : Slot) (ntFlags : UInt8) :
    upper (nameFrom83Ext raw ntFlags) = upper (nameFrom83 raw) := by
  have down : ∀ xs : List UInt8, upper (xs.map downcase) = upper xs := fun xs => by
    simp [upper, upcase_downcase]
  have shape : ∀ b e : List UInt8, (if e = [] then b else b ++ 46 :: e) = joined b e := fun _ _ => rfl
  simp only [nameFrom83, nameFrom83Ext, shape, upper_cstr, upper_joined]
  split_ifs <;> simp_all

structure Parts (name base ext : List UInt8) : Prop where
  base_len : base.length ≤ 8
  ext_len : ext.length ≤ 3
  base_plain : 46 ∉ base ∧ 32 ∉ base
  ext_plain : 46 ∉ ext ∧ 32 ∉ ext
  name : name = base ∧ ext = [] ∨ name = base ++ 46 :: ext

theorem takeWhile_not_mem (name : List UInt8) : (46 : UInt8) ∉ name.takeWhile (· ≠ 46) :=
  fun h => by simpa using mem_takeWhile_imp h

theorem nameTo83_parts {a : List UInt8} (h : nameTo83 name = some a) :
    ∃ base ext, Parts name base ext ∧ a = packed (upper base) (upper ext) := by
  have whole := takeWhile_append_dropWhile (p := fun c : UInt8 => decide (c ≠ 46)) (l := name)
  have dot := takeWhile_not_mem name
  rw [nameTo83] at h
  split at h
  · cases h
  rename_i fits
  have hb : (name.takeWhile (· ≠ 46)).length ≤ 8 ∧ 32 ∉ name.takeWhile (· ≠ 46) :=
    ⟨Nat.le_of_not_lt fun h => fits (.inl h), fun h => fits (.inr h)⟩
  split at h
  next none =>
    rw [none, append_nil] at whole
    exact ⟨_, [], ⟨hb.1, by simp, ⟨dot, hb.2⟩, by simp, .inl ⟨whole.symm, rfl⟩⟩,
      (Option.some.inj h).symm⟩
  rename_i c ext more
  split at h
  · cases h
  rename_i fits'
  push Not at fits'
  have first : c = 46 := by
    have := head?_dropWhile_not (fun c : UInt8 => decide (c ≠ 46)) name
    rw [more] at this
    simpa using this
  rw [more, first] at whole
  exact ⟨_, ext, ⟨hb.1, fits'.2.2, ⟨dot, hb.2⟩, ⟨fits'.1, fits'.2.1⟩, .inr whole.symm⟩,
    (Option.some.inj h).symm⟩

theorem split_dot (dot : 46 ∉ base) (rest : List UInt8) :
    (base ++ 46 :: rest).takeWhile (· ≠ 46) = base ∧
      (base ++ 46 :: rest).dropWhile (· ≠ 46) = 46 :: rest := by
  have all : ∀ b ∈ base, decide (b ≠ 46) := fun b hb => by
    simpa using fun h : b = 46 => dot (h ▸ hb)
  rw [takeWhile_append_of_pos all, dropWhile_append_of_pos all]
  simp

theorem Parts.nameTo83 (h : Parts name base ext) :
    nameTo83 name = some (packed (upper base) (upper ext)) := by
  have fits : ¬ (base.length > 8 ∨ 32 ∈ base) := not_or.2 ⟨Nat.not_lt.2 h.base_len, h.base_plain.2⟩
  rcases h.name with ⟨rfl, rfl⟩ | rfl
  · have all : ∀ b ∈ name, decide (b ≠ 46) := fun b hb => by
      simpa using fun eq : b = 46 => h.base_plain.1 (eq ▸ hb)
    rw [Fat.nameTo83, List.takeWhile_eq_self_iff.2 all, List.dropWhile_eq_nil_iff.2 all, if_neg fits]
    rfl
  have fits' : ¬ (46 ∈ ext ∨ 32 ∈ ext ∨ ext.length > 3) := by
    have := h.ext_len
    simp only [h.ext_plain, false_or]
    omega
  obtain ⟨front, back⟩ := split_dot h.base_plain.1 ext
  rw [Fat.nameTo83, front, back, if_neg fits]
  simp only [fits', if_false]
  rfl

theorem dot_out : (46 : UInt8).toNat < 65 ∨ 122 < (46 : UInt8).toNat := by decide

theorem blank_out : (32 : UInt8).toNat < 65 ∨ 122 < (32 : UInt8).toNat := by decide

theorem Parts.upper (h : Parts name base ext) : Parts (upper name) (upper base) (upper ext) := by
  refine ⟨by simpa [Fat.upper] using h.base_len, by simpa [Fat.upper] using h.ext_len, ?_, ?_, ?_⟩
  · rw [mem_upper dot_out, mem_upper blank_out]
    exact h.base_plain
  · rw [mem_upper dot_out, mem_upper blank_out]
    exact h.ext_plain
  · rcases h.name with ⟨rfl, rfl⟩ | rfl
    · exact .inl ⟨rfl, rfl⟩
    · exact .inr (by simp [Fat.upper, upcase])

theorem nameTo83_upper (name : List UInt8) : nameTo83 (upper name) = nameTo83 name := by
  have same : (fun c : UInt8 => decide (c ≠ 46)) ∘ upcase = fun c => decide (c ≠ 46) := by
    funext c
    simp only [Function.comp_apply, ne_eq, upcase_eq_iff c dot_out]
  have again : upcase ∘ upcase = upcase := funext upcase_upcase
  have inside : ∀ b : UInt8, (b.toNat < 65 ∨ 122 < b.toNat) → ∀ xs : List UInt8,
      (b ∈ xs.map upcase ↔ b ∈ xs) := fun b out xs => mem_upper out
  rw [nameTo83, nameTo83, upper, takeWhile_map, dropWhile_map, same, ← upper]
  cases name.dropWhile fun c => decide (c ≠ 46) with
  | nil => simp only [map_nil, upper, length_map, inside 32 blank_out, map_map, again]
  | cons =>
    simp only [map_cons, upper, length_map, inside 46 dot_out, inside 32 blank_out, map_map, again]

theorem unpacked_nameTo83 {a : List UInt8} (h : nameTo83 name = some a) (plain : 0 ∉ name)
    (ends : name.getLast? ≠ some 46) : unpacked a = upper name := by
  have zero : (0 : UInt8).toNat < 65 ∨ 122 < (0 : UInt8).toNat := by decide
  obtain ⟨base, ext, parts, rfl⟩ := nameTo83_parts h
  have up := parts.upper
  rw [unpacked_packed up.base_len up.base_plain.2 up.ext_plain.2]
  have join : joined (upper base) (upper ext) = upper name := by
    rcases up.name with ⟨same, nil⟩ | same
    · rw [joined, if_pos nil, same]
    rcases parts.name with ⟨rfl, rfl⟩ | rfl
    · rfl
    have some_ext : ext ≠ [] := by
      rintro rfl
      exact ends (by simp)
    rw [joined, if_neg (by simpa [upper] using some_ext), same]
  rw [join, cstr_of_plain (by rwa [mem_upper zero])]

def IsAliasChar (b : UInt8) : Prop := 48 ≤ b.toNat ∧ b.toNat ≤ 126 ∧ ¬ (97 ≤ b.toNat ∧ b.toNat ≤ 122)

instance (b : UInt8) : Decidable (IsAliasChar b) := by
  unfold IsAliasChar
  infer_instance

theorem IsAliasChar.upcase {b : UInt8} (h : IsAliasChar b) : upcase b = b := by
  apply UInt8.toNat_inj.1
  rw [upcase_toNat, if_neg h.2.2]

theorem IsAliasChar.ne {b c : UInt8} (h : IsAliasChar b) (out : c.toNat < 48 ∨ 126 < c.toNat) :
    b ≠ c := by
  rintro rfl
  simp only [IsAliasChar] at h
  omega

theorem aliasChar_alias (c : UInt8) : IsAliasChar (aliasChar c) := by
  simp only [aliasChar]
  split_ifs with h
  · simp only [UInt8.le_iff_toNat_le] at h
    simp only [IsAliasChar]
    simp at h
    omega
  · decide

theorem digit_alias {n : Nat} (h : n < 10) : IsAliasChar (digit n) := by
  interval_cases n <;> decide

theorem aliasBase_alias (longName : List UInt8) : ∀ b ∈ aliasBase longName, IsAliasChar b := by
  intro b hb
  simp only [aliasBase] at hb
  split_ifs at hb
  all_goals first
    | (obtain rfl := List.mem_singleton.1 hb; decide)
    | (obtain ⟨c, _, rfl⟩ := List.mem_map.1 (mem_of_mem_take hb); exact aliasChar_alias c)

theorem aliasExt_alias (longName : List UInt8) : ∀ b ∈ aliasExt longName, IsAliasChar b := by
  intro b hb
  obtain ⟨c, _, rfl⟩ := List.mem_map.1 (mem_of_mem_take hb)
  exact aliasChar_alias c

theorem aliasOf_parts (longName : List UInt8) {n : Nat} (small : n ≤ 99) :
    ∃ base ext, aliasOf longName n = packed base ext ∧ base ≠
    [] ∧ base.length ≤ 8 ∧ ext.length ≤ 3 ∧
      (∀ b ∈ base, IsAliasChar b) ∧ ∀ b ∈ ext, IsAliasChar b := by
  obtain ⟨l, suffix, short, chars⟩ : ∃ l, (if n < 10 then [digit n] else
      [digit (n / 10), digit (n % 10)]) = l ∧ l.length ≤ 2 ∧ ∀ b ∈ l, IsAliasChar b := by
    refine ⟨_, rfl, ?_⟩
    split
    next one =>
      simp [digit_alias one]
    · have high : n / 10 < 10 := by omega
      simp [digit_alias high, digit_alias (n.mod_lt (show 0 < 10 by decide))]
  refine ⟨_, _, by rw [aliasOf, suffix]; rfl, by simp, ?_, length_take_le _ _, fun b hb => ?_,
    aliasExt_alias longName⟩
  · simp only [length_append, length_take, length_cons]
    omega
  rcases List.mem_append.1 hb with hb | hb
  · exact aliasBase_alias longName b (mem_of_mem_take hb)
  · exact forall_mem_cons.2 ⟨by decide, chars⟩ b hb

theorem upper_of_alias (h : ∀ b ∈ xs, IsAliasChar b) : upper xs = xs := by
  conv_rhs => rw [← map_id xs]
  exact map_congr_left fun b hb => (h b hb).upcase

theorem not_mem_of_alias {c : UInt8} (h : ∀ b ∈ xs, IsAliasChar b)
    (out : c.toNat < 48 ∨ 126 < c.toNat) : c ∉ xs := fun hc => (h c hc).ne out rfl

theorem unpacked_aliasOf (longName : List UInt8) {n : Nat} (small : n ≤ 99) :
    upper (unpacked (aliasOf longName n)) = unpacked (aliasOf longName n) ∧
      nameTo83 (unpacked (aliasOf longName n)) = some (aliasOf longName n) := by
  obtain ⟨base, ext, eq, _, hb, he, base_chars, ext_chars⟩ := aliasOf_parts longName small
  have dot : (46 : UInt8).toNat < 48 ∨ 126 < (46 : UInt8).toNat := by decide
  have blank : (32 : UInt8).toNat < 48 ∨ 126 < (32 : UInt8).toNat := by decide
  have zero : (0 : UInt8).toNat < 48 ∨ 126 < (0 : UInt8).toNat := by decide
  have parts : Parts (joined base ext) base ext := by
    refine ⟨hb, he, ⟨not_mem_of_alias base_chars dot, not_mem_of_alias base_chars blank⟩,
      ⟨not_mem_of_alias ext_chars dot, not_mem_of_alias ext_chars blank⟩, ?_⟩
    by_cases nil : ext = []
    · exact .inl ⟨if_pos nil, nil⟩
    · exact .inr (if_neg nil)
  have plain : 0 ∉ joined base ext := by
    rw [joined]
    split_ifs
    · exact not_mem_of_alias base_chars zero
    · simp [not_mem_of_alias base_chars zero, not_mem_of_alias ext_chars zero]
  have name : unpacked (aliasOf longName n) = joined base ext := by
    rw [eq, unpacked_packed hb parts.base_plain.2 parts.ext_plain.2, cstr_of_plain plain]
  have caps : upper (joined base ext) = joined base ext := by
    have up := upper_of_alias base_chars
    have up' := upper_of_alias ext_chars
    rw [joined]
    split_ifs
    · exact up
    simp only [upper, map_append, map_cons] at up up' ⊢
    rw [up, up']
    rfl
  rw [name]
  refine ⟨caps, ?_⟩
  rw [parts.nameTo83, upper_of_alias base_chars, upper_of_alias ext_chars, eq]

theorem name11_of_head {slot : Slot} {alias11 : List UInt8} (len : alias11.length = 11)
    (head : ∀ i < 11, slot i = alias11.getD i 0) : name11 slot = alias11 := by
  apply ext_getElem (by simp [name11, bytesAt, len])
  intro i h h'
  rw [len] at h'
  simp [name11, bytesAt, head i h', getD_eq_getElem?_getD, h', len]

end Osnos.Fat
