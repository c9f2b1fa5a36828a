import Osnos.Exec.Execve
import Osnos.Shell.Lines

/-! `pack_args` of the shell writes the arguments in quotes into a buffer of 256 bytes;
`build_argv_block` of the kernel takes them apart again. -/
namespace Osnos.Shell
open Exec List

abbrev QUOTE : UInt8 := 34
abbrev BACKSLASH : UInt8 := 92
abbrev ARGS_SIZE : Nat := 256

/-- The inner loop of `pack_args`, behind what is written so far. -/
def packText : Text → List UInt8 → List UInt8
  | [], out => out
  | c :: s, out =>
    if out.length + 2 < ARGS_SIZE then
      if c = QUOTE ∨ c = BACKSLASH then
        if out.length + 2 ≥ ARGS_SIZE then out ++ [BACKSLASH]
        else packText s (out ++ [BACKSLASH, c])
      else packText s (out ++ [c])
    else out

/-- `sep` is empty before the first argument and a space before the others. -/
def packArgs (sep : List UInt8) : List Text → List UInt8 → List UInt8
  | [], out => out
  | s :: rest, out =>
    if out.length + 1 ≥ ARGS_SIZE then out
    else
      let out := out ++ sep
      if out.length + 1 ≥ ARGS_SIZE then out
      else
        let out := packText s (out ++ [QUOTE])
        if out.length + 1 ≥ ARGS_SIZE then out else packArgs [32] rest (out ++ [QUOTE])

/-- A token in double quotes, with `room` bytes left in `decoded`, and the text from its end. -/
def readDouble : Nat → List UInt8 → Text × List UInt8
  | 0, p => ([], p)
  | room + 1, p =>
    match p with
    | [] => ([], [])
    | c :: rest =>
      if c = QUOTE then ([], p)
      else if c = BACKSLASH ∧ (rest.head? = some QUOTE ∨ rest.head? = some BACKSLASH) then
        let r := readDouble room rest.tail
        (rest.headD 0 :: r.1, r.2)
      else
        let r := readDouble room rest
        (c :: r.1, r.2)

def readRaw (stop : UInt8 → Bool) (room : Nat) (p : List UInt8) : Text × List UInt8 :=
  let token := (p.takeWhile (!stop ·)).take room
  (token, p.drop token.length)

def closing (quote : UInt8) (r : Text × List UInt8) : Text × List UInt8 :=
  (r.1, if r.2.head? = some quote then r.2.tail else r.2)

/-- The loop of `build_argv_block` with `n` arguments to go. -/
def tokenize : Nat → Nat → List UInt8 → List Text
  | 0, _, _ => []
  | n + 1, room, p =>
    match p.dropWhile blank with
    | [] => []
    | c :: rest =>
      let r := if c = QUOTE then closing QUOTE (readDouble room rest)
        else if c = 39 then closing 39 (readRaw (· == 39) room rest)
        else readRaw blank room (c :: rest)
      r.1 :: tokenize n (room - r.1.length) r.2

def buildArgvBlock (m : Store) (name : Text) (args : List UInt8) (envp : List Text) :
    Option (Nat × Store) :=
  buildArgvBlockTokens m
    ⟨name :: tokenize (MAX_ARGV - 1) ARGV_BLOCK_MAX args, envp.take MAX_ENVP, none⟩

def escape (c : UInt8) : List UInt8 := if c = QUOTE ∨ c = BACKSLASH then [BACKSLASH, c] else [c]
def quoted (s : Text) : List UInt8 := QUOTE :: s.flatMap escape ++ [QUOTE]

def packed (sep : List UInt8) : List Text → List UInt8
  | [] => []
  | s :: rest => sep ++ quoted s ++ packed [32] rest

abbrev Special (c : UInt8) : Prop := c = QUOTE ∨ c = BACKSLASH

/-- The text is written whole behind `start` bytes: a byte is left for its closing quote, or
its last byte is the second of two that are written at once. -/
def FitsText (start : Nat) (s : Text) : Prop :=
  start + (s.flatMap escape).length < 255 ∨
    start + (s.flatMap escape).length = 255 ∧ ∀ c ∈ s.getLast?, Special c

/-- The packed text is written whole behind `pos` bytes, or all of it but the last quote. -/
def FitsArgs (pos : Nat) (sep : List UInt8) (args : List Text) : Prop :=
  pos + (packed sep args).length < ARGS_SIZE ∨
    pos + (packed sep args).length = ARGS_SIZE ∧ ∀ s ∈ args.getLast?, ∀ c ∈ s.getLast?, Special c

variable {s : Text} {out rest sep : List UInt8} {args : List Text} {room n : Nat}

theorem escape_length (c : UInt8) :
    Special c ∧ (escape c).length = 2 ∨ ¬Special c ∧ (escape c).length = 1 := by
  unfold escape
  split <;> simp_all

theorem length_le_escaped (s : Text) : s.length ≤ (s.flatMap escape).length := by
  rw [length_flatMap, ← length_map fun c => (escape c).length]
  refine length_le_sum_of_one_le _ fun k mem => ?_
  obtain ⟨c, -, rfl⟩ := mem_map.1 mem
  have := escape_length c
  omega

theorem fitsText_cons {c : UInt8} (more : out.length < 254) :
    FitsText out.length (c :: s) ↔ FitsText (out ++ escape c).length s := by
  unfold FitsText
  rw [flatMap_cons, length_append, length_append]
  cases s with
  | nil =>
    obtain ⟨kind, width⟩ | ⟨kind, width⟩ := escape_length c
    · simp [width, kind]
    · simp [width, kind]
      omega
  | cons => simp [Nat.add_assoc]

/-- The inner loop writes the text whole, or a part of it that nearly fills the buffer. -/
theorem packText_spec (start : out.length ≤ 255) :
    (FitsText out.length s → packText s out = out ++ s.flatMap escape) ∧
      (¬FitsText out.length s → ∃ k < s.length,
        packText s out = out ++ (s.take k).flatMap escape ∧
          254 ≤ (packText s out).length ∧ (packText s out).length ≤ 255) := by
  induction s generalizing out with
  | nil =>
    refine ⟨fun _ => by simp [packText], fun short => absurd ?_ short⟩
    simp only [FitsText, flatMap_nil, length_nil, getLast?_nil]
    exact (Nat.lt_or_eq_of_le start).imp id fun full => ⟨full, nofun⟩
  | cons c s ih =>
    have width := escape_length c
    by_cases more : out.length < 254
    · have next : packText (c :: s) out = packText s (out ++ escape c) := by
        rw [packText, if_pos (show out.length + 2 < 256 by omega), escape]
        split
        · rw [if_neg (show ¬out.length + 2 ≥ 256 by omega)]
        · rfl
      rw [fitsText_cons more, next]
      obtain ⟨whole, cut⟩ := @ih (out ++ escape c) (by rw [length_append]; omega)
      refine ⟨fun fits => ?_, fun short => ?_⟩
      · rw [whole fits, flatMap_cons, append_assoc]
      · obtain ⟨k, less, text, long⟩ := cut short
        refine ⟨k + 1, by simpa using less, ?_, long⟩
        rw [text, take_succ_cons, flatMap_cons, append_assoc]
    -- no round is left, and the byte would need one
    have stop : packText (c :: s) out = out := by
      rw [packText, if_neg (show ¬out.length + 2 < 256 by omega)]
    have unfit : ¬FitsText out.length (c :: s) := by
      have longer := length_le_escaped s
      unfold FitsText
      rw [flatMap_cons, length_append]
      rintro (low | ⟨last, special⟩)
      · omega
      obtain rfl : s = [] := length_eq_zero_iff.1 (by omega)
      rcases width with ⟨-, two⟩ | ⟨plain, -⟩
      · omega
      · exact plain (special c rfl)
    refine ⟨fun fits => absurd fits unfit, fun _ => ⟨0, by simp, by simp [stop], ?_⟩⟩
    rw [stop]
    exact ⟨Nat.not_lt.1 more, start⟩

theorem readDouble_escaped (enough : s.length ≤ room)
    (ends : rest = [] ∨ rest.head? = some QUOTE) :
    readDouble room (s.flatMap escape ++ rest) = (s, rest) := by
  induction s generalizing room with
  | nil =>
    cases room with
    | zero => rfl
    | succ =>
      cases rest with
      | nil => rfl
      | cons => simp_all [readDouble]
  | cons c s ih =>
    obtain ⟨room, rfl⟩ : ∃ r, room = r + 1 := ⟨room - 1, by simp at enough; omega⟩
    have read := @ih room (by simpa using enough)
    rw [flatMap_cons, escape]
    split
    next special =>
      rcases special with rfl | rfl <;> simp [readDouble, read, show BACKSLASH ≠ QUOTE by decide]
    rename_i plain
    rw [not_or] at plain
    simp [readDouble, plain, read]

theorem tokenize_quoted (blanks : ∀ c ∈ sep, blank c) (enough : s.length ≤ room)
    (ends : rest = [] ∨ rest.head? = some QUOTE) :
    tokenize (n + 1) room (sep ++ QUOTE :: (s.flatMap escape ++ rest)) =
      s :: tokenize n (room - s.length) rest.tail := by
  have skip : (sep ++ QUOTE :: (s.flatMap escape ++ rest)).dropWhile blank =
      QUOTE :: (s.flatMap escape ++ rest) := by
    rw [dropWhile_append_of_pos blanks]
    rfl
  rw [tokenize, skip]
  dsimp only
  rw [if_pos rfl, readDouble_escaped enough ends, closing]
  rcases ends with rfl | quote
  · rfl
  · rw [if_pos quote]

theorem tokenize_blanks (blanks : ∀ c ∈ sep, blank c) : tokenize n room sep = [] := by
  cases n with
  | zero => rfl
  | succ => rw [tokenize, dropWhile_eq_nil_iff.2 blanks]

theorem packArgs_full (full : 255 ≤ out.length) : packArgs sep args out = out := by
  cases args with
  | nil => rfl
  | cons => rw [packArgs, if_pos (show out.length + 1 ≥ 256 by omega)]

theorem packArgs_cons (room : out.length + sep.length + 1 < 256) : packArgs sep (s :: args) out =
    if (packText s (out ++ sep ++ [QUOTE])).length + 1 ≥ 256 then packText s (out ++ sep ++ [QUOTE])
    else packArgs [32] args (packText s (out ++ sep ++ [QUOTE]) ++ [QUOTE]) := by
  rw [packArgs, if_neg (show ¬out.length + 1 ≥ 256 by omega)]
  exact if_neg (show ¬(out ++ sep).length + 1 ≥ 256 by rw [length_append]; omega)

/-- An argument that is cut is the last that is written. -/
theorem packArgs_cut (room : out.length + sep.length + 1 < 256)
    (short : ¬FitsText (out.length + sep.length + 1) s) :
    ∃ k < s.length, ∃ tail, (tail = [] ∨ tail = [QUOTE]) ∧
      out.length + sep.length + 1 + ((s.take k).flatMap escape).length ≤ 255 ∧
      packArgs sep (s :: args) out = out ++ (sep ++ QUOTE :: ((s.take k).flatMap escape ++ tail)) := by
  have begun : (out ++ sep ++ [QUOTE]).length = out.length + sep.length + 1 := by
    simp only [length_append, length_singleton]
  obtain ⟨k, less, text, long, most⟩ :=
    (@packText_spec s (out ++ sep ++ [QUOTE]) (by omega)).2 (begun ▸ short)
  refine ⟨k, less, ?_⟩
  rw [packArgs_cons room]
  rw [text] at long most ⊢
  rw [length_append, begun] at most
  split
  · exact ⟨[], .inl rfl, most, by simp⟩
  · refine ⟨[QUOTE], .inr rfl, most, ?_⟩
    rw [packArgs_full (by rw [length_append, length_singleton]; omega)]
    simp

theorem fitsArgs_cons {pos : Nat} : FitsArgs pos sep (s :: args) ↔
    FitsText (pos + sep.length + 1) s ∧
      (pos + sep.length + 1 + (s.flatMap escape).length = 255 → args = []) ∧
      (pos + sep.length + 1 + (s.flatMap escape).length < 255 →
        FitsArgs (pos + sep.length + 2 + (s.flatMap escape).length) [32] args) := by
  have whole : (packed sep (s :: args)).length =
      sep.length + 2 + (s.flatMap escape).length + (packed [32] args).length := by
    simp [packed, quoted]
    omega
  unfold FitsArgs FitsText ARGS_SIZE
  rw [whole]
  generalize (s.flatMap escape).length = width
  cases args with
  | nil =>
    have one : (∀ s' ∈ [s].getLast?, ∀ c ∈ s'.getLast?, Special c) ↔ ∀ c ∈ s.getLast?, Special c := by
      simp
    rw [one, show (packed [32] []).length = 0 from rfl]
    generalize (∀ c ∈ s.getLast?, Special c) = special
    by_cases holds : special
    · simp only [holds, and_true, implies_true, true_and]
      omega
    · simp only [holds, and_false, or_false, implies_true, true_and]
      omega
  | cons s' more =>
    have long : 3 ≤ (packed [32] (s' :: more)).length := by
      simp [packed, quoted]
      omega
    rw [getLast?_cons_cons]
    generalize (packed [32] (s' :: more)).length = later at long
    simp only [reduceCtorEq, imp_false]
    generalize (∀ s ∈ (s' :: more).getLast?, ∀ c ∈ s.getLast?, Special c) = special
    by_cases holds : special
    · simp only [holds, and_true]
      omega
    · simp only [holds, and_false, or_false]
      omega

/-- What comes back from the packed arguments: the arguments themselves exactly if all fits. -/
theorem tokenize_packArgs (sep_blank : sep = [] ∨ sep = [32]) (start : out.length ≤ 255)
    (few : args.length ≤ n) (enough : 255 ≤ out.length + room) :
    ∃ text, packArgs sep args out = out ++ text ∧
      (∀ t ∈ tokenize n room text, ∀ c ∈ t, ∃ s ∈ args, c ∈ s) ∧
      (tokenize n room text = args ↔ FitsArgs out.length sep args) := by
  have empty : ∀ c ∈ ([] : List UInt8), blank c := fun _ mem => nomatch mem
  induction args generalizing n room out sep with
  | nil =>
    refine ⟨[], by simp [packArgs], ?_⟩
    rw [tokenize_blanks empty]
    refine ⟨nofun, iff_of_true rfl (.inl ?_)⟩
    rw [packed, length_nil]
    exact Nat.lt_succ_of_le start
  | cons s rest ih =>
    obtain ⟨n, rfl⟩ : ∃ k, n = k + 1 := ⟨n - 1, by rw [length_cons] at few; omega⟩
    have blanks : ∀ c ∈ sep, blank c := by
      rcases sep_blank with rfl | rfl <;> simp [blank]
    have longer := length_le_escaped s
    rw [fitsArgs_cons]
    -- the loop stops before the argument
    have nothing {more : Prop} (text : List UInt8) (blank_text : ∀ c ∈ text, blank c)
        (full : 255 ≤ out.length + sep.length) :
        (∀ t ∈ tokenize (n + 1) room text, ∀ c ∈ t, ∃ s' ∈ s :: rest, c ∈ s') ∧
          (tokenize (n + 1) room text = s :: rest ↔
            FitsText (out.length + sep.length + 1) s ∧ more) := by
      rw [tokenize_blanks blank_text]
      refine ⟨nofun, iff_of_false nofun fun fits => ?_⟩
      have := fits.1
      unfold FitsText at this
      omega
    by_cases full : out.length + 1 ≥ 256
    · exact ⟨[], by rw [packArgs_full (by omega), append_nil], nothing [] empty (by omega)⟩
    by_cases full' : (out ++ sep).length + 1 ≥ 256
    · refine ⟨sep, ?_, nothing sep blanks (by rw [length_append] at full'; omega)⟩
      rw [packArgs, if_neg full]
      exact if_pos full'
    have begun : (out ++ sep ++ [QUOTE]).length = out.length + sep.length + 1 := by
      simp only [length_append, length_singleton]
    rw [length_append] at full'
    by_cases fits : FitsText (out.length + sep.length + 1) s
    · have all := (@packText_spec s (out ++ sep ++ [QUOTE]) (by omega)).1
      rw [begun] at all
      rw [packArgs_cons (by omega), all fits, length_append, begun]
      by_cases last : out.length + sep.length + 1 + (s.flatMap escape).length = 255
      · -- without its closing quote, and without what follows
        rw [if_pos (by omega)]
        refine ⟨sep ++ QUOTE :: (s.flatMap escape ++ []), by simp, ?_⟩
        rw [tokenize_quoted blanks (by omega) (.inl rfl), tail_nil, tokenize_blanks empty]
        refine ⟨fun t mem c byte => ⟨s, mem_cons_self, mem_singleton.1 mem ▸ byte⟩, ?_⟩
        rw [cons_inj_right, eq_comm (a := [])]
        exact ⟨fun none_left => ⟨fits, fun _ => none_left, fun less => by omega⟩, fun h => h.2.1 last⟩
      · have less : out.length + sep.length + 1 + (s.flatMap escape).length < 255 :=
          fits.resolve_right fun full => last full.1
        rw [if_neg (by omega)]
        have ended : (out ++ sep ++ [QUOTE] ++ s.flatMap escape ++ [QUOTE]).length =
            out.length + sep.length + 2 + (s.flatMap escape).length := by
          simp only [length_append, length_singleton]
          omega
        obtain ⟨text, later, letters, same⟩ :=
          @ih (out ++ sep ++ [QUOTE] ++ s.flatMap escape ++ [QUOTE]) [32] (room - s.length) n
            (.inr rfl) (by omega) (by simpa using few) (by omega)
        refine ⟨sep ++ QUOTE :: (s.flatMap escape ++ QUOTE :: text), by rw [later]; simp, ?_⟩
        rw [tokenize_quoted blanks (by omega) (.inr rfl)]
        refine ⟨fun t mem c byte => ?_, ?_⟩
        · rcases mem_cons.1 mem with rfl | mem
          · exact ⟨t, mem_cons_self, byte⟩
          · obtain ⟨s', arg, found⟩ := letters t mem c byte
            exact ⟨s', mem_cons_of_mem _ arg, found⟩
        · rw [tail_cons, cons_inj_right, same, ended]
          exact ⟨fun h => ⟨fits, fun full => by omega, fun _ => h⟩, fun h => h.2.2 less⟩
    · -- cut, so it does not come back
      obtain ⟨k, less, tail, quote, most, result⟩ := @packArgs_cut s out sep rest (by omega) fits
      have bytes := length_le_escaped (s.take k)
      have shorter : (s.take k).length = k := by
        rw [length_take]
        omega
      refine ⟨_, result, ?_⟩
      have nothing_more : tail.tail = [] := by rcases quote with rfl | rfl <;> rfl
      rw [tokenize_quoted blanks (by omega) (by rcases quote with rfl | rfl <;> simp), nothing_more,
        tokenize_blanks empty]
      refine ⟨fun t mem c byte => ⟨s, mem_cons_self, ?_⟩, iff_of_false (fun same => ?_) ?_⟩
      · rw [mem_singleton.1 mem] at byte
        exact mem_of_mem_take byte
      · have := congrArg length (List.cons.inj same).1
        omega
      · exact fun h => fits h.1

end Osnos.Shell
