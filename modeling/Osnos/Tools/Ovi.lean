import Mathlib.Tactic

/-! `load_file` and `save_file` of `ovi.c`. The buffer is the list of its lines. -/
namespace Osnos.Tools.Ovi
open List

abbrev Text := List UInt8
abbrev NL : UInt8 := 10
abbrev MAX_LINES : Nat := 4096
abbrev MAX_COLS : Nat := 1024
abbrev BUF_SIZE : Nat := 65536

/-- The loop over the bytes read, with the lines that are complete and the current one. -/
def loadLoop : Text → List Text → Text → List Text
  | [], lines, cur => if cur ≠ [] ∨ lines = [] then lines ++ [cur] else lines
  | c :: buf, lines, cur =>
    if c = NL then
      if lines.length + 1 ≥ MAX_LINES then lines ++ [cur] else loadLoop buf (lines ++ [cur]) []
    else loadLoop buf lines (if cur.length < MAX_COLS - 1 then cur ++ [c] else cur)

/-- The reads give the first `got` bytes: all of the file, unless the open or a read fails, which
leaves what was read before. -/
def loadFile (got : Nat) (content : Text) : List Text :=
  loadLoop (content.take (min got BUF_SIZE)) [] []

/-- The writes of `save_file`: `write k text` is what the `k`-th takes of its text, or a
failure, which the save reports. An empty line is not written. -/
def saveFrom (write : Nat → Text → Option Nat) : Nat → List Text → Text → Option Text
  | _, [], out => some out
  | k, text :: texts, out =>
    if text = [] then saveFrom write (k + 1) texts out
    else (write k text).bind fun w => saveFrom write (k + 1) texts (out ++ text.take w)

def saveFile (write : Nat → Text → Option Nat) (lines : List Text) : Option Text :=
  saveFrom write 0 (lines.intersperse [NL]) []

/-- Each write that is made takes all of its text, unless it fails. -/
def Whole (write : Nat → Text → Option Nat) : Nat → List Text → Prop
  | _, [] => True
  | k, text :: texts =>
    (text ≠ [] → ∀ w, write k text = some w → text.length ≤ w) ∧ Whole write (k + 1) texts

section
variable {write : Nat → Text → Option Nat} {k : Nat} {texts rest : List Text} {buf first out r : Text}

theorem saveFrom_eq (whole : Whole write k texts)
    (saved : saveFrom write k texts out = some r) : r = out ++ texts.flatten := by
  induction texts generalizing k out with
  | nil =>
    cases saved
    simp
  | cons text texts ih =>
    rw [saveFrom] at saved
    split_ifs at saved with empty
    · rw [ih whole.2 saved, empty, flatten_cons, nil_append]
    · obtain ⟨w, wrote, saved⟩ := Option.bind_eq_some_iff.1 saved
      rw [ih whole.2 saved, take_of_length_le (whole.1 empty w wrote), flatten_cons, append_assoc]

/-- What is saved is never longer than the texts, and as long only if each write was whole. -/
theorem saveFrom_length (saved : saveFrom write k texts out = some r) :
    r.length ≤ out.length + texts.flatten.length ∧
      (r.length = out.length + texts.flatten.length → Whole write k texts) := by
  induction texts generalizing k out with
  | nil =>
    cases saved
    exact ⟨by simp, fun _ => trivial⟩
  | cons text texts ih =>
    rw [saveFrom] at saved
    rw [flatten_cons, length_append]
    split_ifs at saved with empty
    · obtain ⟨le, whole⟩ := ih saved
      subst empty
      rw [length_nil]
      exact ⟨by omega, fun eq => ⟨absurd rfl, whole (by omega)⟩⟩
    · obtain ⟨w, wrote, saved⟩ := Option.bind_eq_some_iff.1 saved
      obtain ⟨le, whole⟩ := ih saved
      rw [length_append, length_take] at le whole
      refine ⟨by omega, fun eq => ⟨fun _ w' wrote' => ?_, whole (by omega)⟩⟩
      cases wrote.symm.trans wrote'
      omega

def size (lines : List Text) : Nat := (lines.map fun line => line.length + 1).sum

theorem length_intercalate (lines : List Text) (some_line : lines ≠ []) :
    ([NL].intercalate lines).length + 1 = size lines := by
  induction lines with
  | nil => exact absurd rfl some_line
  | cons line lines ih =>
    cases lines with
    | nil => simp [size, intercalate]
    | cons next lines =>
      have later := ih (by simp)
      simp [size, intercalate_cons_cons] at later ⊢
      omega

theorem loadLoop_eq (lines : List Text) (cur : Text) (split : buf.splitOn NL = first :: rest)
    (cols : ∀ l ∈ (cur ++ first) :: rest, l.length < MAX_COLS)
    (few : lines.length + rest.length < MAX_LINES) (ends : buf.getLast? ≠ some NL)
    (more : lines ≠ [] → cur ++ buf ≠ []) :
    loadLoop buf lines cur = lines ++ (cur ++ first) :: rest := by
  induction buf generalizing lines cur first rest with
  | nil =>
    cases split
    have last : cur ≠ [] ∨ lines = [] := by
      by_contra neither
      rw [not_or, not_not] at neither
      exact more neither.2 (by rw [neither.1]; rfl)
    simp [loadLoop, last]
  | cons c buf ih =>
    have later : buf.getLast? ≠ some NL := by
      intro last
      cases buf with
      | nil => cases last
      | cons => exact ends last
    obtain ⟨next, others, inner⟩ := ne_nil_iff_exists_cons.1 (splitOn_ne_nil NL buf)
    rw [splitOn_cons_eq_if_modifyHead, inner, modifyHead_cons] at split
    rw [loadLoop]
    by_cases newline : c = NL
    · rw [if_pos (beq_iff_eq.2 newline)] at split
      cases split
      rw [length_cons] at few
      have some_text : buf ≠ [] := by
        rintro rfl
        exact ends (congrArg some newline)
      have loop := ih (lines ++ [cur]) [] inner (forall_mem_cons.1 cols).2 (by simp; omega)
        later fun _ => some_text
      rw [if_pos newline, if_neg (by omega), loop]
      simp
    · rw [if_neg (mt beq_iff_eq.1 newline)] at split
      cases split
      have short := cols _ (.head _)
      rw [length_append, length_cons] at short
      rw [if_neg newline, if_pos (by omega), ih _ _ inner (by simpa using cols) few later (by simp)]
      simp

section
variable (buf : Text) (lines : List Text) (cur : Text)

theorem loadLoop_ne_nil : loadLoop buf lines cur ≠ [] := by
  fun_induction loadLoop buf lines cur <;> simp_all

theorem loadLoop_few (room : lines.length < MAX_LINES) :
    (loadLoop buf lines cur).length ≤ MAX_LINES := by
  fun_induction loadLoop buf lines cur <;> grind

theorem loadLoop_line (cols : ∀ l ∈ cur :: lines, l.length < MAX_COLS ∧ NL ∉ l) :
    ∀ l ∈ loadLoop buf lines cur, l.length < MAX_COLS ∧ NL ∉ l := by
  fun_induction loadLoop buf lines cur with
  | case1 | case2 | case3 => grind
  | case4 buf lines cur _ ih => exact ih (by grind)
  | case5 c buf lines cur newline ih => exact ih (by grind)

/-- Loading never makes the text longer, and drops a newline at its end. -/
theorem loadLoop_size : size (loadLoop buf lines cur) ≤ size lines + cur.length + 1 + buf.length ∧
    (buf.getLast? = some NL ∨ buf = [] ∧ cur = [] ∧ lines ≠ [] →
      size (loadLoop buf lines cur) < size lines + cur.length + 1 + buf.length) := by
  fun_induction loadLoop buf lines cur with
  | case4 buf lines cur _ ih =>
    have grown : size (lines ++ [cur]) = size lines + cur.length + 1 := by
      simp [size]
      omega
    simp only [grown, length_nil, length_cons] at ih ⊢
    refine ⟨by omega, fun last => ?_⟩
    have := ih.2 (by cases buf <;> simp_all)
    omega
  | case5 c buf lines cur newline ih => cases buf <;> grind
  | _ => grind [size]

end

end

/-- A save that reports success holds the lines exactly if each write took all of its text, and a
file comes back as it was exactly if the reads gave all of it, it fits the buffer, with at most
4096 lines of fewer than 1024 bytes and no newline at its end, and each write took all of its
text. -/
theorem ovi_saves_what_it_holds (write : Nat → Text → Option Nat) (lines : List Text)
    (got : Nat) (content out : Text) :
    (saveFile write lines = some out →
      (out = [NL].intercalate lines ↔ Whole write 0 (lines.intersperse [NL]))) ∧
    (saveFile write (loadFile got content) = some out →
      (out = content ↔ content.length ≤ got ∧ content.length ≤ BUF_SIZE ∧
        (content.splitOn NL).length ≤ MAX_LINES ∧
        (∀ l ∈ content.splitOn NL, l.length < MAX_COLS) ∧ content.getLast? ≠ some NL ∧
        Whole write 0 ((content.splitOn NL).intersperse [NL]))) := by
  refine ⟨fun saved => ⟨?_, fun whole => saveFrom_eq whole saved⟩, fun saved => ⟨?_, ?_⟩⟩
  · rintro rfl
    exact (saveFrom_length saved).2 (Nat.zero_add _).symm
  · rintro rfl
    -- what is saved, what is loaded and what is read are each no longer than the next
    obtain ⟨saved_le, whole⟩ := saveFrom_length saved
    have joined := length_intercalate (loadFile got out) (loadLoop_ne_nil _ _ _)
    obtain ⟨loaded_le, ends⟩ := loadLoop_size (out.take (min got BUF_SIZE)) [] []
    rw [length_take] at loaded_le ends
    change size (loadFile got out) ≤ 0 + 0 + 1 + _ at loaded_le
    change _ → size (loadFile got out) < 0 + 0 + 1 + _ at ends
    change out.length ≤ 0 + ([NL].intercalate _).length at saved_le
    change out.length = 0 + ([NL].intercalate _).length → _ at whole
    rw [take_of_length_le (by omega)] at ends
    have whole := whole (by omega)
    have split : out.splitOn NL = loadFile got out := by
      conv_lhs => rw [saveFrom_eq whole saved]
      exact splitOn_intercalate NL (fun l mem => (loadLoop_line _ _ _ (by simp) l mem).2)
        (loadLoop_ne_nil _ _ _)
    rw [split]
    refine ⟨by omega, by omega, loadLoop_few _ _ _ (by decide),
      fun l mem => (loadLoop_line _ _ _ (by simp) l mem).1, fun last => ?_, whole⟩
    have := ends (.inl last)
    omega
  · rintro ⟨read, size, few, cols, ends, whole⟩
    obtain ⟨first, rest, split⟩ := ne_nil_iff_exists_cons.1 (splitOn_ne_nil NL content)
    rw [split] at few cols
    have loaded : loadFile got content = first :: rest := by
      rw [loadFile, take_of_length_le (by omega)]
      exact loadLoop_eq [] [] split cols (by simpa using few) ends (absurd rfl)
    rw [loaded, ← split] at saved
    exact (saveFrom_eq whole saved).trans (intercalate_splitOn NL)

/-- The file `a`. -/
theorem ovi_saves_one_line :
    ∃ out, saveFile (fun _ t => some t.length) (loadFile 1 [97]) = some out ∧ out = [97] :=
  ⟨[97], rfl, ((ovi_saves_what_it_holds (fun _ t => some t.length) [] 1 [97] [97]).2 rfl).2
    ⟨by decide, by decide, by decide, by decide, by decide,
      fun _ _ wrote => (Option.some.inj wrote).le, trivial⟩⟩

/-- A newline at the end is lost, and a write that stops short is reported as a success. -/
theorem ovi_drops_the_last_newline :
    saveFile (fun _ t => some t.length) (loadFile 2 [97, NL]) = some [97] ∧
      saveFile (fun _ _ => some 1) [[97, 98]] = some [97] := by
  decide

end Osnos.Tools.Ovi
