import Mathlib.Data.List.DropRight
import Mathlib.Tactic

/-! `realpath` of the C library against the names that walking the path leaves. -/
namespace Osnos.Libc.Realpath
open List Option

abbrev Text := List UInt8
abbrev PATH_MAX : Nat := 128
abbrev SLASH : UInt8 := 47

def base (cwd path : Text) : Text :=
  if path.head? = some SLASH then [SLASH]
  else if cwd.getLast?.any (· ≠ SLASH) then cwd ++ [SLASH] else cwd

def assemble (cwd path : Text) : Text :=
  base cwd path ++ path.take (PATH_MAX - 1 - (base cwd path).length)

def segments (t : Text) : List Text := (t.splitOn SLASH).filter (· ≠ [])

def push (out seg : Text) : Option Text :=
  if seg = [46] then some out
  else if seg = [46, 46] then
    some (if 1 < out.length then out.dropLast.rdropWhile (· ≠ SLASH) else out)
  else if out.length + seg.length + 1 ≥ PATH_MAX then none
  else some (out ++ seg ++ [SLASH])

def strip (out : Text) : Text :=
  if 1 < out.length ∧ out.getLast? = some SLASH then out.dropLast else out

def realpath (cwd path : Text) : Option Text :=
  ((segments (assemble cwd path).tail).foldlM push [SLASH]).map strip

def step (names : List Text) (seg : Text) : List Text :=
  if seg = [46] then names else if seg = [46, 46] then names.tail else seg :: names

def walk (text : Text) : List Text := (segments text).foldl step []

def text : List Text → Text
  | [] => []
  | n :: names => text names ++ SLASH :: n

def canonical (names : List Text) : Text := if names = [] then [SLASH] else text names
def Proper (name : Text) : Prop := name ≠ [] ∧ name ≠ [46] ∧ name ≠ [46, 46] ∧ SLASH ∉ name
def dir (names : List Text) : Text := text names ++ [SLASH]

variable {names segs : List Text} {n seg out cwd path t : Text}

theorem segments_clean : ∀ s ∈ segments t, s ≠ [] ∧ SLASH ∉ s := by
  have clean : ∀ s ∈ t.splitOn SLASH, SLASH ∉ s := by
    induction t with
    | nil => simp
    | cons c t ih =>
      rw [splitOn_cons_eq_if_modifyHead]
      cases split : t.splitOn SLASH with
      | nil => exact absurd split (splitOn_ne_nil _ _)
      | cons s l =>
        rw [split] at ih
        split_ifs with other
        · exact forall_mem_cons.2 ⟨not_mem_nil, ih⟩
        · obtain ⟨first, rest⟩ := forall_mem_cons.1 ih
          have apart : SLASH ≠ c := fun eq => other (beq_of_eq eq.symm)
          exact forall_mem_cons.2 ⟨not_mem_cons_of_ne_of_not_mem apart first, rest⟩
  intro s mem
  obtain ⟨mem, some_byte⟩ := mem_filter.1 mem
  exact ⟨of_decide_eq_true some_byte, clean s mem⟩

theorem segments_text (proper : ∀ n ∈ names, Proper n) : segments (text names) = names.reverse := by
  induction names with
  | nil => rfl
  | cons n names ih =>
    obtain ⟨first, rest⟩ := forall_mem_cons.1 proper
    have one : segments n = [n] := by simp [segments, splitOn_eq_singleton first.2.2.2, first.1]
    rw [text, segments, splitOn_append_cons_self, filter_append, reverse_cons, ← ih rest, ← one]
    rfl

theorem dir_cons (n : Text) (names : List Text) : dir (n :: names) = dir names ++ n ++ [SLASH] := by
  simp [dir, text]

theorem dir_cons_length : (dir (n :: names)).length = (dir names).length + n.length + 1 := by
  simp [dir_cons, Nat.add_assoc]

theorem push_dir (proper : ∀ n ∈ names, Proper n) (clean : seg ≠ [] ∧ SLASH ∉ seg)
    (small : (dir names).length < PATH_MAX) (pushed : push (dir names) seg = some out) :
    out = dir (step names seg) ∧ (∀ n ∈ step names seg, Proper n) ∧ out.length < PATH_MAX := by
  unfold push at pushed
  unfold step
  split_ifs at pushed ⊢ with dot parent long full <;> cases pushed
  · exact ⟨rfl, proper, small⟩
  · cases names with
    | nil => cases long.false
    | cons n names =>
      obtain ⟨first, rest⟩ := forall_mem_cons.1 proper
      have back : (dir (n :: names)).dropLast.rdropWhile (· ≠ SLASH) = dir names := by
        rw [dir_cons, dropLast_concat, rdropWhile, reverse_append, dropWhile_append_of_pos]
        · simp [dir]
        · exact fun c mem => decide_eq_true fun same => first.2.2.2 (same ▸ mem_reverse.1 mem)
      rw [dir_cons_length] at small
      exact ⟨back, rest, by rw [back]; omega⟩
  · cases names with
    | nil => exact ⟨rfl, proper, small⟩
    | cons n names =>
      rw [dir_cons_length] at long
      simp [dir] at long
  · have name : Proper seg := ⟨clean.1, dot, parent, clean.2⟩
    refine ⟨(dir_cons seg names).symm, forall_mem_cons.2 ⟨name, proper⟩, ?_⟩
    rw [← dir_cons, dir_cons_length]
    omega

theorem pushes_dir (proper : ∀ n ∈ names, Proper n) (clean : ∀ s ∈ segs, s ≠ [] ∧ SLASH ∉ s)
    (small : (dir names).length < PATH_MAX) (run : segs.foldlM push (dir names) = some out) :
    out = dir (segs.foldl step names) ∧ (∀ n ∈ segs.foldl step names, Proper n) ∧
      out.length < PATH_MAX := by
  induction segs generalizing names with
  | nil =>
    cases run
    exact ⟨rfl, proper, small⟩
  | cons s segs ih =>
    obtain ⟨first, rest⟩ := forall_mem_cons.1 clean
    obtain ⟨_, pushed, run⟩ := bind_eq_some_iff.1 run
    obtain ⟨rfl, proper', small'⟩ := push_dir proper first small pushed
    exact ih proper' rest small' run

theorem pushes_names (proper : ∀ n ∈ names, Proper n) (small : (dir names).length < PATH_MAX) :
    names.reverse.foldlM push [SLASH] = some (dir names) := by
  induction names with
  | nil => rfl
  | cons n names ih =>
    obtain ⟨first, rest⟩ := forall_mem_cons.1 proper
    rw [dir_cons_length] at small
    rw [reverse_cons, foldlM_append, ih rest (by omega), dir_cons]
    simp [push, first.2.1, first.2.2.1, Nat.not_le.2 small]

theorem strip_dir : strip (dir names) = canonical names := by
  cases names with
  | nil => rfl
  | cons n names =>
    rw [strip, if_pos ⟨by simp [dir, text]; omega, getLast?_concat⟩]
    exact dropLast_concat

theorem text_head : (text (n :: names)).head? = some SLASH := by
  induction names generalizing n with
  | nil => rfl
  | cons m names ih =>
    rw [text, head?_append, ih]
    rfl

theorem realpath_again (cwd : Text) (proper : ∀ n ∈ names, Proper n)
    (small : (dir names).length < PATH_MAX) :
    realpath cwd (canonical names) = some (canonical names) := by
  cases names with
  | nil => rfl
  | cons n names =>
    have whole : (assemble cwd (canonical (n :: names))).tail = text (n :: names) := by
      rw [dir, length_append] at small
      simp [assemble, base, canonical, text_head, Nat.le_of_lt_succ (Nat.lt_of_succ_lt_succ small)]
    rw [realpath, whole, segments_text proper, pushes_names proper small, map_some, strip_dir]

/-- A path that fits its buffer is resolved to the names that the walk leaves. -/
theorem realpath_canonical (cwd path r : Text) (root : cwd.head? = some SLASH)
    (fits : (base cwd path ++ path).length < PATH_MAX) (found : realpath cwd path = some r) :
    r = canonical (walk (base cwd path ++ path)) ∧
      (∀ n ∈ walk (base cwd path ++ path), Proper n) ∧ realpath cwd r = some r := by
  obtain ⟨t, whole⟩ : ∃ t, base cwd path ++ path = SLASH :: t := by
    obtain ⟨t, rfl⟩ := head?_eq_some_iff.1 root
    unfold base
    split_ifs <;> exact ⟨_, rfl⟩
  have assembled : assemble cwd path = SLASH :: t := by
    rw [length_append] at fits
    rw [assemble, take_of_length_le (by omega), whole]
  rw [realpath, assembled] at found
  obtain ⟨out, run, rfl⟩ := map_eq_some_iff.1 found
  obtain ⟨rfl, proper, small⟩ :=
    @pushes_dir [] _ out nofun segments_clean (by decide) run
  rw [whole, strip_dir]
  exact ⟨rfl, proper, realpath_again cwd proper small⟩

theorem realpath_canonical_dots : realpath [47] [97, 47, 46, 46, 47, 98] = some [47, 98] ∧
    realpath [47] [47, 98] = some [47, 98] :=
  ⟨by decide, (realpath_canonical [47] [97, 47, 46, 46, 47, 98] _ rfl (by decide) (by decide)).2.2⟩

/-- A path of 127 bytes loses its last one. -/
theorem long_path_cut :
    realpath [47] (47 :: replicate 126 97) = some (47 :: replicate 125 97) := by
  decide +kernel

end Osnos.Libc.Realpath
