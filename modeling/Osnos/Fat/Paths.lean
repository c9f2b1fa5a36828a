import Osnos.Fat.Entry
import Osnos.Fat.Listing

/-! How the two ways to take a path apart fit together: the components that lookup
follows, and the parent and last component that the write operations split off. -/
namespace Osnos.Fat
open List

variable {path : List UInt8}

theorem dropSlashes_of_trimmed (trimmed : Trimmed path) : dropSlashes path = path := by
  cases path with
  | nil => rfl
  | cons b rest =>
    have slash : b ≠ 47 := fun h => trimmed rest (by rw [h])
    simp [dropSlashes, slash]

theorem components_of_trimmed (trimmed : Trimmed path) :
    components path = componentsFrom path.length path := by
  rw [components, dropSlashes_of_trimmed trimmed]

theorem components_nil : components [] = [] := rfl

theorem takeComponent_trimmed (path : List UInt8) : Trimmed (takeComponent path).2 :=
  dropSlashes_trimmed _

theorem components_cons (trimmed : Trimmed path) (ne : path ≠ []) :
    components path = (takeComponent path).1 :: components (takeComponent path).2 := by
  obtain ⟨n, hn⟩ : ∃ n, path.length = n + 1 := ⟨path.length - 1, by
    have := List.length_pos_iff.2 ne
    omega⟩
  have lt := takeComponent_rest_lt ne trimmed
  have rest := takeComponent_trimmed path
  rw [components_of_trimmed trimmed, components_of_trimmed rest, hn, componentsFrom, if_neg ne,
    componentsFrom_enough rest (by omega)]

theorem components_slash (path : List UInt8) : components (47 :: path) = components path := by
  rw [components, components]
  simp [dropSlashes]

theorem dropSlashes_append (xs base : List UInt8) : dropSlashes (xs ++ 47 :: base) =
      if dropSlashes xs = [] then dropSlashes base else dropSlashes xs ++ 47 :: base := by
  induction xs with
  | nil => simp [dropSlashes]
  | cons b _ ih =>
    by_cases slash : b = 47
    · simp only [dropSlashes, cons_append, dropWhile_cons, slash, decide_true, if_true] at ih ⊢
      exact ih
    · simp [dropSlashes, slash]

theorem takeWhile_append_slash (xs base : List UInt8) :
    (xs ++ 47 :: base).takeWhile (· ≠ 47) = xs.takeWhile (· ≠ 47) := by
  induction xs with
  | nil => simp
  | cons b _ ih =>
    by_cases slash : b = 47
    · simp [slash]
    simp only [cons_append, takeWhile_cons, ne_eq, slash, not_false_eq_true, decide_true, if_true]
    rw [ih]

theorem components_append {xs base : List UInt8} (trimmed : Trimmed xs) (ne : xs ≠ [])
    (base_trimmed : Trimmed base) : components
    (xs ++ 47 :: base) = components xs ++ components base := by
  induction h : xs.length using Nat.strongRecOn generalizing xs with
  | ind n ih =>
    have whole_trimmed : Trimmed (xs ++ 47 :: base) := by
      obtain ⟨b, rest, rfl⟩ := exists_cons_of_ne_nil ne
      intro t same
      exact trimmed rest (by rw [(List.cons.inj same).1])
    have whole_ne : xs ++ 47 :: base ≠ [] := by simp
    have comp : (takeComponent (xs ++ 47 :: base)).1 = (takeComponent xs).1 := by
      simp only [takeComponent, takeWhile_append_slash]
    have short : (takeComponent xs).1.length ≤ xs.length := by
      simp only [takeComponent, length_take]
      have := (List.takeWhile_prefix (fun b : UInt8 => decide (b ≠ 47)) (l := xs)).length_le
      omega
    have lt := takeComponent_rest_lt ne trimmed
    rw [components_cons whole_trimmed whole_ne, components_cons trimmed ne, comp, cons_append]
    congr 1
    rw [takeComponent_rest, comp, drop_append_of_le_length short, dropSlashes_append,
      ← takeComponent_rest]
    by_cases last : (takeComponent xs).2 = []
    · rw [if_pos last, last, components_nil, nil_append, dropSlashes_of_trimmed base_trimmed]
    · rw [if_neg last]
      exact ih _ (by omega) (takeComponent_trimmed xs) last rfl

theorem components_segment {base : List UInt8} (ne : base ≠ []) (plain : 47 ∉ base)
    (short : base.length ≤ 63) : components base = [base] := by
  have trimmed : Trimmed base := fun rest same => plain (by simp [same])
  have all : base.takeWhile (· ≠ 47) = base := by
    rw [takeWhile_eq_self_iff]
    intro b hb
    simp only [ne_eq, decide_not, Bool.not_eq_true', decide_eq_false_iff_not]
    rintro rfl
    exact plain hb
  have comp : (takeComponent base).1 = base := by
    simp only [takeComponent, all, take_of_length_le short]
  rw [components_cons trimmed ne, comp, takeComponent_rest, comp, drop_length]
  rfl

theorem components_ne_nil (trimmed : Trimmed path) (ne : path ≠ []) : components path ≠ [] := by
  rw [components_cons trimmed ne]
  simp

def lastSegment (path : List UInt8) : List UInt8 := (dropSlashes path).rtakeWhile (· ≠ 47)

theorem lastSegment_plain (path : List UInt8) : 47 ∉ lastSegment path := by
  intro mem
  have := mem_rtakeWhile_imp mem
  simp at this

theorem splitParentBase_components {parent base : List UInt8}
    (split : splitParentBase path = some (parent, base)) :
    lastSegment path ≠ [] ∧ base = (lastSegment path).take 62 ∧
      components path = components parent ++ components (lastSegment path) := by
  rw [splitParentBase] at split
  simp only at split
  have trimmed := dropSlashes_trimmed path
  have keep : components path = components (dropSlashes path) := by
    rw [components, components, dropSlashes_of_trimmed trimmed]
  rw [keep, lastSegment]
  generalize dropSlashes path = p at *
  by_cases nil : p = []
  · simp [nil] at split
  rw [if_neg nil] at split
  have parts : p.rdropWhile (fun b => decide (b ≠ 47)) ++ p.rtakeWhile (fun b => decide (b ≠ 47)) = p :=
    rdropWhile_append_rtakeWhile
  have plain : 47 ∉ p.rtakeWhile (fun b => decide (b ≠ 47)) := fun mem => by
    simpa using mem_rtakeWhile_imp mem
  have last := fun h => rdropWhile_last_not (fun b : UInt8 => decide (b ≠ 47)) p h
  generalize p.rtakeWhile (fun b => decide (b ≠ 47)) = segment at *
  generalize p.rdropWhile (fun b => decide (b ≠ 47)) = front at *
  subst parts
  rcases eq_nil_or_concat' front with rfl | ⟨dirs, slash, rfl⟩
  · -- no slash: a name in the root directory
    simp only [nil_append, if_true, Option.some.injEq, Prod.mk.injEq] at split nil ⊢
    obtain ⟨rfl, rfl⟩ := split
    exact ⟨nil, rfl, rfl⟩
  obtain rfl : slash = 47 := by simpa using last (by simp)
  have differ : ¬ segment.length = (dirs ++ [47] ++ segment).length := by
    simp only [length_append, length_singleton]
    omega
  have len : (dirs ++ [47] ++ segment).length - segment.length - 1 = dirs.length := by
    simp only [length_append, length_singleton]
    omega
  have front : (dirs ++ [47] ++ segment).take dirs.length = dirs := by simp
  rw [if_neg differ] at split
  simp only [len, front] at split
  split at split
  · cases split
  split at split
  · cases split
  rename_i _ some_segment
  obtain ⟨rfl, rfl⟩ := Prod.mk.inj (Option.some.inj split)
  have dirs_ne : dirs ≠ [] := by
    rintro rfl
    exact trimmed segment (by simp)
  have dirs_trimmed : Trimmed dirs := by
    obtain ⟨b, rest, rfl⟩ := exists_cons_of_ne_nil dirs_ne
    intro t same
    exact trimmed (rest ++ 47 :: segment) (by simp [(List.cons.inj same).1])
  have segment_trimmed : Trimmed segment := fun rest same => plain (by simp [same])
  refine ⟨some_segment, rfl, ?_⟩
  rw [components_slash, ← components_append dirs_trimmed dirs_ne segment_trimmed]
  simp

theorem resolve_append (g : Geometry) (V : Vol) (cur : Dirent) (a b : List (List UInt8)) :
    resolve g V cur (a ++ b) = (resolve g V cur a).bind fun mid => resolve g V mid b := by
  induction a generalizing cur with
  | nil => rfl
  | cons _ _ ih =>
    rw [cons_append, resolve, resolve]
    by_cases dir : cur.isDir
    · simp only [dir, if_true, ih, Option.bind_assoc]
    · simp [dir]

end Osnos.Fat
