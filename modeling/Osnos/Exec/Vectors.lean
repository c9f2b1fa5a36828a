import Osnos.Base.Bytes

/-! A vector is an array of pointers to strings, ended by a null pointer, as it lies in the
memory of a program; and the copies `sys_execve` makes of one through `core/uaccess.c`. -/
namespace Osnos.Exec
open List

abbrev Text := List UInt8

inductive Errno
  | esrch
  | efault
  | e2big
  | enoent
  | eio
  | enomem
  | einval
  | eisdir
  | enoexec
deriving DecidableEq, Repr

inductive IsText (m : Store) : Nat → Text → Prop
  | nil {a : Nat} (stop : m a = some 0) : IsText m a []
  | cons {a : Nat} {b : UInt8} {s : Text} (here : m a = some b) (more : b ≠ 0)
      (rest : IsText m (a + 1) s) : IsText m a (b :: s)

inductive IsVector (m : Store) : Nat → List Text → Prop
  | nil {a : Nat} (stop : m.word a = some 0) : IsVector m a []
  | cons {a p : Nat} {s : Text} {ss : List Text} (here : m.word a = some p) (more : p ≠ 0)
      (text : IsText m p s) (rest : IsVector m (a + 8) ss) : IsVector m a (s :: ss)

def Passed (m : Store) (a : Nat) (ss : List Text) : Prop :=
  if a = 0 then ss = [] else IsVector m a ss

/-- The loop of `copy_string_from_user`: at most `n` bytes, up to the first NUL. -/
def copyBytes (m : Store) : Nat → Nat → Option Text
  | 0, _ => some []
  | n + 1, a =>
    match m a with
    | none => none
    | some b => if b = 0 then some [] else (copyBytes m n (a + 1)).map (b :: ·)

/-- `copy_string_from_user`: where no NUL came, the last byte becomes one. -/
def copyStringFromUser (m : Store) (a maxlen : Nat) : Option Text :=
  (copyBytes m maxlen a).map (·.take (maxlen - 1))

abbrev SYS_EXECVE_MAX_ARGV : Nat := 32
abbrev ENTRY_MAX : Nat := 256

/-- One of the two loops of `sys_execve` over a vector: at most `n` further entries from `a`,
into a buffer of `size` bytes of which `pos` are used. -/
def gather (m : Store) (size : Nat) : Nat → Nat → Nat → Except Errno (List Text)
  | 0, _, _ => .ok []
  | n + 1, a, pos =>
    match m.word a with
    | none => .error .efault
    | some p =>
      if p = 0 then .ok []
      else
        match copyStringFromUser m p ENTRY_MAX with
        | none => .error .efault
        | some s =>
          if size < pos + s.length + 1 then .error .e2big
          else (gather m size n (a + 8) (pos + s.length + 1)).map (s :: ·)

def gatherFrom (m : Store) (size a : Nat) : Except Errno (List Text) :=
  if a = 0 then .ok [] else gather m size SYS_EXECVE_MAX_ARGV a 0

/-- What the copies keep of a vector: so many entries, each cut to the size of the staging
buffer. -/
def kept (n : Nat) (ss : List Text) : List Text := (ss.take n).map (·.take (ENTRY_MAX - 1))

variable {m : Store} {a : Nat} {s : Text} {ss : List Text}

theorem IsText.unique {s' : Text} (first : IsText m a s) (second : IsText m a s') : s = s' := by
  induction first generalizing s' with
  | nil stop =>
    cases second with
    | nil => rfl
    | cons here more =>
      rw [stop] at here
      cases here
      exact absurd rfl more
  | cons here more _ ih =>
    cases second with
    | nil stop =>
      rw [here] at stop
      cases stop
      exact absurd rfl more
    | cons here' _ rest =>
      rw [here] at here'
      cases here'
      rw [ih rest]

theorem IsVector.unique {ss' : List Text} (first : IsVector m a ss) (second : IsVector m a ss') :
    ss = ss' := by
  induction first generalizing ss' with
  | nil stop =>
    cases second with
    | nil => rfl
    | cons here more =>
      rw [stop] at here
      cases here
      exact absurd rfl more
  | cons here more text _ ih =>
    cases second with
    | nil stop =>
      rw [here] at stop
      cases stop
      exact absurd rfl more
    | cons here' _ text' rest =>
      rw [here] at here'
      cases here'
      rw [text.unique text', ih rest]

theorem copyBytes_text (text : IsText m a s) (n : Nat) : copyBytes m n a = some (s.take n) := by
  induction text generalizing n with
  | nil stop =>
    cases n with
    | zero => rfl
    | succ => simp [copyBytes, stop]
  | cons here more _ ih =>
    cases n with
    | zero => rfl
    | succ => simp [copyBytes, here, more, ih]

theorem copyStringFromUser_text (text : IsText m a s) (maxlen : Nat) :
    copyStringFromUser m a maxlen = some (s.take (maxlen - 1)) := by
  rw [copyStringFromUser, copyBytes_text text, Option.map_some, take_take,
    Nat.min_eq_left (Nat.sub_le maxlen 1)]

theorem copyBytes_no_nul {n : Nat} (copied : copyBytes m n a = some s) : (0 : UInt8) ∉ s := by
  induction n generalizing a s with
  | zero =>
    cases copied
    exact not_mem_nil
  | succ n ih =>
    unfold copyBytes at copied
    split at copied
    · cases copied
    split at copied
    · cases copied
      exact not_mem_nil
    rename_i b _ more
    obtain ⟨rest, copied', rfl⟩ := Option.map_eq_some_iff.1 copied
    rw [mem_cons, not_or]
    exact ⟨fun zero => more zero.symm, ih copied'⟩

theorem IsText.no_nul (text : IsText m a s) : (0 : UInt8) ∉ s := by
  have copied := copyBytes_text text s.length
  rw [take_length] at copied
  exact copyBytes_no_nul copied

theorem gather_vector {size n pos : Nat} {out : List Text} (vector : IsVector m a ss)
    (ok : gather m size n a pos = .ok out) : out = kept n ss := by
  induction vector generalizing n pos out with
  | nil stop =>
    cases n with
    | zero =>
      cases ok
      rfl
    | succ =>
      rw [gather, stop] at ok
      cases ok
      rfl
  | cons here more text _ ih =>
    cases n with
    | zero =>
      cases ok
      rfl
    | succ n =>
      rw [gather, here] at ok
      dsimp only at ok
      rw [if_neg more, copyStringFromUser_text text] at ok
      dsimp only at ok
      split at ok
      · cases ok
      cases rest : gather m size n _ _ with
      | error =>
        rw [rest] at ok
        cases ok
      | ok =>
        rw [rest] at ok
        cases ok
        rw [ih rest]
        rfl

theorem gatherFrom_passed {size : Nat} {out : List Text} (passed : Passed m a ss)
    (ok : gatherFrom m size a = .ok out) : out = kept SYS_EXECVE_MAX_ARGV ss := by
  unfold Passed at passed
  unfold gatherFrom at ok
  split at ok
  next null =>
    rw [if_pos null] at passed
    subst passed
    cases ok
    rfl
  next some =>
    rw [if_neg some] at passed
    exact gather_vector passed ok

theorem take_kept_eq {k n : Nat} (fewer : k ≤ n) :
    (kept n ss).take k = ss ↔ ss.length ≤ k ∧ ∀ s ∈ ss, s.length ≤ ENTRY_MAX - 1 := by
  have each : ss.map (·.take (ENTRY_MAX - 1)) = ss ↔ ∀ s ∈ ss, s.length ≤ ENTRY_MAX - 1 := by
    conv_lhs => rhs; rw [← map_id ss]
    simp only [map_inj_left, id_eq, take_eq_self_iff]
  unfold kept
  rw [← map_take, take_take, Nat.min_eq_left fewer]
  constructor
  · intro same
    have few : ss.length ≤ k := by
      have lengths := congrArg length same
      rw [length_map, length_take] at lengths
      omega
    rw [take_of_length_le few] at same
    exact ⟨few, each.1 same⟩
  · rintro ⟨few, short⟩
    rw [take_of_length_le few]
    exact each.2 short

end Osnos.Exec
