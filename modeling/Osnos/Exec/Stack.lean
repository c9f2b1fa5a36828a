import Osnos.Exec.Vectors

/-! `build_argv_block_tokens` of `proc/exec.c`: the number of arguments, the two vectors,
the auxiliary vector and the texts, at the top of the new program's stack. -/
namespace Osnos.Exec
open List Store

abbrev MAX_ARGV : Nat := 16
abbrev MAX_ENVP : Nat := 32
abbrev ARGV_BLOCK_MAX : Nat := 2048
abbrev PAGE_SIZE : Nat := 4096
abbrev USER_STACK_TOP : Nat := 0x80000000

/-- `elf_load_result_t`, as far as the auxiliary vector tells of it. -/
structure AuxInfo where
  phdrUserVa : Nat
  phentsize : Nat
  phnum : Nat
  interpBase : Nat
  entry : Nat

def flat (ss : List Text) : List UInt8 := ss.flatMap fun s => s ++ [0]

def cursors (c : Nat) : List Text → List Nat
  | [] => []
  | s :: ss => c :: cursors (c + s.length + 1) ss

def alignUp (n : Nat) : Nat := (n + 7) / 8 * 8

/-- The pairs of the auxiliary vector: `AT_PHDR`, `AT_PHENT`, `AT_PHNUM`, `AT_PAGESZ`,
`AT_BASE`, `AT_ENTRY`, `AT_RANDOM`, `AT_NULL`, or only the page size. -/
def auxWords (aux : Option AuxInfo) (random : Nat) : List Nat :=
  match aux with
  | some er =>
    [3, er.phdrUserVa, 4, er.phentsize, 5, er.phnum, 6, 4096, 7, er.interpBase, 9, er.entry,
      25, random, 0, 0]
  | none => [6, 4096, 0, 0]

def randomBlob (aux : Option AuxInfo) : List UInt8 :=
  if aux.isSome then (List.range 16).map fun b => 0xa5 ^^^ UInt8.ofNat b else []

structure Layout where
  args : List Text
  envs : List Text
  aux : Option AuxInfo

namespace Layout

variable (l : Layout)

def randomOffset : Nat :=
  if l.aux.isSome then alignUp ((flat l.args).length + (flat l.envs).length)
  else (flat l.args).length + (flat l.envs).length

def stringsTotal : Nat := l.randomOffset + (randomBlob l.aux).length
def auxBytes : Nat := if l.aux.isSome then 8 * 2 * 8 else 2 * 2 * 8

def blockSize : Nat :=
  8 + 8 * (l.args.length + 1) + 8 * (l.envs.length + 1) + l.auxBytes + alignUp l.stringsTotal

def stringsBase : Nat := (USER_STACK_TOP - l.stringsTotal) / 8 * 8
def auxvStart : Nat := l.stringsBase - l.auxBytes
def envpNull : Nat := l.auxvStart - 8
def envp0 : Nat := l.envpNull - 8 * l.envs.length
def argvNull : Nat := l.envp0 - 8
def argv0 : Nat := l.argvNull - 8 * l.args.length
def argcVirt : Nat := l.argv0 - 8

def pieces : List (Nat × List UInt8) :=
  [(l.stringsBase, flat l.args),
    (l.stringsBase + (flat l.args).length, flat l.envs),
    (l.stringsBase + l.randomOffset, randomBlob l.aux),
    (l.auxvStart, toWords (auxWords l.aux (l.stringsBase + l.randomOffset))),
    (l.envpNull, toWords [0]),
    (l.envp0, toWords (cursors (l.stringsBase + (flat l.args).length) l.envs)),
    (l.argvNull, toWords [0]),
    (l.argv0, toWords (cursors l.stringsBase l.args)),
    (l.argcVirt, toWords [l.args.length])]

end Layout

/-- `build_argv_block_tokens`: the new stack pointer and the memory, or the block is too
large or the top page of the stack is not mapped. -/
def buildArgvBlockTokens (m : Store) (l : Layout) : Option (Nat × Store) :=
  if ARGV_BLOCK_MAX < l.blockSize then none
  else if (m (USER_STACK_TOP - PAGE_SIZE)).isNone then none
  else some (l.argcVirt, m.writes l.pieces)

/-- `build_argv_block_argv` and `build_argv_block_argv_dyn`, with the environment the
function above takes. -/
def buildArgvBlockArgv (m : Store) (argv envp : List Text) (aux : Option AuxInfo) :
    Option (Nat × Store) :=
  buildArgvBlockTokens m ⟨argv.take MAX_ARGV, envp.take MAX_ENVP, aux⟩

variable {m : Store} {a c : Nat} {s : Text} {ss : List Text}

@[simp] theorem length_cursors : (cursors c ss).length = ss.length := by
  induction ss generalizing c with
  | nil => rfl
  | cons _ _ ih => simp [cursors, ih]

theorem flat_cons : flat (s :: ss) = s ++ 0 :: flat ss := by
  simp [flat]

theorem text_of_lies (lies : m.Lies a (s ++ [0])) (no_nul : (0 : UInt8) ∉ s) : IsText m a s := by
  induction s generalizing a with
  | nil => exact .nil lies.1
  | cons b s ih =>
    rw [mem_cons, not_or] at no_nul
    exact .cons lies.1 (fun zero => no_nul.1 zero.symm) (ih lies.2 no_nul.2)

theorem vector_of_lies (pointers : m.Lies a (toWords (cursors c ss)))
    (stop : m.Lies (a + 8 * ss.length) (toWords [0])) (texts : m.Lies c (flat ss))
    (no_nul : ∀ s ∈ ss, (0 : UInt8) ∉ s) (positive : 0 < c) (below : c + (flat ss).length < 2 ^ 64) :
    IsVector m a ss := by
  induction ss generalizing a c with
  | nil =>
    exact .nil (word_lies stop (by norm_num))
  | cons s ss ih =>
    have split : flat (s :: ss) = (s ++ [0]) ++ flat ss := by simp [flat_cons]
    rw [split, lies_append] at texts
    rw [split, length_append, length_append, length_singleton] at below
    rw [cursors, toWords, flatMap_cons, lies_append, length_toLe] at pointers
    rw [length_cons] at stop
    have end_eq : a + 8 * (ss.length + 1) = a + 8 + 8 * ss.length := by ring
    rw [end_eq] at stop
    refine .cons (word_lies pointers.1 (by omega)) positive.ne'
      (text_of_lies texts.1 (no_nul s mem_cons_self)) ?_
    exact ih pointers.2 stop (by simpa [Nat.add_assoc] using texts.2)
      (fun s member => no_nul s (mem_cons_of_mem _ member)) (by omega) (by omega)

namespace Layout

variable {l : Layout}

theorem randomOffset_le : (flat l.args).length + (flat l.envs).length ≤ l.randomOffset := by
  unfold randomOffset alignUp
  split <;> omega

theorem length_auxWords (random : Nat) : 8 * (auxWords l.aux random).length = l.auxBytes := by
  unfold auxWords auxBytes
  cases l.aux <;> rfl

/-- A block that is not too large lies below the top of the stack, in one page, and its
parts follow each other upwards. -/
theorem ordered (fits : l.blockSize ≤ ARGV_BLOCK_MAX) :
    USER_STACK_TOP - PAGE_SIZE ≤ l.argcVirt ∧ l.argv0 = l.argcVirt + 8 ∧
      l.argvNull = l.argv0 + 8 * l.args.length ∧ l.envp0 = l.argvNull + 8 ∧
      l.envpNull = l.envp0 + 8 * l.envs.length ∧ l.auxvStart = l.envpNull + 8 ∧
      l.stringsBase = l.auxvStart + l.auxBytes ∧
      l.stringsBase + l.stringsTotal ≤ USER_STACK_TOP := by
  unfold blockSize alignUp ARGV_BLOCK_MAX at fits
  unfold argcVirt argv0 argvNull envp0 envpNull auxvStart stringsBase USER_STACK_TOP PAGE_SIZE
  omega

theorem pieces_apart (fits : l.blockSize ≤ ARGV_BLOCK_MAX) : l.pieces.Pairwise Apart := by
  obtain ⟨_, h0, h1, h2, h3, h4, h5, _⟩ := ordered fits
  have room := randomOffset_le (l := l)
  have aux := length_auxWords (l := l) (l.stringsBase + l.randomOffset)
  simp only [pieces, pairwise_cons, mem_cons, not_mem_nil, or_false, forall_eq_or_imp,
    forall_eq, Apart, length_toWords, length_cursors, length_singleton, aux,
    List.Pairwise.nil, and_true, IsEmpty.forall_iff, implies_true]
  omega

theorem pieces_inside (fits : l.blockSize ≤ ARGV_BLOCK_MAX) {p : Nat × List UInt8}
    (member : p ∈ l.pieces) :
    USER_STACK_TOP - PAGE_SIZE ≤ p.1 ∧ p.1 + p.2.length ≤ USER_STACK_TOP := by
  obtain ⟨low, h0, h1, h2, h3, h4, h5, high⟩ := ordered fits
  have room := randomOffset_le (l := l)
  have aux := length_auxWords (l := l) (l.stringsBase + l.randomOffset)
  unfold stringsTotal at high
  simp only [pieces, mem_cons, not_mem_nil, or_false] at member
  rcases member with rfl | rfl | rfl | rfl | rfl | rfl | rfl | rfl | rfl <;>
    simp only [length_toWords, length_cursors, length_singleton, aux] <;> omega

end Layout

end Osnos.Exec
