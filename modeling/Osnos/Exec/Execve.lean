import Mathlib.Data.List.DropRight
import Osnos.Exec.Stack

/-! `sys_execve` and `proc_execve_replace_argv`: the vectors of the caller are copied, the
program is loaded into a new address space, and the vectors are laid out on its stack. What
finds and loads the program is a parameter. -/
namespace Osnos.Exec
open List Layout Store

abbrev OSNOS_PATH_MAX : Nat := 128
abbrev SYS_EXECVE_ARGS_BUF : Nat := 1024
abbrev SYS_EXECVE_ENVP_BUF : Nat := 4096

structure Image where
  mem : Store
  rsp : Nat

/-- What `elf_load` or `elf_load_dyn` has mapped; the auxiliary information is there for a
program with an interpreter. -/
structure Loaded where
  mem : Store
  aux : Option AuxInfo

def basename (path : Text) : Text := path.rtakeWhile fun b => b ≠ 47

def arguments (m : Store) (kpath : Text) (uArgv : Nat) : Except Errno (List Text) :=
  match gatherFrom m SYS_EXECVE_ARGS_BUF uArgv with
  | .error e => .error e
  | .ok [] =>
    if SYS_EXECVE_ARGS_BUF < (basename kpath).length + 1 then .error .e2big
    else .ok [basename kpath]
  | .ok (s :: ss) => .ok (s :: ss)

/-- `proc_execve_replace_argv`, as far as the image of the task goes. -/
def procExecveReplaceArgv (load : Text → Except Errno Loaded) (path : Text)
    (argv envp : List Text) : Except Errno Image :=
  match load path with
  | .error e => .error e
  | .ok er =>
    match buildArgvBlockArgv er.mem argv envp er.aux with
    | none => .error .e2big
    | some (rsp, mem) => .ok ⟨mem, rsp⟩

def newImage (load : Text → Except Errno Loaded) (m : Store) (uPath uArgv uEnvp : Nat) :
    Except Errno Image :=
  if uPath = 0 then .error .efault
  else
    match copyStringFromUser m uPath OSNOS_PATH_MAX with
    | none => .error .efault
    | some kpath =>
      match arguments m kpath uArgv with
      | .error e => .error e
      | .ok argv =>
        match gatherFrom m SYS_EXECVE_ENVP_BUF uEnvp with
        | .error e => .error e
        | .ok envp => procExecveReplaceArgv load kpath argv envp

def sysExecve (load : Text → Except Errno Loaded) (i : Image) (uPath uArgv uEnvp : Nat) :
    Option Errno × Image :=
  match newImage load i.mem uPath uArgv uEnvp with
  | .error e => (some e, i)
  | .ok i' => (none, i')

/-- What the program finds when it starts: the number of its arguments under the stack
pointer, above it the argument vector and behind that the environment. -/
structure Sees (i : Image) (args envs : List Text) : Prop where
  argc : i.mem.word i.rsp = some args.length
  argv : IsVector i.mem (i.rsp + 8) args
  envp : IsVector i.mem (i.rsp + 8 + 8 * (args.length + 1)) envs

structure Fits (args envs : List Text) : Prop where
  some_arg : args ≠ []
  few_args : args.length ≤ MAX_ARGV
  short_args : ∀ s ∈ args, s.length ≤ ENTRY_MAX - 1
  few_envs : envs.length ≤ MAX_ENVP
  short_envs : ∀ s ∈ envs, s.length ≤ ENTRY_MAX - 1

variable {m : Store} {a : Nat} {ss args envs : List Text}

theorem IsVector.no_nul (vector : IsVector m a ss) : ∀ s ∈ ss, (0 : UInt8) ∉ s := by
  induction vector with
  | nil => exact fun s member => absurd member not_mem_nil
  | cons _ _ text _ ih =>
    intro s member
    rcases List.mem_cons.1 member with rfl | member
    · exact text.no_nul
    · exact ih s member

theorem Passed.no_nul (passed : Passed m a ss) : ∀ s ∈ ss, (0 : UInt8) ∉ s := by
  unfold Passed at passed
  split at passed
  · subst passed
    exact fun s member => absurd member not_mem_nil
  · exact passed.no_nul

theorem kept_no_nul {n : Nat} (no_nul : ∀ s ∈ ss, (0 : UInt8) ∉ s) :
    ∀ s ∈ kept n ss, (0 : UInt8) ∉ s := by
  intro s member
  obtain ⟨s', member', rfl⟩ := List.mem_map.1 member
  exact fun nul => no_nul s' (mem_of_mem_take member') (mem_of_mem_take nul)

theorem basename_no_nul {path : Text} (no_nul : (0 : UInt8) ∉ path) : (0 : UInt8) ∉ basename path :=
  fun nul => no_nul ((rtakeWhile_suffix _ _).subset nul)

theorem built_block {l : Layout} {rsp : Nat} {mem : Store}
    (built : buildArgvBlockTokens m l = some (rsp, mem)) :
    l.blockSize ≤ ARGV_BLOCK_MAX ∧ rsp = l.argcVirt ∧ mem = m.writes l.pieces := by
  unfold buildArgvBlockTokens at built
  split at built
  · cases built
  split at built
  · cases built
  rename_i fits _
  cases built
  exact ⟨Nat.not_lt.1 fits, rfl, rfl⟩

theorem sees_block {l : Layout} {rsp : Nat} {mem : Store} (args_no_nul : ∀ s ∈ l.args, (0 : UInt8) ∉ s)
    (envs_no_nul : ∀ s ∈ l.envs, (0 : UInt8) ∉ s)
    (built : buildArgvBlockTokens m l = some (rsp, mem)) : Sees ⟨mem, rsp⟩ l.args l.envs := by
  obtain ⟨fits, rfl, rfl⟩ := built_block built
  obtain ⟨low, h0, h1, h2, h3, -, -, high⟩ := ordered fits
  have lies : ∀ p ∈ l.pieces, (m.writes l.pieces).Lies p.1 p.2 := fun p member =>
    lies_writes (pieces_apart fits) member
  generalize m.writes l.pieces = mem at lies ⊢
  have inside : ∀ p ∈ l.pieces, _ := fun p member => pieces_inside fits member
  simp only [pieces, forall_mem_cons] at lies inside
  obtain ⟨args, envs, -, -, envNull, envPtrs, argNull, argPtrs, argc, -⟩ := lies
  obtain ⟨argsIn, envsIn, -, -, -, -, -, -, argcIn, -⟩ := inside
  unfold USER_STACK_TOP PAGE_SIZE at *
  refine ⟨?_, ?_, ?_⟩
  · rw [toWords_singleton] at argc
    refine word_lies argc ?_
    have few : 8 * l.args.length ≤ l.blockSize := by
      unfold blockSize
      omega
    unfold ARGV_BLOCK_MAX at fits
    omega
  · change IsVector _ (l.argcVirt + 8) _
    rw [← h0]
    refine vector_of_lies argPtrs ?_ args args_no_nul (by omega) (by omega)
    rw [← h1]
    exact argNull
  · have start : l.argcVirt + 8 + 8 * (l.args.length + 1) = l.envp0 := by omega
    change IsVector _ (l.argcVirt + 8 + 8 * (l.args.length + 1)) _
    rw [start]
    refine vector_of_lies envPtrs ?_ envs envs_no_nul (by omega) (by omega)
    rw [← h3]
    exact envNull

theorem Sees.unique {i : Image} {args' envs' : List Text} (first : Sees i args envs)
    (second : Sees i args' envs') : args = args' ∧ envs = envs' := by
  obtain rfl := first.argv.unique second.argv
  exact ⟨rfl, first.envp.unique second.envp⟩

/-- As many C strings as there is room for, and auxiliary values of 64 bits. -/
structure Layout.Proper (l : Layout) : Prop where
  few_args : l.args.length ≤ MAX_ARGV
  few_envs : l.envs.length ≤ MAX_ENVP
  args_no_nul : ∀ s ∈ l.args, (0 : UInt8) ∉ s
  envs_no_nul : ∀ s ∈ l.envs, (0 : UInt8) ∉ s
  aux_small : ∀ random < 2 ^ 64, ∀ v ∈ auxWords l.aux random, v < 2 ^ 64

/-- A block that is built changes the topmost page of the stack only. From the stack pointer
on the two vectors are found, behind them the auxiliary vector, and the random bytes where
it says. -/
theorem argv_block_read_back (m : Store) (l : Layout) (rsp : Nat) (mem : Store) (proper : l.Proper)
    (built : buildArgvBlockTokens m l = some (rsp, mem)) :
    (∀ x, x < USER_STACK_TOP - PAGE_SIZE ∨ USER_STACK_TOP ≤ x → mem x = m x) ∧
      Sees ⟨mem, rsp⟩ l.args l.envs ∧
      ∃ random, mem.Lies random (randomBlob l.aux) ∧
        mem.words (rsp + 8 + 8 * (l.args.length + 1) + 8 * (l.envs.length + 1))
          (auxWords l.aux random).length = some (auxWords l.aux random) := by
  have sees := sees_block proper.args_no_nul proper.envs_no_nul built
  obtain ⟨fits, rfl, rfl⟩ := built_block built
  obtain ⟨-, h0, h1, h2, h3, h4, -, high⟩ := ordered fits
  have lies : ∀ p ∈ l.pieces, (m.writes l.pieces).Lies p.1 p.2 := fun p member =>
    lies_writes (pieces_apart fits) member
  refine ⟨fun x outside => writes_outside fun p member => ?_, sees, ?_⟩
  · have inside := pieces_inside fits member
    omega
  generalize m.writes l.pieces = mem at lies ⊢
  simp only [pieces, forall_mem_cons] at lies
  obtain ⟨-, -, random, aux, -⟩ := lies
  refine ⟨_, random, ?_⟩
  have start : l.argcVirt + 8 + 8 * (l.args.length + 1) + 8 * (l.envs.length + 1) = l.auxvStart := by
    omega
  rw [start]
  refine words_lies aux (proper.aux_small _ ?_)
  unfold stringsTotal USER_STACK_TOP at high
  omega

theorem argv_block_read_back_small :
    let l : Layout := ⟨[[97], [98, 99]], [[80, 61]], some ⟨64, 56, 1, 4096, 4097⟩⟩
    ∃ rsp mem, buildArgvBlockTokens (fun _ => some 0) l = some (rsp, mem) ∧
      Sees ⟨mem, rsp⟩ [[97], [98, 99]] [[80, 61]] ∧ ∃ random,
        mem.words (rsp + 48) (auxWords l.aux random).length = some (auxWords l.aux random) := by
  intro l
  have proper : l.Proper := by
    refine ⟨by decide, by decide, by decide, by decide, fun random low v mem => ?_⟩
    simp [l, auxWords] at mem
    omega
  obtain ⟨⟨rsp, mem⟩, built⟩ := Option.isSome_iff_exists.1
    (show (buildArgvBlockTokens (fun _ => some 0) l).isSome by decide +kernel)
  obtain ⟨-, sees, random, -, aux⟩ := argv_block_read_back (fun _ => some 0) l rsp mem proper built
  exact ⟨rsp, mem, built, sees, random, aux⟩

/-- A program that starts finds the first sixteen of the arguments that were copied, or its
own name, and the environment that was copied. -/
theorem newImage_sees {load : Text → Except Errno Loaded} {uPath uArgv uEnvp : Nat} {i' : Image}
    (argv : Passed m uArgv args) (envp : Passed m uEnvp envs)
    (started : newImage load m uPath uArgv uEnvp = .ok i') :
    ∃ seen, Sees i' (seen.take MAX_ARGV) ((kept SYS_EXECVE_MAX_ARGV envs).take MAX_ENVP) ∧
      (args = [] → seen.length = 1) ∧ (args ≠ [] → seen = kept SYS_EXECVE_MAX_ARGV args) := by
  unfold newImage at started
  split at started
  · cases started
  split at started
  · cases started
  rename_i kpath copied
  split at started
  · cases started
  rename_i seen gathered
  split at started
  · cases started
  rename_i envs' envs_ok
  obtain rfl := gatherFrom_passed envp envs_ok
  unfold procExecveReplaceArgv at started
  split at started
  · cases started
  split at started
  · cases started
  rename_i er _ _ rsp mem built
  cases started
  have path_no_nul : (0 : UInt8) ∉ kpath := by
    obtain ⟨text, bytes, rfl⟩ := Option.map_eq_some_iff.1 copied
    exact fun nul => copyBytes_no_nul bytes (mem_of_mem_take nul)
  have facts : (∀ s ∈ seen, (0 : UInt8) ∉ s) ∧ (args = [] → seen.length = 1) ∧
      (args ≠ [] → seen = kept SYS_EXECVE_MAX_ARGV args) := by
    unfold arguments at gathered
    split at gathered
    · cases gathered
    next args_ok =>
      have none := gatherFrom_passed argv args_ok
      split at gathered
      · cases gathered
      cases gathered
      refine ⟨?_, fun _ => rfl, fun some => ?_⟩
      · rw [forall_mem_singleton]
        exact basename_no_nul path_no_nul
      · cases args with
        | nil => exact absurd rfl some
        | cons => cases none
    next s ss args_ok =>
      have all := gatherFrom_passed argv args_ok
      cases gathered
      rw [all]
      refine ⟨kept_no_nul argv.no_nul, fun none => ?_, fun _ => rfl⟩
      subst none
      cases all
  refine ⟨seen, ?_, facts.2⟩
  exact sees_block (fun s member => facts.1 s (mem_of_mem_take member))
    (fun s member => kept_no_nul envp.no_nul s (mem_of_mem_take member)) built

/-- A call that fails leaves the caller as it was. A program that is started finds exactly the
vectors that were passed if and only if there are 1 to 16 arguments and at most 32 environment
entries, none of them longer than 255 bytes. -/
theorem execve_vectors (load : Text → Except Errno Loaded) (i : Image) (uPath uArgv uEnvp : Nat)
    (argv : Passed i.mem uArgv args) (envp : Passed i.mem uEnvp envs) :
    ((sysExecve load i uPath uArgv uEnvp).1 ≠ none → (sysExecve load i uPath uArgv uEnvp).2 = i) ∧
      ((sysExecve load i uPath uArgv uEnvp).1 = none →
        (Sees (sysExecve load i uPath uArgv uEnvp).2 args envs ↔ Fits args envs)) := by
  unfold sysExecve
  split
  · exact ⟨fun _ => rfl, nofun⟩
  rename_i i' started
  refine ⟨fun failed => absurd rfl failed, fun _ => ?_⟩
  obtain ⟨seen, sees, none, some⟩ := newImage_sees argv envp started
  have envs_iff : (kept SYS_EXECVE_MAX_ARGV envs).take MAX_ENVP = envs ↔ _ := take_kept_eq le_rfl
  have args_iff : (kept SYS_EXECVE_MAX_ARGV args).take MAX_ARGV = args ↔ _ :=
    take_kept_eq (by decide)
  constructor
  · intro exactly
    obtain ⟨args_eq, envs_eq⟩ := exactly.unique sees
    have some_arg : args ≠ [] := by
      rintro rfl
      have one := none rfl
      have := congrArg length args_eq
      rw [length_take, one] at this
      cases this
    rw [some some_arg] at args_eq
    obtain ⟨few_args, short_args⟩ := args_iff.1 args_eq.symm
    obtain ⟨few_envs, short_envs⟩ := envs_iff.1 envs_eq.symm
    exact ⟨some_arg, few_args, short_args, few_envs, short_envs⟩
  · intro fits
    rw [some fits.some_arg, args_iff.2 ⟨fits.few_args, fits.short_args⟩,
      envs_iff.2 ⟨fits.few_envs, fits.short_envs⟩] at sees
    exact sees

/-- A caller with the text `a` at 0x2000 and `n` pointers to it at 0x1000. -/
def caller (n : Nat) : Image where
  mem x :=
    if 0x1000 ≤ x ∧ x < 0x1000 + 8 * n then some (if x % 8 = 1 then 0x20 else 0)
    else if 0x1000 ≤ x ∧ x < 0x1008 + 8 * n then some 0
    else if x = 0x2000 then some 97
    else if x = 0x2001 then some 0
    else none
  rsp := 0x1000

def blank (_ : Text) : Except Errno Loaded := .ok ⟨fun _ => some 0, none⟩

theorem execve_vectors_two :
    Sees (sysExecve blank (caller 2) 0x2000 0x1000 0x1008).2 [[97], [97]] [[97]] := by
  have text : IsText (caller 2).mem 0x2000 [97] := .cons rfl (by decide) (.nil rfl)
  have envp : Passed (caller 2).mem 0x1008 [[97]] := .cons (p := 0x2000) rfl (by decide) text (.nil rfl)
  have argv : Passed (caller 2).mem 0x1000 [[97], [97]] :=
    .cons (p := 0x2000) rfl (by decide) text envp
  have fits : Fits [[97], [97]] [[97]] := ⟨by decide, by decide, by decide, by decide, by decide⟩
  exact ((execve_vectors blank (caller 2) 0x2000 0x1000 0x1008 argv envp).2 rfl).2 fits

/-- Seventeen arguments are passed; the program starts and is told of sixteen. -/
theorem last_argument_dropped :
    Passed (caller 17).mem 0x1000 (List.replicate 17 [97]) ∧ Passed (caller 17).mem 0 [] ∧
      (sysExecve blank (caller 17) 0x2000 0x1000 0).1 = none ∧
      (sysExecve blank (caller 17) 0x2000 0x1000 0).2.mem.word
        (sysExecve blank (caller 17) 0x2000 0x1000 0).2.rsp = some 16 ∧
      ¬Sees (sysExecve blank (caller 17) 0x2000 0x1000 0).2 (List.replicate 17 [97]) [] := by
  have text : IsText (caller 17).mem 0x2000 [97] := .cons rfl (by decide) (.nil rfl)
  have argv : IsVector (caller 17).mem 0x1000 (replicate 17 [97]) := by
    iterate 17 refine .cons (p := 0x2000) rfl (by decide) text ?_
    exact .nil rfl
  have argc : (sysExecve blank (caller 17) 0x2000 0x1000 0).2.mem.word
      (sysExecve blank (caller 17) 0x2000 0x1000 0).2.rsp = some 16 := by
    decide +kernel
  refine ⟨argv, rfl, by decide +kernel, argc, fun sees => ?_⟩
  have all := sees.argc
  rw [argc] at all
  cases all

end Osnos.Exec
