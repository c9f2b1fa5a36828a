import Osnos.Shell.Lines

/-! `run_pipeline` of the shell: which file descriptors it holds after every exit. -/
namespace Osnos.Shell.Pipeline
open Finset

abbrev Fds := Finset Nat

theorem exists_free (s : Fds) : ∃ fd, 3 ≤ fd ∧ fd ∉ s := by
  obtain ⟨n, below⟩ := s.exists_nat_subset_range
  refine ⟨n + 3, by omega, fun mem => ?_⟩
  have := Finset.mem_range.1 (below mem)
  omega

/-- The kernel gives the first free descriptor after the standard ones. -/
def fdAlloc (s : Fds) : Nat := Nat.find (exists_free s)

structure Outcome where
  openIn : Bool
  pipe : Bool
  openOut : Bool
  spawn : Bool

/-- `if (fd >= 0) close(fd)`; also what a successful spawn does to the caller's descriptor. -/
def close (fd : Option Nat) (s : Fds) : Fds := fd.elim s s.erase

def closeOpened (fd : Option Nat) (s : Fds) : Fds := close (fd.filter (3 ≤ ·)) s

def stdinFd (first : Bool) (st : Stage) (o : Outcome) (pipeIn : Option Nat) (s : Fds) :
    Option (Option Nat × Fds) :=
  if first && st.stdinFile.isSome then
    if o.openIn then some (some (fdAlloc s), insert (fdAlloc s) s) else none
  else some (pipeIn, s)

def stdoutFds (last : Bool) (st : Stage) (o : Outcome) (s : Fds) :
    Option (Option Nat × Option Nat × Fds) :=
  if !last then
    let r := fdAlloc s
    let w := fdAlloc (insert r s)
    if o.pipe then some (some w, some r, insert w (insert r s)) else none
  else if st.stdoutFile.isSome then
    if o.openOut then some (some (fdAlloc s), none, insert (fdAlloc s) s) else none
  else some (none, none, s)

/-- The loop from a stage on, with the read end of the pipe before it. -/
def runStages (first : Bool) : List (Stage × Outcome) → Option Nat → Fds → Fds
  | [], pipeIn, s => close pipeIn s
  | (st, o) :: rest, pipeIn, s =>
    if st.argv = [] then close pipeIn s
    else match stdinFd first st o pipeIn s with
      | none => close pipeIn s
      | some (stdin, s) =>
        match stdoutFds rest.isEmpty st o s with
        | none => close pipeIn (closeOpened stdin s)
        | some (stdout, next, s) =>
          if o.spawn then runStages false rest next (close stdout (close stdin s))
          else close pipeIn (close next (closeOpened stdout (closeOpened stdin s)))

def runPipeline (stages : List (Stage × Outcome)) (s : Fds) : Fds := runStages true stages none s

def Holds (s : Fds) (fd : Option Nat) (s' : Fds) : Prop :=
  s' = fd.elim s (insert · s) ∧ ∀ n ∈ fd, 3 ≤ n ∧ n ∉ s

theorem fdAlloc_free (s : Fds) : 3 ≤ fdAlloc s ∧ fdAlloc s ∉ s := Nat.find_spec (exists_free s)

theorem close_comm (a b : Option Nat) (s : Fds) : close a (close b s) = close b (close a s) := by
  cases a <;> cases b <;> first | rfl | exact erase_right_comm

namespace Holds
variable {s s₁ s₂ : Fds} {a b : Option Nat}

theorem nothing (s : Fds) : Holds s none s := ⟨rfl, nofun⟩

theorem opened (s : Fds) : Holds s (some (fdAlloc s)) (insert (fdAlloc s) s) :=
  ⟨rfl, fun _ mem => Option.mem_some.1 mem ▸ fdAlloc_free s⟩

theorem close (holds : Holds s a s₁) : Pipeline.close a s₁ = s := by
  obtain ⟨rfl, free⟩ := holds
  cases a with
  | none => rfl
  | some n => exact erase_insert (free n rfl).2

theorem close_again (holds : Holds s a s₁) : Pipeline.close a s = s := by
  cases a with
  | none => rfl
  | some n => exact erase_eq_of_notMem (holds.2 n rfl).2

theorem closeOpened (holds : Holds s a s₁) (s₂ : Fds) : closeOpened a s₂ = Pipeline.close a s₂ := by
  cases a with
  | none => rfl
  | some n => simp [Pipeline.closeOpened, Option.filter_some, (holds.2 n rfl).1]

theorem swap (holds : Holds s a s₁) (more : Holds s₁ b s₂) : Holds s b (Pipeline.close a s₂) := by
  obtain ⟨rfl, free⟩ := more
  have kept := holds.close
  obtain ⟨rfl, -⟩ := holds
  cases a with
  | none => exact ⟨rfl, free⟩
  | some =>
    cases b with
    | none => exact ⟨kept, nofun⟩
    | some m =>
      obtain ⟨high, fresh⟩ := free m rfl
      rw [Option.elim_some, mem_insert, not_or] at fresh
      refine ⟨?_, fun k mem => Option.mem_some.1 mem ▸ ⟨high, fresh.2⟩⟩
      exact (erase_insert_of_ne fresh.1).trans (congrArg (insert m) kept)

end Holds

section
variable {first last : Bool} {st : Stage} {o : Outcome} {pipeIn stdin stdout next : Option Nat}
  {s s₁ s₂ : Fds}

theorem stdinFd_holds (holds : Holds s pipeIn s₁) (start : first → pipeIn = none)
    (opens : stdinFd first st o pipeIn s₁ = some (stdin, s₂)) : Holds s stdin s₂ := by
  unfold stdinFd at opens
  split at opens
  next redirected =>
    rw [Bool.and_eq_true] at redirected
    cases start redirected.1
    obtain ⟨rfl, -⟩ := holds
    split at opens
    · cases opens
      exact .opened _
    · cases opens
  · cases opens
    exact holds

theorem stdoutFds_holds (opens : stdoutFds last st o s = some (stdout, next, s₂)) :
    ∃ s₁, Holds s next s₁ ∧ Holds s₁ stdout s₂ := by
  unfold stdoutFds at opens
  dsimp only at opens
  split_ifs at opens
  all_goals cases opens
  · exact ⟨_, .opened s, .opened _⟩
  · exact ⟨s, .nothing s, .opened s⟩
  · exact ⟨s, .nothing s, .nothing s⟩

end

/-- From any stage on, the shell ends with what it holds beside the pipe. -/
theorem runStages_keeps {first : Bool} {pipeIn : Option Nat} {s s₁ : Fds}
    (holds : Holds s pipeIn s₁) (start : first → pipeIn = none)
    (stages : List (Stage × Outcome)) : runStages first stages pipeIn s₁ = s := by
  induction stages generalizing first pipeIn s₁ with
  | nil => exact holds.close
  | cons stage rest ih =>
    obtain ⟨st, o⟩ := stage
    unfold runStages
    split
    · exact holds.close
    split
    · exact holds.close
    rename_i stdin s₂ opens
    have input := stdinFd_holds holds start opens
    split
    · rw [input.closeOpened, input.close, holds.close_again]
    rename_i stdout next s₃ opens
    obtain ⟨s', piped, output⟩ := stdoutFds_holds opens
    split
    · refine ih ?_ nofun
      rw [close_comm, output.close]
      exact input.swap piped
    · rw [input.closeOpened, output.closeOpened, close_comm stdout, output.close,
        (input.swap piped).close, holds.close_again]

theorem runPipeline_keeps_fds (stages : List (Stage × Outcome)) (s : Fds) :
    runPipeline stages s = s :=
  runStages_keeps (.nothing s) (fun _ => rfl) stages

end Osnos.Shell.Pipeline
