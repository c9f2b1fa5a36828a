import Osnos.Base.Prog

/-! `dispatch`, `dispatch_segment` and `run_pipeline` of `shellsrv.c`. Expansion and tokens,
the builtins, and what opening files, spawning and waiting answer come from a world with a
state of its own. -/
namespace Osnos.Shell

abbrev Text := List UInt8

inductive Op
  | first | semi | and | or
  deriving DecidableEq, Repr

/-- What `waitpid` reports of a child; `gone` is an answer with no report. -/
inductive Waited
  | exited (code : Nat) | signaled (sig : Nat) | stopped | gone
  deriving DecidableEq, Repr

/-- What `wait_pid` makes of a report. -/
def Waited.status : Waited → Int
  | .exited code => code
  | .signaled sig => 128 + sig
  | .stopped => 128 + 19
  | .gone => 0

def Waited.ended : Waited → Bool
  | .exited _ | .signaled _ => true
  | .stopped | .gone => false

structure Stage where
  argv : List Text
  stdinFile : Option Text := none
  stdoutFile : Option Text := none
  stdoutAppend : Bool := false
  deriving DecidableEq, Repr

/-- `parse` gives the stages of a segment, unless they are too many, and whether it ends in
`&`; the status is what `$?` stands for. `start` does all that a stage needs, from opening its
files to the spawn. A builtin returns its status, the pids it has started and those it has
waited for to the end. -/
structure World (σ : Type) where
  parse : σ → Int → Text → Option (List Stage) × Bool
  command : Text → Bool
  builtin : σ → List Text → Int × List Nat × List Nat × σ
  start : σ → Stage → Option Nat × σ
  wait : σ → Nat → Waited × σ

/-- The shell, and a record of what happened that it does not keep: whether the last pipeline
succeeded, which pids were started and which were reported to have ended. -/
structure State (σ : Type) where
  world : σ
  lastStatus : Int := 0
  succeeded : Bool := true
  started : List Nat := []
  reaped : List Nat := []

section Run
variable {σ : Type} (W : World σ)

/-- A pipeline succeeds if the last stage that is waited for exits with code 0. -/
def waitPid (s : State σ) (pid : Nat) : State σ :=
  let (report, world) := W.wait s.world pid
  { s with
    world, lastStatus := report.status, succeeded := decide (report = .exited 0)
    reaped := if report.ended then pid :: s.reaped else s.reaped }

/-- The pids of the stages up to the first that cannot be started, and whether there was
none. -/
def startStages : σ → List Stage → List Nat × Bool × σ
  | w, [] => ([], true, w)
  | w, st :: rest =>
    if st.argv = [] then ([], false, w)
    else match W.start w st with
      | (none, w') => ([], false, w')
      | (some pid, w') =>
        let (pids, all, w'') := startStages w' rest
        (pid :: pids, all, w'')

def runPipeline (s : State σ) (stages : List Stage) (background : Bool) : State σ :=
  let (pids, all, world) := startStages W s.world stages
  let s := { s with world, started := pids ++ s.started }
  if all then if background then { s with succeeded := true } else pids.foldl (waitPid W) s
  -- the label `cleanup`
  else { pids.foldl (waitPid W) s with succeeded := false }

inductive Plan
  | tooMany | nothing
  | builtin (argv : List Text)
  | pipeline (stages : List Stage) (background : Bool)

def plan (s : State σ) (seg : Text) : Plan :=
  match W.parse s.world s.lastStatus seg with
  | (none, _) => .tooMany
  | (some [⟨[], none, none, _⟩], false) => .nothing
  | (some [⟨name :: args, none, none, append⟩], false) =>
    if W.command name then .builtin (name :: args)
    else .pipeline [⟨name :: args, none, none, append⟩] false
  | (some stages, background) => .pipeline stages background

def dispatchSegment (s : State σ) (seg : Text) : State σ :=
  match plan W s seg with
  | .tooMany => { s with lastStatus := 1, succeeded := false }
  | .nothing => s
  | .builtin argv =>
    let (status, begun, waited, world) := W.builtin s.world argv
    { s with
      world, lastStatus := status, succeeded := decide (status = 0)
      started := begun ++ s.started, reaped := waited ++ s.reaped }
  | .pipeline stages background =>
    runPipeline W (if background then { s with lastStatus := 0 } else s) stages background

/-- The segment up to the next operator outside quotes, the operator and the rest. -/
def nextOp (sq dq : Bool) : Text → Text × Option (Op × Text)
  | [] => ([], none)
  | [59] => if sq || dq then ([59], none) else ([], some (.semi, []))
  | [c] => ([c], none)
  | c :: d :: rest =>
    let onward (sq dq : Bool) := ((nextOp sq dq (d :: rest)).1.cons c, (nextOp sq dq (d :: rest)).2)
    if !sq && !dq && c == 92 then
      ((nextOp sq dq rest).1.cons d |>.cons c, (nextOp sq dq rest).2)
    else if !dq && c == 39 then onward (!sq) dq
    else if !sq && c == 34 then onward sq (!dq)
    else if sq || dq then onward sq dq
    else if c = 59 then ([], some (.semi, d :: rest))
    else if c = 38 ∧ d = 38 then ([], some (.and, rest))
    else if c = 124 ∧ d = 124 then ([], some (.or, rest))
    else onward sq dq

def blank (c : UInt8) : Bool := c == 32 || c == 9

def shouldRun (status : Int) : Op → Bool
  | .first | .semi => true
  | .and => decide (status = 0)
  | .or => decide (status ≠ 0)

def runSegment (s : State σ) (step : Op × Text) : State σ :=
  if shouldRun s.lastStatus step.1 ∧ step.2 ≠ [] then dispatchSegment W s step.2 else s

/-- The loop of `dispatch` over a line. Every round takes at least one byte of it. -/
def segmentsFrom : Nat → Op → Text → List (Op × Text)
  | 0, _, _ => []
  | n + 1, op, text =>
    let text := text.dropWhile blank
    if text = [] then []
    else
      let (raw, next) := nextOp false false text
      (op, (raw.reverse.dropWhile blank).reverse) ::
        match next with
        | none => []
        | some (op, rest) => segmentsFrom n op rest

/-- The segments of a line, of which `dispatch` copies 255 bytes. -/
def segments (line : Text) : List (Op × Text) := segmentsFrom 256 .first (line.take 255)

def dispatch (s : State σ) (line : Text) : State σ := (segments line).foldl (runSegment W) s

def round (step : Op × Text) : Prog (State σ) Unit := fun s => some ((), runSegment W s step)

def reports : σ → List Nat → List Waited
  | _, [] => []
  | w, pid :: pids => (W.wait w pid).1 :: reports (W.wait w pid).2 pids

/-- All stages of the segment can be started and the wait for the last gives a report, or the
waits for those that were started leave a status that is not zero. -/
def Told (s : State σ) (seg : Text) : Prop :=
  match plan W s seg with
  | .pipeline stages background =>
    let (pids, all, world) := startStages W s.world stages
    let last := (reports W world pids).getLast?
    if all then background = true ∨ last ≠ some .gone
    else last.elim (if background then 0 else s.lastStatus) Waited.status ≠ 0
  | _ => True

/-- The shell waits for the children of the segment, and each wait reports an end. -/
def Awaited (s : State σ) (seg : Text) : Prop :=
  match plan W s seg with
  | .pipeline stages background =>
    let (pids, all, world) := startStages W s.world stages
    (background = true → all = false) ∧ ∀ r ∈ reports W world pids, r.ended = true
  | .builtin argv =>
    ∀ pid ∈ (W.builtin s.world argv).2.1, pid ∈ (W.builtin s.world argv).2.2.1
  | _ => True

def IfRun (P : State σ → Text → Prop) (s : State σ) (step : Op × Text) : Prop :=
  shouldRun s.lastStatus step.1 = true → step.2 ≠ [] → P s step.2

end Run

/-- The segment is run exactly if the last pipeline succeeded, or failed. -/
def Decides {σ : Type} (s : State σ) : Op × Text → Prop
  | (.and, _) => shouldRun s.lastStatus .and = s.succeeded
  | (.or, _) => shouldRun s.lastStatus .or = !s.succeeded
  | (op, _) => shouldRun s.lastStatus op = true

/-- The status tells whether the last pipeline succeeded. -/
def State.Honest {σ : Type} (s : State σ) : Prop := s.lastStatus = 0 ↔ s.succeeded = true

/-- Every child was reported to have ended. -/
def State.Reaped {σ : Type} (s : State σ) : Prop := ∀ pid ∈ s.started, pid ∈ s.reaped

theorem nextOp_shorter (sq dq : Bool) (t : Text) :
    ∀ op rest, (nextOp sq dq t).2 = some (op, rest) → rest.length < t.length := by
  fun_induction nextOp sq dq t <;> grind

/-- More rounds than the line has bytes change nothing. -/
theorem segmentsFrom_enough {n m : Nat} {op : Op} {text : Text} (enough : text.length < n)
    (more : text.length < m) : segmentsFrom n op text = segmentsFrom m op text := by
  induction n generalizing m op text with
  | zero => omega
  | succ n ih =>
    obtain ⟨m, rfl⟩ : ∃ k, m = k + 1 := ⟨m - 1, by omega⟩
    unfold segmentsFrom
    dsimp only
    split
    · rfl
    have shorter := nextOp_shorter false false (text.dropWhile blank)
    have trimmed := (List.dropWhile_suffix blank (l := text)).length_le
    congr 1
    split
    · rfl
    rename_i op' rest found
    have := shorter op' rest found
    exact ih (by omega) (by omega)

section Facts
variable {σ : Type} {W : World σ} {s : State σ}

theorem waits_last (pids : List Nat) :
    (pids.foldl (waitPid W) s).lastStatus =
        (reports W s.world pids).getLast?.elim s.lastStatus Waited.status ∧
      (pids.foldl (waitPid W) s).succeeded =
        (reports W s.world pids).getLast?.elim s.succeeded (fun r => decide (r = .exited 0)) := by
  induction pids generalizing s with
  | nil => exact ⟨rfl, rfl⟩
  | cons pid pids ih =>
    obtain ⟨status, success⟩ := ih (s := waitPid W s pid)
    rw [List.foldl_cons, status, success, reports, List.getLast?_cons]
    change _ = (some ((reports W (waitPid W s pid).world pids).getLast?.getD _)).elim _ _ ∧
      _ = (some ((reports W (waitPid W s pid).world pids).getLast?.getD _)).elim _ _
    cases (reports W (waitPid W s pid).world pids).getLast? <;> exact ⟨rfl, rfl⟩

theorem status_eq_zero {r : Waited} (told : r ≠ .gone) : r.status = 0 ↔ decide (r = .exited 0) = true := by
  cases r with
  | exited code => simp [Waited.status]
  | signaled sig =>
    simp [Waited.status]
    omega
  | stopped => simp [Waited.status]
  | gone => exact absurd rfl told

theorem runPipeline_honest (stages : List Stage) {background : Bool}
    (before : background = true → s.lastStatus = 0) (honest : background = false → s.Honest) :
    (runPipeline W s stages background).Honest ↔
      let (pids, all, world) := startStages W s.world stages
      let last := (reports W world pids).getLast?
      if all then background = true ∨ last ≠ some .gone
      else last.elim s.lastStatus Waited.status ≠ 0 := by
  unfold runPipeline
  generalize startStages W s.world stages = found
  obtain ⟨pids, all, world⟩ := found
  obtain ⟨status, success⟩ :=
    waits_last (W := W) (s := { s with world, started := pids ++ s.started }) pids
  dsimp only at status success ⊢
  generalize (reports W world pids).getLast? = last at status success
  cases all with
  | false => simp [State.Honest, status]
  | true =>
    cases background with
    | true => simp [State.Honest, before]
    | false =>
      simp only [if_true, Bool.false_eq_true, if_false, false_or, State.Honest]
      rw [status, success]
      cases last with
      | none => simpa [State.Honest] using honest rfl
      | some r =>
        by_cases gone : r = .gone
        · simp [gone, Waited.status]
        · simpa [gone] using status_eq_zero gone

theorem dispatchSegment_honest (honest : s.Honest) (seg : Text) :
    (dispatchSegment W s seg).Honest ↔ Told W s seg := by
  unfold dispatchSegment Told
  cases plan W s seg with
  | tooMany => simp [State.Honest]
  | nothing => simp [honest]
  | builtin argv => simp [State.Honest]
  | pipeline stages background =>
    cases background with
    | true => exact runPipeline_honest (s := { s with lastStatus := 0 }) stages (fun _ => rfl) nofun
    | false => exact runPipeline_honest stages nofun fun _ => honest

theorem State.Honest.decides (honest : s.Honest) (step : Op × Text) : Decides s step := by
  obtain ⟨op, seg⟩ := step
  cases op <;> simp [Decides, shouldRun, honest.eq]

theorem State.Honest.round {step : Op × Text} {a : Unit} {s' : State σ} (honest : s.Honest)
    (told : IfRun (Told W) s step) (run : round W step s = some (a, s')) : s'.Honest := by
  cases run
  unfold runSegment
  split_ifs with runs
  · exact (dispatchSegment_honest honest _).2 (told runs.1 runs.2)
  · exact honest

theorem waits_reaped (pids : List Nat) (ends : ∀ r ∈ reports W s.world pids, r.ended = true)
    (others : ∀ pid ∈ s.started, pid ∈ pids ∨ pid ∈ s.reaped) :
    (pids.foldl (waitPid W) s).Reaped := by
  induction pids generalizing s with
  | nil => simpa [State.Reaped] using others
  | cons pid pids ih =>
    obtain ⟨ended, later⟩ := List.forall_mem_cons.1 ends
    refine ih later fun x started => ?_
    rcases others x started with mem | reaped
    · rcases List.mem_cons.1 mem with rfl | mem
      · exact .inr (by simp [waitPid, ended])
      · exact .inl mem
    · exact .inr (by simp [waitPid, ended, reaped])

theorem runPipeline_reaped (reaped : s.Reaped) (stages : List Stage) {background : Bool}
    (waits : background = true → (startStages W s.world stages).2.1 = false)
    (ends : ∀ r ∈ reports W (startStages W s.world stages).2.2 (startStages W s.world stages).1,
      r.ended = true) : (runPipeline W s stages background).Reaped := by
  unfold runPipeline
  generalize startStages W s.world stages = found at waits ends
  obtain ⟨pids, all, world⟩ := found
  have waited := waits_reaped (s := { s with world, started := pids ++ s.started }) pids ends fun pid mem =>
    (List.mem_append.1 mem).imp_right (reaped pid)
  dsimp only
  split_ifs with all_started later
  · cases all_started.symm.trans (waits later)
  · exact waited
  · exact waited

theorem dispatchSegment_reaped {seg : Text} (awaited : Awaited W s seg) (reaped : s.Reaped) :
    (dispatchSegment W s seg).Reaped := by
  unfold dispatchSegment
  unfold Awaited at awaited
  cases planned : plan W s seg with
  | tooMany | nothing => exact reaped
  | builtin argv =>
    rw [planned] at awaited
    intro pid mem
    exact List.mem_append.2 ((List.mem_append.1 mem).imp (awaited pid) (reaped pid))
  | pipeline stages background =>
    rw [planned] at awaited
    cases background with
    | true => exact runPipeline_reaped (s := { s with lastStatus := 0 }) reaped stages awaited.1 awaited.2
    | false => exact runPipeline_reaped reaped stages awaited.1 awaited.2

end Facts

/-- In a session where the shell waits for the children of every segment, and each wait reports
an end, no child is left. -/
theorem children_reaped {σ : Type} (W : World σ) (w : σ) (lines : List Text) (s : State σ)
    (run : Prog.Runs (round W) (IfRun (Awaited W)) { world := w } (lines.flatMap segments) s) :
    s.Reaped := by
  refine run.invariant (fun s step _ s' (reaped : s.Reaped) awaited run => ?_) nofun
  cases run
  unfold runSegment
  split_ifs with runs
  · exact dispatchSegment_reaped (awaited runs.1 runs.2) reaped
  · exact reaped

/-- A world where `t` is a builtin, `n` is no command, every other name is a program that
succeeds, and a trailing `&` is the only mark. The state is the next pid. -/
def toy : World Nat where
  parse _ _ seg :=
    if seg.getLast? = some 38 then (some [⟨[seg.dropLast], none, none, false⟩], true)
    else (some [⟨[seg], none, none, false⟩], false)
  command name := name = [116]
  builtin w _ := (0, [], [], w)
  start w st := if st.argv = [[110]] then (none, w) else (some w, w + 1)
  wait w _ := (.exited 0, w)

/-- `a; a`. -/
theorem children_reaped_toy : ∃ s : State Nat, s.started = [2, 1] ∧ s.Reaped :=
  ⟨_, rfl, children_reaped toy 1 [[97, 59, 32, 97]] _
    (.cons (fun _ _ => ⟨nofun, by decide⟩) rfl (.cons (fun _ _ => ⟨nofun, by decide⟩) rfl (.nil _)))⟩

/-- Sixteen times `a&`, then `t`: all sixteen have ended and none was waited for. -/
theorem background_children_left :
    let s := (List.replicate 16 [97, 38] ++ [[116]] : List Text).foldl (dispatch toy) { world := 1 }
    s.started.length = 16 ∧ s.reaped = [] := by
  decide

end Osnos.Shell
