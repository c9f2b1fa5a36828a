import Osnos.Base.Prog
import Osnos.Sched.Calls

/-! Everything that makes the kernel change its task table is an event. Between two events a
user task computes, a kernel task runs, or the processor is idle. -/
namespace Osnos.Sched
open Kernel

inductive Event
  /-- The timer interrupts the kernel. -/
  | timerKernel
  /-- The timer interrupts the running user task. -/
  | timerUser (c : Context)
  /-- A keyboard or mouse interrupt queues an input event. -/
  | input
  /-- The scheduler takes its next turn. -/
  | dispatch (frameOk : Bool)
  | syscall (c : Context) (call : Syscall)
  /-- An exception in user mode. -/
  | fault
  /-- The running kernel task returns, sleeps, or feeds the terminal. -/
  | serverDone
  | serverSleep (ms : Nat)
  | serverKey (key : Key)
  /-- `kmain` and the respawning kernel task start programs and register them. -/
  | bootTask
  | bootSpawn (entry stack : Word)
  | bootRegister (sid pid : Nat)

variable (k : Kernel)

namespace Kernel

def onCpu : Option Slot :=
  k.current.filter fun i => decide ((k.tasks i).state = .running)

def userSlot : Option Slot :=
  k.onCpu.filter fun i => decide ((k.tasks i).pml4 ≠ none)

def serverSlot : Option Slot :=
  k.onCpu.filter fun i => decide ((k.tasks i).pml4 = none)

/-- A turn of the scheduler up to the last call of the task it picked. -/
def dispatchTo (frameOk : Bool) : Landing × Kernel :=
  match k.schedule.userSlot with
  | some i => k.schedule.userTaskTrampoline i frameOk
  | none => (.kernel, k.schedule)

def dispatch (frameOk : Bool) : Option Kernel :=
  match k.dispatchTo frameOk with
  | (.halt, _) => none
  | (landing, k₁) =>
    match k.schedule.userSlot with
    | some i => some (k₁.land i landing)
    | none => some k₁

def inKernel : Bool := decide (k.current = none) || k.serverSlot.isSome

/-- One event. It has no result where the event cannot happen, or where the kernel
stops for good. Pids are C `int`s: the model ends with the first one that is not,
so that every cast of a pid is the identity. -/
def step (e : Event) : Option Kernel :=
  if 2 ^ 31 ≤ k.nextPid then none else
  match e with
  | .timerKernel => if k.userSlot = none then some k.timerKernel else none
  | .timerUser c => k.userSlot.map fun i => k.timerUser i c
  | .input => some k.taskWakePollers
  | .dispatch frameOk => if k.onCpu = none then k.dispatch frameOk else none
  | .syscall c call => k.userSlot.map fun i => k.syscall i c call
  | .fault => k.userSlot.map fun i => k.procExit i (128 + 11)
  | .serverDone => k.serverSlot.map fun i => k.edit i Task.requeue
  | .serverSleep ms => k.serverSlot.map fun i =>
      k.edit i fun t => { t with wakeupAt := k.now + ms, state := .blocked, call := .server }
  | .serverKey key => k.serverSlot.map fun _ => k.ttyInput key
  | .bootTask => if k.inKernel then k.taskCreate.map Prod.snd else none
  | .bootSpawn entry stack => if k.inKernel then some (k.procExecve 0 entry stack).2 else none
  | .bootRegister sid pid => if k.inKernel then some (k.serviceRegister sid pid) else none

def boot : Kernel := {}

end Kernel

def exec (e : Event) : Prog Kernel Unit := fun k => (k.step e).map fun k' => ((), k')

abbrev Runs (allowed : Kernel → Event → Prop) : Kernel → List Event → Kernel → Prop :=
  Prog.Runs exec allowed

variable {k' : Kernel} {es : List Event}

theorem exec_eq_some {k : Kernel} {e : Event} {a : Unit} :
    exec e k = some (a, k') ↔ k.step e = some k' := by
  simp [exec]

theorem Runs.keeps {allowed : Kernel → Event → Prop} {I : Kernel → Prop} {k : Kernel}
    (one : ∀ k e k', I k → allowed k e → k.step e = some k' → I k')
    (runs : Runs allowed k es k') (start : I k) : I k' :=
  Prog.Runs.invariant (fun _ _ _ _ inv ok run => one _ _ _ inv ok (exec_eq_some.1 run)) runs start

def Kernel.after (k : Kernel) : List Event → Option Kernel
  | [] => some k
  | e :: es => (k.step e).bind fun k' => k'.after es

theorem Kernel.after_runs {k : Kernel} (run : k.after es = some k') :
    Runs (fun _ _ => True) k es k' := by
  induction es generalizing k with
  | nil =>
    cases run
    exact .nil _
  | cons _ _ ih =>
    obtain ⟨_, first, rest⟩ := Option.bind_eq_some_iff.1 run
    exact .cons (a := ()) trivial (exec_eq_some.2 first) (ih rest)

theorem Kernel.after_append (es es' : List Event) :
    k.after (es ++ es') = (k.after es).bind fun k' => k'.after es' := by
  induction es generalizing k with
  | nil => rfl
  | cons _ _ ih =>
    simp only [List.cons_append, after, ih, Option.bind_assoc]

abbrev Always (Inv : Kernel → Prop) : Kernel → List Event → Prop := Prog.Always exec Inv

/-- If a step keeps `Inv` exactly when it is admitted, then a run satisfies `Inv`
throughout exactly when all its steps are admitted. -/
theorem Runs.always_iff {Known Inv : Kernel → Prop} {allowed : Kernel → Event → Prop}
    (known : ∀ k e k', Known k → k.step e = some k' → Known k')
    (one : ∀ k e k', Known k → Inv k → k.step e = some k' → (Inv k' ↔ allowed k e)) {k : Kernel}
    (run : Runs (fun _ _ => True) k es k') (start : Known k)
    (holds : Inv k) : Always Inv k es ↔ Runs allowed k es k' :=
  Prog.Runs.always_iff (fun k e _ k' h run => known k e k' h (exec_eq_some.1 run))
    (fun k e _ k' h holds run => one k e k' h holds (exec_eq_some.1 run)) run start holds

def Kernel.booted (es : List Event) : Kernel := (Kernel.boot.after es).getD Kernel.boot

theorem Kernel.booted_eq (runs : (Kernel.boot.after es).isSome) :
    Kernel.boot.after es = some (booted es) := by
  unfold booted
  cases h : Kernel.boot.after es with
  | none => rw [h] at runs; cases runs
  | some => rfl

theorem Kernel.booted_runs (es : List Event) (runs : (Kernel.boot.after es).isSome) :
    Runs (fun _ _ => True) Kernel.boot es (booted es) :=
  after_runs (booted_eq runs)

theorem Kernel.booted_step {e : Event} (runs : (Kernel.boot.after (es ++ [e])).isSome) :
    (booted es).step e = some (booted (es ++ [e])) := by
  have last := booted_eq runs
  rw [after_append] at last
  obtain ⟨k, first, next⟩ := Option.bind_eq_some_iff.1 last
  have here : booted es = k := by
    unfold booted
    rw [first]
    rfl
  rw [here]
  obtain ⟨_, step, done⟩ := Option.bind_eq_some_iff.1 next
  rw [step]
  exact done

end Osnos.Sched
