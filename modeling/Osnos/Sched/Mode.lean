import Osnos.Sched.Fate

/-! `iretq` enters the privilege level of the selectors it pops, with the flags it pops. The
saved context of a task that is off the processor keeps its selectors and flags until the
task is dispatched again; `rt_sigreturn` takes them from the user's stack. -/
namespace Osnos.Sched
open Relation Kernel Option

/-- Flags that code outside the kernel can have: interrupts on, no I/O privilege,
and none of the virtual-8086 bits. -/
def UserFlags (rflags : Word) : Prop := rflags &&& 0x200 ≠ 0 ∧ rflags &&& 0x1a3000 = 0
def UserMode (c : Context) : Prop := c.cs &&& 3 = 3 ∧ c.ss &&& 3 = 3 ∧ UserFlags c.rflags

instance (c : Context) : Decidable (UserMode c) := by
  unfold UserMode UserFlags
  infer_instance

variable {c : Context}

theorem SameMode.userMode {c' : Context} (same : SameMode c c') : UserMode c' ↔ UserMode c := by
  obtain ⟨cs, ss, rflags⟩ := same
  unfold UserMode
  rw [cs, ss, rflags]

theorem SameMode.trans {c₁ c' : Context} (first : SameMode c c₁) (next : SameMode c₁ c') :
    SameMode c c' :=
  ⟨next.1.trans first.1, next.2.1.trans first.2.1, next.2.2.trans first.2.2⟩

def Task.suspended (t : Task) : Prop :=
  t.state = .ready ∨ t.state = .blocked ∨ t.state = .stopped

/-- A child's answer overwrites the saved `rax` of a sleeping task: it reports to the
wait that the record names, or returns an address space. -/
def Kernel.Answers (k : Kernel) (e : Event) (t : Task) : Prop :=
  (∃ child, (k.causes e).report t child ∧ t.waitsFor child = true) ∨
    ∃ child, (k.causes e).release t.pid child

def Kernel.Overwrites (k : Kernel) (e : Event) (i : Slot) (t : Task) : Prop :=
  k.Signals e i ∨ k.Answers e t

def Kernel.Quiet (k : Kernel) (e : Event) (i : Slot) (t : Task) : Prop :=
  t.state = .blocked → ¬ k.Overwrites e i t

/-- What can happen to a suspended task that the scheduler does not pick: of its
saved context only `rax` changes, and only if the event overwrites it. -/
structure Rests (k : Kernel) (e : Event) (i : Slot) (t t' : Task) : Prop where
  suspended : t'.suspended
  pid : t'.pid = t.pid
  user : t'.pml4 = none ↔ t.pml4 = none
  valid : t'.savedValid = t.savedValid
  saved : ∃ rax, t'.saved = { t.saved with rax := rax }
  quiet : k.Quiet e i t → t'.saved = t.saved ∧ k.Quiet e i t'

section Rest

variable {k : Kernel} {e : Event} {i : Slot} {t t₁ t' : Task}

theorem Rests.refl (suspended : t.suspended) : Rests k e i t t :=
  ⟨suspended, rfl, Iff.rfl, rfl, ⟨_, rfl⟩, fun quiet => ⟨rfl, quiet⟩⟩

theorem Rests.trans (first : Rests k e i t t₁) (next : Rests k e i t₁ t') : Rests k e i t t' := by
  obtain ⟨_, saved⟩ := first.saved
  obtain ⟨rax', saved'⟩ := next.saved
  refine ⟨next.suspended, next.pid.trans first.pid, next.user.trans first.user,
    next.valid.trans first.valid, ⟨rax', ?_⟩, fun quiet => ?_⟩
  · rw [saved', saved]
  obtain ⟨same, quiet⟩ := first.quiet quiet
  obtain ⟨same', quiet⟩ := next.quiet quiet
  exact ⟨same'.trans same, quiet⟩

theorem Rests.wakes (same : t'.saved = t.saved) (pid : t'.pid = t.pid) (space : t'.pml4 = t.pml4)
    (valid : t'.savedValid = t.savedValid) (wakes : t'.state = .ready ∨ t'.state = .stopped) :
    Rests k e i t t' := by
  refine ⟨wakes.imp_right .inr, pid, by rw [space], valid, ⟨_, same⟩, fun _ => ⟨same, ?_⟩⟩
  intro asleep
  rcases wakes with h | h <;> simp [h] at asleep

theorem Act.rests (act : Act (k.causes e) i t t') (suspended : t.suspended)
    (idle : ¬ (k.causes e).start i) : Rests k e i t t' := by
  have off : t.state ≠ .running := by
    rcases suspended with h | h | h <;> simp [h]
  have live : t.state ≠ .zombie ∧ t.state ≠ .dead ∧ t.state ≠ .unused := by
    rcases suspended with h | h | h <;> simp [h]
  cases act with
  | message | poller | timeout
  | continued => exact .wakes rfl rfl rfl rfl (.inl rfl)
  | raise =>
    exact ⟨suspended, rfl, Iff.rfl, rfl, ⟨_, rfl⟩, fun quiet => ⟨rfl, quiet⟩⟩
  | interrupt sent asleep =>
    refine ⟨.inl rfl, rfl, Iff.rfl, rfl, ?_, fun quiet => absurd (.inl sent) (quiet asleep)⟩
    unfold Task.interrupt
    dsimp only
    split <;> exact ⟨_, rfl⟩
  | stop => exact .wakes rfl rfl rfl rfl (.inr rfl)
  | report sent asleep waits =>
    exact ⟨.inl rfl, rfl, Iff.rfl, rfl, ⟨_, rfl⟩,
      fun quiet => absurd (.inr (.inl ⟨_, sent, waits⟩)) (quiet asleep)⟩
  | release sent asleep =>
    exact ⟨.inl rfl, rfl, Iff.rfl, rfl, ⟨_, rfl⟩,
      fun quiet => absurd (.inr (.inr ⟨_, sent⟩)) (quiet asleep)⟩
  | exit _ running | requeue running | save running | consume running
  | park running => exact absurd running off
  | bury _ zombie => exact absurd zombie live.1
  | clear dead => exact absurd dead live.2.1
  | create free new => exact absurd free (by tauto)
  | start picked => exact absurd picked idle
  | tweak tweak =>
    refine ⟨?_, tweak.pid, tweak.user, tweak.savedValid, ⟨t.saved.rax, tweak.saved⟩,
      fun quiet => ⟨tweak.saved, ?_⟩⟩
    · unfold Task.suspended
      rw [tweak.state]
      exact suspended
    unfold Kernel.Quiet Overwrites Answers causes Task.waitsFor at quiet ⊢
    dsimp only at quiet ⊢
    rw [tweak.state, tweak.pid, tweak.waitOptions, tweak.waitingForPid]
    exact quiet

theorem chain_rests (chain : ReflTransGen (Act (k.causes e) i) t t') (suspended : t.suspended)
    (idle : ¬ (k.causes e).start i) : Rests k e i t t' := by
  induction chain with
  | refl => exact .refl suspended
  | tail _ act ih => exact ih.trans (act.rests ih.suspended idle)

theorem Act.stays_over (act : Act (k.causes e) i t t')
    (ended : t.over ∨ t.state = .unused) : (t'.over ∨ t'.state = .unused) ∨ k.Creates e i t' := by
  have off : t.state ≠ .running ∧ t.state ≠ .blocked ∧ t.state ≠ .ready ∧ t.state ≠ .stopped := by
    rcases ended with (h | h) | h <;> simp [h]
  cases act with
  | message _ asleep | poller asleep | timeout asleep
  | interrupt _ asleep | report _ asleep | release _ asleep =>
    exact absurd asleep off.2.1
  | raise => exact .inl ended
  | continued stopped => exact absurd stopped off.2.2.2
  | stop sent live => exact absurd live (by tauto)
  | exit _ running | requeue running | save running | consume running
  | park running => exact absurd running off.1
  | bury => exact .inl (.inl (.inr rfl))
  | clear => exact .inl (.inr rfl)
  | create _ new => exact .inr new
  | start _ ready => exact absurd ready off.2.2.1
  | tweak tweak =>
    left
    unfold Task.over
    rw [tweak.state]
    exact ended

theorem chain_over (chain : ReflTransGen (Act (k.causes e) i) t t')
    (ended : t.over ∨ t.state = .unused) :
    (t'.over ∨ t'.state = .unused) ∨ t'.pid = k.nextPid := by
  induction chain with
  | refl => exact .inl ended
  | tail _ act ih =>
    rcases ih with ended | named
    · exact (act.stays_over ended).imp id fun new => new.pid
    rcases act.kept with (unused | ⟨-, pid, -⟩) | new
    · exact .inl (.inr unused)
    · exact .inr (pid.trans named)
    · exact .inr new.pid

end Rest

def Landing.context : Landing → Option Context
  | .resume c => some c
  | .handler c _ => some c
  | .start c => some c
  | _ => none

inductive Lands (t : Task) : Landing → Task → Prop
  | resume {t' : Task} (valid : t.savedValid = true) (tweak : Tweak t t') :
      Lands t (.resume t'.saved) { t' with savedValid := false }
  | handler {t' : Task} {sig : Nat} {h : Word} (valid : t.savedValid = true) (tweak : Tweak t t') :
      Lands t (.handler (handlerContext t'.saved sig h) sig) { t' with savedValid := false }
  | start {t' : Task} (invalid : t.savedValid = false) (tweak : Tweak t t') :
      Lands t (.start { rip := t'.userEntry, cs := GDT_UCODE, rflags := 0x202,
                        rsp := t'.userStackTop, ss := GDT_UDATA }) t'
  | stop {t' : Task} (tweak : Tweak t t') : Lands t .stop t'
  | exit {t' : Task} {code : Int} (tweak : Tweak t t') : Lands t (.exit code) t'
  | halt {t' : Task} : Lands t .halt t'

section Trampoline

variable {k : Kernel} {i : Slot} (frameOk : Bool)

theorem userTaskResume_lands (valid : (k.tasks i).savedValid)
    (no_kill : (k.tasks i).killPending = false) :
    Lands (k.tasks i) (k.userTaskResume i frameOk).1 ((k.userTaskResume i frameOk).2.tasks i) := by
  have tweak := deliverFrom_tweak frameOk signals (k.tasks i) no_kill
  unfold userTaskResume deliver
  cases h : deliverFrom frameOk signals (k.tasks i) with
  | none =>
    rw [h] at tweak
    dsimp only
    rw [put_same]
    exact .resume valid tweak
  | handler =>
    rw [h] at tweak
    dsimp only
    rw [put_same]
    exact .handler valid tweak
  | stop =>
    rw [h] at tweak
    dsimp only
    rw [put_same]
    exact .stop tweak
  | exit =>
    rw [h] at tweak
    dsimp only
    rw [put_same]
    exact .exit tweak

theorem Tweak.refl (t : Task) : Tweak t t := { noted_tweak t with }

theorem afterKill_lands (no_kill : (k.tasks i).killPending = false) :
    Lands (k.tasks i) (k.afterKill i frameOk).1 ((k.afterKill i frameOk).2.tasks i) := by
  unfold afterKill
  dsimp only
  split
  · dsimp only
    rw [edit_same]
    exact .stop { noted_tweak (k.tasks i) with }
  split
  next valid =>
    exact userTaskResume_lands frameOk valid no_kill
  rename_i invalid
  split
  · exact .halt
  · exact .start (by simpa using invalid) (.refl _)

theorem Lands.forgiven {t t' : Task} {landing : Landing}
    (lands : Lands { t with killPending := false } landing t') : Lands t landing t' := by
  have forgiven : Tweak t { t with killPending := false } :=
    { noted_tweak t with kill := fun set => by simp at set }
  cases lands with
  | resume valid tweak => exact .resume valid (forgiven.trans tweak)
  | handler valid tweak => exact .handler valid (forgiven.trans tweak)
  | start invalid tweak => exact .start invalid (forgiven.trans tweak)
  | stop tweak => exact .stop (forgiven.trans tweak)
  | exit tweak => exact .exit (forgiven.trans tweak)
  | halt => exact .halt

theorem userTaskTrampoline_lands : Lands (k.tasks i) (k.userTaskTrampoline i frameOk).1
      ((k.userTaskTrampoline i frameOk).2.tasks i) := by
  unfold userTaskTrampoline
  dsimp only
  split
  · split
    · apply Lands.forgiven
      have lands := afterKill_lands frameOk (i := i)
        (k := k.edit i fun t => { t with killPending := false }) (by rw [edit_same])
      rwa [edit_same] at lands
    · dsimp only
      rw [edit_same]
      exact .exit { noted_tweak (k.tasks i) with kill := fun set => by simp at set }
  next no_kill =>
    exact afterKill_lands frameOk (by simpa using no_kill)

end Trampoline

theorem Lands.mode {t t' : Task} {landing : Landing} (lands : Lands t landing t')
    (enters : landing.context = some c) (valid : t.savedValid) : SameMode t.saved c := by
  cases lands with
  | resume _ tweak | handler _ tweak =>
    cases enters
    rw [tweak.saved]
    exact ⟨rfl, rfl, rfl⟩
  | start invalid => rw [valid] at invalid; cases invalid
  | stop | exit | halt => cases enters

/-- The event takes the task in slot `i` back to user mode, with context `c`. -/
def Kernel.Resumes (k : Kernel) (e : Event) (i : Slot) (c : Context) : Prop :=
  ∃ frameOk, e = .dispatch frameOk ∧ k.schedule.userSlot = some i ∧
    (k.dispatchTo frameOk).1.context = some c

/-- The context the interrupted program goes on with: at once, or when the handler
that is entered first returns. -/
def Kernel.Continues (k : Kernel) (e : Event) (i : Slot) (c : Context) : Prop :=
  (∃ entered, k.Resumes e i entered) ∧ c = (k.tasks i).saved

structure Held (P : Context → Prop) (pid : Nat) (i : Slot) (k : Kernel) : Prop where
  known : pid < k.nextPid
  held : (k.tasks i).pid = pid → ((k.tasks i).over ∨ (k.tasks i).state = .unused) ∨
    ((k.tasks i).suspended ∧ (k.tasks i).pml4 ≠ none ∧ (k.tasks i).savedValid = true ∧
      P (k.tasks i).saved)

section Holding

variable {P : Context → Prop} {pid : Nat} {i : Slot} {k k' : Kernel} {e : Event}

theorem dispatchTo_lands (frameOk : Bool) (picked : k.schedule.userSlot = some i) :
    Lands (k.schedule.tasks i) (k.dispatchTo frameOk).1 ((k.dispatchTo frameOk).2.tasks i) := by
  rw [dispatchTo_eq picked]
  exact userTaskTrampoline_lands frameOk

theorem dispatch_lands {frameOk : Bool} (run : k.dispatch frameOk = some k')
    (picked : k.schedule.userSlot = some i) :
    ∃ landing k₁, k.dispatchTo frameOk = (landing, k₁) ∧ landing ≠ .halt ∧
      k' = k₁.land i landing ∧ Lands (k.schedule.tasks i) landing (k₁.tasks i) := by
  have lands := dispatchTo_lands frameOk picked
  unfold dispatch at run
  rw [picked] at run
  cases arrives : k.dispatchTo frameOk with
  | mk landing k₁ =>
    rw [arrives] at run lands
    cases landing with
    | halt => cases run
    | stop => exact ⟨.stop, k₁, rfl, by simp, (some.inj run).symm, lands⟩
    | exit code => exact ⟨.exit code, k₁, rfl, by simp, (some.inj run).symm, lands⟩
    | resume c => exact ⟨.resume c, k₁, rfl, by simp, (some.inj run).symm, lands⟩
    | handler c sig => exact ⟨.handler c sig, k₁, rfl, by simp, (some.inj run).symm, lands⟩
    | start c => exact ⟨.start c, k₁, rfl, by simp, (some.inj run).symm, lands⟩
    | kernel => exact ⟨.kernel, k₁, rfl, by simp, (some.inj run).symm, lands⟩

theorem dispatch_short {frameOk : Bool} (run : k.dispatch frameOk = some k')
    (picked : k.schedule.userSlot = some i)
    (short : ∀ c, (k.dispatchTo frameOk).1.context ≠ some c) :
    (k'.tasks i).over ∨ ((k'.tasks i).state = .stopped ∧
      ((k'.tasks i).pml4 = none ↔ (k.tasks i).pml4 = none) ∧
      (k'.tasks i).savedValid = (k.tasks i).savedValid ∧
      (k'.tasks i).saved = (k.tasks i).saved) := by
  obtain ⟨_, k₁, arrives, going, rfl, lands⟩ := dispatch_lands run picked
  obtain ⟨-, same, -⟩ := dispatch_user frameOk picked
  rw [arrives] at short
  generalize k.schedule.tasks i = t at lands same
  generalize t_eq : k₁.tasks i = t₁ at lands
  cases lands with
  | resume | handler | start => exact absurd rfl (short _)
  | stop tweak =>
    right
    have awake : ((k₁.edit i Task.stop).tasks i).state ≠ .blocked := by
      rw [edit_same]
      simp [Task.stop]
    obtain ⟨_, eq⟩ := notifyParent_self awake
    unfold land
    dsimp only
    rw [eq, edit_same, t_eq]
    refine ⟨rfl, ?_, tweak.savedValid.trans same.savedValid, tweak.saved.trans same.saved⟩
    rw [← same.pml4]
    exact tweak.user
  | exit => exact .inl (procExit_over _ _ _)
  | halt => exact absurd rfl going

theorem Held.step (held : Held P pid i k) (stable : (∀ c rax, P c → P { c with rax := rax }) ∨
      ((k.tasks i).pid = pid → k.Quiet e i (k.tasks i)))
    (run : k.step e = some k') (waits : ∀ c, ¬ k.Resumes e i c) : Held P pid i k' := by
  have moves := step_moves run
  refine ⟨held.known.trans_le moves.pids, fun same => ?_⟩
  rcases step_kept run i with (unused | ⟨used, kept, -⟩) | ⟨-, -, new, created, pid', -⟩
  · exact .inl (.inr unused)
  · have named : (k.tasks i).pid = pid := kept.symm.trans same
    rcases held.held named with ended | ⟨suspended, user, valid, saved⟩
    · rcases chain_over (moves.acts i) ended with ended | new
      · exact .inl ended
      · have below := held.known
        omega
    · by_cases idle : (k.causes e).start i
      · obtain ⟨⟨frameOk, rfl⟩, onCpu⟩ := idle
        have run := dispatch_of_step run
        have alive : (k.tasks i).state ≠ .dead := by
          rcases suspended with h | h | h <;> simp [h]
        have same := schedule_identity k i alive
        have picked : k.schedule.userSlot = some i := by
          rw [userSlot, filter_eq_some_iff]
          refine ⟨onCpu, ?_⟩
          simpa [same.pml4] using user
        rcases dispatch_short run picked fun c enters => waits c ⟨frameOk, rfl, picked, enters⟩
          with ended | ⟨stopped, user', valid', saved'⟩
        · exact .inl (.inl ended)
        refine .inr ⟨.inr (.inr stopped), fun none => user (user'.1 none), valid'.trans valid, ?_⟩
        rw [saved']
        exact saved
      · have rests := chain_rests (moves.acts i) suspended idle
        refine .inr ⟨rests.suspended, fun none => user (rests.user.1 none),
          rests.valid.trans valid, ?_⟩
        rcases stable with stable | quiet
        · obtain ⟨rax, eq⟩ := rests.saved
          rw [eq]
          exact stable _ _ saved
        · rw [(rests.quiet (quiet named)).1]
          exact saved
  · have below := held.known
    have new_pid := created.pid
    omega

theorem Held.run {es : List Event} (held : Held P pid i k)
    (stable : ∀ c rax, P c → P { c with rax := rax })
    (runs : Runs (fun k e => ∀ c, ¬ k.Resumes e i c) k es k') : Held P pid i k' :=
  Runs.keeps (fun _ _ _ held waits run => held.step (.inl stable) run waits) runs held

theorem Held.resumed (held : Held P pid i k) (named : (k.tasks i).pid = pid)
    (resumes : k.Resumes e i c) : ∃ saved, P saved ∧ SameMode saved c := by
  obtain ⟨frameOk, rfl, picked, enters⟩ := resumes
  obtain ⟨-, same, running⟩ := dispatch_user frameOk picked
  rcases held.held named with ended | ⟨-, -, valid, saved⟩
  · have live := schedule_running running
    unfold Task.over at ended
    rcases live with h | h | h <;> simp [h] at ended
  refine ⟨(k.tasks i).saved, saved, ?_⟩
  rw [← same.saved]
  exact (dispatchTo_lands frameOk picked).mode enters (same.savedValid.trans valid)

theorem Held.continues (held : Held P pid i k)
    (named : (k.tasks i).pid = pid) (continues : k.Continues e i c) : P c := by
  obtain ⟨⟨entered, frameOk, rfl, picked, enters⟩, rfl⟩ := continues
  obtain ⟨-, -, running⟩ := dispatch_user frameOk picked
  rcases held.held named with ended | ⟨-, -, -, saved⟩
  · have live := schedule_running running
    unfold Task.over at ended
    rcases live with h | h | h <;> simp [h] at ended
  · exact saved

end Holding

theorem sigreturn_suspends {k k' : Kernel} {i : Slot} {frame : Context}
    (caller : k.userSlot = some i)
    (returns : k.step (.syscall c (.sigreturn (some frame))) = some k') :
    k' = k.suspend i frame := by
  unfold step at returns
  split at returns
  · cases returns
  dsimp only at returns
  rw [caller] at returns
  exact (some.inj returns).symm

/-- In every reachable state, and for every frame that `rt_sigreturn` finds on the
user's stack, the task is later resumed in user mode exactly if the frame has user
selectors and flags. -/
theorem sigreturn_mode {before later : List Event} {k k₁ k₂ : Kernel} {i : Slot} {e : Event}
    {c c' frame : Context} (reached : Runs (fun _ _ => True) Kernel.boot before k)
    (caller : k.userSlot = some i)
    (returns : k.step (.syscall c (.sigreturn (some frame))) = some k₁)
    (waits : Runs (fun k e => ∀ c, ¬ k.Resumes e i c) k₁ later k₂)
    (same : (k₂.tasks i).pid = (k.tasks i).pid) (resumes : k₂.Resumes e i c') :
    UserMode c' ↔ UserMode frame := by
  obtain ⟨-, running, user⟩ := userSlot_some caller
  have known := (PidsOk.reachable reached).below i (by simp [running])
  have held : Held (SameMode frame) (k.tasks i).pid i k₁ := by
    rw [sigreturn_suspends caller returns]
    refine ⟨known, fun _ => .inr ?_⟩
    unfold suspend
    rw [edit_same]
    exact ⟨.inl rfl, user, rfl, rfl, rfl, rfl⟩
  obtain ⟨_, kept, mode⟩ := (held.run (fun _ _ same => same) waits).resumed same resumes
  exact (kept.trans mode).userMode

def Kernel.oneProgram : List Event := [.bootSpawn 0x400000 0x7ffff000, .dispatch true]

def userFrame : Context :=
  { rip := 0x400100, cs := GDT_UCODE, rflags := 0x202, rsp := 0x7fffe000, ss := GDT_UDATA }

def kernelFrame : Context := { userFrame with cs := 0x08, ss := 0x10 }

/-- The program has called `rt_sigreturn` with `frame` on its stack. -/
def Kernel.returned (frame : Context) : List Event :=
  oneProgram ++ [.syscall userFrame (.sigreturn (some frame))]

theorem sigreturn_mode_userFrame :
    ∃ c, (Kernel.booted (Kernel.returned userFrame)).Resumes (.dispatch true) 0 c ∧
      (UserMode c ↔ UserMode userFrame) := by
  have resumes : (booted (returned userFrame)).Resumes (.dispatch true) 0 userFrame :=
    ⟨true, rfl, by decide +kernel, by decide +kernel⟩
  refine ⟨userFrame, resumes, ?_⟩
  exact sigreturn_mode (booted_runs oneProgram (by decide +kernel))
    (by decide +kernel) (booted_step (by decide +kernel)) (.nil _) (by decide +kernel)
    resumes

/-- With the kernel's selectors in the frame, the task is resumed in kernel mode. -/
theorem sigreturn_kernel_mode :
    ∃ k₁ c, Runs (fun _ _ => True) Kernel.boot (Kernel.returned kernelFrame) k₁ ∧
      k₁.Resumes (.dispatch true) 0 c ∧ ¬ UserMode c ∧ c.cs &&& 3 = 0 :=
  ⟨booted (returned kernelFrame), kernelFrame,
    booted_runs _ (by decide +kernel), ⟨true, rfl, by decide +kernel, by decide +kernel⟩,
    by decide, by decide⟩

end Osnos.Sched
