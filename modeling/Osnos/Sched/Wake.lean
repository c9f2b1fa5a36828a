import Osnos.Sched.Wait

/-! The wake-ups look only at the blocked state, a deadline, the saved `rax` or the wait
fields, and not at the call a task sleeps in. -/
namespace Osnos.Sched
open Relation Kernel

inductive Wakes (C : Causes) (i : Slot) (t : Task) : Word → Prop
  | message (sent : C.message t) : Wakes C i t t.saved.rax
  | poller (number : t.saved.rax = SYS_POLL ∨ t.saved.rax = SYS_IPC_SEND) :
      Wakes C i t t.saved.rax
  | timeout (set : t.wakeupAt ≠ 0) (due : t.wakeupAt ≤ C.now) : Wakes C i t t.saved.rax
  | interrupt (sent : C.signal i) :
      Wakes C i t (if t.savedValid then err EINTR else t.saved.rax)
  | stop (sent : C.stop i) : Wakes C i t t.saved.rax
  | report {child : Nat} (sent : C.report t child) (waits : t.waitsFor child = true) :
      Wakes C i t (UInt64.ofNat child)
  | release {child : Nat} (sent : C.release t.pid child) : Wakes C i t (UInt64.ofNat child)

section Chains

variable {k : Kernel} {e : Event} {i : Slot} {t t' : Task}

theorem Act.wakes (act : Act (k.causes e) i t t') (asleep : t.state = .blocked) :
    (t'.state = .blocked ∧ Dozes t t') ∨
      ((t'.state = .ready ∨ t'.state = .stopped) ∧ Wakes (k.causes e) i t t'.saved.rax) := by
  have off : t.state ≠ .running := by simp [asleep]
  cases act with
  | raise => exact .inl ⟨asleep, rfl, rfl, Iff.rfl, rfl, rfl, rfl, rfl, rfl, rfl⟩
  | tweak tweak => exact .inl ⟨tweak.state.trans asleep, tweak.dozes⟩
  | message sent => exact .inr ⟨.inl rfl, .message sent⟩
  | poller _ _ number => exact .inr ⟨.inl rfl, .poller number⟩
  | timeout _ set due => exact .inr ⟨.inl rfl, .timeout set due⟩
  | interrupt sent _ =>
    refine .inr ⟨.inl rfl, ?_⟩
    have rax : t.interrupt.saved.rax = if t.savedValid then err EINTR else t.saved.rax := by
      unfold Task.interrupt
      dsimp only
      split <;> rfl
    rw [rax]
    exact .interrupt sent
  | stop sent => exact .inr ⟨.inr rfl, .stop sent⟩
  | report sent _ waits => exact .inr ⟨.inl rfl, .report sent waits⟩
  | release sent => exact .inr ⟨.inl rfl, .release sent⟩
  | continued stopped => rw [asleep] at stopped; cases stopped
  | exit _ running | requeue running | save running | consume running
  | park running => exact absurd running off
  | bury _ zombie => rw [asleep] at zombie; cases zombie
  | clear dead => rw [asleep] at dead; cases dead
  | create free => simp [asleep] at free
  | start _ ready => rw [asleep] at ready; cases ready

theorem Act.stays_awake (act : Act (k.causes e) i t t')
    (awake : t.state = .ready ∨ t.state = .stopped) (idle : ¬ (k.causes e).start i) :
    (t'.state = .ready ∨ t'.state = .stopped) ∧ t'.saved.rax = t.saved.rax := by
  have off : t.state ≠ .running ∧ t.state ≠ .blocked ∧ t.state ≠ .zombie ∧ t.state ≠ .dead ∧
      t.state ≠ .unused := by
    rcases awake with h | h <;> simp [h]
  obtain ⟨off, up, unended, alive, used⟩ := off
  cases act with
  | raise => exact ⟨awake, rfl⟩
  | tweak tweak =>
    rw [tweak.state, tweak.saved]
    exact ⟨awake, rfl⟩
  | continued => exact ⟨.inl rfl, rfl⟩
  | message _ asleep | poller asleep | timeout asleep
  | interrupt _ asleep | report _ asleep | release _ asleep => exact absurd asleep up
  | stop sent live => exact absurd live (by tauto)
  | exit _ running | requeue running | save running | consume running
  | park running => exact absurd running off
  | bury _ zombie => exact absurd zombie unended
  | clear dead => exact absurd dead alive
  | create free new => exact absurd free (by tauto)
  | start picked => exact absurd picked idle

theorem chain_wakes (chain : ReflTransGen (Act (k.causes e) i) t t') (asleep : t.state = .blocked) :
    (t'.state = .blocked ∧ Dozes t t') ∨ ∃ t₁ rax, Dozes t t₁ ∧ Wakes (k.causes e) i t₁ rax ∧
      (¬ (k.causes e).start i →
        (t'.state = .ready ∨ t'.state = .stopped) ∧ t'.saved.rax = rax) := by
  induction chain with
  | refl => exact .inl ⟨asleep, .refl t⟩
  | tail _ act ih =>
    rcases ih with ⟨slept, dozes⟩ | ⟨t₁, rax, dozes, wakes, rest⟩
    · rcases act.wakes slept with ⟨sleeps, next⟩ | ⟨awake, wakes⟩
      · exact .inl ⟨sleeps, dozes.trans next⟩
      · exact .inr ⟨_, _, dozes, wakes, fun _ => ⟨awake, rfl⟩⟩
    refine .inr ⟨t₁, rax, dozes, wakes, fun idle => ?_⟩
    obtain ⟨awake, value⟩ := rest idle
    obtain ⟨awake', same⟩ := act.stays_awake awake idle
    exact ⟨awake', same.trans value⟩

end Chains

section Lending

variable {k : Kernel} {e : Event} {j : Slot} {t t' : Task}

theorem Act.vforkWaiter (act : Act (k.causes e) j t t') :
    t'.vforkWaiter = 0 ∨ (t'.vforkWaiter = t.vforkWaiter ∧ t'.pid = t.pid) ∨ k.Creates e j t' := by
  cases act with
  | create _ new => exact .inr (.inr new)
  | clear => exact .inl rfl
  | park _ calls =>
    obtain ⟨-, -, parks⟩ := calls
    cases parks <;> exact .inr (.inl ⟨rfl, rfl⟩)
  | tweak tweak =>
    rcases tweak.vfork with same | none
    · exact .inr (.inl ⟨same, tweak.pid⟩)
    · exact .inl none
  | _ => exact .inr (.inl ⟨rfl, rfl⟩)

theorem chain_vforkWaiter (chain : ReflTransGen (Act (k.causes e) j) t t') :
    t'.vforkWaiter = 0 ∨ (t'.vforkWaiter = t.vforkWaiter ∧ t'.pid = t.pid) ∨
      ∃ new, k.Creates e j new ∧ t'.vforkWaiter = new.vforkWaiter ∧ t'.pid = new.pid := by
  induction chain with
  | refl => exact .inr (.inl ⟨rfl, rfl⟩)
  | tail _ act ih =>
    rcases act.vforkWaiter with none | ⟨same, pid⟩ | created
    · exact .inl none
    · rw [same, pid]
      exact ih
    · exact .inr (.inr ⟨_, created, rfl, rfl⟩)

end Lending

def Call.Marks (t : Task) : Call → Prop
  | .nanosleep deadline => t.wakeupAt = deadline ∧ t.waitingForPid = 0 ∧ t.saved.rax = 0
  | .wait4 pid options => t.wakeupAt = 0 ∧ t.waitingForPid = (if 0 < pid then pid else -1) ∧
      t.waitOptions = options ∧ t.pml4 ≠ Option.none ∧ t.savedValid = true ∧ t.saved.rax = 0
  | .vfork child => t.wakeupAt = 0 ∧ t.waitingForPid = 0 ∧ t.saved.rax = UInt64.ofNat child ∧
      UInt64.ofNat child ≠ SYS_POLL ∧ UInt64.ofNat child ≠ SYS_IPC_SEND
  | _ => True

def Call.Lends (k : Kernel) (pid : Nat) : Call → Prop
  | .nanosleep _ => ∀ j, (k.tasks j).vforkWaiter ≠ pid
  | .wait4 _ _ => ∀ j, (k.tasks j).vforkWaiter ≠ pid
  | .vfork child => ∀ j, (k.tasks j).vforkWaiter = pid → (k.tasks j).pid = child
  | _ => True

def Kernel.Marked (k : Kernel) : Prop :=
  ∀ i, (k.tasks i).state = .blocked →
    (k.tasks i).call.Marks (k.tasks i) ∧ (k.tasks i).call.Lends k (k.tasks i).pid

def Call.exclusive : Call → Bool
  | .nanosleep _ => true
  | .wait4 _ _ => true
  | .vfork _ => true
  | _ => false

/-- Nothing is left over from an earlier call when a task goes to sleep, and the numbers
it sleeps with are not mistaken for others. -/
structure Kernel.FreshSleep (k : Kernel) (i : Slot) (call : Call) : Prop where
  timeless : call.isWait = true → (k.tasks i).wakeupAt = 0
  waitless : call.isWait = false → (k.tasks i).waitingForPid = 0
  deadline : ∀ d, call = .nanosleep d → d < 2 ^ 64
  child : ∀ c, call = .vfork c → UInt64.ofNat c ≠ SYS_POLL ∧ UInt64.ofNat c ≠ SYS_IPC_SEND
  unlent : ∀ j, (k.tasks j).vforkWaiter ≠ (k.tasks i).pid

section Marking

variable {k k' : Kernel} {e : Event} {i : Slot} {t t' : Task}

theorem Dozes.marks (dozes : Dozes t t') {call : Call} (marks : call.Marks t) : call.Marks t' := by
  have user : (t'.pml4 ≠ none) = (t.pml4 ≠ none) := propext (not_congr dozes.user)
  unfold Call.Marks at marks ⊢
  rw [dozes.wakeupAt, dozes.waitingForPid, dozes.waitOptions, dozes.savedValid, dozes.saved, user]
  exact marks

theorem syscall_user {c : Context} {call : Syscall} (onCpu : k.onCpu = some i)
    (run : k.step (.syscall c call) = some k') : (k.tasks i).pml4 ≠ none := by
  unfold step at run
  split at run
  · cases run
  obtain ⟨j, caller, -⟩ := Option.map_eq_some_iff.1 run
  obtain ⟨onCpu', -, user⟩ := userSlot_some caller
  cases onCpu.symm.trans onCpu'
  exact user

theorem Kernel.Parks.marks (parks : k.Parks e (k.tasks i) t')
    (user : ∀ c call, e = .syscall c call → (k.tasks i).pml4 ≠ none)
    (fresh : t'.call.exclusive → k.FreshSleep i t'.call) : t'.call.Marks t' := by
  cases parks with
  | nanosleep asks =>
    rename_i c sec nsec asked
    have fresh := fresh rfl
    have bound : k.now + asked < 2 ^ 64 := fresh.deadline _ rfl
    refine ⟨?_, fresh.waitless rfl, rfl⟩
    change (k.now + asked % 2 ^ 64) % 2 ^ 64 = k.now + asked
    omega
  | restart | server => exact trivial
  | wait4 => exact ⟨(fresh rfl).timeless rfl, rfl, rfl, user _ _ rfl, rfl, rfl⟩
  | vfork => exact ⟨rfl, (fresh rfl).waitless rfl, rfl, (fresh rfl).child _ rfl⟩

/-- Whoever has an address space lent by the task with that pid had it before, or was made
by that task in this event. -/
theorem lent_before (run : k.step e = some k') {pid : Nat} (positive : 0 < pid) {j : Slot}
    (lent : (k'.tasks j).vforkWaiter = pid) :
    ((k.tasks j).vforkWaiter = pid ∧ (k'.tasks j).pid = (k.tasks j).pid) ∨
      (e.creates ∧ (∃ c, k.userSlot = some c ∧ (k.tasks c).pid = pid) ∧
        (k'.tasks j).pid = k.nextPid) := by
  rcases chain_vforkWaiter ((step_moves run).acts j) with none | ⟨same, pid'⟩ | ⟨new, created, same, pid'⟩
  · omega
  · exact .inl ⟨same.symm.trans lent, pid'⟩
  refine .inr ⟨created.event, ?_, pid'.trans created.pid⟩
  rcases created.vforkWaiter with none | ⟨c, caller, waiter⟩
  · omega
  · exact ⟨c, caller, waiter.symm.trans (same.symm.trans lent)⟩

theorem Call.Lends.dozes (pids : PidsOk k) (run : k.step e = some k')
    (asleep : (k.tasks i).state = .blocked) {call : Call} (lends : call.Lends k (k.tasks i).pid) :
    call.Lends k' (k.tasks i).pid := by
  have used : (k.tasks i).state ≠ .unused := by simp [asleep]
  have before : ∀ j, (k'.tasks j).vforkWaiter = (k.tasks i).pid →
      (k.tasks j).vforkWaiter = (k.tasks i).pid ∧ (k'.tasks j).pid = (k.tasks j).pid := by
    intro j lent
    rcases lent_before run (pids.positive i used) lent with before | ⟨-, ⟨c, caller, same⟩, -⟩
    · exact before
    have running := (userSlot_some caller).2.1
    cases pids.apart c i (by simp [running]) used same
    rw [asleep] at running
    cases running
  cases call with
  | nanosleep | wait4 => exact fun j lent => lends j (before j lent).1
  | vfork => exact fun j lent => (before j lent).2.trans (lends j (before j lent).1)
  | none | restart | server => exact trivial

theorem Kernel.Parks.lends (pids : PidsOk k) (run : k.step e = some k')
    (used : (k.tasks i).state ≠ .unused) (parks : k.Parks e (k.tasks i) t')
    (fresh : t'.call.exclusive → k.FreshSleep i t'.call) :
    t'.call.Lends k' (k.tasks i).pid := by
  have before : t'.call.exclusive → ∀ j, (k'.tasks j).vforkWaiter = (k.tasks i).pid →
      e.creates = true ∧ (k'.tasks j).pid = k.nextPid := by
    intro exclusive j lent
    rcases lent_before run (pids.positive i used) lent with ⟨before, -⟩ | ⟨creates, -, pid⟩
    · exact absurd before ((fresh exclusive).unlent j)
    · exact ⟨creates, pid⟩
  cases parks with
  | nanosleep | wait4 => exact fun j lent => by cases (before rfl j lent).1
  | restart | server => exact trivial
  | vfork => exact fun j lent => (before rfl j lent).2

theorem Kernel.Marked.step (marked : k.Marked) (pids : PidsOk k) (run : k.step e = some k')
    (fresh : ∀ i, k.onCpu = some i → (k'.tasks i).state = .blocked →
      (k'.tasks i).call.exclusive = true → k.FreshSleep i (k'.tasks i).call) : k'.Marked := by
  intro i asleep
  rcases chain_asleep ((step_moves run).acts i) asleep with
    ⟨slept, dozes⟩ | ⟨t₁, onCpu, parks, dozes⟩
  · obtain ⟨marks, lends⟩ := marked i slept
    rw [dozes.call, dozes.pid]
    exact ⟨dozes.marks marks, lends.dozes pids run slept⟩
  have fresh := fresh i onCpu asleep
  have used : (k.tasks i).state ≠ .unused := by simp [(onCpu_some onCpu).2]
  rw [dozes.call] at fresh ⊢
  rw [dozes.pid, parks.same.1]
  have user : ∀ c call, e = .syscall c call → (k.tasks i).pml4 ≠ none :=
    fun _ _ calls => syscall_user onCpu (calls ▸ run)
  exact ⟨dozes.marks (parks.marks user fresh), parks.lends pids run used fresh⟩

end Marking

def Kernel.Signalled (k : Kernel) (e : Event) (i : Slot) : Prop :=
  k.Signals e i ∨ (k.keyOf e = some .susp ∧ i ∈ k.foreground)

/-- The event is a reason to wake of the call that the task in slot `i` sleeps in: the
deadline has passed, a child it waits for changes its state, or the child it lent its
address space to leaves it. -/
def Kernel.HasReason (k : Kernel) (e : Event) (i : Slot) : Prop :=
  match (k.tasks i).call with
  | .nanosleep deadline => deadline ≤ k.now
  | .wait4 pid options => ∃ j change, (k.tasks j).parentPid = (k.tasks i).pid ∧
      (0 < pid → pid = (k.tasks j).pid) ∧ k.Changes e j change ∧ change.Asked options
  | .vfork child => ∃ j, (k.tasks j).pid = child ∧ k.Leaves e j
  | _ => True

/-- No message is sent to a task in one of the three calls, control-Z does not stop one in
`wait4`, and tasks go to sleep in them with nothing left over. -/
structure Kernel.Fair (k : Kernel) (e : Event) : Prop where
  message : ∀ k₁ dest t, k.messagePoint e = some (k₁, dest) → Reaches k₁ dest t →
    t.state = .blocked → t.call.exclusive = false
  stop : ∀ i, k.keyOf e = some .susp → i ∈ k.foreground → (k.tasks i).state = .blocked →
    (k.tasks i).call.isWait = false
  fresh : ∀ k' i, k.step e = some k' → k.onCpu = some i → (k'.tasks i).state = .blocked →
    (k'.tasks i).call.exclusive = true → k.FreshSleep i (k'.tasks i).call

section Reasons

variable {k k' : Kernel} {e : Event} {i : Slot} {t : Task}

theorem schedule_due (asleep : (k.tasks i).state = .blocked)
    (picked : (k.schedule.tasks i).state = .running) :
    (k.tasks i).wakeupAt ≠ 0 ∧ (k.tasks i).wakeupAt ≤ k.now := by
  have kept : k.taskReapDead.tasks i = k.tasks i :=
    (taskReapDead_tasks k i).resolve_right fun cleared => by simp [asleep] at cleared
  have before := schedule_picks picked
  unfold taskCheckWakeups at before
  rw [editAll_tasks, kept, taskReapDead_now] at before
  unfold Task.checkWakeup at before
  split at before
  next due =>
    exact due.2
  · simp [asleep] at before

theorem Kernel.Changes.used {change : Change} (changes : k.Changes e i change) : (k.tasks i).state ≠ .unused := by
  cases changes with
  | exit point => exact (exitPoint_ending point).used.1
  | stopKey _ _ asleep => simp [asleep]
  | stopSelf picked =>
    rcases schedule_running (userSlot_some picked).2.1 with h | h | h <;> simp [h]
  | kill _ _ _ stopped | resume _ stopped => simp [stopped]

theorem stop_reason (sent : (k.causes e).stop i) (asleep : (k.tasks i).state = .blocked) :
    (k.keyOf e = some .susp ∧ i ∈ k.foreground) ∨
      ((k.tasks i).wakeupAt ≠ 0 ∧ (k.tasks i).wakeupAt ≤ k.now) := by
  rcases sent with key | changes
  · exact .inl key
  cases changes with
  | stopKey key member => exact .inl ⟨key, member⟩
  | stopSelf picked => exact .inr (schedule_due asleep (userSlot_some picked).2.1)

theorem report_positive (pids : PidsOk k) {child : Nat} (sent : (k.causes e).report t child) :
    0 < child := by
  obtain ⟨j, _, rfl, -, changes, -⟩ := sent
  exact pids.positive j changes.used

theorem no_report (pids : PidsOk k) {child : Nat} (sent : (k.causes e).report t child)
    (waitless : t.waitingForPid = 0) : t.waitsFor child = false := by
  have positive := report_positive pids sent
  simp [Task.waitsFor, waitless]
  omega

theorem Kernel.Fair.no_message (fair : k.Fair e) (sent : (k.causes e).message t)
    (asleep : (k.tasks i).state = .blocked) (dozes : Dozes (k.tasks i) t) {c : Call}
    (call : (k.tasks i).call = c) : c.exclusive = false := by
  obtain ⟨k₁, dest, point, reaches⟩ := sent
  have free := fair.message k₁ dest t point reaches (dozes.state.trans asleep)
  rwa [dozes.call, call] at free

section Woken

variable (pids : PidsOk k) (fair : k.Fair e) (asleep : (k.tasks i).state = .blocked)
  (dozes : Dozes (k.tasks i) t) {rax : Word} (wakes : Wakes (k.causes e) i t rax)

include pids fair asleep dozes wakes

theorem nanosleep_woken {deadline : Nat} (call : (k.tasks i).call = .nanosleep deadline)
    (marks : (Call.nanosleep deadline).Marks (k.tasks i))
    (lends : (Call.nanosleep deadline).Lends k (k.tasks i).pid) :
    k.Signalled e i ∨ deadline ≤ k.now := by
  obtain ⟨time, waitless, zero⟩ := dozes.marks marks
  have timed := marks.1
  cases wakes with
  | message sent => cases fair.no_message sent asleep dozes call
  | poller number =>
    rw [zero] at number
    rcases number with h | h <;> cases h
  | timeout _ due => exact .inr (time ▸ due)
  | interrupt sent => exact .inl (.inl sent)
  | stop sent =>
    rcases stop_reason sent asleep with key | ⟨-, due⟩
    · exact .inl (.inr key)
    · exact .inr (timed ▸ due)
  | report sent waits =>
    rw [no_report pids sent waitless] at waits
    cases waits
  | release sent =>
    obtain ⟨j, -, lent, -⟩ := sent
    exact absurd (lent.trans dozes.pid) (lends j)

theorem wait4_woken {pid : Int} {options : UInt32} (call : (k.tasks i).call = .wait4 pid options)
    (marks : (Call.wait4 pid options).Marks (k.tasks i))
    (lends : (Call.wait4 pid options).Lends k (k.tasks i).pid) (bound : k.nextPid < 2 ^ 31) :
    (k.Signalled e i ∨ ∃ j change, (k.tasks j).parentPid = (k.tasks i).pid ∧
      (0 < pid → pid = (k.tasks j).pid) ∧ k.Changes e j change ∧ change.Asked options) ∧
    rax ≠ 0 := by
  obtain ⟨timeless, waits, asks, -, valid, zero⟩ := dozes.marks marks
  have unset := marks.1
  cases wakes with
  | message sent => cases fair.no_message sent asleep dozes call
  | poller number =>
    rw [zero] at number
    rcases number with h | h <;> cases h
  | timeout set => exact absurd timeless set
  | interrupt sent =>
    refine ⟨.inl (.inl sent), ?_⟩
    rw [if_pos valid]
    decide
  | stop sent =>
    rcases stop_reason sent asleep with ⟨key, member⟩ | ⟨set, -⟩
    · have open_call := fair.stop i key member asleep
      rw [call] at open_call
      cases open_call
    · exact absurd unset set
  | report sent named =>
    have positive := report_positive pids sent
    obtain ⟨j, change, rfl, parent, changes, asked⟩ := sent
    rw [asks] at asked
    refine ⟨.inr ⟨j, change, parent.trans dozes.pid, fun want => ?_, changes, asked⟩, ?_⟩
    · rw [if_pos want] at waits
      simp [Task.waitsFor, waits] at named
      omega
    have below := pids.below j changes.used
    intro zero
    have zero := congrArg UInt64.toNat zero
    rw [UInt64.toNat_ofNat'] at zero
    simp only [UInt64.toNat_zero] at zero
    omega
  | release sent =>
    obtain ⟨j, -, lent, -⟩ := sent
    exact absurd (lent.trans dozes.pid) (lends j)

theorem vfork_woken {child : Nat} (call : (k.tasks i).call = .vfork child)
    (marks : (Call.vfork child).Marks (k.tasks i))
    (lends : (Call.vfork child).Lends k (k.tasks i).pid) :
    k.Signalled e i ∨ ∃ j, (k.tasks j).pid = child ∧ k.Leaves e j := by
  obtain ⟨timeless, waitless, saved, not_poll, not_send⟩ := dozes.marks marks
  have unset := marks.1
  cases wakes with
  | message sent => cases fair.no_message sent asleep dozes call
  | poller number =>
    rw [saved] at number
    exact absurd number (by tauto)
  | timeout set => exact absurd timeless set
  | interrupt sent => exact .inl (.inl sent)
  | stop sent =>
    rcases stop_reason sent asleep with key | ⟨set, -⟩
    · exact .inl (.inr key)
    · exact absurd unset set
  | report sent waits =>
    rw [no_report pids sent waitless] at waits
    cases waits
  | release sent =>
    obtain ⟨j, -, lent, leaves⟩ := sent
    exact .inr ⟨j, lends j (lent.trans dozes.pid), leaves⟩

end Woken

end Reasons

section Runs

variable {k k' : Kernel} {e : Event} {i : Slot} {P : Context → Prop} {pid : Nat}

theorem step_bound (run : k.step e = some k') : k.nextPid < 2 ^ 31 := by
  unfold step at run
  split at run
  · cases run
  · omega

theorem Held.awake_step (held : Held P pid i k)
    (awake : (k.tasks i).pid = pid → (k.tasks i).state ≠ .blocked) (run : k.step e = some k')
    (waits : ∀ c, ¬ k.Resumes e i c) :
    Held P pid i k' ∧ ((k'.tasks i).pid = pid → (k'.tasks i).state ≠ .blocked) := by
  have held' := held.step (.inr fun named blocked => absurd blocked (awake named)) run waits
  refine ⟨held', fun named' asleep => ?_⟩
  have named : (k.tasks i).pid = pid := by
    rcases step_kept run i with (unused | ⟨-, same, -⟩) | ⟨-, -, new, created, same, -⟩
    · simp [asleep] at unused
    · exact same.symm.trans named'
    have known := held.known
    have new_pid := created.pid
    omega
  rcases chain_asleep ((step_moves run).acts i) asleep with ⟨slept, -⟩ | ⟨t₁, onCpu, -, -⟩
  · exact awake named slept
  have running := (onCpu_some onCpu).2
  rcases held.held named with ended | ⟨suspended, -⟩
  · unfold Task.over at ended
    simp [running] at ended
  · unfold Task.suspended at suspended
    simp [running] at suspended

theorem Held.awake_run {es : List Event} (held : Held P pid i k)
    (awake : (k.tasks i).pid = pid → (k.tasks i).state ≠ .blocked)
    (runs : Runs (fun k e => ∀ c, ¬ k.Resumes e i c) k es k') : Held P pid i k' :=
  (Runs.keeps (I := fun k => Held P pid i k ∧ ((k.tasks i).pid = pid → (k.tasks i).state ≠ .blocked))
    (fun _ _ _ both waits run => both.1.awake_step both.2 run waits) runs ⟨held, awake⟩).1

theorem woken_value {later : List Event} {k₂ : Kernel} {e₂ : Event} {c : Context}
    (pids : PidsOk k) (run : k.step e = some k') (asleep : (k.tasks i).state = .blocked)
    (idle : ¬ (k.causes e).start i) (user : (k.tasks i).pml4 ≠ none)
    (valid : (k.tasks i).savedValid) (awake : (k'.tasks i).state ≠ .blocked)
    (waits : Runs (fun k e => ∀ c, ¬ k.Resumes e i c) k' later k₂)
    (same : (k₂.tasks i).pid = (k.tasks i).pid) (continues : k₂.Continues e₂ i c) :
    c.rax = (k'.tasks i).saved.rax := by
  have moves := step_moves run
  have rests := chain_rests (moves.acts i) (.inr (.inl asleep)) idle
  have held : Held (·.rax = (k'.tasks i).saved.rax) (k.tasks i).pid i k' :=
    ⟨(pids.below i (by simp [asleep])).trans_le moves.pids, fun _ => .inr ⟨rests.suspended,
      fun none => user (rests.user.1 none), rests.valid.trans valid, rfl⟩⟩
  exact (held.awake_run (fun _ => awake) waits).continues same continues

/-- In a run of fair steps, a task leaves the sleep of `nanosleep`, `wait4` or a
`CLONE_VFORK` only by a signal or for a reason of that call, and `wait4` does not return
zero to a task that slept in it. -/
theorem woken_for_its_call {before : List Event}
    (runs : Runs Kernel.Fair Kernel.boot before k) (fair : k.Fair e) (run : k.step e = some k')
    (asleep : (k.tasks i).state = .blocked) (woken : (k'.tasks i).state ≠ .blocked) :
    (k.Signalled e i ∨ k.HasReason e i) ∧
      ((k.tasks i).call.isWait = true → ∀ later k₂ e₂ c,
        Runs (fun k e => ∀ c, ¬ k.Resumes e i c) k' later k₂ →
        (k₂.tasks i).pid = (k.tasks i).pid → k₂.Continues e₂ i c → c.rax ≠ 0) := by
  have pids := PidsOk.reachable runs
  have marked : k.Marked := by
    refine (Runs.keeps (I := fun k => PidsOk k ∧ k.Marked) ?_ runs ⟨PidsOk.boot, nofun⟩).2
    exact fun k e k' inv fair run => ⟨inv.1.step run, inv.2.step inv.1 run (fair.fresh k' · run)⟩
  obtain ⟨marks, lends⟩ := marked i asleep
  obtain ⟨t₁, rax, dozes, wakes, rest⟩ :=
    (chain_wakes ((step_moves run).acts i) asleep).resolve_left fun slept => woken slept.1
  unfold HasReason
  cases call : (k.tasks i).call with
  | nanosleep =>
    rw [call] at marks lends
    exact ⟨nanosleep_woken pids fair asleep dozes wakes call marks lends, nofun⟩
  | vfork =>
    rw [call] at marks lends
    exact ⟨vfork_woken pids fair asleep dozes wakes call marks lends, nofun⟩
  | wait4 =>
    rw [call] at marks lends
    obtain ⟨reason, value⟩ :=
      wait4_woken pids fair asleep dozes wakes call marks lends (step_bound run)
    refine ⟨reason, fun _ later k₂ e₂ c waits same continues => ?_⟩
    obtain ⟨timeless, -, -, user, valid, -⟩ := marks
    have idle : ¬ (k.causes e).start i := fun ⟨_, onCpu⟩ =>
      (schedule_due asleep (onCpu_some onCpu).2).1 timeless
    rw [woken_value pids run asleep idle user valid woken waits same continues, (rest idle).2]
    exact value
  | none | restart | server => exact ⟨.inr trivial, nofun⟩

end Runs

theorem Kernel.Fair.of_idle {k : Kernel} {e : Event} (idle : k.onCpu = none)
    (quiet : (k.messagePoint e).isNone) (keyless : k.keyOf e = none) : k.Fair e where
  message := fun k₁ dest t point => by
    rw [point] at quiet
    cases quiet
  stop := fun i key => by
    rw [keyless] at key
    cases key
  fresh := fun k' i run onCpu => by
    rw [idle] at onCpu
    cases onCpu

def Kernel.napped : List Event :=
  Kernel.oneProgram ++ [.syscall userFrame (.nanosleep 0 1000000)] ++ [.timerKernel]

theorem nap_fair : (booted oneProgram).Fair (.syscall userFrame (.nanosleep 0 1000000)) where
  message := fun k₁ dest t point => nomatch point
  stop := fun i key => nomatch key
  fresh := fun k' i run onCpu asleep exclusive => by
    have next : (booted oneProgram).step (.syscall userFrame (.nanosleep 0 1000000)) =
        some (booted (oneProgram ++ [.syscall userFrame (.nanosleep 0 1000000)])) :=
      booted_step (by decide +kernel)
    cases next.symm.trans run
    have first : (booted oneProgram).onCpu = some 0 := by decide +kernel
    cases first.symm.trans onCpu
    have call : ((booted
        (oneProgram ++ [.syscall userFrame (.nanosleep 0 1000000)])).tasks 0).call =
        .nanosleep 1 := by decide +kernel
    rw [call]
    exact ⟨nofun, fun _ => by decide +kernel, fun d eq => by cases eq; decide, nofun,
      by decide +kernel⟩

theorem napped_fair : Runs Fair boot napped (booted napped) := by
  have spawned : (booted []).step (.bootSpawn 0x400000 0x7ffff000) =
      some (booted [.bootSpawn 0x400000 0x7ffff000]) := booted_step (by decide +kernel)
  have started : (booted [.bootSpawn 0x400000 0x7ffff000]).step (.dispatch true) =
      some (booted oneProgram) := booted_step (by decide +kernel)
  have slept : (booted oneProgram).step (.syscall userFrame (.nanosleep 0 1000000)) =
      some (booted (oneProgram ++ [.syscall userFrame (.nanosleep 0 1000000)])) :=
    booted_step (by decide +kernel)
  have ticked : (booted (oneProgram ++
      [.syscall userFrame (.nanosleep 0 1000000)])).step .timerKernel =
      some (booted napped) := booted_step (by decide +kernel)
  refine .cons (a := ()) (.of_idle (by decide +kernel) (by decide +kernel) rfl)
    (exec_eq_some.2 spawned) ?_
  refine .cons (a := ()) (.of_idle (by decide +kernel) (by decide +kernel) rfl)
    (exec_eq_some.2 started) ?_
  refine .cons (a := ()) nap_fair (exec_eq_some.2 slept) ?_
  exact .cons (a := ()) (.of_idle (by decide +kernel) (by decide +kernel) rfl)
    (exec_eq_some.2 ticked) (.nil _)

theorem woken_for_its_call_napped :
    ((Kernel.booted Kernel.napped).tasks 0).state = .blocked ∧
      ((Kernel.booted Kernel.napped).Signalled (.dispatch true) 0 ∨
        (Kernel.booted Kernel.napped).HasReason (.dispatch true) 0) := by
  have run : (booted napped).step (.dispatch true) =
      some (booted (napped ++ [.dispatch true])) :=
    booted_step (by decide +kernel)
  have fair : (booted napped).Fair (.dispatch true) :=
    .of_idle (by decide +kernel) (by decide +kernel) rfl
  have asleep : ((booted napped).tasks 0).state = .blocked := by decide +kernel
  exact ⟨asleep, (woken_for_its_call napped_fair fair run asleep (by decide +kernel)).1⟩

def Kernel.napping : List Event :=
  [.bootSpawn 0x400000 0x7ffff000, .bootSpawn 0x500000 0x7ffff000, .dispatch true,
    .syscall userFrame (.nanosleep 1 0), .dispatch true]

/-- A message ends the sleep at once. -/
theorem message_ends_nanosleep :
    ∃ k k', Runs (fun _ _ => True) Kernel.boot Kernel.napping k ∧
      (k.tasks 0).state = .blocked ∧ (k.tasks 0).call = .nanosleep 1000 ∧ k.now = 0 ∧
      k.step (.syscall userFrame (.ipcSend 1)) = some k' ∧ (k'.tasks 0).state = .ready ∧
      ¬ (k.Signalled (.syscall userFrame (.ipcSend 1)) 0 ∨
        k.HasReason (.syscall userFrame (.ipcSend 1)) 0) := by
  have sends : (booted napping).step (.syscall userFrame (.ipcSend 1)) =
      some (booted (napping ++ [.syscall userFrame (.ipcSend 1)])) :=
    booted_step (by decide +kernel)
  have call : ((booted napping).tasks 0).call = .nanosleep 1000 := by decide +kernel
  have now : (booted napping).now = 0 := by decide +kernel
  refine ⟨_, _, booted_runs napping (by decide +kernel), by decide +kernel, call, now,
    sends, by decide +kernel, ?_⟩
  rintro ((signal | key) | reason)
  · cases signal.1
  · cases key.1
  unfold HasReason at reason
  rw [call, now] at reason
  exact absurd reason (by decide)

end Osnos.Sched
