import Osnos.Sched.Mail

/-! `ipc_send` looks its destination up among the services first and among the pids
afterwards, and no exit takes a task out of the service table. -/
namespace Osnos.Sched
open Relation Kernel

section Live

variable {k k₁ k' : Kernel} {e : Event} {i j : Slot} {t t' : Task} {code : Int}

theorem Act.lives (act : Act (k.causes e) i t t') (live : t.alive)
    (goes_on : ∀ reapable, ¬ (k.causes e).exit i reapable) : t'.alive := by
  rw [alive_iff] at live ⊢
  exact (act.survives live goes_on).1

theorem Act.lived (act : Act (k.causes e) i t t') (live : t'.alive)
    (old : e.creates = false) : t.alive := by
  rw [alive_iff] at live ⊢
  cases act with
  | message _ asleep | poller asleep | timeout asleep
  | interrupt _ asleep | report _ asleep | release _ asleep => simp [asleep]
  | raise | save | consume => exact live
  | continued stopped => simp [stopped]
  | stop _ running => rcases running with h | h <;> simp [h]
  | exit _ running | requeue running | park running => simp [running]
  | bury => exact absurd rfl live.2.1
  | clear => exact absurd rfl live.1
  | create _ new => exact absurd new.event (by simp [old])
  | start _ ready => simp [ready]
  | tweak tweak => rwa [tweak.state] at live

theorem chain_lives (chain : ReflTransGen (Act (k.causes e) i) t t') (live : t.alive)
    (goes_on : ∀ reapable, ¬ (k.causes e).exit i reapable) : t'.alive := by
  induction chain with
  | refl => exact live
  | tail _ act ih => exact act.lives ih goes_on

theorem chain_lived (chain : ReflTransGen (Act (k.causes e) i) t t') (live : t'.alive)
    (old : e.creates = false) : t.alive := by
  induction chain with
  | refl => exact live
  | tail _ act ih => exact ih (act.lived live old)

def Kernel.Exits (k : Kernel) (e : Event) (i : Slot) : Prop :=
  ∃ k₁ code, k.exitPoint e = some (k₁, i, code)

theorem step_lives (run : k.step e = some k') (live : (k.tasks i).alive)
    (goes_on : ¬ k.Exits e i) :
    (k'.tasks i).alive = true ∧ (k'.tasks i).pid = (k.tasks i).pid := by
  have live' : (k'.tasks i).alive := chain_lives ((step_moves run).acts i) live
    fun _ ⟨k₁, code, point, _⟩ => goes_on ⟨k₁, code, point⟩
  obtain ⟨used, alive, -⟩ := alive_iff.1 live
  exact ⟨live', (step_same run used alive (alive_iff.1 live').1).1⟩

theorem step_lived (run : k.step e = some k') (live : (k'.tasks i).alive)
    (old : e.creates = false) :
    (k.tasks i).alive = true ∧ ¬ k.Exits e i ∧ (k'.tasks i).pid = (k.tasks i).pid := by
  have lived := chain_lived ((step_moves run).acts i) live old
  obtain ⟨used, alive, -⟩ := alive_iff.1 lived
  obtain ⟨used', alive', unended⟩ := alive_iff.1 live
  refine ⟨lived, ?_, (step_same run used alive used').1⟩
  rintro ⟨k₁, code, point⟩
  have ended := procExit_over k₁ i code
  rw [← (exitPoint_ending point).ends k' run] at ended
  exact ended.elim unended alive'

theorem ipcSend_lives (dest : Nat) (live : (k.tasks j).alive) :
    ((k.ipcSend dest).2.tasks j).alive = true ∧
      ((k.ipcSend dest).2.tasks j).pid = (k.tasks j).pid := by
  unfold ipcSend
  split
  · exact ⟨live, rfl⟩
  split
  · exact ⟨live, rfl⟩
  change Task.alive (if _ then _ else _) = true ∧ Task.pid (if _ then _ else _) = _
  split
  · unfold Task.unblock
    split
    · exact ⟨rfl, rfl⟩
    · exact ⟨live, rfl⟩
  · exact ⟨live, rfl⟩

theorem finish_lives {c : Context} (value : Word) (live : (k.tasks j).alive) :
    ((k.finish i c value).tasks j).alive = true ∧
      ((k.finish i c value).tasks j).pid = (k.tasks j).pid := by
  unfold finish
  split
  · by_cases same : j = i
    · subst same
      rw [edit_same]
      unfold Task.requeue
      split
      · exact ⟨rfl, rfl⟩
      · exact ⟨live, rfl⟩
    · rw [edit_other _ _ same]
      exact ⟨live, rfl⟩
  · exact ⟨live, rfl⟩

theorem step_key {key : Key} (run : k.step e = some k') (brings : k.keyOf e = some key) :
    k' = k.ttyInput key ∨ ∃ i c value, k' = (k.ttyInput key).finish i c value := by
  unfold step at run
  split at run
  · cases run
  unfold keyOf at brings
  split at brings
  · cases brings
    obtain ⟨i, -, rfl⟩ := Option.map_eq_some_iff.1 run
    exact .inl rfl
  next c typed =>
    obtain ⟨i, owner, rfl⟩ := Option.map_eq_some_iff.1 brings
    obtain ⟨caller, server⟩ := Option.filter_eq_some_iff.1 owner
    rw [caller] at run
    refine .inr ⟨i, c, 0, (Option.some.inj run).symm.trans ?_⟩
    unfold syscall syscallDispatch
    dsimp only
    rw [if_pos (of_decide_eq_true server)]
  · cases brings

theorem messagePoint_lives {dest : Nat} (point : k.messagePoint e = some (k₁, dest))
    (run : k.step e = some k') (live : (k₁.tasks j).alive) :
    (k'.tasks j).alive = true ∧ (k'.tasks j).pid = (k₁.tasks j).pid := by
  unfold messagePoint at point
  split at point
  · cases point
    exact step_lives run live nofun
  · cases point
    exact step_lives run live nofun
  split at point
  next stops =>
    cases point
    have sent := ipcSend_lives SERVER_SHELL live
    have eq : k.ttyInput .susp = (k.stopped.ipcSend SERVER_SHELL).2 := if_neg stops.2
    rw [← eq] at sent
    rcases step_key run stops.1 with rfl | ⟨i, c, value, rfl⟩
    · exact sent
    · obtain ⟨alive, pid⟩ := finish_lives value sent.1
      exact ⟨alive, pid.trans sent.2⟩
  split at point
  next k₂ i code exits =>
    split at point
    next tells =>
      cases point
      rw [(exitPoint_ending exits).ends k' run]
      unfold procExit
      rw [if_pos tells]
      exact ipcSend_lives SERVER_SHELL live
    · cases point
  · cases point

end Live

namespace Kernel

def Live (k : Kernel) (pid : Nat) : Prop := ∃ i, (k.tasks i).alive = true ∧ (k.tasks i).pid = pid
def QueueLive (k : Kernel) : Prop := ∀ pid ∈ k.queue, k.Live pid

/-- A message sent to the pid of a live task is for that task and for no other; it stays
in the queue until its receiver takes it, and a call to receive takes one. -/
structure Delivers (k : Kernel) (e : Event) : Prop where
  reaches : ∀ c dest i pid, e = .syscall c (.ipcSend dest) → (k.tasks i).alive = true →
    (k.tasks i).pid = dest → k.posts e = some pid →
    ∀ j, (k.tasks j).alive = true → ((k.tasks j).pid = pid ↔ j = i)
  stays : ∀ k' i, k.step e = some k' → (k.tasks i).alive = true → ¬ k.Takes e i →
    k'.queue.count (k.tasks i).pid =
      k.queue.count (k.tasks i).pid + (k.posts e).toList.count (k.tasks i).pid
  taken : ∀ k' i c copyOk, e = .syscall c (.ipcRecv copyOk) → k.userSlot = some i →
    k.step e = some k' → k'.queue = k.queue.erase (k.tasks i).pid

/-- A service that gets a message belongs to a live task that does not exit just now. -/
def Manned (k : Kernel) (e : Event) : Prop :=
  ∀ k₁ dest, k.messagePoint e = some (k₁, dest) → k₁.queue.length < IPC_QUEUE_SIZE →
    k₁.serviceGetPid dest ≠ 0 →
    ∃ i, (k.tasks i).alive = true ∧ (k.tasks i).pid = k₁.serviceGetPid dest ∧ ¬ k.Exits e i

def Unambiguous (k : Kernel) (e : Event) : Prop :=
  ∀ c dest, e = .syscall c (.ipcSend dest) → k.queue.length < IPC_QUEUE_SIZE →
    k.serviceGetPid dest ≠ 0 → k.Live dest → k.serviceGetPid dest = dest

end Kernel

section Routing

variable {k k₁ k' : Kernel} {e : Event} {i : Slot} {dest pid : Nat}

theorem posts_eq_some : k.posts e = some pid ↔ ∃ k₁ dest, k.messagePoint e = some (k₁, dest) ∧
    k₁.queue.length < Kernel.IPC_QUEUE_SIZE ∧ k₁.ipcRoute dest = some pid := by
  unfold Kernel.posts posted
  rw [Option.bind_eq_some_iff]
  constructor
  · rintro ⟨⟨k₁, dest⟩, point, eq⟩
    split at eq
    · cases eq
    next room =>
      exact ⟨k₁, dest, point, not_le.1 room, eq⟩
  · rintro ⟨k₁, dest, point, room, eq⟩
    exact ⟨(k₁, dest), point, (if_neg (not_le.2 room)).trans eq⟩

theorem ipcRoute_service (registered : k.serviceGetPid dest ≠ 0) :
    k.ipcRoute dest = some (k.serviceGetPid dest) := if_pos registered

theorem ipcRoute_pid (unnamed : k.serviceGetPid dest = 0) (route : k.ipcRoute dest = some pid) :
    pid = dest ∧ k.Live pid := by
  unfold ipcRoute at route
  rw [if_neg (not_not.2 unnamed)] at route
  split at route
  · cases route
  split at route
  · cases route
  rename_i i found
  split at route
  · cases route
  rename_i gone
  cases route
  push Not at gone
  obtain ⟨used, named⟩ := taskByPid_some found
  exact ⟨rfl, i, alive_iff.2 ⟨used, gone.2.1, gone.1⟩, named⟩

theorem creates_of_posts (posts : k.posts e = some pid) : e.creates = false := by
  by_contra creates
  rw [Bool.not_eq_false] at creates
  unfold Event.creates at creates
  split at creates
  · cases posts
  · cases posts
  · cases posts
  · cases posts
  · cases posts
  · cases creates

theorem queueLive_step (pids : PidsOk k) (live : k.QueueLive) (run : k.step e = some k') :
    k'.QueueLive ↔ ∀ pid, k.posts e = some pid → k'.Live pid := by
  obtain ⟨q, trims, eq⟩ := step_mailed pids run
  unfold Kernel.QueueLive
  rw [eq]
  constructor
  · intro all pid posts
    exact all pid (by simp [posts])
  intro new pid mem
  rcases List.mem_append.1 mem with old | sent
  · obtain ⟨i, alive, rfl⟩ := live pid (trims.old pid old)
    have goes_on : ¬ k.Exits e i := fun ⟨k₁, code, point⟩ => trims.ended k₁ i code point old
    exact ⟨i, step_lives run alive goes_on⟩
  · exact new pid (by simpa using sent)

theorem posts_live (run : k.step e = some k') :
    (∀ pid, k.posts e = some pid → k'.Live pid) ↔ k.Manned e := by
  constructor
  · intro live k₁ dest point room registered
    have posts := posts_eq_some.2 ⟨k₁, dest, point, room, ipcRoute_service registered⟩
    obtain ⟨i, alive, named⟩ := live _ posts
    obtain ⟨lived, stays, pid⟩ := step_lived run alive (creates_of_posts posts)
    exact ⟨i, lived, pid.symm.trans named, stays⟩
  intro services pid posts
  obtain ⟨k₁, dest, point, room, route⟩ := posts_eq_some.1 posts
  by_cases registered : k₁.serviceGetPid dest = 0
  · obtain ⟨-, i, alive, named⟩ := ipcRoute_pid registered route
    obtain ⟨alive', pid'⟩ := messagePoint_lives point run alive
    exact ⟨i, alive', pid'.trans named⟩
  obtain ⟨i, alive, named, stays⟩ := services k₁ dest point room registered
  obtain ⟨alive', pid'⟩ := step_lives run alive stays
  rw [ipcRoute_service registered] at route
  exact ⟨i, alive', pid'.trans (named.trans (Option.some.inj route))⟩

theorem reaches_iff (pids : PidsOk k) :
    (∀ c dest i pid, e = .syscall c (.ipcSend dest) → (k.tasks i).alive →
      (k.tasks i).pid = dest → k.posts e = some pid →
      ∀ j, (k.tasks j).alive → ((k.tasks j).pid = pid ↔ j = i)) ↔ k.Unambiguous e := by
  constructor
  · rintro reaches c dest rfl room registered ⟨i, alive, rfl⟩
    have posts : k.posts (.syscall c (.ipcSend (k.tasks i).pid)) = some _ :=
      posts_eq_some.2 ⟨k, _, rfl, room, ipcRoute_service registered⟩
    exact ((reaches c _ i _ rfl alive rfl posts i alive).2 rfl).symm
  rintro named c dest i pid rfl alive rfl posts j alive'
  obtain ⟨_, _, point, room, route⟩ := posts_eq_some.1 posts
  cases point
  have same : pid = (k.tasks i).pid := by
    by_cases registered : k.serviceGetPid (k.tasks i).pid = 0
    · exact (ipcRoute_pid registered route).1
    rw [ipcRoute_service registered] at route
    rw [← Option.some.inj route]
    exact named c _ rfl room registered ⟨i, alive, rfl⟩
  rw [same]
  constructor
  · exact pids.apart j i (alive_iff.1 alive').1 (alive_iff.1 alive).1
  · rintro rfl
    rfl

theorem recv_queue {c : Context} {copyOk : Bool} (caller : k.userSlot = some i)
    (run : k.step (.syscall c (.ipcRecv copyOk)) = some k') :
    k'.queue = k.queue.erase (k.tasks i).pid := by
  rw [step_caller caller run, (syscall_quiet k i c _).queue]
  change (k.sysIpcRecv i copyOk).2.queue = _
  unfold sysIpcRecv ipcRecv
  by_cases mem : (k.tasks i).pid ∈ k.queue
  · rw [if_pos mem]
    rfl
  · rw [if_neg mem]
    exact (List.erase_of_not_mem mem).symm

theorem Kernel.delivers_iff (pids : PidsOk k) : k.Delivers e ↔ k.Unambiguous e := by
  rw [← reaches_iff pids]
  constructor
  · exact fun delivers => delivers.reaches
  refine fun reaches => ⟨reaches, ?_, ?_⟩
  · intro k' i run alive others
    obtain ⟨q, trims, eq⟩ := step_mailed pids run
    rw [eq, List.count_append, trims.kept i alive others]
  · rintro k' i c copyOk rfl caller run
    exact recv_queue caller run

end Routing

/-- In a run every message is for a live task, and one sent to the pid of a live task for
that task alone, exactly if no message goes to a service whose task has ended, and none to
the pid of a live task that another task has registered as a service. -/
theorem messages_reach_their_tasks {es : List Event} {k : Kernel}
    (run : Runs (fun _ _ => True) Kernel.boot es k) :
    (Always Kernel.QueueLive Kernel.boot es ∧ Runs Kernel.Delivers Kernel.boot es k) ↔
      Runs (fun k e => k.Manned e ∧ k.Unambiguous e) Kernel.boot es k := by
  have queue : Always Kernel.QueueLive Kernel.boot es ↔ Runs Kernel.Manned Kernel.boot es k :=
    Runs.always_iff (fun _ _ _ pids run => PidsOk.step pids run)
      (fun _ _ _ pids live run => (queueLive_step pids live run).trans (posts_live run)) run
      PidsOk.boot nofun
  have sends : Runs Kernel.Delivers Kernel.boot es k ↔ Runs Kernel.Unambiguous Kernel.boot es k :=
    Prog.Runs.congr (fun k _ (pids : PidsOk k) => Kernel.delivers_iff pids)
      (fun _ _ _ _ pids _ run => pids.step (exec_eq_some.1 run)) PidsOk.boot
  rw [queue, sends]
  exact (Prog.Runs.and_iff fun _ _ => Iff.rfl).symm

def Kernel.registers (sid : Nat) : List Event :=
  [.bootSpawn 0x400000 0x7ffff000, .bootSpawn 0x400000 0x7ffff000, .dispatch true,
    .syscall userFrame (.serviceRegister sid)]

def Kernel.mailed (sid : Nat) : List Event :=
  registers sid ++ [.syscall userFrame (.ipcSend 2)]

def Kernel.orphaned (sid : Nat) : List Event :=
  registers sid ++ [.syscall userFrame (.exit 0), .dispatch true, .syscall userFrame (.ipcSend sid)]

theorem messages_reach_their_tasks_service :
    (Kernel.booted (Kernel.mailed 5)).queue = [2] ∧
      ((Always Kernel.QueueLive Kernel.boot (Kernel.mailed 5) ∧
          Runs Kernel.Delivers Kernel.boot (Kernel.mailed 5) (Kernel.booted (Kernel.mailed 5))) ↔
        Runs (fun k e => k.Manned e ∧ k.Unambiguous e) Kernel.boot (Kernel.mailed 5)
          (Kernel.booted (Kernel.mailed 5))) :=
  ⟨by decide +kernel, messages_reach_their_tasks (Kernel.booted_runs _ (by decide +kernel))⟩

/-- The message for pid 2 goes to the task that has registered service 2, and the message
for the service of an ended task is in the queue for that task. -/
theorem message_goes_astray :
    (∃ k, Runs (fun _ _ => True) Kernel.boot (Kernel.registers 2) k ∧
      (k.tasks 1).alive = true ∧ (k.tasks 1).pid = 2 ∧
      (k.step (.syscall userFrame (.ipcSend 2))).map Kernel.queue = some [1] ∧
      ¬ k.Delivers (.syscall userFrame (.ipcSend 2))) ∧
    ∃ k, Runs (fun _ _ => True) Kernel.boot (Kernel.orphaned 5) k ∧ k.queue = [1] ∧
      (k.tasks 0).state = .dead ∧ ¬ k.QueueLive := by
  constructor
  · refine ⟨Kernel.booted (Kernel.registers 2), Kernel.booted_runs _ (by decide +kernel),
      by decide +kernel, by decide +kernel, by decide +kernel, fun delivers => ?_⟩
    have here := delivers.reaches userFrame 2 1 1 rfl (by decide +kernel) (by decide +kernel)
      (by decide +kernel) 1 (by decide +kernel)
    exact absurd (here.2 rfl) (by decide +kernel)
  refine ⟨Kernel.booted (Kernel.orphaned 5), Kernel.booted_runs _ (by decide +kernel),
    by decide +kernel, by decide +kernel, fun live => ?_⟩
  obtain ⟨i, _, _⟩ := live 1 (by decide +kernel)
  revert i
  decide +kernel

end Osnos.Sched
