import Osnos.Base.Bytes
import Osnos.Sched.Disposition

/-! What `user_task_resume` writes to the user stack when it enters a handler, and what
`sys_rt_sigreturn` reads back. -/
namespace Osnos.Sched
open List Nat Store Kernel

def Context.words (c : Context) : List Nat :=
  [c.rip, c.cs, c.rflags, c.rsp, c.ss, c.rax, c.rbx, c.rcx, c.rdx, c.rsi, c.rdi, c.rbp,
    c.r8, c.r9, c.r10, c.r11, c.r12, c.r13, c.r14, c.r15].map UInt64.toNat

def Context.ofWords : List Nat → Option Context
  | [rip, cs, rflags, rsp, ss, rax, rbx, rcx, rdx, rsi, rdi, rbp, r8, r9, r10, r11, r12, r13, r14,
      r15] =>
    some ⟨.ofNat rip, .ofNat cs, .ofNat rflags, .ofNat rsp, .ofNat ss, .ofNat rax, .ofNat rbx,
      .ofNat rcx, .ofNat rdx, .ofNat rsi, .ofNat rdi, .ofNat rbp, .ofNat r8, .ofNat r9, .ofNat r10,
      .ofNat r11, .ofNat r12, .ofNat r13, .ofNat r14, .ofNat r15⟩
  | _ => none

theorem Context.ofWords_words (c : Context) : ofWords c.words = some c := by
  simp [words, ofWords]

def siginfo (sig : Nat) : List UInt8 := toLe 4 sig ++ List.replicate 124 0

/-- `write_other_user`. A page is mapped as a whole, so each byte can be asked for itself. -/
def writeOther (m : Store) : Nat → List UInt8 → Bool × Store
  | _, [] => (true, m)
  | a, b :: bs =>
    if (m a).isNone then (false, m) else writeOther (Function.update m a (some b)) (a + 1) bs

def pushFrame (m : Store) (c : Context) (sig : Nat) (restorer : Word) : Bool × Store :=
  let frame := writeOther m (sigframeBase c.rsp).toNat (toWords c.words)
  if !frame.1 then frame else
  let info := writeOther frame.2 (siginfoAddr c.rsp).toNat (siginfo sig)
  if !info.1 then info else
  writeOther info.2 (restorerSlot c.rsp).toNat (toLe 8 restorer.toNat)

def USER_VIRT_MAX : Nat := 2 ^ 47

def readFrame (m : Store) (rsp : Word) : Option Context :=
  if rsp.toNat + 160 ≤ USER_VIRT_MAX then (m.words rsp.toNat 20).bind Context.ofWords else none

theorem mask_toNat (w : Word) : (w &&& ~~~ 15).toNat = w.toNat / 16 * 16 := by
  have shape : (~~~ 15 : Word).toNat = (2 ^ 60 - 1) <<< 4 := by decide
  have small := w.toNat_lt
  rw [UInt64.toNat_and, shape]
  apply eq_of_testBit_eq
  intro i
  rw [testBit_and, testBit_shiftLeft, testBit_two_pow_sub_one,
    show (16 : Nat) = 2 ^ 4 by norm_num, ← shiftLeft_eq, testBit_shiftLeft,
    testBit_div_two_pow]
  by_cases low : 4 ≤ i
  · by_cases high : i - 4 < 60
    · simp [low, high, Nat.sub_add_cancel low]
    · have zero : w.toNat.testBit i = false :=
        testBit_lt_two_pow (small.trans_le (Nat.pow_le_pow_right (by norm_num) (by omega)))
      simp [low, zero, Nat.sub_add_cancel low]
  · simp [low]

section
variable {rsp : Word}

def Roomy (rsp : Word) : Prop := 326 ≤ rsp.toNat ∧ rsp.toNat ≤ USER_VIRT_MAX

theorem siginfoAddr_toNat (roomy : Roomy rsp) :
    (siginfoAddr rsp).toNat = (rsp.toNat - 128) / 16 * 16 := by
  have le : (128 : Word) ≤ rsp := UInt64.le_iff_toNat_le.2 (by have := roomy.1; simp; omega)
  rw [siginfoAddr, mask_toNat, UInt64.toNat_sub_of_le _ _ le]
  rfl

theorem sigframeBase_toNat (roomy : Roomy rsp) :
    (sigframeBase rsp).toNat = (siginfoAddr rsp).toNat - 160 := by
  have low := roomy.1
  have info := siginfoAddr_toNat roomy
  have le : (160 : Word) ≤ siginfoAddr rsp := UInt64.le_iff_toNat_le.2 (by rw [info]; simp; omega)
  rw [sigframeBase, mask_toNat, UInt64.toNat_sub_of_le _ _ le, info]
  simp
  omega

theorem restorerSlot_toNat (roomy : Roomy rsp) :
    (restorerSlot rsp).toNat = (sigframeBase rsp).toNat - 8 := by
  have low := roomy.1
  have base := sigframeBase_toNat roomy
  rw [siginfoAddr_toNat roomy] at base
  have le : (8 : Word) ≤ sigframeBase rsp := UInt64.le_iff_toNat_le.2 (by rw [base]; simp; omega)
  rw [restorerSlot, UInt64.toNat_sub_of_le _ _ le]
  rfl

end

theorem writeOther_done {m m' : Store} {a : Nat} {bs : List UInt8}
    (done : writeOther m a bs = (true, m')) : m' = m.write a bs := by
  induction bs generalizing m a with
  | nil => exact (Prod.mk.inj done).2.symm
  | cons _ _ ih =>
    unfold writeOther at done
    split at done
    · cases done
    · exact ih done

section
variable {m m₁ m₂ : Store} {c : Context} {sig : Nat} {restorer : Word}

def pieces (c : Context) (sig : Nat) (restorer : Word) : List (Nat × List UInt8) :=
  [((sigframeBase c.rsp).toNat, toWords c.words), ((siginfoAddr c.rsp).toNat, siginfo sig),
    ((restorerSlot c.rsp).toNat, toLe 8 restorer.toNat)]

theorem pushFrame_done (pushed : pushFrame m c sig restorer = (true, m₁)) :
    m₁ = m.writes (pieces c sig restorer) := by
  unfold pushFrame at pushed
  dsimp only at pushed
  rcases frame : writeOther m (sigframeBase c.rsp).toNat (toWords c.words) with ⟨_ | _, mf⟩
  · rw [frame] at pushed
    cases pushed
  rw [frame] at pushed
  rcases info : writeOther mf (siginfoAddr c.rsp).toNat (siginfo sig) with ⟨_ | _, mi⟩
  · simp only [info] at pushed
    cases pushed
  simp only [info] at pushed
  rw [writeOther_done pushed, writeOther_done info, writeOther_done frame]
  rfl

theorem pieces_apart (roomy : Roomy c.rsp) : (pieces c sig restorer).Pairwise Apart := by
  have low := roomy.1
  have info := siginfoAddr_toNat roomy
  have base := sigframeBase_toNat roomy
  have slot := restorerSlot_toNat roomy
  simp only [pieces, siginfo, Context.words, pairwise_cons, mem_cons, forall_eq_or_imp,
    Apart, length_toWords, length_toLe, length_append, length_replicate,
    length_map, length_cons, length_nil]
  simp
  omega

variable (roomy : Roomy c.rsp) (pushed : pushFrame m c sig restorer = (true, m₁))

include roomy pushed

theorem pushFrame_lies {p : Nat × List UInt8} (member : p ∈ pieces c sig restorer) : m₁.Lies p.1 p.2 := by
  rw [pushFrame_done pushed]
  exact lies_writes (pieces_apart roomy) member

theorem readFrame_pushed (kept : ∀ x, (sigframeBase c.rsp).toNat ≤ x → x < (sigframeBase c.rsp).toNat + 160 →
      m₂ x = m₁ x) : readFrame m₂ (sigframeBase c.rsp) = some c := by
  have lies := (pushFrame_lies roomy pushed mem_cons_self).congr kept
  have top : c.rsp.toNat ≤ USER_VIRT_MAX := roomy.2
  have low := roomy.1
  have base := sigframeBase_toNat roomy
  have info := siginfoAddr_toNat roomy
  have words := words_lies lies fun v member => by
    obtain ⟨w, -, rfl⟩ := List.mem_map.1 member
    exact w.toNat_lt
  rw [readFrame, if_pos (by omega)]
  exact (congrArg (Option.bind · Context.ofWords) words).trans c.ofWords_words

/-- The kernel has changed nothing from the red zone on exactly if the part of the `siginfo_t`
that lies there was in memory already. -/
theorem redZone_kept_iff : (∀ x, c.rsp.toNat ≤ x + 128 → m₁ x = m x) ↔
      ∀ j < 128, c.rsp.toNat ≤ (siginfoAddr c.rsp).toNat + j + 128 →
        m ((siginfoAddr c.rsp).toNat + j) = (siginfo sig)[j]? := by
  have low := roomy.1
  have base := sigframeBase_toNat roomy
  have info := siginfoAddr_toNat roomy
  have slot := restorerSlot_toNat roomy
  have length : (siginfo sig).length = 128 := by simp [siginfo]
  have lies := pushFrame_lies roomy pushed (mem_cons_of_mem _ mem_cons_self)
  constructor
  · intro kept j inside above
    rw [← kept _ (by omega), lies.get (show j < (siginfo sig).length by omega)]
  intro there x above
  by_cases inside : (siginfoAddr c.rsp).toNat ≤ x ∧ x < (siginfoAddr c.rsp).toNat + 128
  · obtain ⟨j, rfl⟩ := Nat.exists_eq_add_of_le inside.1
    rw [there j (by omega) (by omega), lies.get (show j < (siginfo sig).length by omega)]
  rw [pushFrame_done pushed]
  refine writes_outside fun p member => ?_
  simp only [pieces, mem_cons, not_mem_nil, or_false] at member
  rcases member with rfl | rfl | rfl
  · right
    simp [Context.words]
    omega
  · dsimp only
    omega
  · right
    simp
    omega

end

section
variable {k k' : Kernel} {i : Slot} {e : Event} {pid : Nat} {P : Context → Prop}

/-- The task is off the processor with this context, and sleeps in no call. -/
structure Ready (P : Context → Prop) (pid : Nat) (i : Slot) (k : Kernel) : Prop where
  held : Held P pid i k
  awake : (k.tasks i).pid = pid → (k.tasks i).state ≠ .blocked

theorem Ready.step (ready : Ready P pid i k) (run : k.step e = some k')
    (waits : ∀ c, ¬ k.Resumes e i c) : Ready P pid i k' := by
  refine ⟨ready.held.step (.inr fun named asleep => absurd asleep (ready.awake named)) run waits,
    fun named asleep => ?_⟩
  rcases chain_asleep ((step_moves run).acts i) asleep with ⟨before, dozes⟩ | ⟨t, onCpu, parks, dozes⟩
  · exact ready.awake (dozes.pid.symm.trans named) before
  have same : t.pid = (k.tasks i).pid := by cases parks <;> rfl
  have running := (onCpu_some onCpu).2
  rcases ready.held.held (same.symm.trans (dozes.pid.symm.trans named)) with
    ((h | h) | h) | ⟨h | h | h, -⟩ <;> simp [running] at h

theorem Ready.continues {es : List Event} {c : Context} (ready : Ready P pid i k)
    (runs : Runs (fun k e => ∀ c, ¬ k.Resumes e i c) k es k') (named : (k'.tasks i).pid = pid)
    (continues : k'.Continues e i c) : P c :=
  (Runs.keeps (fun _ _ _ ready waits run => ready.step run waits) runs ready).held.continues named
    continues

theorem handler_rsp {entered : Context} {sig : Nat} (picked : k.schedule.userSlot = some i)
    (delivers : (k.dispatchTo true).1 = .handler entered sig) :
    entered.rsp = restorerSlot (k.tasks i).saved.rsp := by
  obtain ⟨-, same, -⟩ := dispatch_user true picked
  have lands := dispatchTo_lands true picked
  rw [delivers] at lands
  generalize (k.dispatchTo true).2.tasks i = t' at lands
  cases lands with
  | handler _ tweak =>
    rw [← same.saved, ← tweak.saved]
    rfl

end

/-- A handler is entered and returns through `rt_sigreturn` with its frame as it was: whenever
the task goes on, it has the context it was interrupted with. Its memory from the red zone on is
untouched exactly if the `siginfo_t` was there already. -/
theorem signal_invisible_iff {before later : List Event} {k k₂ k₃ k₄ : Kernel} {i : Slot} {e : Event}
    {entered c₂ c' : Context} {m m₁ m₂ : Store} {sig : Nat} {restorer : Word}
    (picked : k.schedule.userSlot = some i)
    (delivers : (k.dispatchTo true).1 = .handler entered sig) (roomy : Roomy (k.tasks i).saved.rsp)
    (pushed : pushFrame m (k.tasks i).saved sig restorer = (true, m₁))
    (kept : ∀ x, (entered.rsp + 8).toNat ≤ x → x < (entered.rsp + 8).toNat + 160 → m₂ x = m₁ x)
    (reached : Runs (fun _ _ => True) Kernel.boot before k₂) (caller : k₂.userSlot = some i)
    (popped : c₂.rsp = entered.rsp + 8)
    (returns : k₂.step (.syscall c₂ (.sigreturn (readFrame m₂ c₂.rsp))) = some k₃)
    (waits : Runs (fun k e => ∀ c, ¬ k.Resumes e i c) k₃ later k₄)
    (same : (k₄.tasks i).pid = (k₂.tasks i).pid) (continues : k₄.Continues e i c') :
    c' = (k.tasks i).saved ∧
      ((∀ x, (k.tasks i).saved.rsp.toNat ≤ x + 128 → m₁ x = m x) ↔
        ∀ j < 128, (k.tasks i).saved.rsp.toNat ≤ (siginfoAddr (k.tasks i).saved.rsp).toNat + j + 128 →
          m ((siginfoAddr (k.tasks i).saved.rsp).toNat + j) = (siginfo sig)[j]?) := by
  refine ⟨?_, redZone_kept_iff roomy pushed⟩
  have base : entered.rsp + 8 = sigframeBase (k.tasks i).saved.rsp := by
    rw [handler_rsp picked delivers]
    exact UInt64.sub_add_cancel ..
  rw [popped, base] at returns
  rw [base] at kept
  rw [readFrame_pushed roomy pushed kept] at returns
  generalize (k.tasks i).saved = c at returns ⊢
  obtain ⟨-, running, user⟩ := userSlot_some caller
  have known := (PidsOk.reachable reached).below i (by simp [running])
  have ready : Ready (· = c) (k₂.tasks i).pid i k₃ := by
    rw [sigreturn_suspends caller returns]
    unfold suspend
    refine ⟨⟨known, fun _ => .inr ?_⟩, fun _ asleep => ?_⟩
    · rw [edit_same]
      exact ⟨.inl rfl, user, rfl, rfl⟩
    · rw [edit_same] at asleep
      cases asleep
  exact ready.continues waits same continues

def Kernel.terminated : Kernel := Kernel.booted (Kernel.signalled SIGTERM 0x400500)
def interrupted : Context := { userFrame with rax := err EINTR }
def blank : Store := fun _ => some 0
def framed : Store := (pushFrame blank interrupted SIGTERM 0x400800).2
def Kernel.handled : List Event := signalled SIGTERM 0x400500 ++ [.dispatch true]
def returning : Context := { userFrame with rsp := sigframeBase userFrame.rsp }

/-- The handler does nothing, and the program goes on. -/
theorem signal_invisible_term :
    ∃ k, Runs (fun _ _ => True) Kernel.boot
        (Kernel.handled ++ [.syscall returning (.sigreturn (some interrupted))]) k ∧
      k.Continues (.dispatch true) 0 interrupted := by
  have saved : (Kernel.terminated.tasks 0).saved = interrupted := by decide +kernel
  have pushed : pushFrame blank interrupted SIGTERM 0x400800 = (true, framed) := by
    refine Prod.ext (by decide +kernel) ?_
    rw [framed]
  have roomy : Roomy interrupted.rsp := ⟨by decide, by decide⟩
  have frame : readFrame framed returning.rsp = some interrupted :=
    readFrame_pushed roomy pushed fun _ _ _ => rfl
  have returns : (booted handled).step
      (.syscall returning (.sigreturn (readFrame framed returning.rsp))) = some (booted
        (handled ++ [.syscall returning (.sigreturn (some interrupted))])) := by
    rw [frame]
    exact booted_step (by decide +kernel)
  have continues : (booted (handled ++
      [.syscall returning (.sigreturn (some interrupted))])).Continues (.dispatch true) 0 _ :=
    ⟨⟨interrupted, true, rfl, by decide +kernel, by decide +kernel⟩, rfl⟩
  have delivers : (Kernel.terminated.dispatchTo true).1 =
      .handler (handlerContext interrupted SIGTERM 0x400500) SIGTERM := by decide +kernel
  have restored := (signal_invisible_iff (by decide +kernel) delivers (saved.symm ▸ roomy)
    (saved.symm ▸ pushed) (fun _ _ _ => rfl)
    (booted_runs handled (by decide +kernel)) (by decide +kernel) (by decide) returns
    (.nil _) (by decide +kernel) continues).1
  exact ⟨_, booted_runs _ (by decide +kernel), (restored.trans saved) ▸ continues⟩

/-- The lowest byte of the red zone was zero, and holds the signal's number when the handler is
entered. -/
theorem siginfo_in_red_zone :
    Kernel.terminated.schedule.userSlot = some 0 ∧
      (Kernel.terminated.tasks 0).saved = interrupted ∧
      (Kernel.terminated.dispatchTo true).1 =
        .handler (handlerContext interrupted SIGTERM 0x400500) SIGTERM ∧
      (pushFrame blank interrupted SIGTERM 0x400800).1 = true ∧
      blank (interrupted.rsp.toNat - 128) = some 0 ∧ framed (interrupted.rsp.toNat - 128) = some 15 := by
  decide +kernel

end Osnos.Sched
