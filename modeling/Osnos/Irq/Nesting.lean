import Osnos.Irq.Handlers
import Osnos.Net.Emit

/-! `sock_tick` and `sock_tcp_handle_segment` start with interrupts disabled, but
`arp_lookup` ends with `sti`, whatever the flag was before. -/
namespace Osnos.Irq
open Net Nest List Option Nest.Op

abbrev UserCall := { c : Call // c.fromNetwork = false }
def base (c : UserCall) (t : Table) : Table := (t.call c.1).2
abbrev Cpu := Nest.Cpu Table Line Activity
abbrev Event := Nest.Event Table Line Activity UserCall
abbrev exec : Event → Prog Cpu Unit := Nest.exec base

def boot : Cpu where
  mem := World.boot.table
  enabled := false
  service _ := false
  frames := []

theorem timer_least (l : Line) : Line.timer ≤ l := by
  cases l <;> decide

theorem timer_starts (h : Handler) (handles : Handles .timer h) : Starts .tick h := by
  obtain ⟨_, _, _, rfl⟩ := handles
  exact ⟨_, fun _ _ => _, rfl, fun _ => rfl⟩

theorem boot_sound : Sound .timer boot :=
  ⟨fun served => absurd served (by decide), fun _ mem => nomatch mem⟩

section
variable {a : Activity} {k : Handler} {t : Table}

theorem loud {h : Handler} : ¬Quiet h true (some a) t := by
  cases h with
  | ret => exact fun quiet => quiet ⟨rfl, by simp⟩
  | step => exact fun quiet => quiet.1 ⟨rfl, by simp⟩

theorem arpResolve_loud {polls : Nat} {on : Bool} : ¬Quiet (arpResolve polls k) on (some a) t := by
  cases polls with
  | zero | succ => exact fun quiet => loud quiet.2.2

theorem tcpSend_loud {m : Table → Sent} {polls : Nat} {on : Bool} :
    ¬Quiet (tcpSend m polls k) on (some a) t := fun quiet => arpResolve_loud quiet.2

theorem guarded_loud {i : Sd} {f : Sock → Sock} {on : Bool} :
    ¬Quiet (guarded i f k) on (some a) t := fun quiet => loud quiet.2.2.2

theorem update_quiet {i : Sd} {f : Sock → Sock} :
    Quiet (update i f k) false (some a) t ↔ Quiet k false (some a) (t.edit i f) :=
  ⟨fun quiet => quiet.2, fun quiet => ⟨fun on => absurd on.1 (by decide), quiet⟩⟩

theorem read_quiet {k : Table → Handler} :
    Quiet (read k) false (some a) t ↔ Quiet (k t) false (some a) t :=
  ⟨fun quiet => quiet.2, fun quiet => ⟨fun on => absurd on.1 (by decide), quiet⟩⟩

end

theorem tick_silent_iff (s : Sock) (now : Nat) :
    (s.tick now).2 = [] ↔ due s now = .idle ∨ due s now = .drop := by
  rw [due_tick]
  cases due s now <;> simp

theorem tickLoop_quiet {now : Nat} {polls : Sd → Nat} {k : Handler}
    (ends : ∀ t, Quiet k false (some .tick) t) {slots : List Sd} (distinct : slots.Nodup)
    (t : Table) :
    Quiet (tickLoop now polls k slots) false (some .tick) t ↔
      ∀ i ∈ slots, ((t.socks i).tick now).2 = [] := by
  induction slots generalizing t with
  | nil => exact iff_of_true (ends t) (fun _ mem => nomatch mem)
  | cons i rest ih =>
    obtain ⟨new, distinct⟩ := List.nodup_cons.1 distinct
    rw [tickLoop, read_quiet, forall_mem_cons, tick_silent_iff]
    cases plan : due (t.socks i) now with
    | idle => simpa using ih distinct t
    | drop =>
      have same : ∀ j ∈ rest, (t.edit i fun s => { s with retxBuf := [] }).socks j = t.socks j := by
        intro j mem
        have other : j ≠ i := fun same => new (same ▸ mem)
        simp [other]
      rw [update_quiet, ih distinct]
      simp only [reduceCtorEq, false_or, true_and]
      exact forall₂_congr fun j mem => by rw [same j mem]
    | giveUp | resend => exact iff_of_false tcpSend_loud (by simp)

theorem exitCode_quiet (closes : List (Sd × Nat)) (on : Bool) (t : Table) :
    Quiet (exitCode closes) on none t := by
  have resolve (k : Handler) (ends : ∀ on t, Quiet k on none t) (polls : Nat) :
      ∀ on t, Quiet (arpResolve polls k) on none t := by
    induction polls with
    | zero => exact fun on t => ⟨by simp, by simp [busy], ends _ _⟩
    | succ _ ih => exact fun on t => ⟨by simp, by simp [busy], ih _ _⟩
  have edits (k : Handler) (ends : ∀ on t, Quiet k on none t) (i : Sd) (f : Sock → Sock) :
      ∀ on t, Quiet (update i f k) on none t := fun on t => ⟨by simp, ends _ _⟩
  have guards (k : Handler) (ends : ∀ on t, Quiet k on none t) (i : Sd) (f : Sock → Sock) :
      ∀ on t, Quiet (guarded i f k) on none t :=
    fun on t => ⟨by simp, by simp [busy], by simp [busy], ends _ _⟩
  induction closes generalizing on t with
  | nil => simp [exitCode, Quiet]
  | cons c rest ih =>
    have fin (state : TcpState) : ∀ on t, Quiet (finCode c.1 c.2 (exitCode rest) state) on none t :=
      fun on t => ⟨by simp, resolve _ (edits _ (edits _ (edits _ ih _ _) _ _) _ _) _ _ _⟩
    refine ⟨by simp, ?_⟩
    dsimp only
    split
    · split
      · exact fin _ _ _
      · exact fin _ _ _
      · exact guards _ ih _ _ _ _
      · exact guards _ ih _ _ _ _
      · exact edits _ ih _ _ _ _
    · exact guards _ ih _ _ _ _

theorem timerHandle_quiet (now : Nat) (polls : Sd → Nat) (closes : List (Sd × Nat)) (t : Table) :
    Quiet (timerHandle now polls closes) false none t ↔ ∀ i, ((t.socks i).tick now).2 = [] := by
  have ends : ∀ t, Quiet (.step .leave fun _ => exitCode closes : Handler) false (some .tick) t :=
    fun t => ⟨by simp, exitCode_quiet closes _ t⟩
  have loop : Quiet (timerHandle now polls closes) false none t ↔
      Quiet (tickLoop now polls (.step .leave fun _ => exitCode closes) (finRange 8)) false
        (some .tick) t :=
    ⟨fun quiet => quiet.2.2, fun quiet => ⟨by simp, by simp [flag], quiet⟩⟩
  rw [loop, tickLoop_quiet ends (nodup_finRange 8)]
  simp

def Unanswered (t : Table) (g : Segment) (now : Nat) : Prop :=
  (t.handleSegment g now).sent = t.sent ∧
    ∀ i, t.lookup g = some i → g.flags.rst = true →
      ¬((t.socks i).Live ∨ (t.socks i).tcpState = .synSent)

theorem put_sent_iff {t : Table} {i : Sd} {d : Sock × List Sent} :
    (t.put i d).sent = t.sent ↔ d.2 = [] := by
  simp [Table.put]

section
variable {g : Segment} {now polls : Nat} {i : Sd} {k : Handler} {t : Table} {a : Activity}

theorem dataCode_quiet : Quiet (dataCode g polls i k) false (some a) t ↔
      ((t.socks i).acceptData g).2 = [] ∧ Quiet k false (some a) t := by
  unfold dataCode Sock.acceptData
  rw [read_quiet]
  split
  · exact iff_of_false (fun quiet => tcpSend_loud (update_quiet.1 quiet)) (by simp)
  · simp

theorem acceptData_silent {s : Sock} (silent : (s.acceptData g).2 = []) : (s.acceptData g).1 = s := by
  unfold Sock.acceptData at silent ⊢
  split at silent
  · cases silent
  next late =>
    rw [if_neg late]

theorem lastFinCode_quiet (ends : ∀ t, Quiet k false (some a) t) :
    Quiet (lastFinCode g polls i k) false (some a) t ↔ (t.socks i).finInOrder g = false := by
  unfold lastFinCode
  rw [read_quiet]
  split
  next fin =>
    exact iff_of_false (fun quiet => tcpSend_loud (update_quiet.1 quiet)) (by simp [fin])
  next fin =>
    exact iff_of_true (ends t) (by simpa using fin)

variable (ends : ∀ t, Nest.Quiet k false (some a) t)
include ends

theorem listenCode_quiet : Quiet (listenCode g now polls i k t) false (some a) t ↔
      (t.handleListen i g now).sent = t.sent := by
  unfold listenCode Table.handleListen
  split
  · exact iff_of_true (ends t) rfl
  split
  · exact iff_of_true (ends t) rfl
  split
  · exact iff_of_true (ends t) rfl
  cases t.freeSlot with
  | none => exact iff_of_true (ends t) rfl
  | some => exact iff_of_false (fun quiet => tcpSend_loud (update_quiet.1 quiet)) (by simp)

theorem synSentCode_quiet {s : Sock} : Quiet (synSentCode g polls i k s) false (some a) t ↔
      (s.handleSynSent g).2 = [] ∧ g.flags.rst = false := by
  unfold synSentCode Sock.handleSynSent
  split
  next rst =>
    exact iff_of_false guarded_loud (by simp [rst])
  rename_i rst
  split
  · split
    · exact iff_of_false tcpSend_loud (by simp)
    · exact iff_of_false guarded_loud (by simp)
  split
  · exact iff_of_false guarded_loud (by simp)
  · exact iff_of_true (ends t) (by simpa using rst)

theorem establishedCode_quiet : Quiet (establishedCode g polls i k) false (some a) t ↔
      ((t.socks i).handleEstablished g).2 = [] ∧ g.flags.rst = false := by
  unfold establishedCode Sock.handleEstablished
  split
  next rst =>
    exact iff_of_false guarded_loud (by simp [rst])
  rename_i rst
  rw [update_quiet, dataCode_quiet, read_quiet, Table.edit_socks, Function.update_self]
  dsimp only
  by_cases silent : (((t.socks i).acceptAck g).acceptData g).2 = []
  · rw [acceptData_silent silent]
    split
    · exact iff_of_false (fun quiet => tcpSend_loud (update_quiet.1 quiet.2)) (by simp)
    · exact iff_of_true ⟨silent, ends _⟩ ⟨silent, by simpa using rst⟩
  refine iff_of_false (fun quiet => silent quiet.1) ?_
  split
  · simp
  · exact fun quiet => silent quiet.1

theorem finWait1Code_quiet : Quiet (finWait1Code g polls i k) false (some a) t ↔
      ((t.socks i).handleFinWait1 g).2 = [] ∧ g.flags.rst = false := by
  unfold finWait1Code Sock.handleFinWait1
  split
  next rst =>
    exact iff_of_false guarded_loud (by simp [rst])
  rename_i rst
  rw [dataCode_quiet, update_quiet, lastFinCode_quiet ends, Table.edit_socks, Function.update_self]
  dsimp only
  by_cases silent : ((t.socks i).acceptData g).2 = []
  · rw [acceptData_silent silent, silent]
    generalize (if g.flags.ack ∧ g.ack = (t.socks i).sndNxt then
      { t.socks i with sndUna := g.ack, tcpState := .finWait2 } else t.socks i) = s
    split
    next fin =>
      simp [fin]
    next fin =>
      simpa [rst] using fin
  · refine iff_of_false (fun quiet => silent quiet.1) ?_
    generalize (if g.flags.ack ∧ g.ack = ((t.socks i).acceptData g).1.sndNxt then
      { ((t.socks i).acceptData g).1 with sndUna := g.ack, tcpState := .finWait2 }
      else ((t.socks i).acceptData g).1) = s
    split
    · simp
    · exact fun quiet => silent quiet.1

theorem finWait2Code_quiet : Quiet (finWait2Code g polls i k) false (some a) t ↔
      ((t.socks i).handleFinWait2 g).2 = [] ∧ g.flags.rst = false := by
  unfold finWait2Code Sock.handleFinWait2
  split
  next rst =>
    exact iff_of_false guarded_loud (by simp [rst])
  rename_i rst
  rw [dataCode_quiet, lastFinCode_quiet ends]
  dsimp only
  by_cases silent : ((t.socks i).acceptData g).2 = []
  · rw [acceptData_silent silent]
    split
    next fin =>
      simp [fin]
    next fin =>
      exact iff_of_true ⟨silent, by simpa using fin⟩ ⟨silent, by simpa using rst⟩
  · refine iff_of_false (fun quiet => silent quiet.1) ?_
    split
    · simp
    · exact fun quiet => silent quiet.1

theorem lastAckCode_quiet {s : Sock} :
    Quiet (lastAckCode g i k s) false (some a) t ↔ g.flags.rst = false := by
  unfold lastAckCode
  split
  next rst =>
    exact iff_of_false guarded_loud (by simp [rst])
  rename_i rst
  split
  · exact iff_of_true (update_quiet.2 (ends _)) (by simpa using rst)
  · exact iff_of_true (ends t) (by simpa using rst)

theorem synRcvdCode_quiet {s : Sock} :
    Quiet (synRcvdCode g i k s) false (some a) t ↔ g.flags.rst = false := by
  unfold synRcvdCode
  split
  next rst =>
    exact iff_of_false guarded_loud (by simp [rst])
  rename_i rst
  split
  · exact iff_of_true ⟨by simp, ends _⟩ (by simpa using rst)
  · exact iff_of_true (ends t) (by simpa using rst)

omit ends in
theorem handleSynRcvd_sent : (t.handleSynRcvd i g).sent = t.sent := by
  unfold Table.handleSynRcvd
  dsimp only
  split_ifs
  · rfl
  · rw [Table.enlist_sent]
    rfl
  · rfl

omit ends in
theorem handleLastAck_silent (s : Sock) : (s.handleLastAck g).2 = [] := by
  unfold Sock.handleLastAck
  split_ifs <;> rfl

theorem segmentBody_quiet :
    Quiet (segmentBody g now polls k t) false (some a) t ↔ Unanswered t g now := by
  unfold segmentBody Unanswered Table.handleSegment
  cases found : t.lookup g with
  | none =>
    dsimp only
    split
    · exact iff_of_true (ends t) ⟨rfl, fun _ other => nomatch other⟩
    · exact iff_of_false tcpSend_loud (by simp)
  | some i =>
    simp only [Option.some.injEq, forall_eq']
    cases state : (t.socks i).tcpState with
    | listen => simpa [state, Sock.Live, Sock.Receives] using listenCode_quiet ends
    | synSent => simpa [state, put_sent_iff] using synSentCode_quiet ends
    | synRcvd =>
      simpa [state, handleSynRcvd_sent, Sock.Live, Sock.Receives] using synRcvdCode_quiet ends
    | established =>
      simpa [state, put_sent_iff, Sock.Live, Sock.Receives] using establishedCode_quiet ends
    | finWait1 => simpa [state, put_sent_iff, Sock.Live, Sock.Receives] using finWait1Code_quiet ends
    | finWait2 => simpa [state, put_sent_iff, Sock.Live, Sock.Receives] using finWait2Code_quiet ends
    | closeWait =>
      dsimp only
      split
      next rst =>
        exact iff_of_false guarded_loud (by simp [state, rst, Sock.Live])
      next rst =>
        exact iff_of_true (ends t) ⟨rfl, fun is => absurd is rst⟩
    | lastAck | closing =>
      simpa [state, put_sent_iff, handleLastAck_silent, Sock.Live] using lastAckCode_quiet ends
    | closed | timeWait => simpa [state, Sock.Live, Sock.Receives] using ends t

end

theorem sections_quiet (n : Nat) (on : Bool) (t : Table) :
    Quiet (sections n (.step .eoi fun _ => .ret ()) : Handler) on none t := by
  induction n generalizing on with
  | zero => exact ⟨by simp, by simp [Quiet, busy]⟩
  | succ n ih => exact ⟨by simp, by simp [busy], ih _⟩

theorem nicHandle_quiet (g : Segment) (now polls mirrors : Nat) (t : Table) :
    Quiet (nicHandle [⟨.tcp g now polls, mirrors⟩]) false none t ↔ Unanswered t g now := by
  have ends : ∀ t, Quiet (.step .leave fun _ => sections mirrors (.step .eoi fun _ => .ret ()) :
      Handler) false (some .segment) t := fun t => ⟨by simp, sections_quiet mirrors false t⟩
  have body : Quiet (nicHandle [⟨.tcp g now polls, mirrors⟩]) false none t ↔
      Quiet (segmentBody g now polls (.step .leave fun _ =>
        sections mirrors (.step .eoi fun _ => .ret ())) t) false (some .segment) t :=
    ⟨fun quiet => quiet.2.2, fun quiet => ⟨by simp, by simp [flag], quiet⟩⟩
  rw [body, segmentBody_quiet ends]

abbrev Legal (e : Event) : Prop := Nest.Legal Handles e

/-- Neither now nor with a timer interrupt is `sock_tick` entered on top of itself or of the
segment handler. -/
abbrev Safe (c : Cpu) : Prop := Nest.Safe Handles .tick .timer base c

def unacknowledged : List Event :=
  [.main ⟨.create .stream, rfl⟩ true, .main ⟨.connect 0 0x0A000202 80 0 true, rfl⟩ true,
    .request .nic (nicHandle [⟨.tcp {
      srcIp := 0x0A000202, srcPort := 80, dstPort := 40000, seq := 7, ack := 1
      flags := { syn := true, ack := true }, payload := [] } 0 0, 0⟩])] ++
  List.replicate 11 .op ++ [.main ⟨.send 0 [1] 0 [], rfl⟩ true]

def tickBegun : List Event := .request .timer (timerHandle 500 (fun _ => 0) []) :: List.replicate 6 .op

structure Ready (c : Cpu) : Prop where
  enabled : c.enabled = true
  free : ∀ l, c.service l = false
  due : due (c.mem.socks 0) 500 = .resend

theorem tickBegun_nests {c : Cpu} (ready : Ready c) :
    ∃ c' f, Prog.play exec c tickBegun = some c' ∧ Ready c' ∧ c'.frames = f :: c.frames ∧
      f.busy = some .tick := by
  have free : c.enabled ∧ ∀ m, c.service m → Line.timer < m :=
    ⟨ready.enabled, fun m served => absurd (served.symm.trans (ready.free m)) (by decide)⟩
  have slots : finRange 8 = 0 :: (finRange 8).tail := rfl
  simp only [tickBegun, timerHandle, sockTick, replicate, Prog.play, Nest.exec, Nest.Cpu.accept,
    if_pos free, map_some, bind_some, Nest.Cpu.op, Nest.Cpu.step, mem,
    flag, busy]
  rw [slots]
  simp only [tickLoop, read, ready.due, tcpSend, arpResolve, arpLookup, map_some, bind_some, id_eq]
  refine ⟨_, _, rfl, ⟨rfl, fun l => ?_, ready.due⟩, rfl, rfl⟩
  cases l with
  | timer => rfl
  | nic => exact ready.free .nic

theorem ticks_nest {c : Cpu} (ready : Ready c) (n : Nat) :
    ∃ es c', Prog.Runs exec (fun _ e => Legal e) c es c' ∧ Ready c' ∧
      n ≤ c'.frames.countP fun f => f.busy = some .tick := by
  induction n with
  | zero => exact ⟨[], c, .nil c, ready, Nat.zero_le _⟩
  | succ n ih =>
    obtain ⟨es, c₁, runs, ready₁, deep⟩ := ih
    obtain ⟨c₂, f, played, ready₂, frames, busy⟩ := tickBegun_nests ready₁
    have legal : ∀ e ∈ tickBegun, Legal e := by
      intro e mem
      simp only [tickBegun, mem_cons, mem_replicate] at mem
      rcases mem with rfl | ⟨-, rfl⟩
      · exact ⟨_, _, _, rfl⟩
      · trivial
    have further := (Prog.Runs.of_play played).imp fun e mem _ _ => legal e mem
    refine ⟨es ++ tickBegun, c₂, runs.append further, ready₂, ?_⟩
    rw [frames, countP_cons_of_pos (by simp [busy])]
    omega

def sentByte : Cpu := (Prog.play exec boot unacknowledged).getD boot

theorem sentByte_runs : Prog.Runs exec (fun _ e => Legal e) boot unacknowledged sentByte := by
  have possible : (Prog.play exec boot unacknowledged).isSome := by decide +kernel
  obtain ⟨c, played⟩ := Option.isSome_iff_exists.1 possible
  have same : sentByte = c := by rw [sentByte, played, getD_some]
  rw [same]
  refine (Prog.Runs.of_play played).imp fun e mem _ _ => ?_
  simp only [unacknowledged, mem_append, mem_cons, mem_replicate, not_mem_nil, or_false] at mem
  rcases mem with ((rfl | rfl | rfl) | ⟨-, rfl⟩) | rfl
  · trivial
  · trivial
  · exact ⟨_, rfl⟩
  · trivial
  · trivial

theorem sentByte_ready : Ready sentByte where
  enabled := by decide +kernel
  free := by decide +kernel
  due := by decide +kernel

end Osnos.Irq
