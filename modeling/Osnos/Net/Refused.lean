import Osnos.Net.Stream
import Osnos.Net.Tuples

/-! A failed `sock_connect` is remembered in `remote_port` only, and the reset that refuses
it clears that field. -/
namespace Osnos.Net
open Function Sock Table List

inductive Attempt
  | none | asked | refused
  deriving DecidableEq, Repr

def Refuses (t : Table) (g : Segment) (i : Sd) : Prop :=
  t.lookup g = some i ∧ g.flags.rst = true ∧
    ((t.socks i).tcpState = .synSent ∨ (t.socks i).tcpState = .synRcvd)

instance (t : Table) (g : Segment) (i : Sd) : Decidable (Refuses t g i) :=
  inferInstanceAs (Decidable (_ ∧ _))

def Attempt.see (a : Attempt) (t : Table) (c : Call) (s' : Sock) (i : Sd) : Attempt :=
  if (t.socks i).used = false ∨ s'.used = false then .none
  else
    match c with
    | .connect j .. =>
      if j ≠ i then a
      else if s'.tcpState = .synSent then .asked
      else if a = .refused then .none else a
    | .segment g _ => if a = .asked ∧ Refuses t g i then .refused else a
    | _ => a

def attempts : Observer (Sd → Attempt) where
  start := fun _ => .none
  see h w c _ w' := fun i => (h i).see w.table c (w'.table.socks i) i

def Reports (p : World × (Sd → Attempt)) (c : Call) : Prop :=
  ∀ i ip port now d, c = .connect i ip port now d → p.2 i = .refused →
    (p.1.table.call c).1.reply = .error

/-- A connect after a refusal finds a listener, names no peer, or its SYN cannot be sent. -/
def FailsAnyway (p : World × (Sd → Attempt)) (c : Call) : Prop :=
  ∀ i ip port now d, c = .connect i ip port now d → p.2 i = .refused →
    (p.1.table.socks i).tcpState = .listen ∨ ip = 0 ∨ port = 0 ∨ d = false

structure Sock.Spent (s : Sock) : Prop where
  used : s.used = true
  stream : s.type = .stream
  bound : s.localPort ≠ 0
  forgotten : s.remotePort = 0
  state : s.tcpState = .closed ∨ s.tcpState = .listen

structure Remembers (p : World × (Sd → Attempt)) : Prop where
  bound : p.1.table.Bound
  spent : ∀ i, p.2 i = .refused → (p.1.table.socks i).Spent

section
variable {t : Table} {c : Call} {i : Sd} {s' : Sock} {g : Segment}

theorem Move.spent (move : Move t c i s') (spent : (t.socks i).Spent) (stays : s'.used)
    (other : ∀ ip port now d, c ≠ .connect i ip port now d) : s'.Spent := by
  obtain ⟨used, stream, bound, forgotten, state⟩ := spent
  have alive {s : Sock} (used : s.used) (free : s.used = false) : False :=
    absurd (used.symm.trans free) (by decide)
  cases move with
  | create _ free | child _ _ _ free => exact (alive used free).elim
  | bind _ _ _ unbound => exact absurd unbound bound
  | listen => exact ⟨used, stream, bound, forgotten, .inr rfl⟩
  | connectUdp _ _ _ _ _ dgram => cases stream.symm.trans dgram
  | connect ip _ port _ _ now d _ _ _ _ _ call => exact absurd call (other ip port now d)
  | datagrams _ _ dgram | drop _ dgram => exact absurd stream dgram
  | send _ _ _ _ _ _ open_ => rcases open_ with h | h <;> simp [h] at state
  | close =>
    unfold Sock.close at stays
    rcases state with h | h <;> simp [h] at stays
  | hear _ _ _ found connection =>
    rcases state with h | h
    · exact absurd h (t.lookup_heard found).opened
    · exact absurd h connection
  | tick now =>
    have ticks := (t.socks i).tick_ticks now
    generalize ((t.socks i).tick now).1 = s' at ticks stays
    cases ticks with
    | gaveUp =>
      rw [(finish_used stays).2]
      exact ⟨used, stream, bound, forgotten, .inl rfl⟩
    | _ => exact ⟨used, stream, bound, forgotten, state⟩
  | _ => exact ⟨used, stream, bound, forgotten, state⟩

theorem Hears.spent {s : Sock} (hears : Hears s g s') (rst : g.flags.rst)
    (opening : s.tcpState = .synSent ∨ s.tcpState = .synRcvd) (used : s.used)
    (stream : s.type = .stream) (bound : s.localPort ≠ 0) (stays : s'.used) : s'.Spent := by
  cases hears with
  | ignored _ unbroken =>
    refine absurd (.inl ⟨rst, ?_⟩) unbroken
    rcases opening with h | h
    · exact .inr h
    · exact .inl (.inr (.inl h))
  | refused => exact ⟨used, stream, bound, rfl, .inl rfl⟩
  | reset live =>
    rw [reset_used used, Bool.not_eq_true'] at stays
    obtain ⟨type, _, port, _⟩ := reset_kept stays
    have stays : s.reset.used := by simp [reset_used used, stays]
    refine ⟨stays, type.trans stream, port ▸ bound, rfl, ?_⟩
    exact (reset_ended live (by simpa [reset_used used] using stays)).2
  | mismatched _ noRst | opened _ noRst | crossed _ noRst | acked _ noRst =>
    cases rst.symm.trans noRst
  | completed completes => cases rst.symm.trans completes.noRst
  | received _ taken | fin _ taken | finLast _ taken => cases rst.symm.trans taken.noRst

end

theorem Table.autoBind_bound {t : Table} {i : Sd} (bound : (t.socks i).localPort ≠ 0) :
    t.autoBind i = (.ok 0, t) := if_neg bound

theorem Table.connect_spent {t : Table} {i : Sd} (spent : (t.socks i).Spent)
    (closed : (t.socks i).tcpState = .closed) {ip : Ip} {port : Port} (real : ¬ (ip = 0 ∨ port = 0))
    (now : Nat) (d : Bool) : (t.connect i ip port now d).1 = if d then .again else .error := by
  obtain ⟨used, stream, bound, forgotten, _⟩ := spent
  simp only [connect, used, stream, closed, forgotten, Bool.not_true, Bool.false_eq_true, if_false,
    reduceCtorEq, ne_eq, not_true_eq_false, if_neg real, autoBind_bound bound]
  cases d <;> rfl

theorem Table.connect_error_iff {t : Table} {i : Sd} (spent : (t.socks i).Spent) (ip : Ip)
    (port : Port) (now : Nat) (d : Bool) : (t.connect i ip port now d).1 = .error ↔
      (t.socks i).tcpState = .listen ∨ ip = 0 ∨ port = 0 ∨ d = false := by
  rcases spent.state with closed | listen
  · by_cases nowhere : ip = 0 ∨ port = 0
    · refine iff_of_true ?_ (.inr (or_assoc.1 (.inl nowhere)))
      simp only [connect, spent.used, spent.stream, closed, spent.forgotten, Bool.not_true,
        Bool.false_eq_true, if_false, reduceCtorEq, ne_eq, not_true_eq_false, if_pos nowhere]
    · rw [connect_spent spent closed nowhere]
      cases d with
      | false => exact iff_of_true rfl (.inr (.inr (.inr rfl)))
      | true => exact iff_of_false nofun (by simpa [closed] using nowhere)
  · refine iff_of_true ?_ (.inl listen)
    simp [connect, spent.used, spent.stream, listen]

namespace Remembers
variable {p p' : World × (Sd → Attempt)} {c : Call} {a : Answer}

theorem boot : Remembers (.boot, attempts.start) :=
  ⟨fun i used => by simp [World.boot, unused] at used, fun i refused => by cases refused⟩

theorem step (inv : Remembers p) (run : watch attempts c p = some (a, p')) : Remembers p' := by
  have step := Stepped.of_watch run
  refine ⟨fun i stays opened => (step.move i).port inv.bound stays opened, fun i refused => ?_⟩
  rw [step.seen] at refused
  change Attempt.see _ _ _ _ _ = _ at refused
  unfold Attempt.see at refused
  split at refused
  · cases refused
  rename_i both
  obtain ⟨used, stays⟩ := not_or.1 both
  have used : (p.1.table.socks i).used := by simpa using used
  have stays : (p'.1.table.socks i).used := by simpa using stays
  have keeps (before : p.2 i = .refused) (other : ∀ ip port now d, c ≠ .connect i ip port now d) :
      (p'.1.table.socks i).Spent :=
    (step.move i).spent (inv.spent i before) stays other
  cases c with
  | connect j ip port now d =>
    dsimp only at refused
    split_ifs at refused with elsewhere _ before
    · refine keeps refused fun _ _ _ _ call => ?_
      cases call
      exact elsewhere rfl
    · exact absurd refused before
  | segment g now =>
    dsimp only at refused
    split_ifs at refused with answered
    · obtain ⟨_, found, rst, opening⟩ := answered
      have heard := p.1.table.lookup_heard found
      have connection : (p.1.table.socks i).tcpState ≠ .listen := by
        rcases opening with h | h <;> simp [h]
      have here : p'.1.table.socks i = (p.1.table.socks i).hear g := by
        rw [step.table]
        exact handleSegment_hear now found connection
      rw [here] at stays ⊢
      exact ((p.1.table.socks i).hear_hears g).spent rst opening used heard.stream
        (inv.bound i used heard.opened) stays
    · exact keeps refused nofun
  | _ => exact keeps refused nofun

theorem reports_iff (inv : Remembers p) (c : Call) : Reports p c ↔ FailsAnyway p c := by
  have one (i ip port now d) (call : c = .connect i ip port now d) (refused : p.2 i = .refused) :
      (p.1.table.call c).1.reply = .error ↔
        (p.1.table.socks i).tcpState = .listen ∨ ip = 0 ∨ port = 0 ∨ d = false := by
    subst call
    exact connect_error_iff (inv.spent i refused) ip port now d
  constructor
  · intro reports i ip port now d call refused
    exact (one i ip port now d call refused).1 (reports i ip port now d call refused)
  · intro fails i ip port now d call refused
    exact (one i ip port now d call refused).2 (fails i ip port now d call refused)

end Remembers

/-- In a run from boot every refusal is reported by the next connect exactly if that connect
fails for another reason: the socket has become a listener, the call names no peer, or its
SYN cannot be sent. -/
theorem refusals_reported (calls : List Call) (p : World × (Sd → Attempt)) :
    Prog.Runs (watch attempts) Reports (.boot, attempts.start) calls p ↔
      Prog.Runs (watch attempts) FailsAnyway (.boot, attempts.start) calls p :=
  Prog.Runs.congr (fun _ c inv => Remembers.reports_iff inv c)
    (fun _ _ _ _ inv _ run => inv.step run) .boot

structure Round where
  now : Nat
  delivered : Bool
  arrives : List Segment

/-- `connect` of the C library; `none` while it has not returned. -/
def connectLoop (i : Sd) (ip : Ip) (port : Port) : Table → List Round → Option Reply × Table
  | t, [] => (none, t)
  | t, r :: rounds =>
    let done := t.connect i ip port r.now r.delivered
    match done.1 with
    | .again =>
      connectLoop i ip port (r.arrives.foldl (fun t g => t.handleSegment g r.now) done.2) rounds
    | reply => (some reply, done.2)

def refusal (ip : Ip) (port localPort : Port) : Segment :=
  { srcIp := ip, srcPort := port, dstPort := localPort, seq := 0, ack := 0
    flags := { rst := true, ack := true }, payload := [] }

structure Table.Alone (t : Table) (i : Sd) (localPort : Port) : Prop where
  spent : (t.socks i).Spent
  closed : (t.socks i).tcpState = .closed
  port : (t.socks i).localPort = localPort
  others : ∀ j, j ≠ i → (t.socks j).used = false

namespace Table
variable {t : Table} {i : Sd} {ip : Ip} {port localPort : Port}

theorem lookup_only {g : Segment} (here : t.connected g i)
    (others : ∀ j, j ≠ i → (t.socks j).used = false) : t.lookup g = some i := by
  unfold lookup
  cases found : (finRange 8).find? (t.connected g) with
  | none => exact absurd here (List.find?_eq_none.1 found i (mem_finRange i))
  | some j =>
    have used := (Sock.connected_iff.1 (find?_some found)).1.used
    have same : j = i := by
      by_contra other
      cases used.symm.trans (others j other)
    rw [same, Option.some_or]

def asking (s : Sock) (i : Sd) (ip : Ip) (port : Port) (now : Nat) : Sock :=
  let isn : Seq := BitVec.ofNat 32 now + BitVec.ofNat 32 i * 1000
  { s with remoteIp := ip, remotePort := port, sndNxt := isn + 1, sndUna := isn, rcvNxt := 0
           tcpState := .synSent }

theorem Alone.connect (alone : t.Alone i localPort) (real : ¬ (ip = 0 ∨ port = 0)) (now : Nat) :
    (t.connect i ip port now true).1 = .again ∧ (t.connect i ip port now true).2.socks =
        update t.socks i (asking (t.socks i) i ip port now) ∧
      (t.connect i ip port now true).2.sent.length = t.sent.length + 1 := by
  obtain ⟨⟨used, stream, bound, forgotten, _⟩, closed, _⟩ := alone
  simp only [Table.connect, used, stream, closed, forgotten, Bool.not_true, Bool.false_eq_true,
    if_false, reduceCtorEq, ne_eq, not_true_eq_false, if_neg real, autoBind_bound bound]
  simp [asking]

theorem refused_closes (t : Table) (i : Sd) (s : Sock) (ip : Ip) (port : Port) (now : Nat)
    (bound : s.localPort = localPort) (used : s.used) (stream : s.type = .stream)
    (here : t.socks i = asking s i ip port now)
    (others : ∀ j, j ≠ i → (t.socks j).used = false) :
    (t.handleSegment (refusal ip port localPort) now).socks = update t.socks i
        { asking s i ip port now with tcpState := .closed, remoteIp := 0, remotePort := 0 } ∧
      (t.handleSegment (refusal ip port localPort) now).sent = t.sent := by
  have connected : t.connected (refusal ip port localPort) i := by
    simp [Table.connected, here, asking, refusal, used, stream, bound]
  have state : (t.socks i).tcpState = .synSent := by simp [here, asking]
  have rst : (refusal ip port localPort).flags.rst := rfl
  unfold handleSegment
  rw [lookup_only connected others]
  simp only [state]
  rw [handleSynSent, if_pos rst, here]
  exact ⟨rfl, by simp [put]⟩

theorem Alone.round (alone : t.Alone i localPort) (real : ¬ (ip = 0 ∨ port = 0)) (now : Nat) :
    ((t.connect i ip port now true).2.handleSegment (refusal ip port localPort) now).Alone i
        localPort ∧
      ((t.connect i ip port now true).2.handleSegment (refusal ip port localPort) now).sent.length =
        t.sent.length + 1 := by
  obtain ⟨_, socks, sent⟩ := alone.connect real now
  obtain ⟨⟨used, stream, bound, forgotten, state⟩, closed, here, others⟩ := alone
  obtain ⟨after, log⟩ := refused_closes (t.connect i ip port now true).2 i (t.socks i) ip port now
    here used stream
    (by rw [socks, update_self]) fun j other => by
      rw [socks, update_of_ne other]
      exact others j other
  refine ⟨⟨?_, ?_, ?_, ?_⟩, log ▸ sent⟩
  · rw [after, update_self]
    exact ⟨used, stream, bound, rfl, .inl rfl⟩
  · rw [after, update_self]
  · rw [after, update_self]
    exact here
  · intro j other
    rw [after, update_of_ne other, socks, update_of_ne other]
    exact others j other

theorem Alone.loop (alone : t.Alone i localPort) (real : ¬ (ip = 0 ∨ port = 0)) (now n : Nat) :
    let rounds := replicate n
      { now := now, delivered := true, arrives := [refusal ip port localPort] }
    (connectLoop i ip port t rounds).1 = none ∧
      (connectLoop i ip port t rounds).2.sent.length = t.sent.length + n := by
  induction n generalizing t with
  | zero => exact ⟨rfl, rfl⟩
  | succ n ih =>
    obtain ⟨next, sent⟩ := alone.round real now
    have reply := (alone.connect real now).1
    dsimp only
    rw [replicate_succ, connectLoop]
    simp only [reply, foldl_cons, foldl_nil]
    obtain ⟨waits, log⟩ := ih next
    exact ⟨waits, log.trans (by omega)⟩

end Table

def clientRefused : List Call :=
  [.create .stream, .connect 0 0x0A000202 80 100 true,
    .segment (refusal 0x0A000202 80 40000) 100]

/-- The next connect sends another SYN and returns -2, and so does every one after it: the
library's loop does not end. -/
theorem refusal_forgotten :
    Prog.Runs (watch attempts) (fun _ _ => True) (.boot, attempts.start) clientRefused
        (observed attempts clientRefused) ∧
      ¬ Reports (observed attempts clientRefused) (.connect 0 0x0A000202 80 110 true) ∧
      ∀ n, (connectLoop 0 0x0A000202 80 (observed attempts clientRefused).1.table
        (List.replicate n { now := 110, delivered := true
                            arrives := [refusal 0x0A000202 80 40000] })).1 = none := by
  have alone : (observed attempts clientRefused).1.table.Alone 0 40000 :=
    ⟨⟨by decide +kernel, by decide +kernel, by decide +kernel, by decide +kernel,
      by decide +kernel⟩, by decide +kernel, by decide +kernel, by decide +kernel⟩
  refine ⟨observed_runs (by decide +kernel), fun reports => ?_, fun n => ?_⟩
  · have error := reports 0 _ _ _ _ rfl (by decide +kernel)
    have real : ¬ ((0x0A000202 : Ip) = 0 ∨ (80 : Port) = 0) := by decide
    have again := (alone.connect real 110).1
    cases again.symm.trans error
  · exact (alone.loop (by decide) 110 n).1

end Osnos.Net
