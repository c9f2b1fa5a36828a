import Osnos.Net.Keep
import Osnos.Net.Statement

/-! A segment that answers what a call has sent, heard before the call has made its updates,
meets a socket that does not know of the transmission yet. -/
namespace Osnos.Net
open Sock Table Code Stmt

variable {t t' : Table} {sd : Sd} {g : Segment} {n : Nat} {r : Reply}

structure Acks (g : Segment) (next : Seq) : Prop where
  noRst : g.flags.rst = false
  ack : g.flags.ack = true
  next : g.ack = next

namespace Sock
variable {s : Sock}

theorem hear_synAck {next : Seq} (acks : Acks g next) (syn : g.flags.syn)
    (state : s.tcpState = .synSent) :
    s.hear g =
      if next = s.sndNxt then
        { s with sndUna := g.ack, rcvNxt := g.seq + 1, tcpState := .established }
      else { s with tcpState := .closed } := by
  rw [hear, state]
  dsimp only
  by_cases right : next = s.sndNxt
  all_goals simp [handleSynSent, acks.noRst, acks.ack, syn, acks.next, right]

end Sock

theorem succ_ne_seq (a : Seq) : a + 1 ≠ a := by
  intro same
  exact absurd (BitVec.self_eq_add_right.1 same.symm) (by decide)

variable {s : Sock}

section Connect
variable {ip : Ip} {port : Port} {now : Nat}

theorem connectBody_heard (sent : 2 ≤ n) (s : Sock) :
    (connectBody sd ip port now true).heard g n 0 s =
      hearAt g n 3 ((hearAt g n 2 (s.arm ip port (isn sd now))).advance 1) := by
  have early : 0 ≠ n ∧ 1 ≠ n := by omega
  simp [Body.heard, connectBody, follow, effect, hearAt, early]

theorem connectBody_safe (owned : Owned s) (closed : s.tcpState = .closed)
    (acks : Acks g (isn sd now + 1)) (syn : g.flags.syn) (sent : 2 ≤ n) :
    Safe effect (hearAt g n) StreamConn 0 (connectBody sd ip port now true) s := by
  have early : 0 ≠ n ∧ 1 ≠ n := by omega
  have conn : StreamConn s := ⟨owned.used, owned.stream, by simp [closed]⟩
  have armed : StreamConn (s.arm ip port (isn sd now)) := ⟨owned.used, owned.stream, by simp [arm]⟩
  simp only [connectBody, Safe, effect, hearAt, early, if_false, if_true]
  refine ⟨conn, armed, armed, ?_⟩
  split
  · rw [Sock.hear_synAck acks syn rfl]
    split
    all_goals exact ⟨owned.used, owned.stream, by simp [advance]⟩
  · exact ⟨owned.used, owned.stream, armed.connection⟩

theorem connect_timely (ready : Connects t sd ip port) (acks : Acks g (isn sd now + 1))
    (syn : g.flags.syn) (sent : 2 ≤ n) (back : n ≤ 3)
    (run : (connectBody sd ip port now true).Interrupted sd g n (t.autoBind sd).2 r t') :
    (t'.socks sd = ((t.connect sd ip port now true).2.socks sd).hear g ↔ n = 3) ∧
      ((t'.socks sd).tcpState = .established ↔ n = 3) := by
  obtain ⟨localIp, localPort, bound, -⟩ := t.autoBind_cases sd
  have bound := congrFun bound sd
  rw [edit_socks, Function.update_self] at bound
  have owned : Owned ((t.autoBind sd).2.socks sd) := by
    rw [bound]
    exact ⟨ready.owned.used, ready.owned.stream, ready.owned.mine⟩
  have closed : ((t.autoBind sd).2.socks sd).tcpState = .closed := by
    rw [bound]
    exact ready.closed
  have socket := run.socket (connectBody_safe owned closed acks syn sent)
  rw [connectBody_heard sent] at socket
  have late : (t.connect sd ip port now true).2.socks sd =
      (((t.autoBind sd).2.socks sd).arm ip port (isn sd now)).advance 1 := by
    rw [← connectBody_run ready now true]
    simp [Body.run, connectBody, Code.run, act]
  rw [late, socket]
  generalize (t.autoBind sd).2.socks sd = s
  have opened : (((s.arm ip port (isn sd now)).advance 1).hear g).tcpState = .established := by
    have right : isn sd now + 1 = ((s.arm ip port (isn sd now)).advance 1).sndNxt := rfl
    rw [Sock.hear_synAck acks syn rfl, if_pos right]
  obtain rfl | rfl : n = 2 ∨ n = 3 := by omega
  · have refused : (((s.arm ip port (isn sd now)).hear g).advance 1).tcpState = .closed := by
      have wrong : isn sd now + 1 ≠ (s.arm ip port (isn sd now)).sndNxt := succ_ne_seq _
      rw [Sock.hear_synAck acks syn rfl, if_neg wrong]
      rfl
    simp only [hearAt, if_true, Nat.reduceEqDiff, if_false, iff_false]
    refine ⟨fun same => ?_, ?_⟩
    · rw [← same, refused] at opened
      cases opened
    · rw [refused]
      decide
  · simp only [hearAt, if_true, Nat.reduceEqDiff, if_false, iff_true, true_and]
    exact opened

end Connect

section Close

def Closing (s : Sock) : Prop := s.tcpState = .established ∨ s.tcpState = .closeWait
def finState (s : Sock) : TcpState := if s.tcpState = .established then .finWait1 else .lastAck
def Sock.finSent (s : Sock) : Sock := (s.advance 1).turn (finState s)

theorem closeBody_heard (closing : Closing s) (sent : 2 ≤ n) : closeBody.heard g n 0 s =
      hearAt g n 5 ((hearAt g n 4
        ((hearAt g n 3 ((hearAt g n 2 s).advance 1)).turn (finState s))).mark true) := by
  have early : 0 ≠ n ∧ 1 ≠ n := by omega
  rcases closing with state | state
  all_goals simp [Body.heard, closeBody, finBody, follow, effect, hearAt, early, state, finState]

theorem Sock.finish_mine (mine : s.zombie = false) : s.finish = { s with tcpState := .closed } := by
  simp [finish, mine]

theorem hear_conn (conn : StreamConn s) (mine : s.zombie = false) (noRst : g.flags.rst = false) :
    StreamConn (s.hear g) ∧ (s.hear g).zombie = false := by
  have hears := s.hear_hears g
  generalize s.hear g = s' at hears
  cases hears with
  | ignored => exact ⟨conn, mine⟩
  | refused _ rst | reset _ rst => cases rst.symm.trans noRst
  | mismatched | opened | crossed | completed => exact ⟨⟨conn.used, conn.stream, by simp⟩, mine⟩
  | received _ taken =>
    obtain ⟨used, type, -, zombie, -⟩ := taken.keeps
    refine ⟨⟨used ▸ conn.used, type ▸ conn.stream, ?_⟩, zombie ▸ mine⟩
    rcases taken.receiving with state | state | state <;> simp [state]
  | fin _ taken =>
    obtain ⟨used, type, -, zombie, -⟩ := taken.keeps
    exact ⟨⟨used ▸ conn.used, type ▸ conn.stream, by simp⟩, zombie ▸ mine⟩
  | finLast s' taken =>
    obtain ⟨used, type, -, zombie, -⟩ := taken.keeps
    have mine : s'.takeFin.zombie = false := zombie.trans mine
    rw [finish_mine mine]
    exact ⟨⟨used ▸ conn.used, type ▸ conn.stream, by simp⟩, mine⟩
  | acked =>
    rw [finish_mine mine]
    exact ⟨⟨conn.used, conn.stream, by simp⟩, mine⟩

theorem hearAt_conn {k : Nat} (conn : StreamConn s ∧ s.zombie = false)
    (noRst : g.flags.rst = false) : StreamConn (hearAt g n k s) ∧
    (hearAt g n k s).zombie = false := by
  unfold hearAt
  split
  · exact hear_conn conn.1 conn.2 noRst
  · exact conn

theorem closeBody_safe (owned : Owned s) (closing : Closing s)
    (noRst : g.flags.rst = false) (sent : 2 ≤ n) :
    Safe effect (hearAt g n) StreamConn 0 closeBody s := by
  have early : 0 ≠ n ∧ 1 ≠ n := by omega
  have connection : s.tcpState ≠ .listen := by
    rcases closing with state | state <;> simp [state]
  have conn : StreamConn s ∧ s.zombie = false := ⟨⟨owned.used, owned.stream, connection⟩, owned.mine⟩
  have fin : ∀ state, state ≠ .listen →
      Safe effect (hearAt g n) StreamConn 1 (finBody state) s := by
    intro state other
    have sent := hearAt_conn (n := n) (k := 2) conn noRst
    have sent : StreamConn ((hearAt g n 2 s).advance 1) ∧ ((hearAt g n 2 s).advance 1).zombie = false :=
      ⟨⟨sent.1.used, sent.1.stream, sent.1.connection⟩, sent.2⟩
    have counted := (hearAt_conn (n := n) (k := 3) sent noRst)
    have turned : StreamConn ((hearAt g n 3 ((hearAt g n 2 s).advance 1)).turn state) ∧
        (hearAt g n 3 ((hearAt g n 2 s).advance 1)).zombie = false :=
      ⟨⟨counted.1.used, counted.1.stream, other⟩, counted.2⟩
    have marked := (hearAt_conn (n := n) (k := 4) turned noRst).1
    simp only [finBody, Safe, effect]
    rw [hearAt, if_neg early.2]
    exact ⟨conn.1, conn.1, sent.1, turned.1, { marked with }⟩
  rw [closeBody, Safe]
  refine ⟨conn.1, ?_⟩
  rw [hearAt, if_neg early.1]
  rcases closing with state | state
  all_goals
    simp only [state]
    exact fin _ (by decide)

def Sock.filled (s : Sock) (g : Segment) : Ring Byte 32768 :=
  if g.payload.length > 0 ∧ g.seq = s.rcvNxt then s.tcpRx.enqueue g.payload else s.tcpRx

theorem Sock.acceptData_fst (s : Sock) (g : Segment) : (s.acceptData g).1 =
      { s with tcpRx := s.filled g, rcvNxt := s.rcvNxt + BitVec.ofNat 32 (s.stores g).length } := by
  unfold acceptData filled stores
  split
  · rfl
  · simp

def Sock.finAcked (s : Sock) (g : Segment) : Sock :=
  { s with tcpRx := s.filled g, rcvNxt := s.rcvNxt + BitVec.ofNat 32 (s.stores g).length
           sndUna := g.ack, tcpState := .finWait2 }

theorem Sock.handleFinWait1_acked (acks : Acks g s.sndNxt) : (s.handleFinWait1 g).1 =
      if (s.finAcked g).finInOrder g then (s.finAcked g).takeFin.finish else s.finAcked g := by
  unfold handleFinWait1
  simp only [acceptData_fst, acks.noRst, acks.ack, acks.next, true_and, if_true, Bool.false_eq_true,
    if_false]
  rw [finAcked, acks.next]
  split <;> rfl

theorem fin_acked (state : s.tcpState = .finWait1 ∨ s.tcpState = .lastAck)
    (acks : Acks g s.sndNxt) :
    ∃ x : Sock, x.used = s.used ∧ ((x.tcpState = .finWait2 ∧ ∀ z, (s.mark z).hear g = x.mark z) ∨
        ∀ z, (s.mark z).hear g = (x.mark z).finish) := by
  rcases state with state | state
  · have heard : ∀ z, (s.mark z).hear g =
        if ((s.mark z).finAcked g).finInOrder g then ((s.mark z).finAcked g).takeFin.finish
        else (s.mark z).finAcked g := by
      intro z
      have acks : Acks g (s.mark z).sndNxt := acks
      have state : (s.mark z).tcpState = .finWait1 := state
      rw [← handleFinWait1_acked acks, Sock.hear, state]
    by_cases fin : (s.finAcked g).finInOrder g = true
    · refine ⟨(s.finAcked g).takeFin, rfl, .inr fun z => ?_⟩
      have fin : ((s.mark z).finAcked g).finInOrder g := fin
      rw [heard, if_pos fin]
      rfl
    · refine ⟨s.finAcked g, rfl, .inl ⟨rfl, fun z => ?_⟩⟩
      have fin : ¬((s.mark z).finAcked g).finInOrder g = true := fin
      rw [heard, if_neg fin]
      rfl
  · refine ⟨s, rfl, .inr fun z => ?_⟩
    have state : (s.mark z).tcpState = .lastAck := state
    have next : g.ack = (s.mark z).sndNxt := acks.next
    simp [Sock.hear, state, handleLastAck, acks.noRst, acks.ack, next]

def PastFin (s : Sock) : Prop := s.tcpState ≠ .finWait1 ∧ s.tcpState ≠ .lastAck

theorem fin_marked (state : s.tcpState = .finWait1 ∨ s.tcpState = .lastAck)
    (acks : Acks g s.sndNxt) (used : s.used) (mine : s.zombie = false) :
    PastFin ((s.mark true).hear g) ∧ PastFin ((s.hear g).mark true) ∧
      ((s.hear g).mark true = (s.mark true).hear g ↔ ((s.mark true).hear g).used) := by
  obtain ⟨x, kept, outcome⟩ := fin_acked state acks
  have same : s = s.mark false := by rw [mark, ← mine]
  rcases outcome with ⟨half, heard⟩ | ended
  · have now := heard false
    rw [← same] at now
    rw [now, heard]
    refine ⟨?_, ?_, iff_of_true rfl (kept.trans used)⟩
    all_goals simp [PastFin, mark, half]
  have now := ended false
  rw [← same, finish_mine rfl] at now
  have freed : ((x.mark true).finish).used = false := by simp [Sock.finish, mark]
  rw [now, ended]
  refine ⟨?_, ?_, iff_of_false (fun same => ?_) (by simp [freed])⟩
  · simp [PastFin, finish_state]
  · simp [PastFin, mark]
  · rw [← same] at freed
    cases freed.symm.trans (kept.trans used)

theorem close_timely (owned : Owned (t.socks sd)) (closing : Closing (t.socks sd))
    (acks : Acks g ((t.socks sd).sndNxt + 1)) (sent : 2 ≤ n) (back : n ≤ 5)
    (run : closeBody.Interrupted sd g n t r t') :
    (t'.socks sd = ((t.closeTcp sd).2.socks sd).hear g ↔
        n = 5 ∨ n = 4 ∧ (((t.closeTcp sd).2.socks sd).hear g).used) ∧
      (PastFin (t'.socks sd) ↔ 4 ≤ n) := by
  have socket := run.socket (closeBody_safe owned closing acks.noRst sent)
  rw [closeBody_heard closing sent] at socket
  have late : (t.closeTcp sd).2.socks sd = (t.socks sd).finSent.mark true := by
    rw [← closeBody_run owned]
    rcases closing with state | state
    all_goals simp [Body.run, closeBody, finBody, Code.run, act, state, finSent, finState]
  have used := owned.used
  have mine := owned.mine
  rw [late, socket]
  clear late socket run owned
  generalize t.socks sd = s at *
  have state : s.finSent.tcpState = .finWait1 ∨ s.finSent.tcpState = .lastAck := by
    rcases closing with state | state
    · exact .inl (by simp [finSent, turn, finState, state])
    · exact .inr (by simp [finSent, turn, finState, state])
  obtain ⟨past, pastEarly, marked⟩ := fin_marked state acks used mine
  have stuck : ∀ y : Sock, y.tcpState = s.finSent.tcpState →
      (y = (s.finSent.mark true).hear g ↔ False) ∧ (PastFin y ↔ False) := by
    intro y turned
    have waiting : ¬PastFin y := by
      rintro ⟨fin, last⟩
      rcases state with state | state
      · exact fin (turned.trans state)
      · exact last (turned.trans state)
    exact ⟨iff_of_false (fun same => waiting (same ▸ past)) id, iff_of_false waiting id⟩
  obtain rfl | rfl | rfl | rfl : n = 2 ∨ n = 3 ∨ n = 4 ∨ n = 5 := by omega
  · simpa [hearAt] using stuck ((((s.hear g).advance 1).turn (finState s)).mark true) rfl
  · simpa [hearAt] using stuck ((((s.advance 1).hear g).turn (finState s)).mark true) rfl
  · simpa [hearAt, finSent] using And.intro marked pastEarly
  · simpa [hearAt, finSent] using past

end Close

end Osnos.Net
