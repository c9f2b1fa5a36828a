import Osnos.Net.Run

/-! What one call can do to one slot. -/
namespace Osnos.Net
open List

structure Heard (s : Sock) (g : Segment) : Prop where
  used : s.used = true
  stream : s.type = .stream
  port : s.localPort = g.dstPort
  opened : s.tcpState ≠ .closed
  peer : s.tcpState ≠ .listen → s.remoteIp = g.srcIp ∧ s.remotePort = g.srcPort

theorem Table.lookup_heard {t : Table} {g : Segment} {i : Sd} (found : t.lookup g = some i) :
    Heard (t.socks i) g := by
  rcases Option.or_eq_some_iff.1 found with found | ⟨_, found⟩
  · have facts := find?_some found
    simp only [Table.connected, Bool.and_eq_true, beq_iff_eq, bne_iff_ne] at facts
    obtain ⟨⟨⟨⟨⟨⟨used, stream⟩, port⟩, _⟩, opened⟩, ip⟩, remote⟩ := facts
    exact ⟨used, stream, port, opened, fun _ => ⟨ip, remote⟩⟩
  have facts := find?_some found
  simp only [Table.listening, Bool.and_eq_true, beq_iff_eq] at facts
  obtain ⟨⟨⟨used, stream⟩, port⟩, listen⟩ := facts
  refine ⟨used, stream, port, ?_, fun other => absurd listen other⟩
  rw [listen]
  decide

structure Completes (s : Sock) (g : Segment) : Prop where
  state : s.tcpState = .synRcvd
  noRst : g.flags.rst = false
  acks : g.flags.ack = true ∧ g.ack = s.sndNxt

def Sock.hear (s : Sock) (g : Segment) : Sock :=
  match s.tcpState with
  | .synSent => (s.handleSynSent g).1
  | .synRcvd =>
    if g.flags.rst then s.reset
    else if g.flags.ack ∧ g.ack = s.sndNxt then { s with sndUna := g.ack, tcpState := .established }
    else s
  | .established => (s.handleEstablished g).1
  | .finWait1 => (s.handleFinWait1 g).1
  | .finWait2 => (s.handleFinWait2 g).1
  | .closeWait => if g.flags.rst then s.reset else s
  | .lastAck | .closing => (s.handleLastAck g).1
  | .listen | .closed | .timeWait => s

def Sock.close (s : Sock) : Sock :=
  match s.tcpState with
  | .established => { s with sndNxt := s.sndNxt + 1, tcpState := .finWait1, zombie := true }
  | .closeWait => { s with sndNxt := s.sndNxt + 1, tcpState := .lastAck, zombie := true }
  | .listen | .closed => { s with used := false }
  | _ => { s with zombie := true }

def Sock.spawned (s : Sock) (i parent : Sd) (g : Segment) (now : Nat) : Sock :=
  { s.child i parent g now with sndNxt := (s.child i parent g now).sndNxt + 1 }

inductive Move (t : Table) (c : Call) (i : Sd) : Sock → Prop
  | same : Move t c i (t.socks i)
  | create (type : SockType) (free : (t.socks i).used = false) (call : c = .create type)
      (s' : Sock) (made : s' = (t.socks i).create type ∨ s' = (t.socks i).createRaw ∧ type = .raw) :
      Move t c i s'
  | child (g : Segment) (now : Nat) (parent : Sd) (free : (t.socks i).used = false)
      (call : c = .segment g now) (found : t.lookup g = some parent)
      (listener : (t.socks parent).tcpState = .listen) (syn : g.flags.syn = true) :
      Move t c i ((t.socks i).spawned i parent g now)
  | bind (ip : Ip) (port : Port) (used : (t.socks i).used = true)
      (unbound : (t.socks i).localPort = 0) (call : c.sd = some i) :
      Move t c i { t.socks i with localIp := ip, localPort := port }
  | listen (backlog : Int) (n : Nat) (used : (t.socks i).used = true)
      (stream : (t.socks i).type = .stream) (bound : (t.socks i).localPort ≠ 0)
      (call : c = .listen i backlog) :
      Move t c i { t.socks i with tcpState := .listen, backlog := n }
  | connectUdp (localIp remoteIp : Ip) (localPort remotePort : Port)
      (used : (t.socks i).used = true) (dgram : (t.socks i).type = .dgram) (call : c.sd = some i)
      (bound : (t.socks i).localPort ≠ 0 → localPort = (t.socks i).localPort) :
      Move t c i { t.socks i with localIp, localPort, remoteIp, remotePort }
  | connect (ip localIp : Ip) (port localPort : Port) (isn : Seq) (now : Nat) (delivered : Bool)
      (used : (t.socks i).used = true) (stream : (t.socks i).type = .stream)
      (closed : (t.socks i).tcpState = .closed) (fresh : (t.socks i).remotePort = 0)
      (real : port ≠ 0) (call : c = .connect i ip port now delivered)
      (bound : (t.socks i).localPort ≠ 0 → localPort = (t.socks i).localPort)
      (named : localPort ≠ 0) :
      Move t c i (if delivered then
          { t.socks i with
            localIp, localPort, remoteIp := ip, remotePort := port, sndNxt := isn + 1
            sndUna := isn, rcvNxt := 0, tcpState := .synSent }
        else
          { t.socks i with
            localIp, localPort, remoteIp := 0, remotePort := 0, sndNxt := isn, sndUna := isn
            rcvNxt := 0, tcpState := .closed })
  | accept (interrupted : Bool) (child : Sd) (q : Ring Sd 4) (used : (t.socks i).used = true)
      (listener : (t.socks i).tcpState = .listen)
      (popped : (t.socks i).acceptQ.pop = some (child, q)) (call : c = .accept i interrupted) :
      Move t c i { t.socks i with acceptQ := q }
  | datagrams (rx : List Dgram) (used : (t.socks i).used = true)
      (other : (t.socks i).type ≠ .stream) : Move t c i { t.socks i with rx := rx }
  | recv (len : Nat) (used : (t.socks i).used = true) (stream : (t.socks i).type = .stream)
      (some_bytes : 0 < (t.socks i).tcpRx.count) (call : c = .recv i len false) :
      Move t c i { t.socks i with tcpRx := ((t.socks i).tcpRx.dequeue len).2 }
  | send (sndNxt retxSeq : Seq) (buf : List Byte) (sentMs : Nat) (used : (t.socks i).used = true)
      (stream : (t.socks i).type = .stream)
      (state : (t.socks i).tcpState = .established ∨ (t.socks i).tcpState = .closeWait)
      (call : ∃ bytes now delivered, c = .send i bytes now delivered) :
      Move t c i { t.socks i with
        sndNxt, retxSeq, retxBuf := buf, retxSentMs := sentMs, retxCount := 0 }
  | close (used : (t.socks i).used = true) (stream : (t.socks i).type = .stream)
      (call : c = .close i) : Move t c i (t.socks i).close
  | drop (used : (t.socks i).used = true) (other : (t.socks i).type ≠ .stream)
      (call : c = .close i) :
      Move t c i { t.socks i with used := false, localPort := 0, rx := [] }
  | hear (g : Segment) (now : Nat) (call : c = .segment g now) (found : t.lookup g = some i)
      (connection : (t.socks i).tcpState ≠ .listen) : Move t c i ((t.socks i).hear g)
  | enlist (g : Segment) (now : Nat) (child : Sd) (call : c = .segment g now)
      (found : t.lookup g = some child) (completes : Completes (t.socks child) g)
      (parent : (t.socks child).parentSd = some i) (used : (t.socks i).used = true)
      (listener : (t.socks i).tcpState = .listen) (room : (t.socks i).acceptQ.count < 4) :
      Move t c i { t.socks i with acceptQ := (t.socks i).acceptQ.push child }
  | tick (now : Nat) (call : c = .tick now) : Move t c i ((t.socks i).tick now).1

namespace Table
variable (t : Table)

@[simp] theorem edit_socks (i : Sd) (f : Sock → Sock) :
    (t.edit i f).socks = Function.update t.socks i (f (t.socks i)) := rfl

@[simp] theorem edit_sent (i : Sd) (f : Sock → Sock) : (t.edit i f).sent = t.sent := rfl
@[simp] theorem emit_socks (out : List Sent) : (t.emit out).socks = t.socks := rfl
@[simp] theorem emit_sent (out : List Sent) : (t.emit out).sent = t.sent ++ out := rfl

theorem freeSlot_some {i : Sd} (found : t.freeSlot = some i) : (t.socks i).used = false := by
  have := find?_some found
  simpa using this

theorem edit_move {c : Call} {j : Sd} {f : Sock → Sock} (here : Move t c j (f (t.socks j)))
    (i : Sd) : Move t c i ((t.edit j f).socks i) := by
  rw [edit_socks]
  by_cases eq : i = j
  · subst eq
    rwa [Function.update_self]
  · rw [Function.update_of_ne eq]
    exact .same

theorem create_move (type : SockType) (i : Sd) :
    Move t (.create type) i ((t.create type).2.socks i) := by
  unfold create
  cases found : t.freeSlot with
  | none => exact .same
  | some =>
    exact t.edit_move (f := fun s => s.create type)
      (.create type (t.freeSlot_some found) rfl _ (.inl rfl)) i

theorem createRaw_move (i : Sd) : Move t (.create .raw) i (t.createRaw.2.socks i) := by
  unfold createRaw
  cases found : t.freeSlot with
  | none => exact .same
  | some =>
    exact t.edit_move (f := Sock.createRaw)
      (.create .raw (t.freeSlot_some found) rfl _ (.inr ⟨rfl, rfl⟩)) i

theorem bind_cases (sd : Sd) (ip : Ip) (port : Port) : (t.bind sd ip port).2.socks = t.socks ∨
      ∃ p, (t.socks sd).used ∧ (t.socks sd).localPort = 0 ∧ (t.bind sd ip port).2.socks =
          (t.edit sd fun s => { s with localIp := ip, localPort := p }).socks := by
  unfold bind
  dsimp only
  split
  · exact .inl rfl
  rename_i used
  split
  · exact .inl rfl
  rename_i unbound
  have used : (t.socks sd).used := by simpa using used
  have unbound : (t.socks sd).localPort = 0 := by simpa using unbound
  split
  · split
    · exact .inl rfl
    next p _ =>
      exact .inr ⟨p, used, unbound, rfl⟩
  · split
    · exact .inl rfl
    · exact .inr ⟨port, used, unbound, rfl⟩

theorem bind_move (sd : Sd) (ip : Ip) (port : Port) (i : Sd) :
    Move t (.bind sd ip port) i ((t.bind sd ip port).2.socks i) := by
  rcases t.bind_cases sd ip port with same | ⟨p, used, unbound, now⟩
  · rw [same]
    exact .same
  rw [now]
  refine t.edit_move ?_ i
  exact .bind ip p used unbound rfl

theorem listen_move (sd : Sd) (backlog : Int) (i : Sd) :
    Move t (.listen sd backlog) i ((t.listen sd backlog).2.socks i) := by
  unfold listen
  dsimp only
  split
  · exact .same
  rename_i used
  split
  · exact .same
  rename_i stream
  split
  · exact .same
  rename_i bound
  dsimp only
  refine t.edit_move ?_ i
  exact .listen backlog _ (by simpa using used) (by simpa using stream) bound rfl

theorem autoBind_cases (sd : Sd) : ∃ ip port, (t.autoBind sd).2.socks =
        (t.edit sd fun s => { s with localIp := ip, localPort := port }).socks ∧
      ((t.socks sd).localPort ≠ 0 → port = (t.socks sd).localPort) := by
  have unchanged : t.socks = (t.edit sd fun s =>
      { s with localIp := (t.socks sd).localIp, localPort := (t.socks sd).localPort }).socks := by
    simp
  unfold autoBind
  split
  next unbound =>
    rcases t.bind_cases sd 0 0 with same | ⟨p, _, _, now⟩
    · exact ⟨_, _, same.trans unchanged, fun _ => rfl⟩
    · exact ⟨0, p, now, fun bound => absurd unbound bound⟩
  · exact ⟨_, _, unchanged, fun _ => rfl⟩

theorem ephemeral_some {tries : Nat} {start p : Port} (found : (t.ephemeral tries start).1 = some p) :
    p ≠ 0 := by
  induction tries generalizing start with
  | zero => cases found
  | succ tries ih =>
    simp only [ephemeral] at found
    split at found
    · exact ih found
    rename_i high
    split at found
    · cases found
      rintro rfl
      exact high (by decide)
    · exact ih found

theorem autoBind_named {sd : Sd} (ok : (t.autoBind sd).1 = .ok 0) :
    ((t.autoBind sd).2.socks sd).localPort ≠ 0 := by
  unfold autoBind at ok ⊢
  split
  next unbound =>
    unfold bind at ok ⊢
    simp only [unbound, ne_eq, not_true_eq_false, if_false, if_true] at ok ⊢
    split at ok
    · cases ok
    rename_i used
    rw [if_neg used]
    cases found : (t.ephemeral 1000 t.ephemeralNext).1 with
    | none =>
      rw [found] at ok
      cases ok
    | some p => simpa using t.ephemeral_some found
  · assumption

theorem autoBind_move {c : Call} {sd : Sd} (call : c.sd = some sd)
    (used : (t.socks sd).used) (i : Sd) : Move t c i ((t.autoBind sd).2.socks i) := by
  unfold autoBind
  split
  · rcases t.bind_cases sd 0 0 with same | ⟨p, _, unbound, now⟩
    · rw [same]
      exact .same
    · rw [now]
      refine t.edit_move ?_ i
      exact .bind 0 p used unbound call
  · exact .same

theorem connect_move (sd : Sd) (ip : Ip) (port : Port) (now : Nat) (delivered : Bool) (i : Sd) :
    Move t (.connect sd ip port now delivered) i
      ((t.connect sd ip port now delivered).2.socks i) := by
  obtain ⟨localIp, localPort, bound, keeps⟩ := t.autoBind_cases sd
  unfold connect
  dsimp only
  split
  · exact .same
  rename_i used
  have used : (t.socks sd).used := by simpa using used
  cases type : (t.socks sd).type with
  | dgram =>
    dsimp only
    split
    · exact .same
    split
    · exact t.autoBind_move rfl used i
    have move : Move t (.connect sd ip port now delivered) sd _ :=
      .connectUdp localIp ip localPort port used type rfl keeps
    have := t.edit_move (f := fun _ => _) move i
    simpa [bound] using this
  | raw => exact .same
  | stream =>
    dsimp only
    split
    · exact .same
    split
    · exact .same
    split
    · exact .same
    rename_i closed
    split
    · exact .same
    rename_i fresh
    split
    · exact .same
    rename_i real
    split
    · exact t.autoBind_move rfl used i
    rename_i bind_ok
    have named : localPort ≠ 0 := by
      have := t.autoBind_named (by simpa using bind_ok)
      simpa [bound] using this
    have closed : (t.socks sd).tcpState = .closed := by simpa using closed
    have fresh : (t.socks sd).remotePort = 0 := by simpa using fresh
    have here : Move t (.connect sd ip port now delivered) sd _ :=
      .connect ip localIp port localPort (BitVec.ofNat 32 now + BitVec.ofNat 32 sd * 1000) now
        delivered used type closed fresh (fun zero => real (.inr zero)) rfl keeps named
    have move := t.edit_move (f := fun _ => _) here i
    cases delivered with
    | false | true => simpa [bound] using move

theorem accept_move (sd : Sd) (interrupted : Bool) (i : Sd) :
    Move t (.accept sd interrupted) i ((t.accept sd interrupted).2.socks i) := by
  unfold accept
  dsimp only
  split
  · exact .same
  rename_i used
  split
  · exact .same
  split
  · exact .same
  rename_i listener
  split
  · exact .same
  split
  · exact .same
  rename_i p popped
  dsimp only
  refine t.edit_move ?_ i
  exact .accept interrupted p.1 p.2 (by simpa using used) (by simpa using listener) popped rfl

theorem recvfrom_move {c : Call} (sd : Sd) (len : Nat) (interrupted : Bool)
    (other : (t.socks sd).type ≠ .stream) (i : Sd) :
    Move t c i ((t.recvfrom sd len interrupted).2.2.socks i) := by
  unfold recvfrom
  dsimp only
  split
  · exact .same
  rename_i used
  split
  · exact .same
  split
  · exact .same
  split
  · exact .same
  rename_i rx _
  dsimp only
  refine t.edit_move ?_ i
  exact .datagrams rx (by simpa using used) other

theorem recv_move (sd : Sd) (len : Nat) (interrupted : Bool) (i : Sd) :
    Move t (.recv sd len interrupted) i ((t.recv sd len interrupted).2.2.socks i) := by
  unfold recv
  dsimp only
  split
  · exact .same
  rename_i used
  cases type : (t.socks sd).type with
  | dgram =>
    have move := t.recvfrom_move (c := .recv sd len interrupted) sd len interrupted
      (by rw [type]; decide) i
    dsimp only
    split
    · exact move
    · exact move
  | raw => exact .same
  | stream =>
    dsimp only
    split
    · exact .same
    rename_i running
    split
    next some_bytes =>
      have running : interrupted = false := by simpa using running
      subst running
      dsimp only
      refine t.edit_move ?_ i
      exact .recv len (by simpa using used) type some_bytes rfl
    · split <;> exact .same

def stashed (t : Table) (sd : Sd) (now : Nat) (chunk : List Byte) : Table :=
  (t.emit [(t.socks sd).segment (t.socks sd).sndNxt { ack := true, psh := true }
    (t.socks sd).advertisedWindow chunk]).edit sd fun s =>
      { s with sndNxt := s.sndNxt + BitVec.ofNat 32 chunk.length, retxSeq := s.sndNxt
               retxBuf := chunk, retxSentMs := now, retxCount := 0 }

theorem sendLoop_cons (sd : Sd) (now : Nat) (t : Table) (chunk : List Byte)
    (rest : List (List Byte)) (delivered : List Bool) (sent : Nat) :
    sendLoop sd now t (chunk :: rest) delivered sent =
      if delivered.head? = some false then
        (if sent > 0 then .ok sent else .error,
          t.emit [(t.socks sd).segment (t.socks sd).sndNxt { ack := true, psh := true }
            (t.socks sd).advertisedWindow chunk])
      else sendLoop sd now (t.stashed sd now chunk) rest delivered.tail (sent + chunk.length) := rfl

theorem sendLoop_cases (sd : Sd) (now : Nat) (chunks : List (List Byte)) (t : Table)
    (delivered : List Bool) (sent : Nat) :
    (sendLoop sd now t chunks delivered sent).2.socks = t.socks ∨
      ∃ sndNxt retxSeq buf, (sendLoop sd now t chunks delivered sent).2.socks =
        (t.edit sd fun s => { s with
          sndNxt, retxSeq, retxBuf := buf, retxSentMs := now, retxCount := 0 }).socks := by
  induction chunks generalizing t delivered sent with
  | nil => exact .inl rfl
  | cons chunk _ ih =>
    rw [sendLoop_cons]
    split
    · exact .inl rfl
    right
    rcases ih (t.stashed sd now chunk) delivered.tail (sent + chunk.length) with
      same | ⟨sndNxt, retxSeq, buf, after⟩
    · exact ⟨_, _, _, same⟩
    · refine ⟨sndNxt, retxSeq, buf, after.trans ?_⟩
      simp [stashed]

theorem send_move (sd : Sd) (buf : List Byte) (now : Nat) (delivered : List Bool) (i : Sd) :
    Move t (.send sd buf now delivered) i ((t.send sd buf now delivered).2.socks i) := by
  unfold send
  dsimp only
  split
  · exact .same
  rename_i used
  have used : (t.socks sd).used := by simpa using used
  cases type : (t.socks sd).type with
  | dgram =>
    dsimp only
    split
    · exact .same
    split
    · exact t.autoBind_move rfl used i
    split
    all_goals exact t.autoBind_move rfl used i
  | raw => exact .same
  | stream =>
    dsimp only
    split
    · exact .same
    rename_i state
    rcases sendLoop_cases sd now (buf.toChunks 1400) t delivered 0 with
      same | ⟨sndNxt, retxSeq, kept, after⟩
    · rw [same]
      exact .same
    rw [after]
    refine t.edit_move ?_ i
    exact .send sndNxt retxSeq kept now used type (by tauto) ⟨buf, now, delivered, rfl⟩

theorem close_stream {sd : Sd} (used : (t.socks sd).used)
    (stream : (t.socks sd).type = .stream) :
    (t.close sd).2.socks = (t.edit sd Sock.close).socks := by
  rw [close, if_neg (by simp [used]), if_pos stream, closeTcp, if_neg (by simp [used]),
    if_neg (by simp [stream])]
  cases state : (t.socks sd).tcpState <;> simp [Sock.close, state]

theorem close_other {sd : Sd} (used : (t.socks sd).used)
    (other : (t.socks sd).type ≠ .stream) :
    (t.close sd).2.socks =
      (t.edit sd fun s => { s with used := false, localPort := 0, rx := [] }).socks := by
  rw [close, if_neg (by simp [used]), if_neg other]

theorem close_move (sd : Sd) (i : Sd) : Move t (.close sd) i ((t.close sd).2.socks i) := by
  cases used : (t.socks sd).used with
  | false =>
    rw [close, if_pos (by simp [used])]
    exact .same
  | true =>
    by_cases stream : (t.socks sd).type = .stream
    · rw [t.close_stream used stream]
      exact t.edit_move (f := Sock.close) (.close used stream rfl) i
    rw [t.close_other used stream]
    refine t.edit_move ?_ i
    exact .drop used stream rfl

theorem deliverUdp_move (d : Dgram) (port : Port) (i : Sd) :
    Move t (.datagram d port) i ((t.deliverUdp d port).socks i) := by
  unfold deliverUdp
  dsimp only
  split
  · exact .same
  rename_i j found
  split
  · exact .same
  have facts := find?_some found
  simp only [Bool.and_eq_true, beq_iff_eq] at facts
  refine t.edit_move ?_ i
  refine .datagrams _ facts.1.1 ?_
  rw [facts.1.2]
  decide

theorem put_socks (i : Sd) (d : Sock × List Sent) :
    (t.put i d).socks = Function.update t.socks i d.1 := rfl

theorem tick_socks (now : Nat) (i : Sd) : (t.tick now).socks i = ((t.socks i).tick now).1 := by
  have fold : ∀ (l : List Sd) (t : Table), l.Nodup →
      (l.foldl (fun t i => t.put i ((t.socks i).tick now)) t).socks i =
        if i ∈ l then ((t.socks i).tick now).1 else t.socks i := by
    intro l
    induction l with
    | nil => intro t _; simp
    | cons j l ih =>
      intro t distinct
      obtain ⟨outside, distinct⟩ := List.nodup_cons.1 distinct
      rw [foldl_cons, ih _ distinct, put_socks]
      by_cases here : i = j
      · subst here
        simp [outside]
      · simp [here]
  rw [tick, fold _ t (nodup_finRange 8)]
  simp

theorem handleListen_move (j : Sd) (g : Segment) (now : Nat) (found : t.lookup g = some j)
    (listener : (t.socks j).tcpState = .listen) (i : Sd) :
    Move t (.segment g now) i ((t.handleListen j g now).socks i) := by
  unfold handleListen
  split
  · exact .same
  split
  · exact .same
  rename_i syn
  split
  · exact .same
  split
  · exact .same
  rename_i k free
  have move := t.edit_move (f := fun s => s.spawned k j g now)
    (.child g now j (t.freeSlot_some free) rfl found listener (by simpa using syn)) i
  simpa [Sock.spawned] using move

theorem handleSynRcvd_move (j : Sd) (g : Segment) (now : Nat) (found : t.lookup g = some j)
    (state : (t.socks j).tcpState = .synRcvd) (i : Sd) :
    Move t (.segment g now) i ((t.handleSynRcvd j g).socks i) := by
  have connection : (t.socks j).tcpState ≠ .listen := by
    rw [state]
    decide
  have heard := t.edit_move (f := fun s => s.hear g) (.hear g now rfl found connection) i
  unfold handleSynRcvd
  dsimp only
  split
  next rst =>
    simpa [Sock.hear, state, rst] using heard
  rename_i rst
  split
  next acks =>
    have completes : Completes (t.socks j) g := ⟨state, by simpa using rst, acks⟩
    have served : Move t (.segment g now) i ((t.edit j fun s =>
        { s with sndUna := g.ack, tcpState := .established }).socks i) := by
      simpa [Sock.hear, state, rst, acks] using heard
    unfold enlist
    split
    · exact served
    rename_i p parent
    dsimp only
    split
    next open_ =>
      rw [edit_socks]
      by_cases here : i = p
      · subst here
        have apart : i ≠ j := by
          rintro rfl
          simp at open_
        simp only [edit_socks, Function.update_self, Function.update_of_ne apart] at open_ parent ⊢
        exact .enlist g now j rfl found completes parent open_.1 open_.2.1 open_.2.2
      · rw [Function.update_of_ne here]
        exact served
    · exact served
  · exact .same

theorem handleSegment_move (g : Segment) (now : Nat) (i : Sd) :
    Move t (.segment g now) i ((t.handleSegment g now).socks i) := by
  unfold handleSegment
  cases found : t.lookup g with
  | none =>
    dsimp only
    split <;> exact .same
  | some j =>
    dsimp only
    by_cases listener : (t.socks j).tcpState = .listen
    · rw [listener]
      exact t.handleListen_move j g now found listener i
    have heard := t.edit_move (f := fun s => s.hear g) (.hear g now rfl found listener) i
    cases state : (t.socks j).tcpState with
    | listen => exact absurd state listener
    | synRcvd => exact t.handleSynRcvd_move j g now found state i
    | closeWait =>
      dsimp only
      split
      next rst =>
        simpa [Sock.hear, state, rst] using heard
      · exact .same
    | closed | timeWait => exact .same
    | synSent | established | finWait1 | finWait2 | lastAck | closing =>
      simpa [Sock.hear, state, put_socks] using heard

theorem call_move (c : Call) (i : Sd) : Move t c i ((t.call c).2.socks i) := by
  cases c with
  | create type =>
    cases type with
    | raw => exact t.createRaw_move i
    | stream => exact t.create_move .stream i
    | dgram => exact t.create_move .dgram i
  | bind sd ip port => exact t.bind_move sd ip port i
  | listen sd backlog => exact t.listen_move sd backlog i
  | connect sd ip port now delivered => exact t.connect_move sd ip port now delivered i
  | accept sd interrupted => exact t.accept_move sd interrupted i
  | recv sd len interrupted => exact t.recv_move sd len interrupted i
  | send sd buf now delivered => exact t.send_move sd buf now delivered i
  | close sd => exact t.close_move sd i
  | segment g now => exact t.handleSegment_move g now i
  | datagram d port => exact t.deliverUdp_move d port i
  | tick now =>
    rw [call, tick_socks]
    exact .tick now rfl

end Table

structure Stepped {γ : Type} (o : Observer γ) (p : World × γ) (c : Call) (a : Answer)
    (p' : World × γ) : Prop where
  allowed : p.1.permits c = true
  answer : a = (p.1.table.call c).1
  table : p'.1.table = (p.1.table.call c).2
  holds : p'.1.held = p.1.holds c a
  seen : p'.2 = o.see p.2 p.1 c a p'.1

namespace Stepped
variable {γ : Type} {o : Observer γ} {p p' : World × γ} {c : Call} {a : Answer}

theorem of_watch (run : watch o c p = some (a, p')) : Stepped o p c a p' := by
  obtain ⟨allowed, answer, table, holds, seen⟩ := watch_inv run
  exact ⟨allowed, answer, table, holds, seen⟩

theorem move (step : Stepped o p c a p') (i : Sd) : Move p.1.table c i (p'.1.table.socks i) := by
  rw [step.table]
  exact p.1.table.call_move c i

theorem user (step : Stepped o p c a p') {i : Sd} (on : c.sd = some i) : p.1.held i := by
  have := step.allowed
  rwa [World.permits, on] at this

end Stepped

end Osnos.Net
