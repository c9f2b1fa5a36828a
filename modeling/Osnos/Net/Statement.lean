import Osnos.Base.Code
import Osnos.Net.Hear

/-! `sock_connect`, `sock_send` and `sock_close_tcp` transmit with interrupts enabled and
update the socket afterwards, so the network can be heard between any two statements. -/
namespace Osnos.Net
open Table

/-- A statement of a call on one socket; what stands between `cli` and `sti` is one. -/
inductive Stmt
  | update (f : Sock → Sock)
  | transmit (m : Sock → Sent)

namespace Stmt

def act (sd : Sd) : Stmt → Table → Table
  | update f, t => t.edit sd f
  | transmit m, t => t.emit [m (t.socks sd)]

def effect : Stmt → Sock → Sock
  | update f, s => f s
  | transmit _, s => s

theorem act_effect (sd : Sd) (i : Stmt) (t : Table) :
    (i.act sd t).socks sd = i.effect (t.socks sd) := by
  cases i with
  | update => simp [act, effect]
  | transmit => rfl

end Stmt

abbrev Body := Code Stmt Sock Reply

namespace Sock

def arm (s : Sock) (ip : Ip) (port : Port) (isn : Seq) : Sock :=
  { s with remoteIp := ip, remotePort := port, sndNxt := isn, sndUna := isn, rcvNxt := 0
           tcpState := .synSent }

def syn (s : Sock) : Sent := { s.segment s.sndNxt { syn := true } s.advertisedWindow [] with ack := 0 }
def advance (s : Sock) (n : Nat) : Sock := { s with sndNxt := s.sndNxt + BitVec.ofNat 32 n }

def stash (s : Sock) (seq : Seq) (chunk : List Byte) (now : Nat) : Sock :=
  { s with retxSeq := seq, retxBuf := chunk, retxSentMs := now, retxCount := 0 }

def turn (s : Sock) (state : TcpState) : Sock := { s with tcpState := state }
def mark (s : Sock) (z : Bool) : Sock := { s with zombie := z }

end Sock

def isn (sd : Sd) (now : Nat) : Seq := BitVec.ofNat 32 now + BitVec.ofNat 32 sd * 1000

def connectBody (sd : Sd) (ip : Ip) (port : Port) (now : Nat) (delivered : Bool) : Body :=
  .step (.update fun s => s.arm ip port (isn sd now)) fun _ =>
  .step (.transmit Sock.syn) fun _ =>
  if delivered then .step (.update fun s => s.advance 1) fun _ => .ret .again
  else
    .step (.update fun s => { s with tcpState := .closed, remoteIp := 0, remotePort := 0 }) fun _ =>
    .ret .error

def sendBody (now : Nat) : List (List Byte) → List Bool → Nat → Body
  | [], _, sent => .ret (.ok sent)
  | chunk :: rest, delivered, sent =>
    -- `this_seq = s->snd_nxt`
    .step (.update id) fun s =>
    .step (.transmit fun s' =>
      s'.segment s.sndNxt { ack := true, psh := true } s'.advertisedWindow chunk) fun _ =>
    if delivered.head? = some false then .ret (if sent > 0 then .ok sent else .error)
    else
      .step (.update fun s' => s'.advance chunk.length) fun _ =>
      .step (.update fun s' => s'.stash s.sndNxt chunk now) fun _ =>
      sendBody now rest delivered.tail (sent + chunk.length)

def finBody (state : TcpState) : Body :=
  .step (.transmit Sock.emitFinAck) fun _ =>
  .step (.update fun s => s.advance 1) fun _ =>
  .step (.update fun s => s.turn state) fun _ =>
  .step (.update fun s => s.mark true) fun _ =>
  .ret (.ok 0)

def closeBody : Body :=
  -- the `switch`
  .step (.update id) fun s =>
  match s.tcpState with
  | .established => finBody .finWait1
  | .closeWait => finBody .lastAck
  | .listen | .closed => .step (.update fun s => { s with used := false }) fun _ => .ret (.ok 0)
  | _ => .step (.update fun s => s.mark true) fun _ => .ret (.ok 0)

section
variable {t : Table} {sd : Sd}

def Body.run (sd : Sd) (b : Body) (t : Table) : Reply × Table :=
  Code.run (Stmt.act sd) (fun t => t.socks sd) b t

theorem Body.run_socket (sd : Sd) (b : Body) (t : Table) :
    (b.run sd t).2.socks sd = (Code.run Stmt.effect id b (t.socks sd)).2 :=
  (@Code.run_view _ _ _ _ (Stmt.act sd) Stmt.effect (fun t => t.socks sd)
    (fun i t => i.act_effect sd t) b t).symm

theorem Table.edit_edit (t : Table) (i : Sd) (f f' : Sock → Sock) :
    (t.edit i f).edit i f' = t.edit i fun s => f' (f s) := by
  simp [edit]

theorem Table.edit_emit (t : Table) (i : Sd) (f : Sock → Sock) (out : List Sent) :
    (t.edit i f).emit out = (t.emit out).edit i f := rfl

theorem Table.edit_id (t : Table) (i : Sd) : t.edit i id = t := by
  simp [edit]

structure Owned (s : Sock) : Prop where
  used : s.used = true
  stream : s.type = .stream
  mine : s.zombie = false

structure Connects (t : Table) (sd : Sd) (ip : Ip) (port : Port) : Prop where
  owned : Owned (t.socks sd)
  closed : (t.socks sd).tcpState = .closed
  fresh : (t.socks sd).remotePort = 0
  ip : ip ≠ 0
  port : port ≠ 0
  bound : (t.autoBind sd).1 = .ok 0

theorem connectBody_run {ip : Ip} {port : Port} (ready : Connects t sd ip port) (now : Nat)
    (delivered : Bool) :
    (connectBody sd ip port now delivered).run sd (t.autoBind sd).2 =
      t.connect sd ip port now delivered := by
  have real : ¬(ip = 0 ∨ port = 0) := not_or.2 ⟨ready.ip, ready.port⟩
  unfold Table.connect
  simp only [ready.owned.used, ready.owned.stream, ready.closed, ready.fresh, ready.bound, real]
  cases delivered with
  | true => simp [Body.run, connectBody, Code.run, Stmt.act, Sock.arm, Sock.syn, Sock.advance, isn]
  | false => simp [Body.run, connectBody, Code.run, Stmt.act, Sock.arm, Sock.syn, isn]

theorem sendBody_run (now : Nat) (chunks : List (List Byte)) (delivered : List Bool) (sent : Nat)
    (t : Table) :
    (sendBody now chunks delivered sent).run sd t = t.sendLoop sd now chunks delivered sent := by
  induction chunks generalizing t delivered sent with
  | nil => rfl
  | cons _ _ ih =>
    rw [Body.run, sendBody, Code.run, Code.run, sendLoop]
    simp only [Stmt.act, edit_id]
    split
    · rfl
    rw [Code.run, Code.run]
    simp only [Stmt.act, edit_edit]
    exact ih _ _ _

theorem closeBody_run (owned : Owned (t.socks sd)) : closeBody.run sd t = t.closeTcp sd := by
  unfold closeTcp
  rw [Body.run, closeBody, Code.run]
  simp only [Stmt.act, edit_id, owned.used, owned.stream]
  cases (t.socks sd).tcpState <;>
    simp [finBody, Code.run, Stmt.act, edit_edit, Sock.advance, Sock.turn, Sock.mark]

end

inductive Foreign (sd : Sd) (t : Table) : Table → Prop
  | segment (g : Segment) (now : Nat) (other : t.lookup g ≠ some sd) :
      Foreign sd t (t.handleSegment g now)
  | datagram (d : Dgram) (port : Port) : Foreign sd t (t.deliverUdp d port)

/-- The network interrupts at point `k` of a call on `sd`: `g` comes at point `n`, and
segments and datagrams for other sockets at any point. -/
inductive Arrives (sd : Sd) (g : Segment) (n : Nat) : Nat → Table → Table → Prop
  | others {k : Nat} {t t' : Table} (early : k ≠ n) (pass : Relation.ReflTransGen (Foreign sd) t t') :
      Arrives sd g n k t t'
  | segment {t u : Table} (now : Nat) (pass : Relation.ReflTransGen (Foreign sd) t u)
      (found : u.lookup g = some sd) : Arrives sd g n n t (u.handleSegment g now)

structure StreamConn (s : Sock) : Prop where
  used : s.used = true
  stream : s.type = .stream
  connection : s.tcpState ≠ .listen

theorem Foreign.keeps {sd : Sd} {t t' : Table} (foreign : Foreign sd t t')
    (conn : StreamConn (t.socks sd)) : t'.socks sd = t.socks sd := by
  cases foreign with
  | segment g now other =>
    generalize after : (t.handleSegment g now).socks sd = s'
    have move := t.handleSegment_move g now sd
    rw [after] at move
    cases move with
    | same => rfl
    | create _ _ call | bind _ _ _ _ call | listen _ _ _ _ _ call | connectUdp _ _ _ _ _ _ call
    | connect _ _ _ _ _ _ _ _ _ _ _ _ call | accept _ _ _ _ _ _ call | recv _ _ _ _ call
    | close _ _ call | drop _ _ call | tick _ call => cases call
    | child _ _ _ free => cases free.symm.trans conn.used
    | datagrams _ _ other => exact absurd conn.stream other
    | send _ _ _ _ _ _ _ call => simp at call
    | hear _ _ call found =>
      cases call
      exact absurd found other
    | enlist _ _ _ _ _ _ _ _ listener => exact absurd listener conn.connection
  | datagram d port =>
    unfold deliverUdp
    dsimp only
    split
    · rfl
    rename_i i found
    split
    · rfl
    have wanted := List.find?_some found
    simp only [Bool.and_eq_true, beq_iff_eq] at wanted
    have other : sd ≠ i := by
      rintro rfl
      cases wanted.1.2.symm.trans conn.stream
    simp [other]

theorem Foreign.keeps_all {sd : Sd} {t t' : Table} (pass : Relation.ReflTransGen (Foreign sd) t t')
    (conn : StreamConn (t.socks sd)) : t'.socks sd = t.socks sd := by
  induction pass with
  | refl => rfl
  | tail _ foreign ih =>
    rw [← ih] at conn ⊢
    exact foreign.keeps conn

def hearAt (g : Segment) (n k : Nat) (s : Sock) : Sock := if k = n then s.hear g else s

theorem Arrives.hearAt {sd : Sd} {g : Segment} {n k : Nat} {t t' : Table}
    (arrives : Arrives sd g n k t t') (conn : StreamConn (t.socks sd)) :
    t'.socks sd = hearAt g n k (t.socks sd) := by
  cases arrives with
  | others early pass =>
    rw [Net.hearAt, if_neg early]
    exact Foreign.keeps_all pass conn
  | @segment _ u now pass found =>
    have kept := Foreign.keeps_all pass conn
    rw [Net.hearAt, if_pos rfl, ← kept]
    exact u.handleSegment_hear now found (kept ▸ conn.connection)

/-- The call on `sd` while `g` arrives at point `n`. -/
def Body.Interrupted (sd : Sd) (g : Segment) (n : Nat) (b : Body) (t : Table) (r : Reply)
    (t' : Table) : Prop :=
  Code.Exec (Stmt.act sd) (fun t => t.socks sd) (Arrives sd g n) 0 b t r t'

def Body.heard (g : Segment) (n k : Nat) (b : Body) (s : Sock) : Sock :=
  (Code.follow Stmt.effect (hearAt g n) k b s).2

theorem Body.Interrupted.socket {sd : Sd} {g : Segment} {n : Nat} {b : Body} {t t' : Table}
    {r : Reply} (run : b.Interrupted sd g n t r t')
    (safe : Code.Safe Stmt.effect (hearAt g n) StreamConn 0 b (t.socks sd)) :
    t'.socks sd = b.heard g n 0 (t.socks sd) := by
  have followed := Code.Exec.follow (fun i t => i.act_effect sd t)
    (fun k t t' arrives conn => Arrives.hearAt arrives conn) run safe
  rw [Body.heard, followed]

end Osnos.Net
