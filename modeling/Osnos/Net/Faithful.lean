import Osnos.Net.Kept
import Osnos.Net.Tuples

/-! A data segment is sent by `sock_send` or repeated by the timer. It should go to the peer
of the connection on which its bytes were accepted, under the numbers they have there. -/
namespace Osnos.Net
open Sock Table List

structure Piece where
  ip : Ip
  port : Port
  localPort : Port
  seq : Seq
  bytes : List Byte

structure Piece.Holds (a : Piece) (m : Sent) : Prop where
  ip : m.dstIp = a.ip
  port : m.dstPort = a.port
  localPort : m.srcPort = a.localPort
  within : ∃ k, m.seq = a.seq + BitVec.ofNat 32 k ∧ m.payload <+: a.bytes.drop k

/-- What the present connection of slot `i` has accepted, after one more call. A reset ends the
connection, and so does everything that closes the socket. -/
def acceptedAfter (h : List Piece) (t : Table) (c : Call) (a : Answer) (s' : Sock) (i : Sd) :
    List Piece :=
  if (t.socks i).Begins s' ∨ s'.tcpState = .closed then []
  else
    match c with
    | .segment g _ =>
      if t.lookup g = some i ∧ (t.socks i).Live ∧ g.flags.rst = true then [] else h
    | .send j buf _ _ =>
      match a.reply with
      | .ok n =>
        if j = i ∧ (t.socks i).type = .stream ∧ 0 < n then
          h ++ [{ ip := (t.socks i).remoteIp, port := (t.socks i).remotePort
                  localPort := (t.socks i).localPort, seq := (t.socks i).sndNxt
                  bytes := buf.take n }]
        else h
      | _ => h
    | _ => h

def acceptance : Observer (Sd → List Piece) where
  start := fun _ => []
  see h w c a w' := fun i => acceptedAfter (h i) w.table c a (w'.table.socks i) i

def acceptedBy (p : World × (Sd → List Piece)) (c : Call) (i : Sd) : List Piece :=
  acceptedAfter (p.2 i) p.1.table c (p.1.table.call c).1 ((p.1.table.call c).2.socks i) i

-- `tcp_send` returns false only for a segment that was not sent
/-- Slot `i` sends the segment. The timer serves every slot; what the other calls send is
asked of every slot. -/
def Transmits (t : Table) (c : Call) (i : Sd) (m : Sent) : Prop :=
  match c with
  | .send j buf now delivered =>
    i = j ∧ ∃ k : Nat, (sentBy t (t.send j buf now delivered).2)[k]? = some m ∧
      delivered[k]? ≠ some false
  | .tick now => m ∈ ((t.socks i).tick now).2
  | c => m ∈ sentBy t (t.call c).2

def Truthful (p : World × (Sd → List Piece)) (c : Call) : Prop :=
  ∀ i m, Transmits p.1.table c i m → m.payload ≠ [] → ∃ a ∈ acceptedBy p c i, a.Holds m

namespace Sock

def kept (s : Sock) : Sent :=
  s.segment s.retxSeq { ack := true, psh := true } s.advertisedWindow s.retxBuf

structure Resends (s : Sock) (now : Nat) : Prop where
  used : s.used = true
  stream : s.type = .stream
  pending : s.retxBuf ≠ []
  opened : s.tcpState ≠ .closed
  unacked : (s.sndUna - (s.retxSeq + BitVec.ofNat 32 s.retxBuf.length)).toInt < 0
  due : 500 ≤ (BitVec.ofNat 64 now - BitVec.ofNat 64 s.retxSentMs).toNat
  tries : s.retxCount < 5

theorem Resends.tick {s : Sock} {now : Nat} (resends : s.Resends now) :
    s.tick now = ({ s with retxSentMs := now, retxCount := s.retxCount + 1 }, [s.kept]) := by
  obtain ⟨used, stream, pending, opened, unacked, due, tries⟩ := resends
  rw [Sock.tick, if_neg (by simp [used]), if_neg (by simp [stream]), if_neg pending, if_neg opened,
    if_neg (by omega), if_neg (by omega), if_neg (by omega)]
  rfl

theorem tick_data {s : Sock} {now : Nat} {m : Sent} (mem : m ∈ (s.tick now).2)
    (data : m.payload ≠ []) : s.Resends now := by
  unfold Sock.tick at mem
  split_ifs at mem with unused other idle closed done early tried <;> try simp at mem
  · rw [mem] at data
    exact absurd rfl data
  · exact ⟨by simpa using unused, by simpa using other, idle, closed, by omega, by omega, by omega⟩

end Sock

/-- The timer repeats no segment in a slot whose present connection has accepted nothing. -/
def NoneStranded (p : World × (Sd → List Piece)) (c : Call) : Prop :=
  ∀ now, c = .tick now → ∀ i, p.2 i = [] → ¬ (p.1.table.socks i).Resends now

structure Vouched (h : List Piece) (s : Sock) : Prop where
  stream : s.type = .stream
  opened : s.tcpState ≠ .closed
  past : s.tcpState ≠ .synSent ∧ s.tcpState ≠ .synRcvd
  kept : s.retxBuf ≠ [] → ∃ a ∈ h, a.Holds s.kept

structure Booked (p : World × (Sd → List Piece)) : Prop where
  bound : p.1.table.Bound
  vouched : ∀ i, (p.1.table.socks i).used = true → p.2 i ≠ [] → Vouched (p.2 i) (p.1.table.socks i)

namespace Piece
variable {a : Piece}

theorem holds_chunk {took before : List (List Byte)} {m : Sent} (ip : m.dstIp = a.ip)
    (port : m.dstPort = a.port) (localPort : m.srcPort = a.localPort)
    (bytes : a.bytes = took.flatten) (within : before ++ [m.payload] <+: took)
    (seq : m.seq = a.seq + BitVec.ofNat 32 before.flatten.length) : a.Holds m := by
  refine ⟨ip, port, localPort, before.flatten.length, seq, ?_⟩
  obtain ⟨_, rfl⟩ := within
  rw [bytes]
  simp

theorem Holds.kept {s s' : Sock} (holds : a.Holds s.kept) (ip : s'.remoteIp = s.remoteIp)
    (port : s'.remotePort = s.remotePort) (localPort : s'.localPort = s.localPort)
    (seq : s'.retxSeq = s.retxSeq) (buf : s'.retxBuf = s.retxBuf) : a.Holds s'.kept := by
  obtain ⟨k, first, bytes⟩ := holds.within
  refine ⟨ip.trans holds.ip, port.trans holds.port, localPort.trans holds.localPort, k,
    seq.trans first, ?_⟩
  change s'.retxBuf <+: _
  rw [buf]
  exact bytes

end Piece

section
variable {h : List Piece} {t : Table} {c : Call} {i : Sd} {s s' : Sock} {g : Segment}

theorem Vouched.goes_on (vouched : Vouched h s) (type : s'.type = s.type)
    (opened : s'.tcpState ≠ .closed) (past : s'.tcpState ≠ .synSent ∧ s'.tcpState ≠ .synRcvd)
    (addresses : s'.remoteIp = s.remoteIp ∧ s'.remotePort = s.remotePort ∧
      s'.localPort = s.localPort) (seq : s'.retxSeq = s.retxSeq)
    (buf : s'.retxBuf = s.retxBuf ∨ s'.retxBuf = []) : Vouched h s' := by
  refine ⟨type.trans vouched.stream, opened, past, fun pending => ?_⟩
  rcases buf with same | cleared
  · obtain ⟨a, mem, holds⟩ := vouched.kept (same ▸ pending)
    exact ⟨a, mem, holds.kept addresses.1 addresses.2.1 addresses.2.2 seq same⟩
  · exact absurd cleared pending

theorem Vouched.hears (vouched : Vouched h s) (hears : Hears s g s')
    (buf : s'.retxBuf = s.retxBuf ∨ s'.retxBuf = []) (opened : s'.tcpState ≠ .closed)
    (unreset : s.Live → g.flags.rst ≠ true) : Vouched h s' := by
  have fields {r : Sock} (taken : s.Taken g r) : r.type = s.type ∧ (r.remoteIp = s.remoteIp ∧
      r.remotePort = s.remotePort ∧ r.localPort = s.localPort) ∧ r.retxSeq = s.retxSeq := by
    rw [taken.rest]
    exact ⟨rfl, ⟨rfl, rfl, rfl⟩, rfl⟩
  cases hears with
  | ignored => exact vouched
  | refused state | mismatched state | opened state | crossed state =>
    exact absurd state vouched.past.1
  | completed completes => exact absurd completes.state vouched.past.2
  | reset live rst => exact absurd rst (unreset live)
  | received _ taken =>
    obtain ⟨type, addresses, seq⟩ := fields taken
    refine vouched.goes_on type opened ?_ addresses seq buf
    rcases taken.receiving with h | h | h <;> simp [h]
  | fin _ taken =>
    obtain ⟨type, addresses, seq⟩ := fields taken
    exact vouched.goes_on type opened ⟨nofun, nofun⟩ addresses seq buf
  | finLast | acked => exact absurd (finish_state _) opened

theorem Move.vouched (move : Move t c i s') (vouched : Vouched h (t.socks i))
    (used : (t.socks i).used) (bound : (t.socks i).localPort ≠ 0)
    (opened : s'.tcpState ≠ .closed) (unsent : ∀ bytes now d, c ≠ .send i bytes now d)
    (unreset : ∀ g now, c = .segment g now → t.lookup g = some i → (t.socks i).Live →
      g.flags.rst ≠ true) : Vouched h s' := by
  have same : (t.socks i).remoteIp = (t.socks i).remoteIp ∧
      (t.socks i).remotePort = (t.socks i).remotePort ∧
      (t.socks i).localPort = (t.socks i).localPort := ⟨rfl, rfl, rfl⟩
  cases move with
  | create _ free | child _ _ _ free => cases used.symm.trans free
  | bind _ _ _ unbound => exact absurd unbound bound
  | connectUdp _ _ _ _ _ dgram => cases vouched.stream.symm.trans dgram
  | connect _ _ _ _ _ _ _ _ _ closed => exact absurd closed vouched.opened
  | datagrams _ _ dgram | drop _ dgram => exact absurd vouched.stream dgram
  | send _ _ _ _ _ _ _ call =>
    obtain ⟨bytes, now, d, call⟩ := call
    exact absurd call (unsent bytes now d)
  | hear g now call found =>
    exact vouched.hears ((t.socks i).hear_hears g) (((t.socks i).hear_retxBuf g).imp_right And.right)
      opened (unreset g now call found)
  | listen => exact vouched.goes_on rfl nofun ⟨nofun, nofun⟩ same rfl (.inl rfl)
  | close =>
    unfold Sock.close at opened ⊢
    split
    · exact vouched.goes_on rfl nofun ⟨nofun, nofun⟩ same rfl (.inl rfl)
    · exact vouched.goes_on rfl nofun ⟨nofun, nofun⟩ same rfl (.inl rfl)
    all_goals exact { vouched with }
  | tick now =>
    have ticks := (t.socks i).tick_ticks now
    generalize ((t.socks i).tick now).1 = s' at ticks opened
    cases ticks with
    | gaveUp => exact absurd (finish_state _) opened
    | dropped => exact vouched.goes_on rfl opened vouched.past same rfl (.inr rfl)
    | idle => exact vouched
    | resent => exact { vouched with }
  | same => exact vouched
  | accept | enlist => exact { vouched with }
  | recv => exact vouched.goes_on rfl opened vouched.past same rfl (.inl rfl)

end

namespace Table
variable (t : Table) (i : Sd) (buf : List Byte) (now : Nat) (delivered : List Bool)

theorem send_stream {t : Table} {i : Sd} (used : (t.socks i).used)
    (stream : (t.socks i).type = .stream) :
    t.send i buf now delivered =
      if (t.socks i).tcpState ≠ .established ∧ (t.socks i).tcpState ≠ .closeWait then (.error, t)
      else sendLoop i now t (buf.toChunks 1400) delivered 0 := by
  unfold send
  rw [if_neg (by simp [used]), stream]

theorem accepts_bytes : (accepts (buf.toChunks 1400) delivered).flatten =
    buf.take (accepts (buf.toChunks 1400) delivered).flatten.length := by
  have initial := flatten_prefix (accepts_leading (buf.toChunks 1400) delivered)
  rw [toChunks_flatten] at initial
  exact List.prefix_iff_eq_take.1 initial

theorem accepts_filled {before : List (List Byte)} {chunk : List Byte}
    (within : before ++ [chunk] <+: accepts (buf.toChunks 1400) delivered) :
    0 < (accepts (buf.toChunks 1400) delivered).flatten.length := by
  have some_bytes := toChunks_filled buf chunk
    ((within.trans (accepts_leading _ _)).subset (by simp))
  obtain ⟨rest, whole⟩ := within
  rw [← whole]
  simp only [flatten_append, length_append, flatten_cons]
  omega

def piece : Piece :=
  { ip := (t.socks i).remoteIp, port := (t.socks i).remotePort
    localPort := (t.socks i).localPort, seq := (t.socks i).sndNxt
    bytes := (accepts (buf.toChunks 1400) delivered).flatten }

abbrev Sends : Prop := ((t.socks i).tcpState = .established ∨ (t.socks i).tcpState = .closeWait) ∧
  0 < (accepts (buf.toChunks 1400) delivered).flatten.length

variable {t i} (used : (t.socks i).used = true) (stream : (t.socks i).type = .stream)

include used stream

theorem send_reply (active : t.Sends i buf delivered) : (t.send i buf now delivered).1 =
      .ok (accepts (buf.toChunks 1400) delivered).flatten.length := by
  obtain ⟨state, some_bytes⟩ := active
  rw [send_stream buf now delivered used stream, if_neg (by tauto),
    sendLoop_reply i now _ t delivered (toChunks_filled buf), if_neg, Nat.zero_add]
  rintro ⟨none_sent, _⟩
  simp [none_sent] at some_bytes

theorem acceptedAfter_send (h : List Piece) (active : t.Sends i buf delivered) :
    acceptedAfter h t (.send i buf now delivered) (t.call (.send i buf now delivered)).1
      ((t.call (.send i buf now delivered)).2.socks i) i = h ++ [t.piece i buf delivered] := by
  obtain ⟨state, some_bytes⟩ := active
  have same : ((t.send i buf now delivered).2.socks i).used ∧
      ((t.send i buf now delivered).2.socks i).tcpState = (t.socks i).tcpState := by
    rw [send_stream buf now delivered used stream, if_neg (by tauto)]
    rcases sendLoop_kept i now (buf.toChunks 1400) t delivered 0 with
      ⟨_, after⟩ | ⟨_, _, _, after⟩ <;> simp [after, used]
  unfold acceptedAfter
  rw [if_neg]
  · simp only [call, send_reply buf now delivered used stream ⟨state, some_bytes⟩]
    rw [if_pos ⟨trivial, stream, some_bytes⟩, ← accepts_bytes]
    rfl
  · simp only [call, Begins, same.1, same.2]
    rcases state with h | h <;> simp [h, used]

theorem send_idle (idle : ¬ t.Sends i buf delivered) :
    (t.send i buf now delivered).2.socks = t.socks ∧
      ∀ n, (t.send i buf now delivered).1 = .ok n → n = 0 := by
  rw [send_stream buf now delivered used stream]
  split
  · exact ⟨rfl, nofun⟩
  rename_i state
  have none_sent : ¬ 0 < (accepts (buf.toChunks 1400) delivered).flatten.length :=
    fun some_bytes => idle ⟨by tauto, some_bytes⟩
  constructor
  · rcases sendLoop_kept i now (buf.toChunks 1400) t delivered 0 with ⟨_, same⟩ | ⟨before, last, took, _⟩
    · exact same
    · have within : before ++ [last] <+: accepts (buf.toChunks 1400) delivered := by rw [took]
      exact absurd (accepts_filled buf delivered within) none_sent
  rw [sendLoop_reply i now _ t delivered (toChunks_filled buf)]
  intro n reply
  split_ifs at reply
  cases reply
  omega

end Table

theorem acceptedAfter_other {h : List Piece} {t : Table} {c : Call} {a : Answer} {s' : Sock} {i : Sd}
    (unsent : ∀ buf now d n, c = .send i buf now d → (t.socks i).type = .stream →
      a.reply = .ok n → n = 0)
    (some_left : acceptedAfter h t c a s' i ≠ []) :
    acceptedAfter h t c a s' i = h ∧ s'.tcpState ≠ .closed ∧
      ∀ g now, c = .segment g now → t.lookup g = some i → (t.socks i).Live →
        g.flags.rst ≠ true := by
  unfold acceptedAfter at some_left ⊢
  split at some_left
  · exact absurd rfl some_left
  rename_i goes_on
  rw [if_neg goes_on]
  have opened := (not_or.1 goes_on).2
  cases c with
  | segment g now =>
    dsimp only at some_left ⊢
    split at some_left
    · exact absurd rfl some_left
    rename_i unreset
    rw [if_neg unreset]
    refine ⟨rfl, opened, fun g' now' call found live rst => unreset ?_⟩
    cases call
    exact ⟨found, live, rst⟩
  | send j buf now d =>
    refine ⟨?_, opened, nofun⟩
    cases reply : a.reply with
    | ok n =>
      dsimp only
      rw [if_neg]
      rintro ⟨rfl, stream, some_bytes⟩
      have := unsent buf now d n rfl stream reply
      omega
    | error => rfl
    | again => rfl
  | _ => exact ⟨rfl, opened, nofun⟩

namespace Booked
variable {p p' : World × (Sd → List Piece)} {c : Call} {a : Answer}

theorem boot : Booked (.boot, acceptance.start) :=
  ⟨fun i used => by simp [World.boot, Sock.unused] at used, fun i _ some_left => absurd rfl some_left⟩

theorem sends {t : Table} {h : List Piece} {i : Sd} {buf : List Byte} {now : Nat} {d : List Bool}
    (used : (t.socks i).used) (stream : (t.socks i).type = .stream)
    (active : t.Sends i buf d) :
    Vouched (h ++ [t.piece i buf d]) ((t.send i buf now d).2.socks i) := by
  obtain ⟨state, some_bytes⟩ := active
  rw [send_stream buf now d used stream, if_neg (by tauto)]
  rcases sendLoop_kept i now (buf.toChunks 1400) t d 0 with
    ⟨none_sent, _⟩ | ⟨before, last, took, after⟩
  · simp [none_sent] at some_bytes
  have within : before ++ [last] <+: accepts (buf.toChunks 1400) d := by rw [took]
  rw [after, edit_socks, Function.update_self]
  refine ⟨stream, ?_, ?_, fun _ => ⟨t.piece i buf d, by simp, ?_⟩⟩
  · rcases state with h | h <;> simp [h]
  · rcases state with h | h <;> simp [h]
  · exact Piece.holds_chunk rfl rfl rfl rfl within rfl

theorem step (inv : Booked p) (run : watch acceptance c p = some (a, p')) : Booked p' := by
  have step := Stepped.of_watch run
  refine ⟨fun i stays opened => (step.move i).port inv.bound stays opened,
    fun i stays some_left => ?_⟩
  have seen : p'.2 i = acceptedAfter (p.2 i) p.1.table c a (p'.1.table.socks i) i := by
    rw [step.seen]
    rfl
  rw [seen] at some_left ⊢
  have used : (p.1.table.socks i).used := by
    by_contra free
    exact some_left (if_pos (.inl (.inl ⟨by simpa using free, stays⟩)))
  by_cases sending : ∃ buf now d, c = .send i buf now d
  · obtain ⟨buf, now, d, rfl⟩ := sending
    rw [step.answer, step.table] at some_left ⊢
    by_cases stream : (p.1.table.socks i).type = .stream
    · by_cases active : p.1.table.Sends i buf d
      · rw [acceptedAfter_send buf now d used stream _ active]
        exact sends used stream active
      obtain ⟨same, none_sent⟩ := send_idle buf now d used stream active
      obtain ⟨left, _⟩ := acceptedAfter_other
        (fun _ _ _ n call _ reply => by cases call; exact none_sent n reply) some_left
      rw [left] at some_left ⊢
      have same : ((p.1.table.call (.send i buf now d)).2.socks i) = p.1.table.socks i :=
        congrFun same i
      rw [same]
      exact inv.vouched i used some_left
    · obtain ⟨left, _⟩ := acceptedAfter_other
        (fun _ _ _ _ _ stream' => absurd stream' stream) some_left
      rw [left] at some_left
      exact absurd (inv.vouched i used some_left).stream stream
  · obtain ⟨left, opened, unreset⟩ := acceptedAfter_other
      (fun buf now d _ call => absurd ⟨buf, now, d, call⟩ sending) some_left
    rw [left] at some_left ⊢
    have vouched := inv.vouched i used some_left
    exact (step.move i).vouched vouched used (inv.bound i used vouched.opened) opened
      (fun buf now d call => sending ⟨buf, now, d, call⟩) unreset

end Booked

def Dataless (t t' : Table) : Prop := ∃ out, t'.sent = t.sent ++ out ∧ ∀ m ∈ out, m.payload = []

namespace Dataless
variable {t t' : Table}

theorem sentBy (quiet : Dataless t t') {m : Sent} (mem : m ∈ sentBy t t') : m.payload = [] := by
  obtain ⟨_, log, all⟩ := quiet
  rw [Net.sentBy, log, drop_left] at mem
  exact all m mem

end Dataless

namespace Table
variable (t : Table)

theorem call_dataless {c : Call} (quiet : ¬ c.Carries) : Dataless t (t.call c).2 := by
  obtain ⟨out, log, all⟩ := t.call_speaks c
  exact ⟨out, log, fun m mem => (all m mem).2.resolve_right quiet⟩

end Table

theorem Table.send_other_sent {t : Table} (j : Sd) (buf : List Byte) (now : Nat) (d : List Bool)
    (other : (t.socks j).type ≠ .stream) : (t.send j buf now d).2.sent = t.sent := by
  have silent := t.autoBind_sent j
  unfold send
  dsimp only
  split
  · rfl
  split
  · split_ifs <;> first | rfl | exact silent
  · rfl
  next stream =>
    exact absurd stream other

namespace Booked
variable {p : World × (Sd → List Piece)}

theorem send_truthful (i : Sd) (buf : List Byte) (now : Nat) (d : List Bool) :
    Truthful p (.send i buf now d) := by
  rintro j m ⟨rfl, k, here, ok⟩ data
  have idle (same : (p.1.table.send j buf now d).2.sent = p.1.table.sent) :
      ∃ a ∈ acceptedBy p (.send j buf now d) j, a.Holds m := by
    simp [sentBy, same] at here
  cases used : (p.1.table.socks j).used with
  | false => exact idle (by simp [send, used])
  | true =>
    by_cases stream : (p.1.table.socks j).type = .stream
    · by_cases state : (p.1.table.socks j).tcpState = .established ∨
          (p.1.table.socks j).tcpState = .closeWait
      · have loop := send_stream buf now d used stream
        rw [if_neg (by tauto)] at loop
        obtain ⟨out, log, all⟩ := sendLoop_out j now (buf.toChunks 1400) p.1.table d 0
        rw [sentBy, loop, log, drop_left] at here
        obtain ⟨mine, before, within, seq⟩ := all k m here ok
        refine ⟨p.1.table.piece j buf d, ?_, ?_⟩
        · rw [acceptedBy, acceptedAfter_send buf now d used stream _
            ⟨state, accepts_filled buf d within⟩]
          simp
        · exact Piece.holds_chunk mine.ip.symm mine.peer.symm mine.port.symm rfl within seq
      · exact idle (by rw [send_stream buf now d used stream, if_pos (by tauto)])
    · exact idle (send_other_sent j buf now d stream)

theorem tick_truthful_iff (inv : Booked p) (now : Nat) :
    Truthful p (.tick now) ↔ NoneStranded p (.tick now) := by
  have unchanged {i : Sd} (resends : (p.1.table.socks i).Resends now) :
      acceptedBy p (.tick now) i = p.2 i := by
    have after : (p.1.table.call (.tick now)).2.socks i =
        { p.1.table.socks i with
          retxSentMs := now, retxCount := (p.1.table.socks i).retxCount + 1 } := by
      rw [call, tick_socks, resends.tick]
    unfold acceptedBy acceptedAfter
    rw [after]
    exact if_neg (by simp [Begins, resends.used, resends.opened])
  constructor
  · intro truthful _ call i nothing resends
    cases call
    have mem : (p.1.table.socks i).kept ∈ ((p.1.table.socks i).tick now).2 := by
      rw [resends.tick]
      exact List.mem_singleton.2 rfl
    obtain ⟨a, accepted, _⟩ := truthful i _ mem resends.pending
    rw [unchanged resends, nothing] at accepted
    cases accepted
  intro none_stranded i m mem data
  have resends := Sock.tick_data mem data
  rw [unchanged resends]
  have some_left : p.2 i ≠ [] := fun nothing => none_stranded now rfl i nothing resends
  have only : m = (p.1.table.socks i).kept := by
    have mem : m ∈ ((p.1.table.socks i).tick now).2 := mem
    rw [resends.tick] at mem
    exact List.mem_singleton.1 mem
  rw [only]
  exact (inv.vouched i resends.used some_left).kept resends.pending

theorem truthful_iff (inv : Booked p) (c : Call) : Truthful p c ↔ NoneStranded p c := by
  by_cases sending : ∃ i buf now d, c = .send i buf now d
  · obtain ⟨i, buf, now, d, rfl⟩ := sending
    exact iff_of_true (send_truthful i buf now d) nofun
  by_cases timer : ∃ now, c = .tick now
  · obtain ⟨now, rfl⟩ := timer
    exact inv.tick_truthful_iff now
  refine iff_of_true (fun i m mem data => absurd ?_ data)
    fun now call => absurd ⟨now, call⟩ timer
  cases c with
  | send j buf now d => exact absurd ⟨j, buf, now, d, rfl⟩ sending
  | tick now => exact absurd ⟨now, rfl⟩ timer
  | _ => exact (p.1.table.call_dataless id).sentBy mem

end Booked

/-- In a run from boot every data segment goes to the peer of the connection that accepted its
bytes and carries them under their numbers, exactly if the timer never repeats a segment in a
slot whose present connection has accepted nothing. -/
theorem data_truthful (calls : List Call) (p : World × (Sd → List Piece)) :
    Prog.Runs (watch acceptance) Truthful (.boot, acceptance.start) calls p ↔
      Prog.Runs (watch acceptance) NoneStranded (.boot, acceptance.start) calls p :=
  Prog.Runs.congr (fun _ c inv => Booked.truthful_iff inv c)
    (fun _ _ _ _ inv _ run => inv.step run) .boot

/-- A client sends a byte, and the peer resets the connection. -/
def resetWithData : List Call :=
  [.create .stream, .connect 0 0x0A000202 80 100 true,
    .segment { srcIp := 0x0A000202, srcPort := 80, dstPort := 40000, seq := 7, ack := 101
               flags := { syn := true, ack := true }, payload := [] } 100,
    .send 0 [42] 100 [true],
    .segment { srcIp := 0x0A000202, srcPort := 80, dstPort := 40000, seq := 8, ack := 101
               flags := { rst := true }, payload := [] } 100]

/-- The socket has become a listener without a peer, and the timer sends the byte to 0.0.0.0:0. -/
theorem reset_strands_data :
    Prog.Runs (watch acceptance) (fun _ _ => True) (.boot, acceptance.start) resetWithData
        (observed acceptance resetWithData) ∧
      (∃ m ∈ (((observed acceptance resetWithData).1.table.socks 0).tick 600).2,
        m.dstIp = 0 ∧ m.dstPort = 0 ∧ m.seq = 101 ∧ m.payload = [42]) ∧
      ¬ Truthful (observed acceptance resetWithData) (.tick 600) := by
  have sent : ∃ m ∈ (((observed acceptance resetWithData).1.table.socks 0).tick 600).2,
      m.dstIp = 0 ∧ m.dstPort = 0 ∧ m.seq = 101 ∧ m.payload = [42] := by decide +kernel
  have nothing : acceptedBy (observed acceptance resetWithData) (.tick 600) 0 = [] :=
    List.isEmpty_iff.1 (by decide +kernel)
  refine ⟨observed_runs (by decide +kernel), sent, fun truthful => ?_⟩
  obtain ⟨m, mem, _, _, _, payload⟩ := sent
  obtain ⟨a, accepted, _⟩ := truthful 0 m mem (by simp [payload])
  cases accepted

end Osnos.Net
