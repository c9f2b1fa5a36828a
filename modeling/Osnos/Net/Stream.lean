import Osnos.Net.Keep

/-! The bytes of each connection: what was stored, what `sock_recv` has returned of it and how
the connection ended. -/
namespace Osnos.Net
open Sock Table Bool

structure Conn where
  /-- The number of the connection in its slot. -/
  gen : Nat
  /-- A handshake has begun. -/
  opened : Bool
  /-- The peer's SYN has come, with the sequence number `isn`. -/
  synced : Bool
  isn : Seq
  stored : List Byte
  returned : List Byte
  /-- A FIN came in sequence. -/
  fin : Bool
  /-- A reset, a failed handshake or the timer ended the connection. -/
  broken : Bool

namespace Sock

def takes (s : Sock) (g : Segment) : List Byte :=
  if s.Receives ∧ g.flags.rst = false then s.stores g else []

def FinArrives (s : Sock) (g : Segment) : Prop :=
  s.Receives ∧ g.flags.rst = false ∧ g.flags.fin = true ∧
    g.seq + BitVec.ofNat 32 g.payload.length = s.rcvNxt + BitVec.ofNat 32 (s.stores g).length

instance (s : Sock) (g : Segment) : Decidable (s.FinArrives g) := inferInstanceAs (Decidable (_ ∧ _))

def Begins (s s' : Sock) : Prop :=
  s.used = false ∧ s'.used = true ∨ s.tcpState ≠ .synSent ∧ s'.tcpState = .synSent

instance (s s' : Sock) : Decidable (s.Begins s') := inferInstanceAs (Decidable (_ ∨ _))

end Sock

namespace Conn

def start (gen : Nat) (c : Call) (s' : Sock) : Conn where
  gen := gen
  opened := s'.tcpState != .closed
  synced := s'.tcpState == .synRcvd
  isn := match c with
    | .segment g _ => g.seq
    | _ => 0
  stored := []
  returned := []
  fin := false
  broken := false

def hear (h : Conn) (s s' : Sock) (g : Segment) : Conn :=
  let syncs : Bool :=
    s.tcpState == .synSent && (s'.tcpState == .established || s'.tcpState == .synRcvd)
  { h with
    synced := h.synced || syncs
    isn := if syncs then g.seq else h.isn
    stored := h.stored ++ s.takes g
    fin := h.fin || decide (s.FinArrives g)
    broken := h.broken || decide (s.Breaks g) }

def see (h : Conn) (t : Table) (c : Call) (a : Answer) (s' : Sock) (i : Sd) : Conn :=
  if (t.socks i).Begins s' then start (h.gen + 1) c s'
  else
    match c with
    | .segment g _ =>
      if t.lookup g = some i ∧ (t.socks i).tcpState ≠ .listen then h.hear (t.socks i) s' g else h
    | .recv j .. =>
      if j = i ∧ (t.socks i).type = .stream then { h with returned := h.returned ++ a.bytes } else h
    | .tick _ =>
      { h with broken := h.broken || (t.socks i).tcpState != .closed && s'.tcpState == .closed }
    | _ => h

def Complete (h : Conn) : Prop :=
  h.opened = true ∧ h.broken = false ∧ h.fin = true ∧ h.returned = h.stored

instance (h : Conn) : Decidable h.Complete := inferInstanceAs (Decidable (_ ∧ _))

def Covers (h : Conn) (s : Sock) (m : Sent) : Prop :=
  (s.remoteIp = m.dstIp ∧ s.remotePort = m.dstPort ∧ s.localPort = m.srcPort) ∧
    h.synced = true ∧ (m.ack - (h.isn + 1)).toNat ≤ h.stored.length + h.fin.toNat

instance (h : Conn) (s : Sock) (m : Sent) : Decidable (h.Covers s m) :=
  inferInstanceAs (Decidable (_ ∧ _))

end Conn

structure Streams where
  conn : Sd → Conn
  /-- A recv has reported an end of file that was none. -/
  falseEof : Bool
  /-- An acknowledgement has covered a byte that was not stored. -/
  overAck : Bool

/-- The recv returns 0 although the stream of the peer is not complete. -/
def FalseEof (h : Streams) (t : Table) (a : Answer) : Call → Prop
  | .recv i len _ =>
    0 < len ∧ (t.socks i).type = .stream ∧ a.reply = .ok 0 ∧ ¬ (h.conn i).Complete
  | _ => False

instance (h : Streams) (t : Table) (a : Answer) : (c : Call) → Decidable (FalseEof h t a c)
  | .recv .. => inferInstanceAs (Decidable (_ ∧ _))
  | .create _ | .bind .. | .listen .. | .connect .. | .accept .. | .send .. | .close _
  | .segment .. | .datagram .. | .tick _ => instDecidableFalse

/-- What acknowledges anything acknowledges stored bytes only. A RST is no acknowledgement, and
what the timer repeats for a connection that was reset goes to 0.0.0.0:0. -/
def AckOk (conn : Sd → Conn) (t : Table) (m : Sent) : Prop :=
  m.flags.ack = false ∨ m.flags.rst = true ∨ m.dstIp = 0 ∧ m.dstPort = 0 ∨
    ∃ i, (conn i).Covers (t.socks i) m

instance (conn : Sd → Conn) (t : Table) (m : Sent) : Decidable (AckOk conn t m) :=
  inferInstanceAs (Decidable (_ ∨ _))

def sentBy (t t' : Table) : List Sent := t'.sent.drop t.sent.length

def streams : Observer Streams where
  start :=
    { conn := fun _ => .start 0 (.tick 0) .unused, falseEof := false, overAck := false }
  see h w c a w' :=
    { conn := fun i => (h.conn i).see w.table c a (w'.table.socks i) i
      falseEof := h.falseEof || decide (FalseEof h w.table a c)
      overAck := h.overAck || (sentBy w.table w'.table).any fun m =>
        decide (¬ AckOk (fun i => (h.conn i).see w.table c a (w'.table.socks i) i) w'.table m) }

variable {i : Sd} {g : Segment} {s : Sock}

section
variable {t : Table} {c : Call} {i : Sd} {s' : Sock}

structure Unheard (t : Table) (c : Call) (i : Sd) : Prop where
  segments : ∀ g now, c = .segment g now → t.lookup g = some i → (t.socks i).tcpState = .listen
  reads : ∀ len interrupted, c ≠ .recv i len interrupted

theorem unheard_or (t : Table) (c : Call) (i : Sd) :
    (∃ len interrupted, c = .recv i len interrupted) ∨
      (∃ g now, c = .segment g now ∧ t.lookup g = some i ∧ (t.socks i).tcpState ≠ .listen) ∨
      Unheard t c i := by
  by_cases reading : ∃ len interrupted, c = .recv i len interrupted
  · exact .inl reading
  by_cases heard : ∃ g now, c = .segment g now ∧ t.lookup g = some i ∧
      (t.socks i).tcpState ≠ .listen
  · exact .inr (.inl heard)
  refine .inr (.inr ⟨fun g now call found => ?_, fun len interrupted call => reading ⟨len, interrupted, call⟩⟩)
  by_contra connection
  exact heard ⟨g, now, call, found, connection⟩

theorem Move.unheard (move : Move t c i s') (unheard : Unheard t c i)
    (used : (t.socks i).used) (stays : s'.used) :
    s'.tcpRx = (t.socks i).tcpRx ∧ s'.peerFin = (t.socks i).peerFin := by
  cases move with
  | create _ free | child _ _ _ free => cases used.symm.trans free
  | connect _ _ _ _ _ _ delivered => cases delivered <;> exact ⟨rfl, rfl⟩
  | recv len _ _ _ call => exact absurd call (unheard.reads len false)
  | hear g now call found connection => exact absurd (unheard.segments g now call found) connection
  | close =>
    unfold Sock.close
    split <;> exact ⟨rfl, rfl⟩
  | tick now =>
    have ticks := (t.socks i).tick_ticks now
    generalize ((t.socks i).tick now).1 = s' at ticks stays
    cases ticks with
    | gaveUp =>
      rw [(finish_used stays).2]
      exact ⟨rfl, rfl⟩
    | _ => exact ⟨rfl, rfl⟩
  | _ => exact ⟨rfl, rfl⟩

theorem Hears.not_synSent (hears : Hears s g s')
    (after : s'.tcpState = .synSent) : s.tcpState = .synSent := by
  cases hears with
  | ignored => exact after
  | reset live =>
    unfold Sock.reset at after
    split_ifs at after <;> simp_all
  | received _ taken => rcases taken.receiving with h | h | h <;> simp [h] at after
  | finLast | acked => simp [finish_state] at after
  | _ => cases after

theorem Move.begins (move : Move t c i s') (used : (t.socks i).used)
    (begins : (t.socks i).Begins s') :
    (t.socks i).tcpState = .closed ∧ ∃ ip port now, c = .connect i ip port now true := by
  obtain ⟨before, after⟩ : (t.socks i).tcpState ≠ .synSent ∧ s'.tcpState = .synSent := by
    rcases begins with ⟨free, _⟩ | changes
    · cases used.symm.trans free
    · exact changes
  cases move with
  | create _ free | child _ _ _ free => cases used.symm.trans free
  | connect ip _ port _ _ now delivered _ _ closed _ _ call =>
    cases delivered with
    | false => cases after
    | true => exact ⟨closed, ip, port, now, call⟩
  | hear g => exact absurd (((t.socks i).hear_hears g).not_synSent after) before
  | close =>
    unfold Sock.close at after
    split at after <;> simp_all
  | tick now =>
    have ticks := (t.socks i).tick_ticks now
    generalize ((t.socks i).tick now).1 = s' at ticks after
    cases ticks with
    | gaveUp => simp [finish_state] at after
    | _ => exact absurd after before
  | listen => cases after
  | _ => exact absurd after before

end

def Sock.Closing (s : Sock) : Prop :=
  s.tcpState = .finWait1 ∨ s.tcpState = .finWait2 ∨ s.tcpState = .lastAck ∨ s.tcpState = .closing

structure Tracks (h : Conn) (s : Sock) : Prop where
  kept : h.returned ++ s.tcpRx.contents <+: h.stored
  whole : h.broken = false → h.stored = h.returned ++ s.tcpRx.contents
  ended : h.broken = true → s.tcpState = .closed ∨ s.tcpState = .listen
  closing : s.Closing → s.zombie = true

theorem Sock.takes_deaf (deaf : ¬ s.Receives) : s.takes g = [] := by
  rw [takes, if_neg (by simp [deaf])]

theorem Sock.Taken.takes_eq {s' : Sock} (taken : s.Taken g s') : s.takes g = s.stores g := by
  rw [takes, if_pos ⟨taken.receives, taken.noRst⟩]

theorem Sock.Taken.unbroken {s' : Sock} (taken : s.Taken g s') : ¬ s.Breaks g := by
  refine not_breaks taken.noRst ?_
  rcases taken.receives with h | h | h <;> simp [h]

theorem Sock.Taken.closing {s' : Sock} (taken : s.Taken g s')
    (other : s.tcpState ≠ .established) : s.Closing := by
  rcases taken.receives with h | h | h
  · exact absurd h other
  · exact .inl h
  · exact .inr (.inl h)

theorem Sock.Taken.finArrives {s' : Sock} (taken : s.Taken g s')
    (inOrder : s'.finInOrder g) : s.FinArrives g := by
  rw [finInOrder, and_eq_true, decide_eq_true_iff] at inOrder
  have next : s'.rcvNxt = s.rcvNxt + BitVec.ofNat 32 (s.stores g).length := by
    rw [taken.rest]
  refine ⟨taken.receives, taken.noRst, inOrder.1, ?_⟩
  rw [← next]
  refine BitVec.eq_of_toNat_eq ?_
  rw [BitVec.toNat_add, BitVec.toNat_ofNat, Nat.add_mod_mod, inOrder.2]
  exact Nat.mod_eq_of_lt s'.rcvNxt.isLt

theorem Sock.reset_ended (live : s.Live) (mine : s.zombie = false) :
    s.reset.tcpRx.contents = [] ∧ (s.reset.tcpState = .closed ∨ s.reset.tcpState = .listen) := by
  have opened : s.tcpState ≠ .closed := by
    rcases live with (h | h | h) | h | h | h | h <;> simp [h]
  refine ⟨by simp [reset], ?_⟩
  cases parent : s.parentSd <;> simp [reset, mine, parent, opened]

namespace Tracks
variable {h : Conn} {s s' : Sock} {g : Segment}

theorem begins (gen : Nat) (c : Call) (empty : s'.tcpRx.contents = [])
    (state : s'.tcpState = .closed ∨ s'.tcpState = .synSent ∨ s'.tcpState = .synRcvd) :
    Tracks (.start gen c s') s' := by
  refine ⟨by simp [Conn.start, empty], by simp [Conn.start, empty], by simp [Conn.start], ?_⟩
  rintro (h | h | h | h) <;> simp [h] at state

theorem goes_on (tracks : Tracks h s) (mine : h.broken = false) (deaf : ¬ s.Receives)
    (unbroken : ¬ s.Breaks g) (ring : s'.tcpRx = s.tcpRx)
    (closing : s'.Closing → s'.zombie) : Tracks (h.hear s s' g) s' := by
  have whole : (h.hear s s' g).stored = (h.hear s s' g).returned ++ s'.tcpRx.contents := by
    simp [Conn.hear, takes_deaf deaf, ring, tracks.whole mine]
  refine ⟨by rw [whole], fun _ => whole, ?_, closing⟩
  intro broken
  simp [Conn.hear, mine, unbroken] at broken

theorem breaks (tracks : Tracks h s) (deaf : s.takes g = []) (breaks : s.Breaks g)
    (ring : s'.tcpRx.contents = s.tcpRx.contents ∨ s'.tcpRx.contents = [])
    (state : s'.tcpState = .closed ∨ s'.tcpState = .listen) : Tracks (h.hear s s' g) s' := by
  refine ⟨?_, ?_, fun _ => state, ?_⟩
  · have kept : h.returned <+: h.stored := (List.prefix_append ..).trans tracks.kept
    rcases ring with same | empty
    · simpa [Conn.hear, deaf, same] using tracks.kept
    · simpa [Conn.hear, deaf, empty] using kept
  · intro whole
    simp [Conn.hear, breaks] at whole
  · rintro (h | h | h | h) <;> simp [h] at state

theorem takes (tracks : Tracks h s) (mine : h.broken = false) {s₁ : Sock} (taken : s.Taken g s₁)
    (ring : s'.tcpRx = s₁.tcpRx) (closing : s'.Closing → s'.zombie) :
    Tracks (h.hear s s' g) s' := by
  have whole : (h.hear s s' g).stored = (h.hear s s' g).returned ++ s'.tcpRx.contents := by
    simp [Conn.hear, taken.takes_eq, ring, taken.ring, tracks.whole mine]
  refine ⟨by rw [whole], fun _ => whole, ?_, closing⟩
  intro broken
  simp [Conn.hear, mine, taken.unbroken] at broken

theorem hears (tracks : Tracks h s) (hears : Hears s g s') (used : s.used)
    (stays : s'.used) (state : s.tcpState ≠ .closed ∧ s.tcpState ≠ .listen) :
    Tracks (h.hear s s' g) s' := by
  have mine : h.broken = false := by
    cases broken : h.broken with
    | false => rfl
    | true => rcases tracks.ended broken with h | h <;> simp [h] at state
  cases hears with
  | ignored deaf unbroken => exact tracks.goes_on mine deaf unbroken rfl tracks.closing
  | opened before noRst _ right =>
    refine tracks.goes_on mine (by simp [Receives, before]) ?_ rfl ?_
    · simp [Breaks, noRst, right]
    · simp [Sock.Closing]
  | crossed before noRst _ noAck =>
    refine tracks.goes_on mine (by simp [Receives, before]) ?_ rfl ?_
    · simp [Breaks, noRst, noAck]
    · simp [Sock.Closing]
  | completed completes =>
    have before := completes.state
    refine tracks.goes_on mine (by simp [Receives, before]) ?_ rfl (by simp [Sock.Closing])
    exact not_breaks completes.noRst (by simp [before])
  | refused before rst =>
    exact tracks.breaks (takes_deaf (by simp [Receives, before])) (.inl ⟨rst, .inr before⟩)
      (.inl rfl) (.inl rfl)
  | mismatched before _ synAck wrong =>
    exact tracks.breaks (takes_deaf (by simp [Receives, before]))
      (.inr ⟨before, synAck, wrong⟩) (.inl rfl) (.inl rfl)
  | reset live rst =>
    rw [reset_used used, not_eq_true'] at stays
    obtain ⟨empty, ended⟩ := reset_ended live stays
    exact tracks.breaks (by simp [Sock.takes, rst]) (.inl ⟨rst, .inl live⟩) (.inr empty) ended
  | received _ taken =>
    refine tracks.takes mine taken rfl ?_
    intro closing
    rw [taken.keeps.2.2.2.1]
    refine tracks.closing ?_
    rcases taken.state with same | ⟨before, _⟩
    · simpa [Sock.Closing, same] using closing
    · exact .inl before
  | fin _ taken => exact tracks.takes mine taken rfl (by simp [Sock.Closing])
  | finLast _ taken _ other =>
    exact (Sock.finish_gone (tracks.closing (taken.closing other)) stays taken.keeps.2.2.2.1).elim
  | acked before =>
    exact (Sock.finish_gone (tracks.closing (.inr (.inr before))) stays rfl).elim

theorem untouched {t : Table} {c : Call} (tracks : Tracks h (t.socks i))
    (move : Move t c i s') (unheard : Unheard t c i) (used : (t.socks i).used)
    (stays : s'.used) (same : ¬ (t.socks i).Begins s') {b : Bool}
    (broken : b → h.broken ∨ s'.tcpState = .closed)
    (mine : b = false → h.broken = false) :
    Tracks { h with broken := b } s' := by
  obtain ⟨ring, _⟩ := move.unheard unheard used stays
  have turn := move.turn used stays
  refine ⟨by simpa [ring] using tracks.kept, fun whole => ?_, fun ended => ?_, fun closing => ?_⟩
  · rw [ring]
    exact tracks.whole (mine whole)
  · rcases broken ended with before | closed
    · have ended := tracks.ended before
      generalize eq : s'.tcpState = state at turn
      cases turn with
      | same => exact ended
      | toListen | thrown => exact .inr rfl
      | toClosed => exact .inl rfl
      | toSynSent =>
        refine absurd (.inr ⟨?_, eq⟩) same
        rcases ended with h | h <;> simp [h]
      | toSynRcvd was | toFinWait1 was | toFinWait2 was | toCloseWait was | toLastAck was =>
        simp [was] at ended
      | toEstablished was => rcases was with was | was <;> simp [was] at ended
    · exact .inl closed
  · have still : (t.socks i).Closing → s'.zombie := by
      intro before
      rcases (move.kept used stays).zombie with same | ⟨_, _, _, zombie⟩
      · exact same.trans (tracks.closing before)
      · exact zombie
    unfold Sock.Closing at closing
    generalize s'.tcpState = state at turn closing
    cases turn with
    | same => exact still closing
    | toFinWait1 _ _ zombie | toLastAck _ _ zombie => exact zombie
    | toFinWait2 before => exact still (.inl before)
    | _ => simp at closing

end Tracks

theorem Table.recv_stream {t : Table} (used : (t.socks i).used)
    (stream : (t.socks i).type = .stream) (len : Nat) (interrupted : Bool) :
    t.recv i len interrupted =
      if interrupted then (.error, [], t)
      else if (t.socks i).tcpRx.count > 0 then
        (.ok ((t.socks i).tcpRx.dequeue len).1.length, ((t.socks i).tcpRx.dequeue len).1,
          t.edit i fun s => { s with tcpRx := ((t.socks i).tcpRx.dequeue len).2 })
      else if (t.socks i).peerFin ∨ (t.socks i).tcpState = .closed then (.ok 0, [], t)
      else (.again, [], t) := by
  unfold recv
  dsimp only
  rw [if_neg (by simp [used]), stream]

theorem Table.recv_bytes {t : Table} (used : (t.socks i).used)
    (stream : (t.socks i).type = .stream) (len : Nat) (interrupted : Bool) :
    ∃ n q, (t.recv i len interrupted).2.1 = (t.socks i).tcpRx.contents.take n ∧
      (t.recv i len interrupted).2.2.socks i = { t.socks i with tcpRx := q } ∧
      q.contents = (t.socks i).tcpRx.contents.drop n := by
  have none_read : ∃ n q, ([] : List Byte) = (t.socks i).tcpRx.contents.take n ∧
      t.socks i = { t.socks i with tcpRx := q } ∧ q.contents = (t.socks i).tcpRx.contents.drop n :=
    ⟨0, (t.socks i).tcpRx, by simp, rfl, by simp⟩
  rw [recv_stream used stream]
  split
  · exact none_read
  split
  · obtain ⟨bytes, rest⟩ := (t.socks i).tcpRx.dequeue_contents len
    exact ⟨len, ((t.socks i).tcpRx.dequeue len).2, bytes, by simp, rest⟩
  split <;> exact none_read

def Drained (p : World × Streams) : Call → Prop
  | .connect i .. => (p.1.table.socks i).tcpRx.contents = []
  | _ => True

def Tracked (p : World × Streams) : Prop :=
  ∀ i, (p.1.table.socks i).used = true → (p.1.table.socks i).type = .stream →
    Tracks (p.2.conn i) (p.1.table.socks i)

namespace Tracked
variable {p p' : World × Streams} {c : Call} {a : Answer}

theorem conn_reads {len : Nat} {interrupted : Bool}
    (step : Stepped streams p (.recv i len interrupted) a p')
    (used : (p.1.table.socks i).used) (stream : (p.1.table.socks i).type = .stream) :
    ∃ q, p'.1.table.socks i = { p.1.table.socks i with tcpRx := q } ∧
      p'.2.conn i = { p.2.conn i with returned := (p.2.conn i).returned ++ a.bytes } ∧
      a.bytes ++ q.contents = (p.1.table.socks i).tcpRx.contents := by
  obtain ⟨n, q, bytes, now, rest⟩ := recv_bytes used stream len interrupted
  have now : p'.1.table.socks i = { p.1.table.socks i with tcpRx := q } := by
    rw [step.table]
    exact now
  have same : ¬ (p.1.table.socks i).Begins (p'.1.table.socks i) := by
    simp [Sock.Begins, used, now]
  refine ⟨q, now, ?_, ?_⟩
  · rw [step.seen]
    simp [streams, Conn.see, if_neg same, stream]
  have bytes : a.bytes = (p.1.table.socks i).tcpRx.contents.take n := by
    rw [step.answer]
    exact bytes
  rw [bytes, rest, List.take_append_drop]

theorem conn_unheard (step : Stepped streams p c a p') (unheard : Unheard p.1.table c i)
    (same : ¬ (p.1.table.socks i).Begins (p'.1.table.socks i)) :
    ∃ b, p'.2.conn i = { p.2.conn i with broken := b } ∧ (b → (p.2.conn i).broken ∨
        (p.1.table.socks i).tcpState ≠ .closed ∧ (p'.1.table.socks i).tcpState = .closed) ∧
      (b = false → (p.2.conn i).broken = false ∧
        ∀ now, c = .tick now → (p'.1.table.socks i).tcpState = .closed →
          (p.1.table.socks i).tcpState = .closed) := by
  have seen : p'.2.conn i = (p.2.conn i).see p.1.table c a (p'.1.table.socks i) i := by
    rw [step.seen]
    rfl
  unfold Conn.see at seen
  rw [if_neg same] at seen
  cases c with
  | tick =>
    refine ⟨_, seen, ?_, ?_⟩
    · simp
    simp only [or_eq_false_iff, and_eq_false_iff, bne_eq_false_iff_eq, beq_eq_false_iff_ne]
    rintro ⟨whole, never⟩
    refine ⟨whole, fun _ _ closed => ?_⟩
    rcases never with before | other
    · exact before
    · exact absurd closed other
  | segment g now =>
    dsimp only at seen
    rw [if_neg fun heard => heard.2 (unheard.segments g now rfl heard.1)] at seen
    exact ⟨_, seen, .inl, fun whole => ⟨whole, by simp⟩⟩
  | recv j len interrupted =>
    have other : ¬ (j = i ∧ (p.1.table.socks i).type = .stream) := by
      rintro ⟨rfl, _⟩
      exact unheard.reads len interrupted rfl
    dsimp only at seen
    rw [if_neg other] at seen
    exact ⟨_, seen, .inl, fun whole => ⟨whole, by simp⟩⟩
  | _ => exact ⟨_, seen, .inl, fun whole => ⟨whole, by simp⟩⟩

theorem hears {now : Nat} (step : Stepped streams p (.segment g now) a p')
    (found : p.1.table.lookup g = some i) (connection : (p.1.table.socks i).tcpState ≠ .listen) :
    Hears (p.1.table.socks i) g (p'.1.table.socks i) ∧
      p'.2.conn i = (p.2.conn i).hear (p.1.table.socks i) (p'.1.table.socks i) g := by
  have used := (p.1.table.lookup_heard found).used
  have same : ¬ (p.1.table.socks i).Begins (p'.1.table.socks i) := by
    intro begins
    obtain ⟨_, _, _, _, call⟩ := (step.move i).begins used begins
    cases call
  constructor
  · rw [step.table]
    change Hears _ g ((p.1.table.handleSegment g now).socks i)
    rw [handleSegment_hear now found connection]
    exact hear_hears _ g
  · rw [step.seen]
    simp [streams, Conn.see, same, found, connection]

/-- How a call changes a stream socket and the record of its connection. -/
inductive Evolves (t : Table) (h : Conn) (c : Call) (a : Answer) (i : Sd) : Conn → Sock → Prop
  | created (type : SockType) :
      Evolves t h c a i (.start (h.gen + 1) c ((t.socks i).create type)) ((t.socks i).create type)
  | spawned (g : Segment) (now : Nat) (parent : Sd) (call : c = .segment g now) :
      Evolves t h c a i (.start (h.gen + 1) c ((t.socks i).spawned i parent g now))
        ((t.socks i).spawned i parent g now)
  | reads (q : Ring Byte 32768) (used : (t.socks i).used = true)
      (stream : (t.socks i).type = .stream)
      (split : a.bytes ++ q.contents = (t.socks i).tcpRx.contents) :
      Evolves t h c a i { h with returned := h.returned ++ a.bytes } { t.socks i with tcpRx := q }
  | hears (g : Segment) (now : Nat) (s' : Sock) (call : c = .segment g now)
      (found : t.lookup g = some i) (connection : (t.socks i).tcpState ≠ .listen)
      (used : (t.socks i).used = true) (stream : (t.socks i).type = .stream)
      (hears : Hears (t.socks i) g s') : Evolves t h c a i (h.hear (t.socks i) s' g) s'
  | begins (ip : Ip) (port : Port) (now : Nat) (s' : Sock)
      (call : c = .connect i ip port now true) (used : (t.socks i).used = true)
      (stream : (t.socks i).type = .stream) (closed : (t.socks i).tcpState = .closed)
      (synSent : s'.tcpState = .synSent) (unheard : Unheard t c i) (move : Move t c i s') :
      Evolves t h c a i (.start (h.gen + 1) c s') s'
  | unheard (b : Bool) (s' : Sock) (used : (t.socks i).used = true)
      (stream : (t.socks i).type = .stream) (unheard : Unheard t c i) (move : Move t c i s')
      (same : ¬ (t.socks i).Begins s')
      (broken : b = true → h.broken = true ∨
        (t.socks i).tcpState ≠ .closed ∧ s'.tcpState = .closed)
      (whole : b = false → h.broken = false ∧
        ∀ now, c = .tick now → s'.tcpState = .closed → (t.socks i).tcpState = .closed) :
      Evolves t h c a i { h with broken := b } s'

theorem evolves (step : Stepped streams p c a p') (i : Sd)
    (stays : (p'.1.table.socks i).used) (stream' : (p'.1.table.socks i).type = .stream) :
    Evolves p.1.table (p.2.conn i) c a i (p'.2.conn i) (p'.1.table.socks i) := by
  have move := step.move i
  have start (begins : (p.1.table.socks i).Begins (p'.1.table.socks i)) :
      p'.2.conn i = .start ((p.2.conn i).gen + 1) c (p'.1.table.socks i) := by
    rw [step.seen]
    exact if_pos begins
  cases used : (p.1.table.socks i).used with
  | false =>
    rw [start (.inl ⟨used, stays⟩)]
    rcases move.born used stays with ⟨type, _, now | ⟨now, _⟩⟩ | ⟨g, now, parent, call, _, _, made⟩
    · rw [now]
      exact .created type
    · rw [now] at stream'
      cases stream'
    · rw [made]
      exact .spawned g now parent call
  | true =>
    have stream := (move.kept used stays).type.symm.trans stream'
    rcases unheard_or p.1.table c i with ⟨len, interrupted, rfl⟩ |
      ⟨g, now, rfl, found, connection⟩ | unheard
    · obtain ⟨q, now, conn, split⟩ := conn_reads step used stream
      rw [conn, now]
      exact .reads q used stream split
    · obtain ⟨hears, conn⟩ := hears step found connection
      rw [conn]
      exact .hears g now _ rfl found connection used stream hears
    by_cases begins : (p.1.table.socks i).Begins (p'.1.table.socks i)
    · obtain ⟨closed, ip, port, now, call⟩ := move.begins used begins
      have synSent := begins.resolve_left fun made => absurd (used.symm.trans made.1) (by decide)
      rw [start begins]
      exact .begins ip port now _ call used stream closed synSent.2 unheard move
    · obtain ⟨b, conn, broken, whole⟩ := conn_unheard step unheard begins
      rw [conn]
      exact .unheard b _ used stream unheard move begins broken whole

theorem step (tracked : Tracked p) (drained : Drained p c)
    (run : watch streams c p = some (a, p')) : Tracked p' := by
  intro i stays stream'
  have evolves := evolves (.of_watch run) i stays stream'
  generalize p'.2.conn i = h', p'.1.table.socks i = s' at evolves stays
  cases evolves with
  | created => exact .begins _ _ rfl (.inl rfl)
  | spawned => exact .begins _ _ rfl (.inr (.inr rfl))
  | reads q used stream split =>
    have tracks := tracked i used stream
    refine ⟨?_, ?_, tracks.ended, tracks.closing⟩ <;> rw [List.append_assoc, split]
    · exact tracks.kept
    · exact tracks.whole
  | hears _ _ _ _ found connection used stream hears =>
    exact (tracked i used stream).hears hears used stays
      ⟨(p.1.table.lookup_heard found).opened, connection⟩
  | begins _ _ _ _ call used _ _ synSent unheard move =>
    subst call
    refine .begins _ _ ?_ (.inr (.inl synSent))
    rw [(move.unheard unheard used stays).1]
    exact drained
  | unheard b _ used stream unheard move same broken whole =>
    exact (tracked i used stream).untouched move unheard used stays same
      (fun ended => (broken ended).imp_right And.right) fun mine => (whole mine).1

end Tracked

end Osnos.Net
