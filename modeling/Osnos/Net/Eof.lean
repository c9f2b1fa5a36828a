import Osnos.Net.Stream

/-! When `sock_recv` reports the end of the stream. -/
namespace Osnos.Net

/-- `peer_fin` is set by a FIN in sequence or at the end of a connection, and a socket in
CLOSED has no connection, or a broken one. -/
structure Ends (h : Conn) (s : Sock) : Prop where
  peerFin : s.peerFin = true → h.fin = true ∨ h.broken = true
  closed : s.tcpState = .closed → h.broken = true ∨ h.opened = false

namespace Ends
variable {h : Conn} {s s' : Sock} {g : Segment}

theorem goes_on (ends : Ends h s) (flag : s'.peerFin = s.peerFin) (opened : s'.tcpState ≠ .closed) :
    Ends (h.hear s s' g) s' := by
  refine ⟨fun fin => ?_, fun closed => absurd closed opened⟩
  rcases ends.peerFin (flag ▸ fin) with seen | broken
  · exact .inl (by simp [Conn.hear, seen])
  · exact .inr (by simp [Conn.hear, broken])

theorem breaks (breaks : s.Breaks g) : Ends (h.hear s s' g) s' := by
  have broken : (h.hear s s' g).broken := by simp [Conn.hear, breaks]
  exact ⟨fun _ => .inr broken, fun _ => .inl broken⟩

theorem hears (ends : Ends h s) (tracks : Tracks h s) (hears : Hears s g s')
    (stays : s'.used) (opened : s.tcpState ≠ .closed) : Ends (h.hear s s' g) s' := by
  cases hears with
  | ignored => exact ends.goes_on rfl opened
  | opened | crossed | completed => exact ends.goes_on rfl TcpState.noConfusion
  | refused before rst => exact breaks (.inl ⟨rst, .inr before⟩)
  | mismatched before _ synAck wrong => exact breaks (.inr ⟨before, synAck, wrong⟩)
  | reset live rst => exact breaks (.inl ⟨rst, .inl live⟩)
  | received _ taken =>
    refine ends.goes_on taken.keeps.2.2.2.2.1 ?_
    rcases taken.receiving with h | h | h <;> simp [h]
  | fin _ taken inOrder =>
    refine ⟨fun _ => .inl ?_, nofun⟩
    simp [Conn.hear, taken.finArrives inOrder]
  | finLast _ taken _ other =>
    exact (Sock.finish_gone (tracks.closing (taken.closing other)) stays taken.keeps.2.2.2.1).elim
  | acked before =>
    exact (Sock.finish_gone (tracks.closing (.inr (.inr before))) stays rfl).elim

end Ends

theorem Move.closes {t : Table} {c : Call} {i : Sd} {s' : Sock} (move : Move t c i s')
    (unheard : Unheard t c i) (used : (t.socks i).used) (stays : s'.used)
    (before : (t.socks i).tcpState ≠ .closed) (after : s'.tcpState = .closed) :
    ∃ now, c = .tick now := by
  cases move with
  | create _ free | child _ _ _ free => cases used.symm.trans free
  | connect _ _ _ _ _ _ _ _ _ closed => exact absurd closed before
  | hear g now call found connection => exact absurd (unheard.segments g now call found) connection
  | close =>
    unfold Sock.close at stays after
    cases state : (t.socks i).tcpState <;> simp_all
  | tick now call => exact ⟨now, call⟩
  | listen => cases after
  | _ => exact absurd after before

/-- `sock_connect` is called on a socket with no unread bytes and `peer_fin` clear only. -/
def Clean (p : World × Streams) : Call → Prop
  | .connect i .. =>
    (p.1.table.socks i).tcpRx.contents = [] ∧ (p.1.table.socks i).peerFin = false
  | _ => True

instance (p : World × Streams) : (c : Call) → Decidable (Clean p c)
  | .connect .. => inferInstanceAs (Decidable (_ ∧ _))
  | .create _ | .bind .. | .listen .. | .accept .. | .recv .. | .send .. | .close _
  | .segment .. | .datagram .. | .tick _ => instDecidableTrue

variable {p : World × Streams}

theorem Clean.drained {c : Call} (clean : Clean p c) : Drained p c := by
  cases c with
  | connect => exact clean.1
  | _ => trivial

structure Ended (p : World × Streams) : Prop where
  tracked : Tracked p
  ends : ∀ i, (p.1.table.socks i).used = true → (p.1.table.socks i).type = .stream →
    Ends (p.2.conn i) (p.1.table.socks i)

namespace Ended
variable {p p' : World × Streams} {c : Call} {a : Answer}

theorem step (ended : Ended p) (clean : Clean p c) (run : watch streams c p = some (a, p')) :
    Ended p' := by
  refine ⟨ended.tracked.step clean.drained run, fun i stays stream' => ?_⟩
  have evolves := Tracked.evolves (.of_watch run) i stays stream'
  generalize p'.2.conn i = h', p'.1.table.socks i = s' at evolves stays
  cases evolves with
  | created => exact ⟨nofun, fun _ => .inr rfl⟩
  | spawned => exact ⟨nofun, nofun⟩
  | reads _ used stream => exact ⟨(ended.ends i used stream).peerFin, (ended.ends i used stream).closed⟩
  | hears g _ _ _ found _ used stream hears =>
    exact (ended.ends i used stream).hears (ended.tracked i used stream) hears stays
      (p.1.table.lookup_heard found).opened
  | begins _ _ _ _ call used _ _ synSent unheard move =>
    subst call
    refine ⟨fun fin => ?_, fun closed => absurd (closed.symm.trans synSent) (by decide)⟩
    rw [(move.unheard unheard used stays).2] at fin
    cases fin.symm.trans clean.2
  | unheard b _ used stream unheard move _ _ whole =>
    have before := ended.ends i used stream
    have remains : (p.2.conn i).broken → b := by
      intro broken
      cases b with
      | true => rfl
      | false => cases broken.symm.trans (whole rfl).1
    refine ⟨fun fin => ?_, fun closed => ?_⟩
    · rw [(move.unheard unheard used stays).2] at fin
      exact (before.peerFin fin).imp_right remains
    by_cases was : (p.1.table.socks i).tcpState = .closed
    · exact (before.closed was).imp_left remains
    obtain ⟨now, call⟩ := move.closes unheard used stays was closed
    cases b with
    | true => exact .inl rfl
    | false => exact absurd ((whole rfl).2 now call closed) was

theorem boot : Ended (.boot, streams.start) := by
  constructor <;>
  · intro i used
    cases used

end Ended

/-- A recv returns 0 bytes for a buffer that is not empty exactly if nothing is left and the
socket has `peer_fin` set or is in CLOSED. -/
theorem Table.recv_zero {t : Table} {i : Sd} (used : (t.socks i).used)
    (stream : (t.socks i).type = .stream) {len : Nat} (room : 0 < len) (interrupted : Bool) :
    (t.recv i len interrupted).1 = .ok 0 ↔ interrupted = false ∧ (t.socks i).tcpRx.contents = [] ∧
        ((t.socks i).peerFin ∨ (t.socks i).tcpState = .closed) := by
  rw [recv_stream used stream]
  have bytes := ((t.socks i).tcpRx.dequeue_contents len).1
  cases interrupted with
  | true => simp
  | false =>
    rw [if_neg (by simp)]
    split
    next some_left =>
      have left : (t.socks i).tcpRx.contents ≠ [] := by
        rw [ne_eq, Ring.contents_eq_nil]
        omega
      simp [bytes, left]
      omega
    rename_i none_left
    have empty : (t.socks i).tcpRx.contents = [] := Ring.contents_eq_nil.2 (by omega)
    split
    next ended =>
      simpa [empty] using ended
    next open_ =>
      simpa [empty] using open_

/-- The recv finds nothing to read on a socket in CLOSED or with `peer_fin` set, which never was
a connection or whose connection broke. -/
def Misreads (p : World × Streams) : Call → Prop
  | .recv i len interrupted =>
    0 < len ∧ interrupted = false ∧ (p.1.table.socks i).used = true ∧
      (p.1.table.socks i).type = .stream ∧ (p.1.table.socks i).tcpRx.contents = [] ∧
      ((p.1.table.socks i).peerFin = true ∨ (p.1.table.socks i).tcpState = .closed) ∧
      ((p.2.conn i).broken = true ∨ (p.2.conn i).opened = false)
  | _ => False

instance (p : World × Streams) : (c : Call) → Decidable (Misreads p c)
  | .recv .. => inferInstanceAs (Decidable (_ ∧ _))
  | .create _ | .bind .. | .listen .. | .connect .. | .accept .. | .send .. | .close _
  | .segment .. | .datagram .. | .tick _ => instDecidableFalse

theorem Ended.complete_iff (ended : Ended p) {i : Sd}
    (used : (p.1.table.socks i).used) (stream : (p.1.table.socks i).type = .stream)
    (empty : (p.1.table.socks i).tcpRx.contents = [])
    (over_ : (p.1.table.socks i).peerFin ∨ (p.1.table.socks i).tcpState = .closed) :
    ¬ (p.2.conn i).Complete ↔ (p.2.conn i).broken ∨ (p.2.conn i).opened = false := by
  have ends := ended.ends i used stream
  constructor
  · intro incomplete
    by_contra whole
    rw [not_or, Bool.not_eq_true, Bool.not_eq_false] at whole
    have fin : (p.2.conn i).fin := by
      rcases over_ with flag | closed
      · simpa [whole.1] using ends.peerFin flag
      · simpa [whole.1, whole.2] using ends.closed closed
    have bytes := (ended.tracked i used stream).whole whole.1
    rw [empty, List.append_nil] at bytes
    exact incomplete ⟨whole.2, whole.1, fin, bytes.symm⟩
  · rintro (broken | unopened) ⟨opened, whole, _⟩
    · cases broken.symm.trans whole
    · cases opened.symm.trans unopened

theorem Ended.falseEof_iff {p' : World × Streams} {c : Call} {a : Answer} (ended : Ended p)
    (step : Stepped streams p c a p') : FalseEof p.2 p.1.table a c ↔ Misreads p c := by
  cases c with
  | recv i _ interrupted =>
    rw [step.answer]
    cases used : (p.1.table.socks i).used with
    | false => simp [FalseEof, Misreads, used, Table.call, Table.recv]
    | true =>
      constructor
      · rintro ⟨room, stream, zero, incomplete⟩
        obtain ⟨polled, empty, over_⟩ := (Table.recv_zero used stream room interrupted).1 zero
        exact ⟨room, polled, used, stream, empty, over_,
          (ended.complete_iff used stream empty over_).1 incomplete⟩
      · rintro ⟨room, polled, _, stream, empty, over_, bad⟩
        exact ⟨room, stream, (Table.recv_zero used stream room interrupted).2 ⟨polled, empty, over_⟩,
          (ended.complete_iff used stream empty over_).2 bad⟩
  | _ => exact Iff.rfl

/-- In a run whose connects are clean, every end of file that a recv reports is one exactly if
no recv finds a socket in CLOSED, or with `peer_fin` set, that has no connection or a broken
one. -/
theorem eof_complete_iff {calls : List Call} {p : World × Streams}
    (run : Prog.Runs (watch streams) Clean (.boot, streams.start) calls p) :
    Prog.Always (watch streams) (fun p => p.2.falseEof = false) (.boot, streams.start) calls ↔
      Prog.Runs (watch streams) (fun p c => ¬ Misreads p c) (.boot, streams.start) calls p := by
  refine run.always_iff_within (fun _ _ _ _ ended clean step => Ended.step ended clean step) ?_
    Ended.boot rfl
  intro p c a p' ended _ holds run
  have step := Stepped.of_watch run
  rw [step.seen, ← ended.falseEof_iff step]
  simp [streams, holds]

/-- The peer of an accepted connection sends a byte and resets the connection before it is
read. -/
def resetRead : List Call :=
  halfOpen ++ [handshakeAck, .accept 0 false,
    .segment { srcIp := 0x0A000202, srcPort := 99, dstPort := 80, seq := 8, ack := 0x1234ABCE
               flags := { ack := true }, payload := [5] } 0,
    .segment { srcIp := 0x0A000202, srcPort := 99, dstPort := 80, seq := 9, ack := 0
               flags := { rst := true }, payload := [] } 0,
    .recv 1 100 false]

theorem eof_complete_iff_reset :
    ∃ p, Prog.Runs (watch streams) Clean (.boot, streams.start) resetRead p ∧
      (Prog.Always (watch streams) (fun p => p.2.falseEof = false) (.boot, streams.start) resetRead ↔
        Prog.Runs (watch streams) (fun p c => ¬ Misreads p c)
    (.boot, streams.start) resetRead p) := by
  obtain ⟨p, _, run⟩ : ∃ p, played streams Clean (.boot, streams.start) resetRead = some p ∧ _ :=
    legal_runs (by decide +kernel)
  exact ⟨p, run, eof_complete_iff run⟩

/-- The recv returns 0: the reset looks like the end of the stream, and the byte is lost. -/
theorem reset_reads_as_eof :
    Prog.Runs (watch streams) (fun _ _ => True) (.boot, streams.start) resetRead
        (observed streams resetRead) ∧
      (observed streams resetRead).2.falseEof = true :=
  ⟨observed_runs (by decide +kernel), by decide +kernel⟩

end Osnos.Net
