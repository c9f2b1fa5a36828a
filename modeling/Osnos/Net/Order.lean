import Osnos.Net.Emit

/-! The bytes that `sock_recv` returns are those the peer sent, in order, and what is
acknowledged has been stored. -/
namespace Osnos.Net
open Sock List Bool BitVec

def Carries (isn : Seq) (data : List Byte) (g : Segment) : Prop :=
  g.payload ≠ [] → ∃ k, g.seq = isn + 1 + BitVec.ofNat 32 k ∧
    k + g.payload.length ≤ data.length ∧ g.payload = (data.drop k).take g.payload.length

instance (isn : Seq) (data : List Byte) (g : Segment) : Decidable (Carries isn data g) :=
  decidable_of_iff (g.payload ≠ [] → ∃ k < data.length, g.seq = isn + 1 + BitVec.ofNat 32 k ∧
      k + g.payload.length ≤ data.length ∧ g.payload = (data.drop k).take g.payload.length) <| by
    refine imp_congr_right fun some_bytes => exists_congr fun k => and_iff_right_of_imp ?_
    rintro ⟨_, fits, _⟩
    have := List.length_pos_of_ne_nil some_bytes
    omega

def Conn.InStep (h : Conn) (s : Sock) : Prop :=
  h.synced = true ∧ ∃ f ≤ h.fin.toNat, (s.Receives ∨ s.tcpState = .synRcvd → f = 0) ∧
    s.rcvNxt = h.isn + 1 + BitVec.ofNat 32 (h.stored.length + f)

structure Follows (data : List Byte) (h : Conn) (s : Sock) : Prop where
  within : h.stored <+: data
  opening : s.tcpState = .synSent → h.stored = [] ∧ s.retxBuf = []
  live : s.Live → h.InStep s
  pending : s.retxBuf ≠ [] → h.InStep s ∨ s.remoteIp = 0 ∧ s.remotePort = 0

variable {c : Call} {h : Conn} {i : Sd} {s s' : Sock}

theorem Carries.continues {isn : Seq} {data : List Byte} {g : Segment}
    (carries : Carries isn data g) (short : data.length < 2 ^ 31) (within : h.stored <+: data)
    (next : s.rcvNxt = isn + 1 + BitVec.ofNat 32 h.stored.length) :
    h.stored ++ s.stores g <+: data := by
  unfold stores
  split
  next fits =>
    obtain ⟨k, seq, bound, payload⟩ := carries (ne_nil_of_length_pos fits.1)
    have stored := within.length_le
    -- both offsets are below 2 ^ 31, so equal numbers mean equal offsets
    have here : k = h.stored.length := by
      have same : BitVec.ofNat 32 k = BitVec.ofNat 32 h.stored.length := by
        rw [fits.2, next] at seq
        simpa using seq.symm
      have same := congrArg BitVec.toNat same
      simp only [toNat_ofNat] at same
      omega
    obtain ⟨rest, whole⟩ := within
    rw [payload, here, ← whole, drop_left]
    exact (prefix_append_right_inj _).2 ((List.take_prefix _ _).trans (List.take_prefix _ _))
  · simpa using within

namespace Follows
variable {data : List Byte} {h : Conn} {s s' : Sock} {g : Segment}

theorem of_inStep (within : h.stored <+: data) (state : s.tcpState ≠ .synSent)
    (inStep : h.InStep s) : Follows data h s :=
  ⟨within, fun opening => absurd opening state, fun _ => inStep, fun _ => .inl inStep⟩

theorem of_ended (within : h.stored <+: data) (state : s.tcpState = .closed ∨ s.tcpState = .listen)
    (gone : s.retxBuf = [] ∨ s.remoteIp = 0 ∧ s.remotePort = 0) : Follows data h s := by
  refine ⟨within, fun opening => ?_, fun live => ?_, fun pending => ?_⟩
  · simp [opening] at state
  · rcases live with (h | h | h) | h | h | h | h <;> simp [h] at state
  rcases gone with none_left | nowhere
  · exact absurd none_left pending
  · exact .inr nowhere

variable (follows : Follows data h s)

include follows

theorem congr_conn {h' : Conn} (stored : h'.stored = h.stored)
    (isn : h'.isn = h.isn) (synced : h'.synced = h.synced) (fin : h'.fin = h.fin) :
    Follows data h' s := by
  have inStep : h'.InStep s ↔ h.InStep s := by
    rw [Conn.InStep, Conn.InStep, stored, isn, synced, fin]
  refine ⟨stored ▸ follows.within, ?_, ?_, ?_⟩
  · rw [stored]
    exact follows.opening
  · rw [inStep]
    exact follows.live
  · rw [inStep]
    exact follows.pending

theorem syncs (state : s.tcpState = .synSent)
    (after : s'.tcpState = .established ∨ s'.tcpState = .synRcvd) (next : s'.rcvNxt = g.seq + 1) :
    Follows data (h.hear s s' g) s' := by
  have deaf : s.takes g = [] := takes_deaf (by simp [Receives, state])
  have stored : (h.hear s s' g).stored = [] := by
    simp [Conn.hear, deaf, (follows.opening state).1]
  refine of_inStep (by simp [stored]) (by rcases after with h | h <;> simp [h])
    ⟨?_, 0, Nat.zero_le _, fun _ => rfl, ?_⟩
  · simp [Conn.hear, state, after]
  · rw [stored]
    simp [Conn.hear, state, after, next]

theorem keeps (live : s.Live) (deaf : s.takes g = [])
    (state : s'.Live) (still : s'.Receives ∨ s'.tcpState = .synRcvd →
      s.Receives ∨ s.tcpState = .synRcvd) (next : s'.rcvNxt = s.rcvNxt) :
    Follows data (h.hear s s' g) s' := by
  have before : s.tcpState ≠ .synSent := by
    rcases live with (h | h | h) | h | h | h | h <;> simp [h]
  obtain ⟨synced, f, small, none_yet, here⟩ := follows.live live
  refine of_inStep ?_ (by rcases state with (h | h | h) | h | h | h | h <;> simp [h])
    ⟨by simp [Conn.hear, synced], f, ?_, fun now => none_yet (still now), ?_⟩
  · simpa [Conn.hear, deaf] using follows.within
  · refine small.trans ?_
    cases seen : h.fin <;> simp [Conn.hear, seen]
  · simp [Conn.hear, before, deaf, next, here]

theorem takes {s₁ : Sock} (taken : s.Taken g s₁)
    (carries : Carries h.isn data g) (short : data.length < 2 ^ 31) (state : s'.tcpState ≠ .synSent)
    {f : Nat} (fin : f = 1 → s.FinArrives g) (small : f ≤ 1)
    (none_yet : s'.Receives ∨ s'.tcpState = .synRcvd → f = 0)
    (next : s'.rcvNxt = s₁.rcvNxt + BitVec.ofNat 32 f) : Follows data (h.hear s s' g) s' := by
  obtain ⟨synced, _, _, zero, here⟩ := follows.live (.inl taken.receives)
  rw [zero (.inl taken.receives), Nat.add_zero] at here
  have before : s.tcpState ≠ .synSent := by
    rcases taken.receives with h | h | h <;> simp [h]
  have stored : (h.hear s s' g).stored = h.stored ++ s.stores g := by
    simp [Conn.hear, taken.takes_eq]
  refine of_inStep ?_ state ⟨by simp [Conn.hear, synced], f, ?_, none_yet, ?_⟩
  · rw [stored]
    exact carries.continues short follows.within here
  · rcases Nat.le_one_iff_eq_zero_or_eq_one.1 small with rfl | rfl
    · exact Nat.zero_le _
    · simp [Conn.hear, fin rfl]
  · have isn : (h.hear s s' g).isn = h.isn := by simp [Conn.hear, before]
    rw [stored, isn, next, taken.next, here, length_append]
    simp only [ofNat_add, BitVec.add_assoc]

theorem hears (tracks : Tracks h s) (hears : Hears s g s')
    (used : s.used) (stays : s'.used)
    (carries : s.Receives → Carries h.isn data g) (short : data.length < 2 ^ 31) :
    Follows data (h.hear s s' g) s' := by
  have within (deaf : s.takes g = []) : (h.hear s s' g).stored <+: data := by
    simpa [Conn.hear, deaf] using follows.within
  cases hears with
  | ignored deaf =>
    have silent : s.takes g = [] := takes_deaf deaf
    have late : ¬ s.FinArrives g := fun arrives => deaf arrives.1
    have unsynced : ¬ (s.tcpState = .synSent ∧
        (s.tcpState = .established ∨ s.tcpState = .synRcvd)) := by
      rintro ⟨state, h | h⟩ <;> simp [state] at h
    refine follows.congr_conn ?_ ?_ ?_ ?_
    · simp [Conn.hear, silent]
    · simp [Conn.hear, unsynced]
    · simp only [Conn.hear, or_eq_left_iff_imp, and_eq_true, or_eq_true, beq_iff_eq]
      exact fun syncs => absurd syncs unsynced
    · simp [Conn.hear, late]
  | refused state =>
    exact of_ended (within (takes_deaf (by simp [Receives, state]))) (.inl rfl)
      (.inr ⟨rfl, rfl⟩)
  | mismatched state =>
    exact of_ended (within (takes_deaf (by simp [Receives, state]))) (.inl rfl)
      (.inl (follows.opening state).2)
  | opened state => exact follows.syncs state (.inl rfl) rfl
  | crossed state => exact follows.syncs state (.inr rfl) rfl
  | completed completes =>
    exact follows.keeps (.inr (.inl completes.state))
      (takes_deaf (by simp [Receives, completes.state])) (.inl (.inl rfl))
      (fun _ => .inr completes.state) rfl
  | reset live rst =>
    rw [reset_used used, not_eq_true'] at stays
    exact of_ended (within (by simp [Sock.takes, rst])) (reset_ended live stays).2
      (.inr ⟨rfl, rfl⟩)
  | received _ taken =>
    refine follows.takes taken (carries taken.receives) short ?_ (f := 0) (by simp) (by omega)
      (fun _ => rfl) (by simp)
    rcases taken.receiving with h | h | h <;> simp [h]
  | fin s₁ taken inOrder =>
    refine follows.takes taken (carries taken.receives) short TcpState.noConfusion (f := 1)
      (fun _ => taken.finArrives inOrder) (by omega) ?_ rfl
    simp [Receives]
  | finLast _ taken _ other =>
    exact (finish_gone (tracks.closing (taken.closing other)) stays taken.keeps.2.2.2.1).elim
  | acked before =>
    exact (finish_gone (tracks.closing (.inr (.inr before))) stays rfl).elim

end Follows

structure Calm (c : Call) (i : Sd) (s s' : Sock) : Prop where
  next : (s.tcpState = .closed → ∀ ip port now d, c ≠ .connect i ip port now d) →
    s'.rcvNxt = s.rcvNxt ∧ s'.remoteIp = s.remoteIp ∧ s'.remotePort = s.remotePort
  live : s'.Live → s.Live ∧
    (s'.Receives ∨ s'.tcpState = .synRcvd → s.Receives ∨ s.tcpState = .synRcvd)
  retx : s'.retxBuf ≠ [] → s.retxBuf ≠ [] ∨ s.Live

theorem Calm.of_state (state : s'.tcpState = s.tcpState)
    (next : s'.rcvNxt = s.rcvNxt ∧ s'.remoteIp = s.remoteIp ∧ s'.remotePort = s.remotePort)
    (retx : s'.retxBuf ≠ [] → s.retxBuf ≠ [] ∨ s.Live) : Calm c i s s' := by
  refine ⟨fun _ => next, fun live => ?_, retx⟩
  unfold Live Receives at live ⊢
  rw [state] at live ⊢
  exact ⟨live, id⟩

theorem Calm.of_ended (state : s'.tcpState = .closed ∨ s'.tcpState = .listen)
    (next : (s.tcpState = .closed → ∀ ip port now d, c ≠ .connect i ip port now d) →
      s'.rcvNxt = s.rcvNxt ∧ s'.remoteIp = s.remoteIp ∧ s'.remotePort = s.remotePort)
    (retx : s'.retxBuf ≠ [] → s.retxBuf ≠ []) : Calm c i s s' := by
  refine ⟨next, fun live => ?_, fun pending => .inl (retx pending)⟩
  rcases live with (h | h | h) | h | h | h | h <;> simp [h] at state

theorem Move.calm {t : Table} (move : Move t c i s')
    (unheard : Unheard t c i) (used : (t.socks i).used)
    (stream : (t.socks i).type = .stream) (stays : s'.used) :
    Calm c i (t.socks i) s' := by
  cases move with
  | create _ free | child _ _ _ free => cases used.symm.trans free
  | connectUdp _ _ _ _ _ dgram => cases stream.symm.trans dgram
  | datagrams _ _ other | drop _ other => exact absurd stream other
  | recv len _ _ _ call => exact absurd call (unheard.reads len false)
  | hear g now call found connection => exact absurd (unheard.segments g now call found) connection
  | listen => exact .of_ended (.inr rfl) (fun _ => ⟨rfl, rfl, rfl⟩) id
  | connect ip _ port _ _ now delivered _ _ closed _ _ call =>
    refine ⟨fun other => absurd call (other closed ip port now delivered), fun live => ?_, ?_⟩
    · cases delivered <;> simp [Live, Receives] at live
    · cases delivered <;> exact .inl
  | send _ _ _ _ _ _ state =>
    refine .of_state rfl ⟨rfl, rfl, rfl⟩ fun _ => .inr ?_
    rcases state with h | h
    · exact .inl (.inl h)
    · exact .inr (.inr (.inl h))
  | close =>
    unfold Sock.close
    split
    next state =>
      refine ⟨fun _ => ⟨rfl, rfl, rfl⟩, fun _ => ⟨.inl (.inl state), fun _ => .inl (.inl state)⟩, .inl⟩
    next state =>
      refine ⟨fun _ => ⟨rfl, rfl, rfl⟩, fun _ => ⟨.inr (.inr (.inl state)), ?_⟩, .inl⟩
      simp [Receives]
    all_goals exact .of_state rfl ⟨rfl, rfl, rfl⟩ .inl
  | tick now =>
    have ticks := (t.socks i).tick_ticks now
    generalize ((t.socks i).tick now).1 = s' at ticks stays
    cases ticks with
    | gaveUp =>
      rw [(finish_used stays).2]
      exact .of_ended (.inl rfl) (fun _ => ⟨rfl, rfl, rfl⟩) (fun pending => absurd rfl pending)
    | dropped => exact .of_state rfl ⟨rfl, rfl, rfl⟩ (fun pending => absurd rfl pending)
    | idle | resent => exact .of_state rfl ⟨rfl, rfl, rfl⟩ .inl
  | same | bind | accept | enlist => exact .of_state rfl ⟨rfl, rfl, rfl⟩ .inl

theorem Conn.InStep.calm (inStep : h.InStep s)
    (calm : Calm c i s s') (next : s'.rcvNxt = s.rcvNxt) : h.InStep s' := by
  obtain ⟨synced, f, small, none_yet, here⟩ := inStep
  refine ⟨synced, f, small, fun now => none_yet ((calm.live ?_).2 now), next.trans here⟩
  rcases now with receives | synRcvd
  · exact .inl receives
  · exact .inr (.inl synRcvd)

theorem Follows.calm {data : List Byte} (follows : Follows data h s) (calm : Calm c i s s')
    (clean : ∀ ip port now d, c = .connect i ip port now d → s.retxBuf = [])
    (opening : s'.tcpState = .synSent → s.tcpState = .synSent) : Follows data h s' := by
  have next : s'.Live ∨ s'.retxBuf ≠ [] →
      s'.rcvNxt = s.rcvNxt ∧ s'.remoteIp = s.remoteIp ∧ s'.remotePort = s.remotePort := by
    intro alive
    refine calm.next fun closed ip port now d call => ?_
    have dead : ¬ s.Live := by simp [Live, Receives, closed]
    rcases alive with live | pending
    · exact dead (calm.live live).1
    rcases calm.retx pending with before | live
    · exact before (clean ip port now d call)
    · exact dead live
  refine ⟨follows.within, fun state => ?_, fun live => ?_, fun pending => ?_⟩
  · obtain ⟨stored, empty⟩ := follows.opening (opening state)
    refine ⟨stored, ?_⟩
    by_contra pending
    rcases calm.retx pending with before | live
    · exact before empty
    · simp [Live, Receives, opening state] at live
  · exact (follows.live (calm.live live).1).calm calm (next (.inl live)).1
  obtain ⟨rcv, ip, port⟩ := next (.inr pending)
  rw [ip, port]
  rcases calm.retx pending with before | live
  · exact (follows.pending before).imp_left fun inStep => inStep.calm calm rcv
  · exact .inl ((follows.live live).calm calm rcv)

/-- `peer i n` is what the peer of the `n`th connection in slot `i` sends. -/
abbrev Peers := Sd → Nat → List Byte

/-- A segment that reaches a connection carries the stream of its peer. Any of them may be lost,
repeated or late. -/
def Network (peer : Peers) (p : World × Streams) : Call → Prop
  | .segment g _ => ∀ i, p.1.table.lookup g = some i → (p.1.table.socks i).Receives →
      Carries (p.2.conn i).isn (peer i (p.2.conn i).gen) g
  | _ => True

/-- `sock_connect` is not called on a socket with unread bytes or with a segment that still
waits for its acknowledgement. -/
def Unburdened (p : World × Streams) : Call → Prop
  | .connect i .. =>
    (p.1.table.socks i).tcpRx.contents = [] ∧ (p.1.table.socks i).retxBuf = []
  | _ => True

instance (peer : Peers) (p : World × Streams) : (c : Call) → Decidable (Network peer p c)
  | .segment .. => inferInstanceAs (Decidable (∀ _, _))
  | .create _ | .bind .. | .listen .. | .connect .. | .accept .. | .recv .. | .send .. | .close _
  | .datagram .. | .tick _ => instDecidableTrue

instance (p : World × Streams) : (c : Call) → Decidable (Unburdened p c)
  | .connect .. => inferInstanceAs (Decidable (_ ∧ _))
  | .create _ | .bind .. | .listen .. | .accept .. | .recv .. | .send .. | .close _
  | .segment .. | .datagram .. | .tick _ => instDecidableTrue

theorem Unburdened.drained {p : World × Streams} (free : Unburdened p c) : Drained p c := by
  cases c with
  | connect => exact free.1
  | _ => trivial

structure Ordered (peer : Peers) (p : World × Streams) : Prop where
  tracked : Tracked p
  follows : ∀ i, (p.1.table.socks i).used = true → (p.1.table.socks i).type = .stream →
    Follows (peer i (p.2.conn i).gen) (p.2.conn i) (p.1.table.socks i)
  acks : p.2.overAck = false

namespace Ordered
variable {peer : Peers} {p p' : World × Streams} {c : Call} {a : Answer}

theorem follows_step (ordered : Ordered peer p) (short : ∀ i n, (peer i n).length < 2 ^ 31)
    (network : Network peer p c) (free : Unburdened p c) (step : Stepped streams p c a p') (i : Sd)
    (stays : (p'.1.table.socks i).used) (stream' : (p'.1.table.socks i).type = .stream) :
    Follows (peer i (p'.2.conn i).gen) (p'.2.conn i) (p'.1.table.socks i) := by
  have evolves := Tracked.evolves step i stays stream'
  generalize p'.2.conn i = h', p'.1.table.socks i = s' at evolves stays
  cases evolves with
  | created => exact .of_ended nil_prefix (.inl rfl) (.inl rfl)
  | spawned g _ _ call =>
    subst call
    refine .of_inStep nil_prefix TcpState.noConfusion ⟨rfl, 0, Nat.zero_le _, fun _ => rfl, ?_⟩
    simp [Conn.start, Sock.spawned, child]
  | reads _ used stream =>
    have follows := ordered.follows i used stream
    exact ⟨follows.within, follows.opening, follows.live, follows.pending⟩
  | hears g _ _ call found _ used stream hears =>
    subst call
    exact (ordered.follows i used stream).hears (ordered.tracked i used stream) hears used stays
      (network i found) (short _ _)
  | begins _ _ _ _ call used stream closed _ unheard move =>
    subst call
    have calm := move.calm unheard used stream stays
    have dead : ¬ (p.1.table.socks i).Live := by simp [Live, Receives, closed]
    have quiet : s'.retxBuf = [] := by
      by_contra pending
      rcases calm.retx pending with before | live
      · exact before free.2
      · exact dead live
    exact ⟨List.nil_prefix, fun _ => ⟨rfl, quiet⟩, fun live => absurd (calm.live live).1 dead,
      fun pending => absurd quiet pending⟩
  | unheard b _ used stream unheard move same =>
    refine Follows.congr_conn (h := p.2.conn i) ?_ rfl rfl rfl rfl
    refine (ordered.follows i used stream).calm (move.calm unheard used stream stays) ?_ ?_
    · rintro ip port now d rfl
      exact free.2
    intro opening
    by_contra other
    exact same (.inr ⟨other, opening⟩)

theorem distance_le (isn : Seq) (n : Nat) : (isn + BitVec.ofNat 32 n - isn).toNat ≤ n := by
  have same : isn + BitVec.ofNat 32 n - isn = BitVec.ofNat 32 n := by
    rw [BitVec.add_comm, BitVec.add_sub_cancel]
  rw [same, toNat_ofNat]
  exact Nat.mod_le _ _

theorem covers_next {h' : Conn} {m : Sent} (inStep : h.InStep s)
    (mine : m.From s') (ack : m.ack = s.rcvNxt)
    (same : h'.isn = h.isn ∧ h'.synced = h.synced ∧ h'.stored = h.stored ∧ h'.fin = h.fin) :
    h'.Covers s' m := by
  obtain ⟨synced, f, small, _, next⟩ := inStep
  refine ⟨⟨mine.ip, mine.peer, mine.port⟩, same.2.1.trans synced, ?_⟩
  rw [ack, next, same.1, same.2.2.1, same.2.2.2]
  exact (distance_le _ _).trans (by omega)

theorem covers_heard {data : List Byte} {g : Segment} {m : Sent}
    (follows : Follows data h s) (mine : m.From s') (acks : Acknowledges s g s' m.ack) :
    (h.hear s s' g).Covers s' m := by
  refine ⟨⟨mine.ip, mine.peer, mine.port⟩, ?_⟩
  generalize m.ack = ack at acks
  have receiving (receives : s.Receives) (noRst : g.flags.rst = false) :
      (h.hear s s' g).synced = true ∧ s.rcvNxt + BitVec.ofNat 32 (s.stores g).length =
          (h.hear s s' g).isn + 1 + BitVec.ofNat 32 (h.hear s s' g).stored.length := by
    obtain ⟨synced, f, _, zero, next⟩ := follows.live (.inl receives)
    have before : s.tcpState ≠ .synSent := by
      rcases receives with h | h | h <;> simp [h]
    have taken : s.takes g = s.stores g := if_pos ⟨receives, noRst⟩
    refine ⟨by simp [Conn.hear, synced], ?_⟩
    rw [next, zero (.inl receives)]
    simp [Conn.hear, before, taken, ofNat_add, BitVec.add_assoc]
  cases acks with
  | syn state after =>
    have isn : (h.hear s s' g).isn = g.seq := by simp [Conn.hear, state, after]
    refine ⟨by simp [Conn.hear, state, after], ?_⟩
    rw [isn]
    simp
  | data receives noRst =>
    obtain ⟨synced, here⟩ := receiving receives noRst
    refine ⟨synced, ?_⟩
    rw [here]
    exact (distance_le _ _).trans (by omega)
  | fin arrives =>
    obtain ⟨synced, here⟩ := receiving arrives.1 arrives.2.1
    have seen : (h.hear s s' g).fin := by simp [Conn.hear, arrives]
    refine ⟨synced, ?_⟩
    rw [here, seen, BitVec.add_assoc _ _ 1, show (1 : Seq) = BitVec.ofNat 32 1 from rfl,
      ← ofNat_add]
    exact distance_le _ _

theorem emits_covered (ordered : Ordered peer p) (step : Stepped streams p c a p') {m : Sent}
    (mine : m.From (p'.1.table.socks i))
    (emits : Emits p.1.table c i (p'.1.table.socks i) m) : AckOk p'.2.conn p'.1.table m := by
  cases emits with
  | calls on used stream state ack =>
    have live : (p.1.table.socks i).Live := by
      rcases state with h | h
      · exact .inl (.inl h)
      · exact .inr (.inr (.inl h))
    have unheard : Unheard p.1.table c i := by
      rcases on with ⟨_, _, _, rfl⟩ | rfl <;> exact ⟨nofun, nofun⟩
    have same : ¬ (p.1.table.socks i).Begins (p'.1.table.socks i) := by
      intro begins
      obtain ⟨closed, _⟩ := (step.move i).begins used begins
      rcases state with h | h <;> simp [h] at closed
    obtain ⟨b, conn, _⟩ := Tracked.conn_unheard step unheard same
    refine .inr (.inr (.inr ⟨i, ?_⟩))
    rw [conn]
    exact covers_next ((ordered.follows i used stream).live live) mine ack ⟨rfl, rfl, rfl, rfl⟩
  | repeats now call used stream pending peer ack =>
    subst call
    have same : ¬ (p.1.table.socks i).Begins (p'.1.table.socks i) := by
      intro begins
      obtain ⟨_, _, _, _, call⟩ := (step.move i).begins used begins
      cases call
    rcases (ordered.follows i used stream).pending pending with inStep | ⟨ip, port⟩
    · obtain ⟨b, conn, _⟩ := Tracked.conn_unheard step ⟨nofun, nofun⟩ same
      refine .inr (.inr (.inr ⟨i, ?_⟩))
      rw [conn]
      exact covers_next inStep mine ack ⟨rfl, rfl, rfl, rfl⟩
    · exact .inr (.inr (.inl ⟨peer.ip.symm.trans ip, peer.peer.symm.trans port⟩))
  | hears g now call found connection acks =>
    subst call
    have heard := p.1.table.lookup_heard found
    refine .inr (.inr (.inr ⟨i, ?_⟩))
    rw [(Tracked.hears step found connection).2]
    exact covers_heard (ordered.follows i heard.used heard.stream) mine acks
  | spawned g now parent call free made ack =>
    subst call
    have start : p'.2.conn i = .start ((p.2.conn i).gen + 1) (.segment g now)
        (p'.1.table.socks i) := by
      rw [step.seen]
      exact if_pos (.inl ⟨free, by rw [made]; rfl⟩)
    refine .inr (.inr (.inr ⟨i, ⟨mine.ip, mine.peer, mine.port⟩, ?_, ?_⟩))
    · rw [start, made]
      rfl
    · rw [start, ack]
      simp [Conn.start]

theorem acks_step (ordered : Ordered peer p) (step : Stepped streams p c a p') :
    p'.2.overAck = false := by
  obtain ⟨out, log, all⟩ := p.1.table.call_sends c
  have sent : sentBy p.1.table p'.1.table = out := by
    rw [sentBy, step.table, log, drop_left]
  have conn : p'.2.conn = fun i => (p.2.conn i).see p.1.table c a (p'.1.table.socks i) i := by
    rw [step.seen]
    rfl
  have flag : p'.2.overAck = (p.2.overAck || out.any fun m =>
      decide (¬ AckOk p'.2.conn p'.1.table m)) := by
    rw [conn, ← sent, step.seen]
    rfl
  rw [flag, ordered.acks, Bool.false_or, any_eq_false]
  intro m mem
  rw [decide_eq_true_iff, Classical.not_not]
  rcases all m mem with noAck | rst | ⟨i, mine, emits⟩
  · exact .inl noAck
  · exact .inr (.inl rst)
  · rw [← step.table] at mine emits
    exact ordered.emits_covered step mine emits

theorem step (ordered : Ordered peer p) (short : ∀ i n, (peer i n).length < 2 ^ 31)
    (network : Network peer p c) (free : Unburdened p c) (run : watch streams c p = some (a, p')) :
    Ordered peer p' := by
  have step := Stepped.of_watch run
  exact ⟨ordered.tracked.step free.drained run, ordered.follows_step short network free step,
    ordered.acks_step step⟩

theorem boot : Ordered peer (.boot, streams.start) := by
  refine ⟨?_, ?_, rfl⟩ <;>
  · intro i used
    cases used

end Ordered

/-- For every stream of every peer, and whatever the network does to the segments that carry
it, recv returns a prefix of the stream, and no acknowledgement covers a byte that was not
stored, as long as `sock_connect` is called on unburdened sockets. -/
theorem recv_returns_stream {peer : Peers} (short : ∀ i n, (peer i n).length < 2 ^ 31)
    {calls : List Call} {p : World × Streams}
    (run : Prog.Runs (watch streams) (fun p c => Network peer p c ∧ Unburdened p c)
      (.boot, streams.start) calls p) :
    (∀ i, (p.1.table.socks i).used = true → (p.1.table.socks i).type = .stream →
        (p.2.conn i).returned <+: peer i (p.2.conn i).gen) ∧
      p.2.overAck = false := by
  have ordered : Ordered peer p := run.invariant
    (fun _ _ _ _ holds legal step => Ordered.step holds short legal.1 legal.2 step) Ordered.boot
  refine ⟨fun i used stream => ?_, ordered.acks⟩
  have tracks := ordered.tracked i used stream
  exact ((prefix_append ..).trans tracks.kept).trans (ordered.follows i used stream).within

def twoBytes : List Call :=
  halfOpen ++ [handshakeAck, .accept 0 false,
    .segment { srcIp := 0x0A000202, srcPort := 99, dstPort := 80, seq := 9, ack := 0x1234ABCE
               flags := { ack := true }, payload := [6] } 0,
    .segment { srcIp := 0x0A000202, srcPort := 99, dstPort := 80, seq := 8, ack := 0x1234ABCE
               flags := { ack := true }, payload := [5, 6] } 0,
    .recv 1 100 false]

theorem recv_returns_stream_two :
    ∃ p, Prog.Runs (watch streams) (fun p c => Network (fun _ _ => [5, 6]) p c ∧ Unburdened p c)
        (.boot, streams.start) twoBytes p ∧
      (∀ i, (p.1.table.socks i).used = true → (p.1.table.socks i).type = .stream →
        (p.2.conn i).returned <+: [5, 6]) ∧
      p.2.overAck = false := by
  obtain ⟨p, _, run⟩ : ∃ p, played streams (fun p c => Network (fun _ _ => [5, 6]) p c ∧ Unburdened p c)
      (.boot, streams.start) twoBytes = some p ∧ _ := legal_runs (by decide +kernel)
  exact ⟨p, run, recv_returns_stream (fun _ _ => by decide) run⟩

/-- A client on port 0 sends a byte. The server does not read it; its own data is never
acknowledged, and the timer gives up. Then the server connects with the same socket. -/
def leftover : List Call :=
  [.create .stream, .bind 0 0 80, .listen 0 4,
    .segment { srcIp := 0x0A000202, srcPort := 0, dstPort := 80, seq := 7, ack := 0
               flags := { syn := true }, payload := [] } 0,
    .segment { srcIp := 0x0A000202, srcPort := 0, dstPort := 80, seq := 8, ack := 0x1234ABCE
               flags := { ack := true }, payload := [] } 0,
    .accept 0 false,
    .segment { srcIp := 0x0A000202, srcPort := 0, dstPort := 80, seq := 8, ack := 0x1234ABCE
               flags := { ack := true }, payload := [5] } 0,
    .send 1 [1] 0 [true], .tick 500, .tick 1000, .tick 1500, .tick 2000, .tick 2500, .tick 3000,
    .connect 1 0x0A000203 90 4000 true,
    .segment { srcIp := 0x0A000203, srcPort := 90, dstPort := 80, seq := 100, ack := 5001
               flags := { syn := true, ack := true }, payload := [] } 4000,
    .recv 1 100 false]

def leftoverPeers : Peers := fun i n => if i = 1 ∧ n = 1 then [5] else []

/-- The byte of the first connection is returned on the second one. -/
theorem leftover_returned :
    ∃ p, Prog.Runs (watch streams) (Network leftoverPeers) (.boot, streams.start) leftover p ∧
      (p.1.table.socks 1).used = true ∧ (p.1.table.socks 1).type = .stream ∧
      (p.2.conn 1).gen = 2 ∧ ¬ (p.2.conn 1).returned <+: leftoverPeers 1 2 := by
  obtain ⟨p, done, run⟩ : ∃ p, played streams (Network leftoverPeers) (.boot, streams.start)
      leftover = some p ∧ _ := legal_runs (by decide +kernel)
  have facts : (played streams (Network leftoverPeers) (.boot, streams.start) leftover).all fun p =>
      decide ((p.1.table.socks 1).used = true ∧ (p.1.table.socks 1).type = .stream ∧
        (p.2.conn 1).gen = 2 ∧ ¬ (p.2.conn 1).returned <+: leftoverPeers 1 2) := by
    decide +kernel
  rw [done, Option.all_some, decide_eq_true_iff] at facts
  exact ⟨p, run, facts⟩

end Osnos.Net
