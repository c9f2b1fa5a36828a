import Osnos.Net.Faithful

/-! `sock_send` sends in ESTABLISHED and in CLOSE_WAIT. An acknowledgement of the kept
segment should end its retransmission in both. -/
namespace Osnos.Net
open Sock Table Stepped

structure Keeping where
  number : Nat
  mine : Bool

def Keeping.see (h : Keeping) (t : Table) (c : Call) (a : Answer) (s' : Sock) (i : Sd) : Keeping :=
  if (t.socks i).Begins s' then { number := h.number + 1, mine := false }
  else
    match c, a.reply with
    | .send j .., .ok n =>
      if j = i ∧ (t.socks i).type = .stream ∧ 0 < n then { number := h.number + 1, mine := true }
      else h
    | _, _ => h

def keeping : Observer (Sd → Keeping) where
  start := fun _ => { number := 0, mine := false }
  see h w c a w' := fun i => (h i).see w.table c a (w'.table.socks i) i

theorem Keeping.see_cases (h : Keeping) (t : Table) (c : Call) (a : Answer) (s' : Sock) (i : Sd) :
    h.see t c a s' i = h ∧ ¬ (t.socks i).Begins s' ∧ (∀ buf now d k, c = .send i buf now d →
        (t.socks i).type = .stream → a.reply = .ok k → k = 0) ∨
      h.see t c a s' i = { number := h.number + 1, mine := false } ∧ (t.socks i).Begins s' ∨
      h.see t c a s' i = { number := h.number + 1, mine := true } ∧
        ∃ buf now d k, c = .send i buf now d ∧ (t.socks i).type = .stream ∧
          a.reply = .ok k ∧ 0 < k := by
  unfold Keeping.see
  split
  next begins =>
    exact .inr (.inl ⟨rfl, begins⟩)
  rename_i goes_on
  split
  next j buf now d k reply =>
    split
    next sends =>
      obtain ⟨rfl, stream, some_bytes⟩ := sends
      exact .inr (.inr ⟨rfl, buf, now, d, k, rfl, stream, reply, some_bytes⟩)
    next idle =>
      refine .inl ⟨rfl, goes_on, ?_⟩
      rintro _ _ _ _ ⟨⟩ stream reply'
      cases reply.symm.trans reply'
      by_contra some_bytes
      exact idle ⟨rfl, stream, by omega⟩
  next other =>
    refine .inl ⟨rfl, goes_on, ?_⟩
    rintro buf now d k rfl _ reply
    exact absurd reply (other i buf now d k rfl)

/-- A valid acknowledgement (new, and of something sent) that covers the kept segment. -/
structure Sock.Acknowledged (s : Sock) (g : Segment) : Prop where
  noRst : g.flags.rst = false
  ack : g.flags.ack = true
  news : (g.ack - s.sndUna).toInt > 0
  sent : (g.ack - s.sndNxt).toInt ≤ 0
  covers : (g.ack - (s.retxSeq + BitVec.ofNat 32 s.retxBuf.length)).toInt ≥ 0

section
variable {t : Table} {c : Call} {i : Sd} {s s' : Sock} {g : Segment}

theorem Sock.hear_acknowledged (state : s.tcpState = .established) (acked : s.Acknowledged g) :
    (s.hear g).retxBuf = [] := by
  obtain ⟨noRst, ack, news, sent, covers⟩ := acked
  have cleared : (s.acceptAck g).retxBuf = [] := by
    rw [acceptAck, if_pos ⟨ack, news, sent⟩]
    dsimp only
    split
    · rfl
    rename_i idle
    by_contra pending
    exact idle ⟨List.length_pos_of_ne_nil pending, covers⟩
  unfold hear
  rw [state]
  dsimp only
  rw [handleEstablished, if_neg (by simp [noRst])]
  dsimp only
  split <;> simpa [takeFin] using cleared

theorem Move.retxBuf (move : Move t c i s') (used : (t.socks i).used)
    (unsent : ∀ bytes now d, c = .send i bytes now d → (t.socks i).type ≠ .stream) :
    s'.retxBuf = (t.socks i).retxBuf ∨ s'.retxBuf = [] := by
  cases move with
  | create _ free | child _ _ _ free => cases used.symm.trans free
  | connect _ _ _ _ _ _ delivered => cases delivered <;> exact .inl rfl
  | send _ _ _ _ _ stream _ call =>
    obtain ⟨bytes, now, d, call⟩ := call
    exact absurd stream (unsent bytes now d call)
  | close =>
    unfold Sock.close
    split <;> exact .inl rfl
  | hear g => exact ((t.socks i).hear_retxBuf g).imp_right And.right
  | tick now =>
    have ticks := (t.socks i).tick_ticks now
    generalize ((t.socks i).tick now).1 = s' at ticks
    cases ticks with
    | gaveUp => exact .inr (finish_retxBuf _)
    | dropped => exact .inr rfl
    | idle | resent => exact .inl rfl
  | _ => exact .inl rfl

theorem Sock.tick_idle (idle : s.used = false ∨ s.retxBuf = []) (now : Nat) :
    (s.tick now).2 = [] := by
  unfold Sock.tick
  rcases idle with free | empty
  · simp [free]
  · split_ifs <;> rfl

end

structure Settled (i : Sd) (n : Nat) (p : World × (Sd → Keeping)) : Prop where
  later : n ≤ (p.2 i).number
  idle : (p.2 i).number = n →
    (p.1.table.socks i).used = false ∨ (p.1.table.socks i).retxBuf = []

theorem unsent_socks {t : Table} {c : Call} {i : Sd} {s' : Sock} (used : (t.socks i).used)
    (move : Move t c i s') (after : s' = (t.call c).2.socks i)
    (unsent : ∀ buf now d k, c = .send i buf now d → (t.socks i).type = .stream →
      (t.call c).1.reply = .ok k → k = 0) :
    s'.retxBuf = (t.socks i).retxBuf ∨ s'.retxBuf = [] := by
  by_cases sending : ∃ buf now d, c = .send i buf now d ∧ (t.socks i).type = .stream
  · obtain ⟨buf, now, d, rfl, stream⟩ := sending
    left
    have idle := send_idle buf now d used stream fun active => by
      have reply := send_reply buf now d used stream active
      have := unsent buf now d _ rfl stream reply
      omega
    rw [after]
    exact congrArg Sock.retxBuf (congrFun idle.1 i)
  · exact move.retxBuf used fun buf now d call stream => sending ⟨buf, now, d, call, stream⟩

namespace Settled
variable {i : Sd} {n : Nat} {p p' : World × (Sd → Keeping)} {c : Call} {a : Answer}

theorem step (settled : Settled i n p) (run : watch keeping c p = some (a, p')) :
    Settled i n p' := by
  have step := of_watch run
  have seen : p'.2 i = (p.2 i).see p.1.table c a (p'.1.table.socks i) i := by
    rw [step.seen]
    rfl
  have more (another : (p'.2 i).number = (p.2 i).number + 1) : Settled i n p' := by
    have := settled.later
    exact ⟨by omega, fun now => by omega⟩
  rcases (p.2 i).see_cases p.1.table c a (p'.1.table.socks i) i with
    ⟨same, goes_on, unsent⟩ | ⟨another, _⟩ | ⟨another, _⟩
  · rw [same] at seen
    refine ⟨seen ▸ settled.later, fun now => ?_⟩
    rw [seen] at now
    cases used : (p.1.table.socks i).used with
    | false =>
      left
      by_contra made
      exact goes_on (.inl ⟨used, by simpa using made⟩)
    | true =>
      right
      have empty := (settled.idle now).resolve_left (by simp [used])
      have unchanged := unsent_socks used (step.move i) (step.table ▸ rfl) (step.answer ▸ unsent)
      exact unchanged.elim (·.trans empty) id
  all_goals exact more (by rw [seen, another])

end Settled

structure Numbered (s : Sock) : Prop where
  stream : s.type = .stream
  past : s.tcpState ≠ .synSent ∧ s.tcpState ≠ .synRcvd
  next : s.retxBuf ≠ [] → s.tcpState = .established ∨ s.tcpState = .closeWait →
    s.sndNxt = s.retxSeq + BitVec.ofNat 32 s.retxBuf.length

namespace Numbered
variable {s s' : Sock} {g : Segment}

theorem of_ended (stream : s'.type = .stream)
    (state : s'.tcpState ∉ [.synSent, .synRcvd, .established, .closeWait]) : Numbered s' := by
  simp only [List.mem_cons, not_or] at state
  obtain ⟨synSent, synRcvd, established, closeWait, _⟩ := state
  exact ⟨stream, ⟨synSent, synRcvd⟩, fun _ open_ => absurd open_ (not_or.2 ⟨established, closeWait⟩)⟩

theorem goes_on (numbered : Numbered s) (type : s'.type = s.type)
    (past : s'.tcpState ≠ .synSent ∧ s'.tcpState ≠ .synRcvd)
    (state : s'.tcpState = .established ∨ s'.tcpState = .closeWait →
      s.tcpState = .established ∨ s.tcpState = .closeWait)
    (numbers : s'.sndNxt = s.sndNxt ∧ s'.retxSeq = s.retxSeq)
    (buf : s'.retxBuf = s.retxBuf ∨ s'.retxBuf = []) : Numbered s' := by
  refine ⟨type.trans numbered.stream, past, fun pending open_ => ?_⟩
  have same := buf.resolve_right pending
  rw [numbers.1, numbers.2, same]
  exact numbered.next (same ▸ pending) (state open_)

theorem hears (numbered : Numbered s) (hears : Hears s g s') (used : s.used)
    (stays : s'.used) (buf : s'.retxBuf = s.retxBuf ∨ s'.retxBuf = []) : Numbered s' := by
  have fields {r : Sock} (taken : s.Taken g r) :
      r.type = s.type ∧ r.sndNxt = s.sndNxt ∧ r.retxSeq = s.retxSeq := by
    rw [taken.rest]
    exact ⟨rfl, rfl, rfl⟩
  have ended {r : Sock} (type : r.type = .stream) : Numbered r.finish :=
    of_ended (by rwa [finish_type]) (by simp [r.finish_state])
  cases hears with
  | ignored => exact numbered
  | refused state | mismatched state | opened state | crossed state =>
    exact absurd state numbered.past.1
  | completed completes => exact absurd completes.state numbered.past.2
  | reset live =>
    rw [reset_used used, Bool.not_eq_true'] at stays
    refine of_ended ((reset_kept stays).1.trans numbered.stream) ?_
    rcases (reset_ended live stays).2 with h | h <;> simp [h]
  | received r taken =>
    obtain ⟨type, numbers⟩ := fields taken
    refine numbered.goes_on type ?_ ?_ numbers buf
    · rcases taken.receiving with h | h | h <;> simp [h]
    rcases taken.state with same | ⟨_, after⟩
    · rw [same]
      exact id
    · simp [after]
  | fin r taken _ state =>
    obtain ⟨type, numbers⟩ := fields taken
    exact numbered.goes_on type ⟨nofun, nofun⟩ (fun _ => .inl state) numbers buf
  | finLast r taken => exact ended ((fields taken).1.trans numbered.stream)
  | acked => exact ended numbered.stream

end Numbered

theorem Move.numbered {t : Table} {c : Call} {i : Sd} {s' : Sock} (move : Move t c i s')
    (numbered : Numbered (t.socks i)) (used : (t.socks i).used) (stays : s'.used)
    (goes_on : ¬ (t.socks i).Begins s') (unsent : ∀ bytes now d, c ≠ .send i bytes now d) :
    Numbered s' := by
  cases move with
  | create _ free | child _ _ _ free => cases used.symm.trans free
  | connectUdp _ _ _ _ _ dgram => cases numbered.stream.symm.trans dgram
  | connect _ _ _ _ _ _ delivered _ _ closed =>
    cases delivered with
    | false => exact .of_ended numbered.stream (by simp)
    | true => exact absurd (.inr ⟨by simp [closed], rfl⟩) goes_on
  | datagrams _ _ dgram | drop _ dgram => exact absurd numbered.stream dgram
  | send _ _ _ _ _ _ _ call =>
    obtain ⟨bytes, now, d, call⟩ := call
    exact absurd call (unsent bytes now d)
  | hear g =>
    exact numbered.hears ((t.socks i).hear_hears g) used stays
      (((t.socks i).hear_retxBuf g).imp_right And.right)
  | listen => exact .of_ended numbered.stream (by simp)
  | close =>
    unfold Sock.close
    split
    · exact .of_ended numbered.stream (by simp)
    · exact .of_ended numbered.stream (by simp)
    all_goals exact { numbered with }
  | tick now =>
    have ticks := (t.socks i).tick_ticks now
    generalize ((t.socks i).tick now).1 = s' at ticks
    cases ticks with
    | gaveUp => exact .of_ended (by simpa using numbered.stream) (by simp [finish_state])
    | dropped => exact numbered.goes_on rfl numbered.past id ⟨rfl, rfl⟩ (.inr rfl)
    | idle => exact numbered
    | resent => exact { numbered with }
  | same => exact numbered
  | bind | accept | recv | enlist => exact { numbered with }

def Counted (p : World × (Sd → Keeping)) : Prop :=
  ∀ i, (p.1.table.socks i).used = true → (p.2 i).mine = true → Numbered (p.1.table.socks i)

namespace Counted
variable {p p' : World × (Sd → Keeping)} {c : Call} {a : Answer}

theorem sends {t : Table} {i : Sd} {buf : List Byte} {now : Nat} {d : List Bool}
    (used : (t.socks i).used) (stream : (t.socks i).type = .stream)
    (active : t.Sends i buf d) : Numbered ((t.send i buf now d).2.socks i) := by
  obtain ⟨state, some_bytes⟩ := active
  rw [send_stream buf now d used stream, if_neg (by tauto)]
  rcases sendLoop_kept i now (buf.toChunks 1400) t d 0 with
    ⟨none_sent, _⟩ | ⟨before, last, took, after⟩
  · simp [none_sent] at some_bytes
  rw [after, edit_socks, Function.update_self, took]
  refine ⟨stream, ?_, fun _ _ => ?_⟩
  · rcases state with h | h <;> simp [h]
  · simp [BitVec.ofNat_add, BitVec.add_assoc]

theorem step (counted : Counted p) (run : watch keeping c p = some (a, p')) : Counted p' := by
  have step := of_watch run
  intro i stays mine
  have seen : p'.2 i = (p.2 i).see p.1.table c a (p'.1.table.socks i) i := by
    rw [step.seen]
    rfl
  have idle {buf now d} (call : c = .send i buf now d) (used : (p.1.table.socks i).used)
      (stream : (p.1.table.socks i).type = .stream)
      (inactive : ¬ p.1.table.Sends i buf d) :
      p'.1.table.socks i = p.1.table.socks i ∧ ∀ k, a.reply = .ok k → k = 0 := by
    subst call
    obtain ⟨same, none_sent⟩ := send_idle buf now d used stream inactive
    rw [step.table, step.answer]
    exact ⟨congrFun same i, none_sent⟩
  rcases (p.2 i).see_cases p.1.table c a (p'.1.table.socks i) i with
    ⟨same, goes_on, unsent⟩ | ⟨another, _⟩ | ⟨_, buf, now, d, k, call, stream, reply, some_bytes⟩
  · have used : (p.1.table.socks i).used := by
      by_contra free
      exact goes_on (.inl ⟨by simpa using free, stays⟩)
    rw [seen, same] at mine
    have numbered := counted i used mine
    by_cases sending : ∃ buf now d, c = .send i buf now d
    · obtain ⟨buf, now, d, call⟩ := sending
      refine (idle call used numbered.stream fun active => ?_).1 ▸ numbered
      subst call
      have reply := send_reply buf now d used numbered.stream active
      have := unsent buf now d _ rfl numbered.stream (by rw [step.answer]; exact reply)
      omega
    · exact (step.move i).numbered numbered used stays goes_on
        fun buf now d call => sending ⟨buf, now, d, call⟩
  · rw [seen, another] at mine
    cases mine
  have used : (p.1.table.socks i).used := by
    by_contra free
    subst call
    rw [step.answer] at reply
    simp [Table.call, Table.send, free] at reply
  by_cases active : p.1.table.Sends i buf d
  · subst call
    rw [step.table]
    exact sends used stream active
  · have := (idle call used stream active).2 k reply
    omega

theorem reached {calls : List Call} {p : World × (Sd → Keeping)}
    (run : Prog.Runs (watch keeping) (fun _ _ => True) (.boot, keeping.start) calls p) : Counted p :=
  run.invariant (fun _ _ _ _ counted _ step => counted.step step) fun _ _ mine => by cases mine

end Counted

theorem Sock.hear_closeWait {s : Sock} {g : Segment} (state : s.tcpState = .closeWait)
    (noRst : g.flags.rst = false) : s.hear g = s := by
  simp [hear, state, noRst]

theorem Sock.Acknowledged.unseen {s : Sock} {g : Segment} (acked : s.Acknowledged g)
    (next : s.sndNxt = s.retxSeq + BitVec.ofNat 32 s.retxBuf.length) :
    (s.sndUna - (s.retxSeq + BitVec.ofNat 32 s.retxBuf.length)).toInt < 0 := by
  obtain ⟨_, _, news, sent, covers⟩ := acked
  rw [← next] at covers ⊢
  -- the acknowledgement is of everything that was sent
  have all : g.ack = s.sndNxt := by
    have zero : (g.ack - s.sndNxt).toInt = 0 := by omega
    have zero : g.ack - s.sndNxt = 0 := BitVec.toInt_inj.1 zero
    bv_omega
  rw [all, BitVec.toInt_eq_toNat_cond] at news
  rw [BitVec.toInt_eq_toNat_cond]
  bv_omega

theorem Sock.tick_due {s : Sock} (used : s.used) (stream : s.type = .stream)
    (pending : s.retxBuf ≠ []) (opened : s.tcpState ≠ .closed)
    (unacked : (s.sndUna - (s.retxSeq + BitVec.ofNat 32 s.retxBuf.length)).toInt < 0) :
    (s.tick (s.retxSentMs + 500)).2 ≠ [] := by
  have due : (BitVec.ofNat 64 (s.retxSentMs + 500) - BitVec.ofNat 64 s.retxSentMs).toNat = 500 := by
    rw [BitVec.ofNat_add, BitVec.add_comm, BitVec.add_sub_cancel]
    rfl
  rw [Sock.tick, if_neg (by simp [used]), if_neg (by simp [stream]), if_neg pending, if_neg opened,
    if_neg (by omega), if_neg (by omega)]
  split <;> simp

/-- A valid acknowledgement of the segment that the present connection keeps ends its
retransmission for good exactly if it arrives in ESTABLISHED. -/
theorem ack_stops_timer_iff {calls : List Call} {p p₁ : World × (Sd → Keeping)} {i : Sd} {g : Segment}
    {now : Nat} {a : Answer}
    (run : Prog.Runs (watch keeping) (fun _ _ => True) (.boot, keeping.start) calls p)
    (found : p.1.table.lookup g = some i)
    (maySend : (p.1.table.socks i).tcpState = .established ∨
      (p.1.table.socks i).tcpState = .closeWait)
    (mine : (p.2 i).mine = true) (pending : (p.1.table.socks i).retxBuf ≠ [])
    (acked : (p.1.table.socks i).Acknowledged g)
    (heard : watch keeping (.segment g now) p = some (a, p₁)) :
    (∀ later p', Prog.Runs (watch keeping) (fun _ _ => True) p₁ later p' →
        (p'.2 i).number = (p₁.2 i).number → ∀ time, ((p'.1.table.socks i).tick time).2 = []) ↔
      (p.1.table.socks i).tcpState = .established := by
  have heardBy := p.1.table.lookup_heard found
  have connection : (p.1.table.socks i).tcpState ≠ .listen := by
    rcases maySend with h | h <;> simp [h]
  have here : p₁.1.table.socks i = (p.1.table.socks i).hear g := by
    rw [(of_watch heard).table]
    exact Table.handleSegment_hear now found connection
  constructor
  · intro silent
    refine maySend.resolve_right fun closeWait => ?_
    rw [Sock.hear_closeWait closeWait acked.noRst] at here
    have next := ((Counted.reached run) i heardBy.used mine).next pending maySend
    have sends := Sock.tick_due heardBy.used heardBy.stream pending heardBy.opened (acked.unseen next)
    rw [← here] at sends
    exact sends (silent [] p₁ (.nil _) rfl _)
  · intro established later p' rest same time
    have start : Settled i (p₁.2 i).number p₁ :=
      ⟨le_rfl, fun _ => .inr (here ▸ Sock.hear_acknowledged established acked)⟩
    have settled := rest.invariant (fun _ _ _ _ inv _ step => inv.step step) start
    exact Sock.tick_idle (settled.idle same) time

def oneByte : List Call :=
  [.create .stream, .connect 0 0x0A000202 80 100 true,
    .segment { srcIp := 0x0A000202, srcPort := 80, dstPort := 40000, seq := 7, ack := 101
               flags := { syn := true, ack := true }, payload := [] } 100,
    .send 0 [42] 100 [true]]

def earlyFin : List Call :=
  oneByte ++ [.segment { srcIp := 0x0A000202, srcPort := 80, dstPort := 40000, seq := 8, ack := 101
                         flags := { fin := true, ack := true }, payload := [] } 100]

def byteAck : Segment :=
  { srcIp := 0x0A000202, srcPort := 80, dstPort := 40000, seq := 8, ack := 102
    flags := { ack := true }, payload := [] }

theorem ack_stops_timer_iff_client :
    ∃ a p₁, watch keeping (.segment byteAck 100) (observed keeping oneByte) = some (a, p₁) ∧
      ((∀ later p', Prog.Runs (watch keeping) (fun _ _ => True) p₁ later p' →
          (p'.2 0).number = (p₁.2 0).number → ∀ time, ((p'.1.table.socks 0).tick time).2 = []) ↔
        ((observed keeping oneByte).1.table.socks 0).tcpState = .established) :=
  ⟨_, _, rfl, ack_stops_timer_iff (observed_runs (by decide +kernel)) (by decide +kernel)
    (by decide +kernel) (by decide +kernel) (by decide +kernel)
    ⟨by decide, by decide, by decide +kernel, by decide +kernel, by decide +kernel⟩ rfl⟩

/-- The byte that the peer has acknowledged is sent five times more, and then the connection
is given up. -/
def givenUp : List Call :=
  earlyFin ++ [.segment byteAck 100, .tick 600, .tick 1100, .tick 1600, .tick 2100, .tick 2600,
    .tick 3100]

theorem ack_ignored_in_closeWait :
    Prog.Runs (watch keeping) (fun _ _ => True) (.boot, keeping.start) givenUp
        (observed keeping givenUp) ∧
      ((observed keeping earlyFin).1.table.socks 0).tcpState = .closeWait ∧
      ((observed keeping earlyFin).1.table.socks 0).Acknowledged byteAck ∧
      ((observed keeping givenUp).1.table.sent.filter fun m => m.payload == [42]).length = 6 ∧
      ((observed keeping givenUp).1.table.socks 0).tcpState = .closed :=
  ⟨observed_runs (by decide +kernel), by decide +kernel,
    ⟨by decide, by decide, by decide +kernel, by decide +kernel, by decide +kernel⟩,
    by decide +kernel, by decide +kernel⟩

end Osnos.Net
