import Osnos.Net.Outgoing

/-! # Acknowledgements that come during a send -/
namespace Osnos.Net
open Sock Table List

variable {g : Segment} {n k : Nat} {now : Nat} {b : Sock} {x : Outgoing}

def sendPoints : List (List Byte) → List Bool → Nat
  | [], _ => 0
  | _ :: rest, delivered =>
    if delivered.head? = some false then 2 else 4 + sendPoints rest delivered.tail

variable {delivered : List Bool} {chunk : List Byte} {before rest : List (List Byte)}

theorem sendPoints_append (rest : List (List Byte))
    (sent : ∀ j < before.length, delivered[j]? ≠ some false) :
    sendPoints (before ++ rest) delivered =
      4 * before.length + sendPoints rest (delivered.drop before.length) := by
  induction before generalizing delivered with
  | nil => simp
  | cons chunk before ih =>
    obtain ⟨first, others⟩ := sent_cons sent
    rw [cons_append, sendPoints, if_neg first, ih others, drop_tail, length_cons]
    omega

theorem sendBody_cons (sent : delivered.head? ≠ some false) (m : Nat) (s : Sock) :
    (sendBody now (chunk :: rest) delivered m).heard g n k s =
      let s₁ := hearAt g n k s
      let s₂ := hearAt g n (k + 2) (hearAt g n (k + 1) s₁)
      let s₃ := hearAt g n (k + 3) (s₂.advance chunk.length)
      (sendBody now rest delivered.tail (m + chunk.length)).heard g n (k + 4)
        (s₃.stash s₁.sndNxt chunk now) := by
  rw [sendBody]
  simp only [if_neg sent]
  rfl

theorem sendBody_fail (fail : delivered.head? = some false) (m : Nat) (s : Sock) :
    (sendBody now (chunk :: rest) delivered m).heard g n k s =
      hearAt g n (k + 2) (hearAt g n (k + 1) (hearAt g n k s)) := by
  rw [sendBody]
  simp only [if_pos fail]
  rfl

theorem hearAt_self (s : Sock) : hearAt g n n s = s.hear g := if_pos rfl

theorem hearAt_other {s : Sock} (other : k ≠ n) : hearAt g n k s = s := if_neg other

theorem hearAt_later (later : k + 4 ≤ n) : hearAt g n k = id ∧ hearAt g n (k + 1) = id ∧
    hearAt g n (k + 2) = id ∧ hearAt g n (k + 3) = id := by
  refine ⟨?_, ?_, ?_, ?_⟩ <;> exact funext fun _ => hearAt_other (by omega)

theorem sendBody_effect (chunks : List (List Byte)) (delivered : List Bool) (m : Nat) :
    (Code.run Stmt.effect id (sendBody now chunks delivered m) (b.withOutgoing x)).2 =
      b.withOutgoing (x.sendAll now chunks delivered) := by
  induction chunks generalizing delivered m x with
  | nil => rfl
  | cons chunk _ ih =>
    rw [sendBody, Outgoing.sendAll, Code.run, Code.run]
    split
    · rfl
    · exact ih (x := x.send chunk now) _ _

theorem sendBody_after (chunks : List (List Byte)) (delivered : List Bool) (m : Nat)
    (past : n < k) :
    (sendBody now chunks delivered m).heard g n k (b.withOutgoing x) =
      b.withOutgoing (x.sendAll now chunks delivered) := by
  have quiet : ∀ j s, k ≤ j → hearAt g n j s = s := fun j s later => hearAt_other (by omega)
  rw [Body.heard, Code.follow_run _ _ _ _ _ quiet, sendBody_effect]

theorem sendBody_reach (rest : List (List Byte))
    (sent : ∀ j < before.length, delivered[j]? ≠ some false) (m : Nat)
    (ahead : k + 4 * before.length ≤ n) :
    (sendBody now (before ++ rest) delivered m).heard g n k (b.withOutgoing x) =
      (sendBody now rest (delivered.drop before.length) (m + before.flatten.length)).heard g n
        (k + 4 * before.length) (b.withOutgoing (x.sendAll now before delivered)) := by
  induction before generalizing delivered m k x with
  | nil => rfl
  | cons chunk before ih =>
    rw [length_cons] at ahead
    obtain ⟨first, others⟩ := sent_cons sent
    rw [cons_append, sendBody_cons first, Outgoing.sendAll, if_neg first]
    simp only [hearAt_later (show k + 4 ≤ n by omega), id]
    have reached := ih (k := k + 4) (x := x.send chunk now) others (m + chunk.length) (by omega)
    rw [drop_tail] at reached
    rw [length_cons, flatten_cons, length_append, ← Nat.add_assoc m]
    rw [show k + 4 * (before.length + 1) = k + 4 + 4 * before.length by ring]
    exact reached

section
variable (state : b.tcpState = .established) {next : Seq} (acks : Acks g next)
include state acks

theorem hear_outgoing : (b.withOutgoing x).hear g = (b.receive g).withOutgoing (x.ack next) := by
  have heard := hear_established (s := b.withOutgoing x) state acks.noRst acks.ack
  rw [acks.next] at heard
  rw [heard, receive_withOutgoing]
  rfl

/-- The acknowledgement comes in the rest of the loop or after it, and is for bytes that
were sent before: as if it came at the end. -/
theorem sendBody_behind {chunks : List (List Byte)} (filled : ∀ c ∈ chunks, 0 < c.length)
    (delivered : List Bool) (m : Nat) (ahead : k ≤ n) (back : n ≤ k + sendPoints chunks delivered)
    (behind : x.Behind next chunks.flatten.length) :
    (sendBody now chunks delivered m).heard g n k (b.withOutgoing x) =
      (b.receive g).withOutgoing ((x.sendAll now chunks delivered).ack next) := by
  induction chunks generalizing delivered m k x with
  | nil =>
    obtain rfl : k = n := by
      rw [sendPoints] at back
      omega
    exact (hearAt_self _).trans (hear_outgoing state acks)
  | cons chunk rest ih =>
    have all : Outgoing.sendAll now (chunk :: rest) delivered (x.ack next) =
        (Outgoing.sendAll now (chunk :: rest) delivered x).ack next :=
      behind.sendAll_ack filled delivered
    rw [flatten_cons, length_append] at behind
    rw [sendPoints] at back
    by_cases fail : delivered.head? = some false
    · rw [if_pos fail] at back
      rw [sendBody_fail fail, Outgoing.sendAll, if_pos fail]
      obtain rfl | rfl | rfl : n = k ∨ n = k + 1 ∨ n = k + 2 := by omega
      all_goals simp [hearAt, hear_outgoing state acks]
    rw [if_neg fail] at back
    have some_bytes := filled chunk (by simp)
    have filled : ∀ c ∈ rest, 0 < c.length := fun c mem => filled c (by simp [mem])
    have early : (((b.receive g).withOutgoing (x.ack next)).advance chunk.length).stash x.sndNxt
        chunk now = (b.receive g).withOutgoing ((x.send chunk now).ack next) := by
      rw [← behind.send_ack some_bytes, Outgoing.send, Outgoing.ack_sndNxt]
      rfl
    have late : (((b.receive g).withOutgoing ((x.advance chunk.length).ack next))).stash x.sndNxt
        chunk now = (b.receive g).withOutgoing ((x.send chunk now).ack next) := by
      rw [← behind.stash_ack some_bytes]
      rfl
    have rest_after : ∀ j, n < j → (sendBody now rest delivered.tail (m + chunk.length)).heard g n j
        ((b.receive g).withOutgoing ((x.send chunk now).ack next)) =
        (b.receive g).withOutgoing (((x.send chunk now).sendAll now rest delivered.tail).ack next) := by
      intro j past
      rw [sendBody_after _ _ _ past, behind.send.sendAll_ack filled]
    rw [sendBody_cons fail, Outgoing.sendAll, if_neg fail]
    obtain rfl | rfl | rfl | rfl | later :
        n = k ∨ n = k + 1 ∨ n = k + 2 ∨ n = k + 3 ∨ k + 4 ≤ n := by omega
    · simp [hearAt, hear_outgoing state acks, early, rest_after]
    · simp [hearAt, hear_outgoing state acks, early, rest_after]
    · simp [hearAt, hear_outgoing state acks, early, rest_after]
    · have heard : ((b.withOutgoing x).advance chunk.length).hear g =
          (b.receive g).withOutgoing ((x.advance chunk.length).ack next) :=
        hear_outgoing (x := x.advance chunk.length) state acks
      simp [hearAt, heard, late, rest_after]
    · simp only [hearAt_later later, id]
      exact ih filled _ _ later (by omega) behind.send

theorem sendBody_answered (sent : delivered.head? ≠ some false) (m : Nat)
    (filled : ∀ c ∈ chunk :: rest, 0 < c.length)
    (small : chunk.length + rest.flatten.length < 2 ^ 31)
    (seq : next = x.sndNxt + BitVec.ofNat 32 chunk.length) (news : 0 < (next - x.sndUna).toInt)
    (ahead : k + 2 ≤ n) (back : n ≤ k + sendPoints (chunk :: rest) delivered) :
    (sendBody now (chunk :: rest) delivered m).heard g n k (b.withOutgoing x) =
        (b.receive g).withOutgoing ((x.sendAll now (chunk :: rest) delivered).ack next) ↔
      k + 4 ≤ n ∨ n = k + 3 ∧ rest ≠ [] ∧ delivered.tail.head? ≠ some false := by
  have some_bytes := filled chunk (by simp)
  have filled : ∀ c ∈ rest, 0 < c.length := fun c mem => filled c (by simp [mem])
  have behind : (x.send chunk now).Behind next rest.flatten.length :=
    ⟨news, 0, by simp [seq, Outgoing.send, Outgoing.stash, Outgoing.advance], by omega⟩
  rw [sendPoints, if_neg sent] at back
  rw [sendBody_cons sent, Outgoing.sendAll, if_neg sent]
  obtain rfl | rfl | later : n = k + 2 ∨ n = k + 3 ∨ k + 4 ≤ n := by omega
  · have early : x.ack next = x := Outgoing.ack_ahead (by
      rw [seq, add_sub_toInt (by omega)]
      omega)
    have heard : (b.withOutgoing x).hear g = (b.receive g).withOutgoing x := by
      rw [hear_outgoing state acks, early]
    have rest_after : (sendBody now rest delivered.tail (m + chunk.length)).heard g (k + 2) (k + 4)
        ((((b.receive g).withOutgoing x).advance chunk.length).stash x.sndNxt chunk now) =
        (b.receive g).withOutgoing ((x.send chunk now).sendAll now rest delivered.tail) :=
      sendBody_after (x := x.send chunk now) _ _ _ (by omega)
    simp only [hearAt_self, hearAt_other (show k ≠ k + 2 by omega),
      hearAt_other (show k + 1 ≠ k + 2 by omega), hearAt_other (show k + 3 ≠ k + 2 by omega), heard,
      withOutgoing_sndNxt, rest_after]
    refine iff_of_false (fun same => ?_) (by omega)
    have una := congrArg Outgoing.sndUna (withOutgoing_inj.1 same)
    rw [(behind.after _).ack_sndUna, Outgoing.sendAll_sndUna] at una
    have una : x.sndUna = next := una
    rw [una] at news
    simp at news
  · have acked : ((((b.receive g).withOutgoing ((x.advance chunk.length).ack next))).stash x.sndNxt
        chunk now) = (b.receive g).withOutgoing { x.send chunk now with sndUna := next } := by
      have ready : (x.advance chunk.length).Behind next rest.flatten.length :=
        ⟨behind.news, behind.sent⟩
      obtain ⟨buf, count, acked⟩ := ready.ack_eq
      rw [acked]
      rfl
    have heard : ((b.withOutgoing x).advance chunk.length).hear g =
        (b.receive g).withOutgoing ((x.advance chunk.length).ack next) :=
      hear_outgoing (x := x.advance chunk.length) state acks
    simp only [hearAt_self, hearAt_other (show k ≠ k + 3 by omega),
      hearAt_other (show k + 1 ≠ k + 3 by omega), hearAt_other (show k + 2 ≠ k + 3 by omega), heard,
      withOutgoing_sndNxt, acked]
    rw [sendBody_after _ _ _ (by omega), withOutgoing_inj, behind.kept_iff filled _ seq some_bytes]
    simp
  · simp only [hearAt_later later, id]
    exact iff_of_true (sendBody_behind state acks filled _ _ later (by omega) behind) (.inl later)

end

theorem sendBody_safe {s : Sock} (conn : StreamConn s ∧ s.zombie = false)
    (noRst : g.flags.rst = false)
    (chunks : List (List Byte)) (delivered : List Bool) (m : Nat) :
    Code.Safe Stmt.effect (hearAt g n) StreamConn k (sendBody now chunks delivered m) s := by
  induction chunks generalizing delivered m k s with
  | nil => exact conn.1
  | cons chunk _ ih =>
    rw [sendBody]
    have first := hearAt_conn (n := n) (k := k) conn noRst
    have second := hearAt_conn (n := n) (k := k + 1) first noRst
    refine ⟨conn.1, first.1, ?_⟩
    split
    · exact second.1
    have third := hearAt_conn (n := n) (k := k + 2) second noRst
    have counted : StreamConn ((hearAt g n (k + 2) (hearAt g n (k + 1) (hearAt g n k s))).advance
        chunk.length) ∧ _ = false :=
      ⟨⟨third.1.used, third.1.stream, third.1.connection⟩, third.2⟩
    have fourth := hearAt_conn (n := n) (k := k + 3) counted noRst
    refine ⟨second.1, counted.1, ?_⟩
    have kept : StreamConn ((hearAt g n (k + 3) ((hearAt g n (k + 2) (hearAt g n (k + 1)
        (hearAt g n k s))).advance chunk.length)).stash (hearAt g n k s).sndNxt chunk now) ∧ _ = false :=
      ⟨⟨fourth.1.used, fourth.1.stream, fourth.1.connection⟩, fourth.2⟩
    exact ih kept _ _

theorem sendBody_deaf (state : b.tcpState = .closeWait) (noRst : g.flags.rst = false)
    (chunks : List (List Byte)) (delivered : List Bool) (m : Nat) :
    (sendBody now chunks delivered m).heard g n k (b.withOutgoing x) =
      b.withOutgoing (x.sendAll now chunks delivered) := by
  have deaf : ∀ j y, hearAt g n j (b.withOutgoing y) = b.withOutgoing y := by
    intro j y
    unfold hearAt
    split
    · rw [hear, withOutgoing_state, state]
      simp [noRst]
    · rfl
  induction chunks generalizing delivered m k x with
  | nil => exact deaf k x
  | cons chunk _ ih =>
    rw [Outgoing.sendAll]
    by_cases fail : delivered.head? = some false
    · rw [sendBody_fail fail, if_pos fail]
      simp only [deaf]
    have counted : hearAt g n (k + 3) ((b.withOutgoing x).advance chunk.length) =
        (b.withOutgoing x).advance chunk.length := deaf (k + 3) (x.advance chunk.length)
    rw [sendBody_cons fail, if_neg fail]
    simp only [deaf, counted]
    exact ih (k := k + 4) (x := x.send chunk now) _ _

variable {t t' : Table} {sd : Sd} {r : Reply} {buf : List Byte} {delivered : List Bool}

theorem send_socket (owned : Owned (t.socks sd)) (closing : Closing (t.socks sd)) :
    (t.send sd buf now delivered).2.socks sd = (t.socks sd).withOutgoing
    ((t.socks sd).outgoing.sendAll now (buf.toChunks 1400) delivered) := by
  have loop : t.send sd buf now delivered =
      (sendBody now (buf.toChunks 1400) delivered 0).run sd t := by
    rw [sendBody_run]
    unfold send
    rcases closing with state | state
    all_goals simp [owned.used, owned.stream, state]
  rw [loop, Body.run_socket]
  exact sendBody_effect (b := t.socks sd) (x := (t.socks sd).outgoing) _ _ _

/-- The acknowledgement of a chunk counts exactly if it comes after the chunk has been kept,
or before that but with another chunk to come; in CLOSE_WAIT it never counts. -/
theorem send_timely {after : List (List Byte)} (owned : Owned (t.socks sd))
    (closing : Closing (t.socks sd))
    (split : buf.toChunks 1400 = before ++ chunk :: after) (small : buf.length < 2 ^ 31)
    (sent : ∀ j ≤ before.length, delivered[j]? ≠ some false)
    (acks : Acks g ((t.socks sd).sndNxt + BitVec.ofNat 32 (before.flatten.length + chunk.length)))
    (news : 0 < (g.ack - (t.socks sd).sndUna).toInt) (ahead : 4 * before.length + 2 ≤ n)
    (back : n ≤ sendPoints (buf.toChunks 1400) delivered)
    (run : (sendBody now (buf.toChunks 1400) delivered 0).Interrupted sd g n t r t') :
    t'.socks sd = ((t.send sd buf now delivered).2.socks sd).hear g ↔
      (t.socks sd).tcpState = .closeWait ∨ 4 * before.length + 4 ≤ n ∨
        n = 4 * before.length + 3 ∧ after ≠ [] ∧ delivered[before.length + 1]? ≠ some false := by
  have connection : (t.socks sd).tcpState ≠ .listen := by
    rcases closing with state | state <;> simp [state]
  have conn : StreamConn (t.socks sd) ∧ (t.socks sd).zombie = false :=
    ⟨⟨owned.used, owned.stream, connection⟩, owned.mine⟩
  rw [run.socket (sendBody_safe conn acks.noRst _ _ _), send_socket owned closing]
  rcases closing with state | state
  · have filled := toChunks_filled buf
    have total := congrArg length (toChunks_flatten buf)
    rw [split] at filled total back ⊢
    rw [flatten_append, flatten_cons, length_append, length_append] at total
    have sentBefore : ∀ j < before.length, delivered[j]? ≠ some false :=
      fun j low => sent j (by omega)
    have first : (delivered.drop before.length).head? ≠ some false := by
      rw [head?_drop]
      exact sent _ (Nat.le_refl _)
    have unacked := (t.socks sd).outgoing.sendAll_sndUna now before delivered
    obtain ⟨all, next⟩ := (t.socks sd).outgoing.sendAll_append now (chunk :: after) sentBefore
    rw [sendPoints_append _ sentBefore] at back
    have reached : (sendBody now (before ++ chunk :: after) delivered 0).heard g n 0 (t.socks sd) = _ :=
      sendBody_reach (x := (t.socks sd).outgoing) (chunk :: after) sentBefore 0 (by omega)
    rw [reached, hear_outgoing state acks, all]
    have seq : (t.socks sd).sndNxt + BitVec.ofNat 32 (before.flatten.length + chunk.length) =
        ((t.socks sd).outgoing.sendAll now before delivered).sndNxt +
          BitVec.ofNat 32 chunk.length := by
      rw [next, BitVec.ofNat_add, ← BitVec.add_assoc]
      rfl
    rw [acks.next] at news
    refine (sendBody_answered (x := (t.socks sd).outgoing.sendAll now before delivered) state acks
      first _ (fun c mem => filled c (mem_append_right _ mem)) (by omega) seq
      (by rw [unacked]; exact news) (by omega) (by omega)).trans ?_
    rw [tail_drop, head?_drop, state]
    simp
  · have deaf : (sendBody now (buf.toChunks 1400) delivered 0).heard g n 0 (t.socks sd) = _ :=
      sendBody_deaf (x := (t.socks sd).outgoing) state acks.noRst _ _ _
    refine iff_of_true ?_ (.inl state)
    rw [deaf, hear, withOutgoing_state, state]
    simp [acks.noRst]

/-- What an answer that is heard at point `n` of a call does to the socket, against what it
does after the call: the same exactly if the call has made its updates. -/
theorem answers_heard (t t' : Table) (sd : Sd) (g : Segment) (n now : Nat) (r : Reply) :
    -- the SYN-ACK: point 2 is between the SYN and `snd_nxt++`
    (∀ ip port, Connects t sd ip port → Acks g (isn sd now + 1) → g.flags.syn = true →
      2 ≤ n → n ≤ 3 →
      (connectBody sd ip port now true).Interrupted sd g n (t.autoBind sd).2 r t' →
      (t'.socks sd = ((t.connect sd ip port now true).2.socks sd).hear g ↔ n = 3) ∧
        ((t'.socks sd).tcpState = .established ↔ n = 3)) ∧
    -- the acknowledgement of a chunk
    (∀ buf delivered before chunk after, Owned (t.socks sd) → Closing (t.socks sd) →
      buf.toChunks 1400 = before ++ chunk :: after → buf.length < 2 ^ 31 →
      (∀ j ≤ before.length, delivered[j]? ≠ some false) →
      Acks g ((t.socks sd).sndNxt + BitVec.ofNat 32 (before.flatten.length + chunk.length)) →
      0 < (g.ack - (t.socks sd).sndUna).toInt → 4 * before.length + 2 ≤ n →
      n ≤ sendPoints (buf.toChunks 1400) delivered →
      (sendBody now (buf.toChunks 1400) delivered 0).Interrupted sd g n t r t' →
      (t'.socks sd = ((t.send sd buf now delivered).2.socks sd).hear g ↔
        (t.socks sd).tcpState = .closeWait ∨ 4 * before.length + 4 ≤ n ∨
          n = 4 * before.length + 3 ∧ after ≠ [] ∧ delivered[before.length + 1]? ≠ some false)) ∧
    -- the acknowledgement of the FIN: the updates are made at points 2, 3 and 4
    (Owned (t.socks sd) → Closing (t.socks sd) → Acks g ((t.socks sd).sndNxt + 1) →
      2 ≤ n → n ≤ 5 → closeBody.Interrupted sd g n t r t' →
      (t'.socks sd = ((t.closeTcp sd).2.socks sd).hear g ↔
          n = 5 ∨ n = 4 ∧ (((t.closeTcp sd).2.socks sd).hear g).used = true) ∧
        (PastFin (t'.socks sd) ↔ 4 ≤ n)) := by
  refine ⟨?_, ?_, ?_⟩
  · intro ip port ready acks syn sent back run
    exact connect_timely ready acks syn sent back run
  · intro buf delivered before chunk after owned closing split small sent acks news ahead back run
    exact send_timely owned closing split small sent acks news ahead back run
  · intro owned closing acks sent back run
    exact close_timely owned closing acks sent back run

def fresh : Table := (World.boot.table.create .stream).2

def synAck : Segment where
  srcIp := 0x0A000202
  srcPort := 80
  dstPort := 40000
  seq := 7
  ack := 1
  flags := { syn := true, ack := true }
  payload := []

theorem answers_heard_synAck : ∃ t', (connectBody 0 0x0A000202 80 0 true).Interrupted 0 synAck 3
    (fresh.autoBind 0).2 .again t' ∧ (t'.socks 0).tcpState = .established := by
  have run : (connectBody 0 0x0A000202 80 0 true).Interrupted 0 synAck 3
      (fresh.autoBind 0).2 .again _ :=
    .step (.others (by decide) .refl) (.step (.others (by decide) .refl)
      (.step (.others (by decide) .refl) (.ret (.segment 0 .refl (by decide +kernel)))))
  have ready : Connects fresh 0 0x0A000202 80 :=
    ⟨⟨rfl, rfl, rfl⟩, rfl, rfl, by decide, by decide, by decide +kernel⟩
  exact ⟨_, run, ((answers_heard fresh _ 0 synAck 3 0 .again).1 _ _ ready ⟨rfl, rfl, by decide⟩ rfl
    (by decide) le_rfl run).2.2 rfl⟩

/-- The SYN-ACK is heard before `snd_nxt++`: the connection is refused, although it would
be established right after the call. -/
theorem early_synAck_refused :
    ∃ t', (connectBody 0 0x0A000202 80 0 true).Interrupted 0 synAck 2
    (fresh.autoBind 0).2 .again t' ∧
      (t'.socks 0).tcpState = .closed ∧
      (((fresh.connect 0 0x0A000202 80 0 true).2.socks 0).hear synAck).tcpState = .established := by
  refine ⟨_, .step (.others (by decide) .refl) (.step (.others (by decide) .refl)
    (.step (.segment 0 .refl (by decide +kernel)) (.ret (.others (by decide) .refl)))), ?_, ?_⟩
  · decide +kernel
  · decide +kernel

end Osnos.Net
