import Osnos.Net.Stream

/-! What a call sends. -/
namespace Osnos.Net
open List

structure Sent.From (m : Sent) (s : Sock) : Prop where
  ip : s.remoteIp = m.dstIp
  peer : s.remotePort = m.dstPort
  port : s.localPort = m.srcPort

inductive Acknowledges (s : Sock) (g : Segment) (s' : Sock) : Seq → Prop
  | syn (state : s.tcpState = .synSent)
      (after : s'.tcpState = .established ∨ s'.tcpState = .synRcvd) : Acknowledges s g s' (g.seq + 1)
  | data (receives : s.Receives) (noRst : g.flags.rst = false) :
      Acknowledges s g s' (s.rcvNxt + BitVec.ofNat 32 (s.stores g).length)
  | fin (arrives : s.FinArrives g) :
      Acknowledges s g s' (s.rcvNxt + BitVec.ofNat 32 (s.stores g).length + 1)

inductive Emits (t : Table) (c : Call) (i : Sd) (s' : Sock) (m : Sent) : Prop
  | calls (on : (∃ buf now d, c = .send i buf now d) ∨ c = .close i) (used : (t.socks i).used = true)
      (stream : (t.socks i).type = .stream)
      (state : (t.socks i).tcpState = .established ∨ (t.socks i).tcpState = .closeWait)
      (ack : m.ack = (t.socks i).rcvNxt) : Emits t c i s' m
  | repeats (now : Nat) (call : c = .tick now) (used : (t.socks i).used = true)
      (stream : (t.socks i).type = .stream) (pending : (t.socks i).retxBuf ≠ [])
      (peer : m.From (t.socks i)) (ack : m.ack = (t.socks i).rcvNxt) : Emits t c i s' m
  | hears (g : Segment) (now : Nat) (call : c = .segment g now) (found : t.lookup g = some i)
      (connection : (t.socks i).tcpState ≠ .listen) (ack : Acknowledges (t.socks i) g s' m.ack) :
      Emits t c i s' m
  | spawned (g : Segment) (now : Nat) (parent : Sd) (call : c = .segment g now)
      (free : (t.socks i).used = false) (made : s' = (t.socks i).spawned i parent g now)
      (ack : m.ack = g.seq + 1) : Emits t c i s' m

def Answers (t : Table) (c : Call) (t' : Table) (m : Sent) : Prop :=
  m.flags.ack = false ∨ m.flags.rst = true ∨
    ∃ i, m.From (t'.socks i) ∧ Emits t c i (t'.socks i) m

variable {m : Sent}

namespace Sock
variable (s : Sock) (g : Segment)

def Replies (s : Sock) (g : Segment) (d : Sock × List Sent) : Prop :=
  ∀ m ∈ d.2, m.flags.rst = true ∨ m.From d.1 ∧ Acknowledges s g d.1 m.ack

theorem handleSynSent_replies (state : s.tcpState = .synSent) :
    s.Replies g (s.handleSynSent g) := by
  intro m mem
  unfold handleSynSent at mem ⊢
  split_ifs at mem ⊢ with rst both wrong syn
  · simp at mem
  · rw [mem_singleton.1 mem]
    exact .inl rfl
  · rw [mem_singleton.1 mem]
    exact .inr ⟨⟨rfl, rfl, rfl⟩, .syn state (.inl rfl)⟩
  · rw [mem_singleton.1 mem]
    exact .inr ⟨⟨rfl, rfl, rfl⟩, .syn state (.inr rfl)⟩
  · simp at mem

theorem acceptData_replies (mem : m ∈ (s.acceptData g).2) : m = (s.acceptData g).1.emitAck := by
  unfold acceptData at mem ⊢
  split at mem
  next fits =>
    rw [if_pos fits]
    exact mem_singleton.1 mem
  · simp at mem

variable {s g}

theorem Taken.next {s₁ : Sock} (taken : s.Taken g s₁) :
    s₁.rcvNxt = s.rcvNxt + BitVec.ofNat 32 (s.stores g).length := by
  rw [taken.rest]

theorem Taken.acknowledges {s₁ : Sock} (taken : s.Taken g s₁) (s' : Sock) :
    Acknowledges s g s' s₁.rcvNxt := by
  rw [taken.next]
  exact .data taken.receives taken.noRst

theorem Taken.acknowledges_fin {s₁ : Sock} (taken : s.Taken g s₁) (inOrder : s₁.finInOrder g)
    (s' : Sock) : Acknowledges s g s' (s₁.rcvNxt + 1) := by
  rw [taken.next]
  exact .fin (taken.finArrives inOrder)

theorem finish_from (mine : m.From s) : m.From s.finish := by
  unfold finish
  split <;> exact { mine with }

variable (s g)

theorem handleEstablished_replies (state : s.tcpState = .established) :
    s.Replies g (s.handleEstablished g) := by
  intro m mem
  unfold handleEstablished at mem ⊢
  split_ifs at mem ⊢ with rst
  · simp at mem
  have taken := s.established_taken g state (by simpa using rst)
  dsimp only at mem ⊢
  split_ifs at mem ⊢ with inOrder
  · rcases mem_append.1 mem with mem | mem
    · rw [acceptData_replies _ g mem]
      exact .inr ⟨⟨rfl, rfl, rfl⟩, taken.acknowledges _⟩
    · rw [mem_singleton.1 mem]
      exact .inr ⟨⟨rfl, rfl, rfl⟩, taken.acknowledges_fin inOrder _⟩
  · rw [acceptData_replies _ g mem]
    exact .inr ⟨⟨rfl, rfl, rfl⟩, taken.acknowledges _⟩

theorem handleFinWait1_replies (state : s.tcpState = .finWait1) :
    s.Replies g (s.handleFinWait1 g) := by
  intro m mem
  rw [handleFinWait1_eq] at mem ⊢
  split_ifs at mem ⊢ with rst inOrder
  · simp at mem
  all_goals
    have taken := s.finWait1_taken g state (by simpa using rst)
    have same : (s.acceptData g).1.emitAck.From (s.acked1 g) ∧
        (s.acceptData g).1.emitAck.ack = (s.acked1 g).rcvNxt := by
      unfold acked1
      split <;> exact ⟨⟨rfl, rfl, rfl⟩, rfl⟩
  · rcases mem_append.1 mem with mem | mem
    · rw [acceptData_replies s g mem, same.2]
      exact .inr ⟨finish_from ⟨same.1.ip, same.1.peer, same.1.port⟩, taken.acknowledges _⟩
    · rw [mem_singleton.1 mem]
      exact .inr ⟨finish_from ⟨rfl, rfl, rfl⟩, taken.acknowledges_fin inOrder _⟩
  · rw [acceptData_replies s g mem, same.2]
    exact .inr ⟨same.1, taken.acknowledges _⟩

theorem handleFinWait2_replies (state : s.tcpState = .finWait2) :
    s.Replies g (s.handleFinWait2 g) := by
  intro m mem
  unfold handleFinWait2 at mem ⊢
  split_ifs at mem ⊢ with rst
  · simp at mem
  have taken := s.finWait2_taken g state (by simpa using rst)
  dsimp only at mem ⊢
  split_ifs at mem ⊢ with inOrder
  · rcases mem_append.1 mem with mem | mem
    · rw [acceptData_replies s g mem]
      exact .inr ⟨finish_from ⟨rfl, rfl, rfl⟩, taken.acknowledges _⟩
    · rw [mem_singleton.1 mem]
      exact .inr ⟨finish_from ⟨rfl, rfl, rfl⟩, taken.acknowledges_fin inOrder _⟩
  · rw [acceptData_replies s g mem]
    exact .inr ⟨⟨rfl, rfl, rfl⟩, taken.acknowledges _⟩

theorem handleLastAck_replies : s.Replies g (s.handleLastAck g) := by
  intro m mem
  unfold handleLastAck at mem
  split_ifs at mem <;> simp at mem

theorem acceptData_empty (mem : m ∈ (s.acceptData g).2) : m.payload = [] := by
  rw [s.acceptData_replies g mem]
  rfl

theorem answers_empty {r : Sock} (mem : m ∈ (s.acceptData g).2 ++ [r.emitAck]) :
    m.payload = [] := by
  rcases mem_append.1 mem with mem | mem
  · exact s.acceptData_empty g mem
  · rw [mem_singleton.1 mem]
    rfl

theorem handleSynSent_empty (mem : m ∈ (s.handleSynSent g).2) : m.payload = [] := by
  unfold handleSynSent at mem
  split_ifs at mem <;> simp at mem <;> simp [mem, emitAck, segment]

theorem handleEstablished_empty (mem : m ∈ (s.handleEstablished g).2) : m.payload = [] := by
  unfold handleEstablished at mem
  split at mem
  · simp at mem
  dsimp only at mem
  split at mem
  · exact answers_empty _ g mem
  · exact acceptData_empty _ g mem

theorem handleFinWait1_empty (mem : m ∈ (s.handleFinWait1 g).2) : m.payload = [] := by
  rw [handleFinWait1_eq] at mem
  split_ifs at mem
  · simp at mem
  · exact answers_empty _ g mem
  · exact acceptData_empty _ g mem

theorem handleFinWait2_empty (mem : m ∈ (s.handleFinWait2 g).2) : m.payload = [] := by
  unfold handleFinWait2 at mem
  split at mem
  · simp at mem
  dsimp only at mem
  split at mem
  · exact answers_empty _ g mem
  · exact acceptData_empty _ g mem

theorem handleLastAck_empty (mem : m ∈ (s.handleLastAck g).2) : m.payload = [] := by
  unfold handleLastAck at mem
  split_ifs at mem <;> simp at mem

end Sock

theorem Sock.tick_sent (s : Sock) (now : Nat) (mem : m ∈ (s.tick now).2) :
    m.flags.rst = true ∨ m.From (s.tick now).1 ∧ s.used ∧ s.type = .stream ∧
      s.retxBuf ≠ [] ∧ m.From s ∧ m.ack = s.rcvNxt := by
  unfold Sock.tick at mem ⊢
  split_ifs at mem ⊢ with unused other idle closed done early tried <;> try simp at mem
  · rw [mem]
    exact .inl rfl
  · rw [mem]
    exact .inr ⟨⟨rfl, rfl, rfl⟩, by simpa using unused, by simpa using other, idle, ⟨rfl, rfl, rfl⟩, rfl⟩

def Sends (t : Table) (c : Call) (t' : Table) : Prop :=
  ∃ out, t'.sent = t.sent ++ out ∧ ∀ m ∈ out, Answers t c t' m

def Call.Carries : Call → Prop
  | .send .. | .tick _ => True
  | _ => False

def Speaks (t : Table) (c : Call) (t' : Table) : Prop :=
  ∃ out, t'.sent = t.sent ++ out ∧ ∀ m ∈ out, Answers t c t' m ∧ (m.payload = [] ∨ c.Carries)

theorem Speaks.nothing {t t' : Table} {c : Call} (same : t'.sent = t.sent) : Speaks t c t' :=
  ⟨[], by simp [same], nofun⟩

theorem Speaks.one {t t' : Table} {c : Call} (sent : t'.sent = t.sent ++ [m])
    (empty : m.payload = []) (answers : Answers t c t' m) : Speaks t c t' :=
  ⟨[m], sent, fun _ mem => mem_singleton.1 mem ▸ ⟨answers, .inl empty⟩⟩

namespace Table
variable (t : Table)

theorem put_speaks {c : Call} {i : Sd} {g : Segment} {now : Nat} {d : Sock × List Sent}
    (call : c = .segment g now) (found : t.lookup g = some i)
    (connection : (t.socks i).tcpState ≠ .listen) (replies : (t.socks i).Replies g d)
    (empty : ∀ m ∈ d.2, m.payload = []) : Speaks t c (t.put i d) := by
  refine ⟨d.2, rfl, fun m mem => ⟨?_, .inl (empty m mem)⟩⟩
  rcases replies m mem with rst | ⟨mine, ack⟩
  · exact .inr (.inl rst)
  have here : (t.put i d).socks i = d.1 := by simp [put]
  rw [← here] at mine ack
  exact .inr (.inr ⟨i, mine, .hears g now call found connection ack⟩)

theorem handleListen_speaks (i : Sd) (g : Segment) (now : Nat) :
    Speaks t (.segment g now) (t.handleListen i g now) := by
  unfold handleListen
  split
  · exact .nothing rfl
  split
  · exact .nothing rfl
  split
  · exact .nothing rfl
  split
  · exact .nothing rfl
  rename_i k free
  refine .one rfl rfl (.inr (.inr ⟨k, ?_, .spawned g now i rfl (t.freeSlot_some free) ?_ ?_⟩))
  · constructor <;> simp [Sock.segment]
  · simp [Sock.spawned]
  · simp [Sock.segment, Sock.child]

theorem enlist_sent (i : Sd) : (t.enlist i).sent = t.sent := by
  unfold enlist
  split
  · rfl
  · dsimp only
    split <;> rfl

theorem handleSegment_speaks (g : Segment) (now : Nat) :
    Speaks t (.segment g now) (t.handleSegment g now) := by
  unfold handleSegment
  cases found : t.lookup g with
  | none =>
    dsimp only
    split
    · exact .nothing rfl
    · exact .one rfl rfl (.inr (.inl rfl))
  | some i =>
    dsimp only
    cases state : (t.socks i).tcpState with
    | listen => exact t.handleListen_speaks i g now
    | synRcvd =>
      refine .nothing ?_
      dsimp only
      rw [handleSynRcvd]
      split
      · rfl
      split
      · exact enlist_sent ..
      · rfl
    | closeWait =>
      refine .nothing ?_
      dsimp only
      split <;> rfl
    | closed | timeWait => exact .nothing rfl
    | synSent =>
      exact t.put_speaks rfl found (by simp [state]) (Sock.handleSynSent_replies _ g state)
        fun m => Sock.handleSynSent_empty _ g
    | established =>
      exact t.put_speaks rfl found (by simp [state]) (Sock.handleEstablished_replies _ g state)
        fun m => Sock.handleEstablished_empty _ g
    | finWait1 =>
      exact t.put_speaks rfl found (by simp [state]) (Sock.handleFinWait1_replies _ g state)
        fun m => Sock.handleFinWait1_empty _ g
    | finWait2 =>
      exact t.put_speaks rfl found (by simp [state]) (Sock.handleFinWait2_replies _ g state)
        fun m => Sock.handleFinWait2_empty _ g
    | lastAck | closing =>
      exact t.put_speaks rfl found (by simp [state]) (Sock.handleLastAck_replies _ g)
        fun m => Sock.handleLastAck_empty _ g

theorem bind_sent (sd : Sd) (ip : Ip) (port : Port) : (t.bind sd ip port).2.sent = t.sent := by
  unfold bind
  dsimp only
  split_ifs <;> try rfl
  split <;> rfl

theorem autoBind_sent (sd : Sd) : (t.autoBind sd).2.sent = t.sent := by
  unfold autoBind
  split
  · exact t.bind_sent sd 0 0
  · rfl

theorem connect_speaks (sd : Sd) (ip : Ip) (port : Port) (now : Nat) (delivered : Bool) :
    Speaks t (.connect sd ip port now delivered) (t.connect sd ip port now delivered).2 := by
  unfold connect
  dsimp only
  split
  · exact .nothing rfl
  split
  · split
    · exact .nothing rfl
    split <;> exact .nothing (t.autoBind_sent sd)
  · exact .nothing rfl
  split_ifs <;> try exact .nothing rfl
  · exact .nothing (t.autoBind_sent sd)
  all_goals exact .one (congrArg (· ++ [_]) (t.autoBind_sent sd)) rfl (.inl rfl)

theorem sendLoop_sent (sd : Sd) (now : Nat) (chunks : List (List Byte)) (t : Table)
    (delivered : List Bool) (sent : Nat) :
    ∃ out, (sendLoop sd now t chunks delivered sent).2.sent = t.sent ++ out ∧
      ∀ m ∈ out, m.From (t.socks sd) ∧ m.ack = (t.socks sd).rcvNxt := by
  induction chunks generalizing t delivered sent with
  | nil => exact ⟨[], by simp [sendLoop], nofun⟩
  | cons chunk _ ih =>
    rw [sendLoop_cons]
    split
    · refine ⟨[_], rfl, fun m mem => ?_⟩
      rw [mem_singleton.1 mem]
      exact ⟨⟨rfl, rfl, rfl⟩, rfl⟩
    obtain ⟨out, log, all⟩ := ih (t.stashed sd now chunk) delivered.tail (sent + chunk.length)
    refine ⟨_ :: out, log.trans (by simp [stashed]; rfl), fun m mem => ?_⟩
    rcases mem_cons.1 mem with rfl | mem
    · exact ⟨⟨rfl, rfl, rfl⟩, rfl⟩
    obtain ⟨mine, ack⟩ := all m mem
    simp only [stashed, edit_socks, emit_socks, Function.update_self] at mine ack
    exact ⟨{ mine with }, ack⟩

theorem send_speaks (sd : Sd) (buf : List Byte) (now : Nat) (delivered : List Bool) :
    Speaks t (.send sd buf now delivered) (t.send sd buf now delivered).2 := by
  unfold send
  dsimp only
  split
  · exact .nothing rfl
  rename_i used
  split
  · split
    · exact .nothing rfl
    split
    · exact .nothing (t.autoBind_sent sd)
    split <;> exact .nothing (t.autoBind_sent sd)
  · exact .nothing rfl
  rename_i stream
  split
  · exact .nothing rfl
  rename_i state
  have state : (t.socks sd).tcpState = .established ∨ (t.socks sd).tcpState = .closeWait := by
    tauto
  obtain ⟨out, log, all⟩ := sendLoop_sent sd now (buf.toChunks 1400) t delivered 0
  refine ⟨out, log, fun m mem => ⟨.inr (.inr ⟨sd, ?_, ?_⟩), .inr trivial⟩⟩
  · obtain ⟨mine, _⟩ := all m mem
    rcases sendLoop_cases sd now (buf.toChunks 1400) t delivered 0 with same | ⟨_, _, _, after⟩
    · rwa [same]
    · rw [after, edit_socks, Function.update_self]
      exact { mine with }
  · exact .calls (.inl ⟨buf, now, delivered, rfl⟩) (by simpa using used) stream state (all m mem).2

theorem close_speaks (sd : Sd) : Speaks t (.close sd) (t.close sd).2 := by
  unfold close
  dsimp only
  split
  · exact .nothing rfl
  rename_i used
  have used : (t.socks sd).used := by simpa using used
  split
  next stream =>
    rw [closeTcp, if_neg (by simp [used]), if_neg (by simp [stream])]
    split
    next state =>
      refine .one rfl rfl (.inr (.inr ⟨sd, ?_, .calls (.inr rfl) used stream (.inl state) rfl⟩))
      constructor <;> simp [Sock.emitFinAck, Sock.segment]
    next state =>
      refine .one rfl rfl (.inr (.inr ⟨sd, ?_, .calls (.inr rfl) used stream (.inr state) rfl⟩))
      constructor <;> simp [Sock.emitFinAck, Sock.segment]
    all_goals exact .nothing rfl
  · exact .nothing rfl

theorem tick_speaks (now : Nat) : Speaks t (.tick now) (t.tick now) := by
  have fold : ∀ (l : List Sd) (t : Table), l.Nodup →
      ∃ out, (l.foldl (fun t i => t.put i ((t.socks i).tick now)) t).sent = t.sent ++ out ∧
        ∀ m ∈ out, ∃ i ∈ l, m ∈ ((t.socks i).tick now).2 := by
    intro l
    induction l with
    | nil => exact fun t _ => ⟨[], by simp, nofun⟩
    | cons j l ih =>
      intro t nodup
      rw [nodup_cons] at nodup
      obtain ⟨out, log, all⟩ := ih (t.put j ((t.socks j).tick now)) nodup.2
      refine ⟨((t.socks j).tick now).2 ++ out, ?_, fun m mem => ?_⟩
      · rw [foldl_cons, log, ← append_assoc]
        rfl
      rcases mem_append.1 mem with mem | mem
      · exact ⟨j, by simp, mem⟩
      obtain ⟨i, later, sent⟩ := all m mem
      have other : i ≠ j := by
        rintro rfl
        exact nodup.1 later
      rw [put_socks, Function.update_of_ne other] at sent
      exact ⟨i, by simp [later], sent⟩
  obtain ⟨out, log, all⟩ := fold (finRange 8) t (nodup_finRange 8)
  refine ⟨out, log, fun m mem => ⟨?_, .inr trivial⟩⟩
  obtain ⟨i, _, sent⟩ := all m mem
  rcases Sock.tick_sent _ now sent with rst | ⟨mine, used, stream, pending, peer, ack⟩
  · exact .inr (.inl rst)
  · rw [← t.tick_socks] at mine
    exact .inr (.inr ⟨i, mine, .repeats now rfl used stream pending peer ack⟩)

theorem recv_sent (sd : Sd) (len : Nat) (interrupted : Bool) :
    (t.recv sd len interrupted).2.2.sent = t.sent := by
  have from_queue : (t.recvfrom sd len interrupted).2.2.sent = t.sent := by
    unfold recvfrom
    dsimp only
    split_ifs <;> try rfl
    split <;> rfl
  unfold recv
  dsimp only
  split
  · rfl
  split
  · split <;> exact from_queue
  · rfl
  · split_ifs <;> rfl

theorem call_speaks (c : Call) : Speaks t c (t.call c).2 := by
  cases c with
  | create type =>
    refine .nothing ?_
    cases free : t.freeSlot <;> cases type <;> simp [call, create, createRaw, free]
  | bind sd ip port => exact .nothing (t.bind_sent sd ip port)
  | listen sd backlog =>
    refine .nothing ?_
    simp only [call, listen]
    split_ifs <;> rfl
  | connect sd ip port now delivered => exact t.connect_speaks sd ip port now delivered
  | accept sd interrupted =>
    refine .nothing ?_
    simp only [call, accept]
    split_ifs <;> try rfl
    split <;> rfl
  | recv sd len interrupted => exact .nothing (t.recv_sent sd len interrupted)
  | send sd buf now delivered => exact t.send_speaks sd buf now delivered
  | close sd => exact t.close_speaks sd
  | segment g now => exact t.handleSegment_speaks g now
  | datagram =>
    refine .nothing ?_
    simp only [call, deliverUdp]
    split
    · rfl
    · split <;> rfl
  | tick now => exact t.tick_speaks now

theorem call_sends (c : Call) : Sends t c (t.call c).2 := by
  obtain ⟨out, log, all⟩ := t.call_speaks c
  exact ⟨out, log, fun m mem => (all m mem).1⟩

end Table

end Osnos.Net
