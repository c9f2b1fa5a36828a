import Osnos.Base.Nest
import Osnos.Net.Statement

/-! `timer_handle` and `rtl8139_irq_handle`, step by step: every `cli` and `sti` on the way
down to `arp_lookup`, and what is done to the sockets in between. -/
namespace Osnos.Irq
open Net Table Sock

inductive Line
  | timer | nic
  deriving DecidableEq, Repr

instance : Fintype Line where
  elems := {.timer, .nic}
  complete l := by cases l <;> decide

def Line.number : Line → Nat
  | timer => 0
  | nic => 11

instance : LinearOrder Line :=
  LinearOrder.lift' Line.number fun l m same => by cases l <;> cases m <;> first | rfl | cases same

inductive Activity
  | tick | segment
  deriving DecidableEq, Repr

abbrev Op := Nest.Op Table Activity
abbrev Handler := Nest.Handler Table Activity

def arpLookup (k : Handler) : Handler :=
  .step .cli fun _ => .step .sti fun _ => k

/-- `arp_resolve`: after a miss, so many more lookups until the reply or the deadline. -/
def arpResolve : Nat → Handler → Handler
  | 0, k => arpLookup k
  | polls + 1, k => arpLookup (arpResolve polls k)

def tcpSend (m : Table → Sent) (polls : Nat) (k : Handler) : Handler :=
  .step (.work fun t => t.emit [m t]) fun _ => arpResolve polls k

def update (i : Sd) (f : Sock → Sock) (k : Handler) : Handler :=
  .step (.work fun t => t.edit i f) fun _ => k

def guarded (i : Sd) (f : Sock → Sock) (k : Handler) : Handler :=
  .step .cli fun _ => update i f (.step .sti fun _ => k)

def read (k : Table → Handler) : Handler := .step (.work id) k

inductive Due
  | idle | drop | giveUp | resend
  deriving DecidableEq, Repr

def due (s : Sock) (now : Nat) : Due :=
  if !s.used then .idle
  else if s.type ≠ .stream then .idle
  else if s.retxBuf = [] then .idle
  else if s.tcpState = .closed then .drop
  else if (s.sndUna - (s.retxSeq + BitVec.ofNat 32 s.retxBuf.length)).toInt ≥ 0 then .drop
  else if (BitVec.ofNat 64 now - BitVec.ofNat 64 s.retxSentMs).toNat < 500 then .idle
  else if s.retxCount ≥ 5 then .giveUp
  else .resend

def tickLoop (now : Nat) (polls : Sd → Nat) (k : Handler) : List Sd → Handler
  | [] => k
  | i :: rest =>
    read fun t =>
    match due (t.socks i) now with
    | .idle => tickLoop now polls k rest
    | .drop => update i (fun s => { s with retxBuf := [] }) (tickLoop now polls k rest)
    | .giveUp =>
      tcpSend (fun t => (t.socks i).segment (t.socks i).sndNxt { rst := true, ack := true } 0 [])
        (polls i) (update i (fun s => { s with retxBuf := [] }.finish) (tickLoop now polls k rest))
    | .resend =>
      tcpSend (fun t => (t.socks i).segment (t.socks i).retxSeq { ack := true, psh := true }
        (t.socks i).advertisedWindow (t.socks i).retxBuf) (polls i)
        (update i (fun s => { s with retxSentMs := now, retxCount := s.retxCount + 1 })
          (tickLoop now polls k rest))

def sockTick (now : Nat) (polls : Sd → Nat) (k : Handler) : Handler :=
  .step (.enter .tick) fun _ => tickLoop now polls (.step .leave fun _ => k) (List.finRange 8)

section
variable (i : Sd) (polls : Nat) (k : Handler)

def finCode (state : TcpState) : Handler :=
  tcpSend (fun t => (t.socks i).emitFinAck) polls <| update i (fun s => s.advance 1) <|
    update i (fun s => s.turn state) <| update i (fun s => s.mark true) k

def closeCode : Handler :=
  read fun t =>
  if (t.socks i).type = .stream then
    match (t.socks i).tcpState with
    | .established => finCode i polls k .finWait1
    | .closeWait => finCode i polls k .lastAck
    | .listen | .closed => guarded i (fun s => { s with used := false }) k
    | _ => update i (fun s => s.mark true) k
  else guarded i (fun s => { s with used := false, localPort := 0, rx := [] }) k

end

/-- The sockets that `proc_exit_current_user` closes, and then the stack is given up. -/
def exitCode : List (Sd × Nat) → Handler
  | [] => .ret ()
  | (i, polls) :: rest => closeCode i polls (exitCode rest)

/-- `timer_handle`. The last argument has the sockets of a user task that is found with
`kill_pending`; otherwise nothing that follows `sock_tick` touches a socket. -/
def timerHandle (now : Nat) (polls : Sd → Nat) (closes : List (Sd × Nat)) : Handler :=
  .step .eoi fun _ => sockTick now polls (exitCode closes)

section
variable (g : Segment) (now polls : Nat) (i : Sd) (k : Handler)

def dataCode : Handler :=
  read fun t =>
  if g.payload.length > 0 ∧ g.seq = (t.socks i).rcvNxt then
    update i (fun s => (s.acceptData g).1) (tcpSend (fun t => (t.socks i).emitAck) polls k)
  else k

def lastFinCode : Handler :=
  read fun t =>
  if (t.socks i).finInOrder g then
    update i Sock.takeFin (tcpSend (fun t => (t.socks i).emitAck) polls (update i Sock.finish k))
  else k

def listenCode (t : Table) : Handler :=
  if g.flags.rst then k
  else if !g.flags.syn then k
  else if (t.socks i).acceptQ.count ≥ (t.socks i).backlog then k
  else
    match t.freeSlot with
    | none => k
    | some c =>
      update c (fun s => s.child c i g now)
        (tcpSend (fun t => (t.socks c).segment (t.socks c).sndNxt { syn := true, ack := true }
          (t.socks c).advertisedWindow []) polls (update c (fun s => s.advance 1) k))

def synSentCode (s : Sock) : Handler :=
  if g.flags.rst then
    guarded i (fun s => { s with tcpState := .closed, remoteIp := 0, remotePort := 0 }) k
  else if g.flags.syn ∧ g.flags.ack then
    if g.ack ≠ s.sndNxt then
      tcpSend (fun _ => { dstIp := g.srcIp, dstPort := g.srcPort, srcPort := g.dstPort, seq := g.ack
                          ack := 0, flags := { rst := true }, window := 0, payload := [] })
        polls (guarded i (fun s => { s with tcpState := .closed }) k)
    else
      guarded i (fun s => { s with sndUna := g.ack, rcvNxt := g.seq + 1, tcpState := .established })
        (tcpSend (fun t => (t.socks i).emitAck) polls k)
  else if g.flags.syn then
    guarded i (fun s => { s with rcvNxt := g.seq + 1, tcpState := .synRcvd })
      (tcpSend (fun t => (t.socks i).segment (t.socks i).sndUna { syn := true, ack := true }
        (t.socks i).advertisedWindow []) polls k)
  else k

def synRcvdCode (s : Sock) : Handler :=
  if g.flags.rst then guarded i Sock.reset k
  else if g.flags.ack ∧ g.ack = s.sndNxt then
    .step (.work fun t => (t.edit i fun s =>
      { s with sndUna := g.ack, tcpState := .established }).enlist i) fun _ => k
  else k

def establishedCode : Handler :=
  if g.flags.rst then guarded i Sock.reset k
  else
    update i (fun s => s.acceptAck g) <| dataCode g polls i <|
    read fun t =>
    if (t.socks i).finInOrder g then
      update i (fun s => { s.takeFin with tcpState := .closeWait })
        (tcpSend (fun t => (t.socks i).emitAck) polls k)
    else k

def finWait1Code : Handler :=
  if g.flags.rst then guarded i Sock.reset k
  else
    dataCode g polls i <|
    update i (fun s => if g.flags.ack ∧ g.ack = s.sndNxt then
      { s with sndUna := g.ack, tcpState := .finWait2 } else s) <|
    lastFinCode g polls i k

def finWait2Code : Handler :=
  if g.flags.rst then guarded i Sock.reset k
  else dataCode g polls i (lastFinCode g polls i k)

def lastAckCode (s : Sock) : Handler :=
  if g.flags.rst then guarded i Sock.reset k
  else if g.flags.ack ∧ g.ack = s.sndNxt then update i Sock.finish k
  else k

/-- `sock_tcp_handle_segment` without its entry. -/
def segmentBody (t : Table) : Handler :=
  match t.lookup g with
  | none =>
    if g.flags.rst then k
    else tcpSend (fun _ => {
      dstIp := g.srcIp, dstPort := g.srcPort, srcPort := g.dstPort, seq := g.ack
      ack := g.seq + BitVec.ofNat 32 g.payload.length + (if g.flags.syn then 1 else 0) +
        (if g.flags.fin then 1 else 0)
      flags := { rst := true, ack := true }, window := 0, payload := [] }) polls k
  | some i =>
    match (t.socks i).tcpState with
    | .listen => listenCode g now polls i k t
    | .synSent => synSentCode g polls i k (t.socks i)
    | .synRcvd => synRcvdCode g i k (t.socks i)
    | .established => establishedCode g polls i k
    | .finWait1 => finWait1Code g polls i k
    | .finWait2 => finWait2Code g polls i k
    | .closeWait => if g.flags.rst then guarded i Sock.reset k else k
    | .lastAck | .closing => lastAckCode g i k (t.socks i)
    | .closed | .timeWait => k

def segmentCode : Handler :=
  .step (.enter .segment) fun _ => read fun t => segmentBody g now polls (.step .leave fun _ => k) t

end

inductive Payload
  | tcp (g : Segment) (now polls : Nat)
  | udp (d : Dgram) (port : Port)
  /-- An echo request is answered through `ip_send`. -/
  | echo (polls : Nat)
  | arp
  /-- Another protocol, or a packet that its protocol drops. -/
  | other

/-- A frame, and the number of raw sockets its packet is copied to. -/
structure Packet where
  payload : Payload
  mirrors : Nat

def udpCode (d : Dgram) (port : Port) (k : Handler) : Handler :=
  read fun t =>
  let wanted : Sd → Bool := fun i =>
    (t.socks i).used && (t.socks i).type == .dgram && (t.socks i).localPort == port
  match (List.finRange 8).find? wanted with
  | none => k
  | some _ => .step .cli fun _ => .step (.work fun t => t.deliverUdp d port) fun _ =>
    .step .sti fun _ => k

def sections : Nat → Handler → Handler
  | 0, k => k
  | n + 1, k => arpLookup (sections n k)

def packetCode (p : Packet) (k : Handler) : Handler :=
  match p.payload with
  | .tcp g now polls => segmentCode g now polls (sections p.mirrors k)
  | .udp d port => udpCode d port (sections p.mirrors k)
  | .echo polls => arpResolve polls (sections p.mirrors k)
  -- `cache_put`; the reply needs no lookup
  | .arp => arpLookup k
  | .other => sections p.mirrors k

/-- `rtl8139_irq_handle`: `drain_rx`, and only then the end of the interrupt. -/
def nicHandle (packets : List Packet) : Handler :=
  packets.foldr packetCode (.step .eoi fun _ => .ret ())

def result (h : Handler) (t : Table) : Table := (Code.run Nest.Op.mem id h t).2

section
variable (k : Handler) (t : Table)

@[simp] theorem arpResolve_result (polls : Nat) : result (arpResolve polls k) t = result k t := by
  induction polls with
  | zero => rfl
  | succ _ ih => exact ih

@[simp] theorem tcpSend_result (m : Table → Sent) (polls : Nat) :
    result (tcpSend m polls k) t = result k (t.emit [m t]) :=
  arpResolve_result k (t.emit [m t]) polls

@[simp] theorem update_result (i : Sd) (f : Sock → Sock) :
    result (update i f k) t = result k (t.edit i f) := rfl

@[simp] theorem guarded_result (i : Sd) (f : Sock → Sock) :
    result (guarded i f k) t = result k (t.edit i f) := rfl

@[simp] theorem read_result (k : Table → Handler) : result (read k) t = result (k t) t := rfl

theorem emit_nil : t.emit [] = t := by simp [emit]

theorem put_update (i : Sd) (f : Sock → Sock) (out : List Sent) :
    t.put i (f (t.socks i), out) = (t.emit out).edit i f := rfl

theorem put_same (i : Sd) : t.put i (t.socks i, []) = t := by
  rw [← id_eq (t.socks i), put_update, emit_nil, edit_id]

theorem due_tick (s : Sock) (now : Nat) : s.tick now = match due s now with
      | .idle => (s, [])
      | .drop => ({ s with retxBuf := [] }, [])
      | .giveUp =>
        ({ s with retxBuf := [] }.finish, [s.segment s.sndNxt { rst := true, ack := true } 0 []])
      | .resend =>
        ({ s with retxSentMs := now, retxCount := s.retxCount + 1 },
          [s.segment s.retxSeq { ack := true, psh := true } s.advertisedWindow s.retxBuf]) := by
  unfold Sock.tick due
  split_ifs <;> rfl

theorem tickLoop_result (now : Nat) (polls : Sd → Nat) (slots : List Sd) :
    result (tickLoop now polls k slots) t =
      result k (slots.foldl (fun t i => t.put i ((t.socks i).tick now)) t) := by
  induction slots generalizing t with
  | nil => rfl
  | cons i _ ih =>
    rw [tickLoop, read_result, List.foldl_cons, due_tick]
    cases due (t.socks i) now with
    | idle => rw [put_same]; exact ih t
    | drop =>
      rw [update_result, ih, put_update t i fun s => { s with retxBuf := [] }, emit_nil]
    | giveUp | resend =>
      rw [tcpSend_result, update_result, ih]
      rfl

theorem sockTick_result (now : Nat) (polls : Sd → Nat) :
    result (sockTick now polls k) t = result k (t.tick now) :=
  tickLoop_result (.step .leave fun _ => k) t now polls (List.finRange 8)

section
variable (g : Segment) (polls : Nat) (i : Sd)

theorem update_tcpSend_result (f : Sock → Sock) (m : Sock → Sent) :
    result (update i f (tcpSend (fun t => m (t.socks i)) polls k)) t =
      result k (t.put i (f (t.socks i), [m (f (t.socks i))])) := by
  simp [put, edit]

theorem guarded_tcpSend_result (f : Sock → Sock) (m : Sock → Sent) :
    result (guarded i f (tcpSend (fun t => m (t.socks i)) polls k)) t =
      result k (t.put i (f (t.socks i), [m (f (t.socks i))])) :=
  update_tcpSend_result k t polls i f m

theorem put_put (d d' : Sock × List Sent) : (t.put i d).put i d' = t.put i (d'.1, d.2 ++ d'.2) := by
  simp [put, edit, emit]

theorem edit_put (f : Sock → Sock) (d : Sock × List Sent) : (t.edit i f).put i d = t.put i d := by
  simp [put, edit]

theorem put_edit (f : Sock → Sock) (d : Sock × List Sent) :
    (t.put i d).edit i f = t.put i (f d.1, d.2) := by
  simp [put, edit, emit]

theorem put_socks_self (d : Sock × List Sent) : (t.put i d).socks i = d.1 := by
  simp [put]

theorem dataCode_result :
    result (dataCode g polls i k) t = result k (t.put i ((t.socks i).acceptData g)) := by
  rw [dataCode, read_result]
  by_cases inOrder : g.payload.length > 0 ∧ g.seq = (t.socks i).rcvNxt
  · have data : (t.socks i).acceptData g =
        (((t.socks i).acceptData g).1, [((t.socks i).acceptData g).1.emitAck]) := by
      unfold acceptData
      rw [if_pos inOrder]
    rw [if_pos inOrder, update_tcpSend_result, ← data]
  · have data : (t.socks i).acceptData g = (t.socks i, []) := by
      unfold acceptData
      rw [if_neg inOrder]
    rw [if_neg inOrder, data, put_same]

theorem lastFinCode_result : result (lastFinCode g polls i k) t = result k
      (if (t.socks i).finInOrder g then
        t.put i ((t.socks i).takeFin.finish, [(t.socks i).takeFin.emitAck]) else t) := by
  rw [lastFinCode, read_result]
  split
  · rw [update_tcpSend_result (update i finish k) t polls i takeFin emitAck,
      update_result, put, put, edit_emit, edit_emit, edit_edit]
  · rfl

theorem listenCode_result (now : Nat) :
    result (listenCode g now polls i k t) t = result k (t.handleListen i g now) := by
  unfold listenCode handleListen
  split
  · rfl
  split
  · rfl
  split
  · rfl
  cases t.freeSlot with
  | none => rfl
  | some =>
    rw [update_result, tcpSend_result, update_result]
    rfl

theorem synSentCode_result : result (synSentCode g polls i k (t.socks i)) t =
      result k (t.put i ((t.socks i).handleSynSent g)) := by
  unfold synSentCode handleSynSent
  split
  · rw [guarded_result, put_update t i fun s =>
      { s with tcpState := .closed, remoteIp := 0, remotePort := 0 }, emit_nil]
  split
  · split
    · rw [tcpSend_result, guarded_result]
      rfl
    · rw [guarded_tcpSend_result k t polls i _ emitAck]
  split
  · exact guarded_tcpSend_result k t polls i _
      fun s => s.segment s.sndUna { syn := true, ack := true } s.advertisedWindow []
  · rw [put_same]

theorem synRcvdCode_result :
    result (synRcvdCode g i k (t.socks i)) t = result k (t.handleSynRcvd i g) := by
  unfold synRcvdCode handleSynRcvd
  dsimp only
  split
  · rfl
  split
  · rfl
  · rfl

theorem establishedCode_result : result (establishedCode g polls i k) t =
      result k (t.put i ((t.socks i).handleEstablished g)) := by
  unfold establishedCode handleEstablished
  split
  · rw [guarded_result, put_update, emit_nil]
  rw [update_result, dataCode_result, read_result, edit_put, put_socks_self, edit_socks,
    Function.update_self]
  dsimp only
  split
  · rw [update_tcpSend_result k _ polls i _ emitAck, put_put, put_socks_self]
  · rfl

theorem finWait1Code_result :
    result (finWait1Code g polls i k) t = result k (t.put i ((t.socks i).handleFinWait1 g)) := by
  unfold finWait1Code handleFinWait1
  split
  · rw [guarded_result, put_update, emit_nil]
  rw [dataCode_result, update_result, lastFinCode_result, put_edit, put_socks_self]
  dsimp only
  generalize (if g.flags.ack ∧ g.ack = ((t.socks i).acceptData g).1.sndNxt then
    { ((t.socks i).acceptData g).1 with sndUna := g.ack, tcpState := .finWait2 }
    else ((t.socks i).acceptData g).1) = s
  split
  · rw [put_put]
  · rfl

theorem finWait2Code_result :
    result (finWait2Code g polls i k) t = result k (t.put i ((t.socks i).handleFinWait2 g)) := by
  unfold finWait2Code handleFinWait2
  split
  · rw [guarded_result, put_update, emit_nil]
  rw [dataCode_result, lastFinCode_result, put_socks_self]
  dsimp only
  split
  · rw [put_put]
  · rfl

theorem lastAckCode_result :
    result (lastAckCode g i k (t.socks i)) t = result k (t.put i ((t.socks i).handleLastAck g)) := by
  unfold lastAckCode handleLastAck
  split
  · rw [guarded_result, put_update, emit_nil]
  split
  · rw [update_result, put_update, emit_nil]
  · rw [put_same]

theorem segmentBody_result (now : Nat) :
    result (segmentBody g now polls k t) t = result k (t.handleSegment g now) := by
  unfold segmentBody handleSegment
  cases found : t.lookup g with
  | none =>
    dsimp only
    split
    · rfl
    · rw [tcpSend_result]
  | some i =>
    dsimp only
    cases state : (t.socks i).tcpState with
    | listen => exact listenCode_result k t g polls i now
    | synSent => exact synSentCode_result k t g polls i
    | synRcvd => exact synRcvdCode_result k t g i
    | established => exact establishedCode_result k t g polls i
    | finWait1 => exact finWait1Code_result k t g polls i
    | finWait2 => exact finWait2Code_result k t g polls i
    | closeWait =>
      dsimp only
      split
      · rfl
      · rfl
    | lastAck | closing => exact lastAckCode_result k t g i
    | closed | timeWait => rfl

end

end

def Handles : Line → Handler → Prop
  | .timer, h => ∃ now polls closes, h = timerHandle now polls closes
  | .nic, h => ∃ packets, h = nicHandle packets

end Osnos.Irq
