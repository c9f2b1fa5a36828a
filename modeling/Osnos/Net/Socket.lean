import Osnos.Base.Ring

/-! The socket table of `net/socket.c`: eight slots shared by stream, datagram and raw
sockets, the calls made on them, the segment handler and the retransmission timer. -/
namespace Osnos.Net

abbrev Ip := BitVec 32
abbrev Port := BitVec 16
abbrev Seq := BitVec 32
abbrev Byte := UInt8
abbrev Sd := Fin 8

inductive SockType
  | stream | dgram | raw
  deriving DecidableEq, Repr

inductive TcpState
  | closed | listen | synSent | synRcvd | established | finWait1 | finWait2 | closeWait
  | closing | lastAck | timeWait
  deriving DecidableEq, Repr

structure Dgram where
  srcIp : Ip
  srcPort : Port
  data : List Byte

structure Flags where
  fin : Bool := false
  syn : Bool := false
  rst : Bool := false
  psh : Bool := false
  ack : Bool := false
  deriving DecidableEq, Repr

structure Segment where
  srcIp : Ip
  srcPort : Port
  dstPort : Port
  seq : Seq
  ack : Seq
  flags : Flags
  payload : List Byte

structure Sent where
  dstIp : Ip
  dstPort : Port
  srcPort : Port
  seq : Seq
  ack : Seq
  flags : Flags
  window : Nat
  payload : List Byte

structure Sock where
  used : Bool
  type : SockType
  localIp : Ip
  localPort : Port
  /-- At most SOCK_RX_QUEUE_DEPTH datagrams. -/
  rx : List Dgram
  tcpState : TcpState
  remoteIp : Ip
  remotePort : Port
  sndNxt : Seq
  sndUna : Seq
  rcvNxt : Seq
  tcpRx : Ring Byte 32768
  zombie : Bool
  peerFin : Bool
  parentSd : Option Sd
  acceptQ : Ring Sd 4
  backlog : Nat
  /-- `retx_len` is its length. -/
  retxBuf : List Byte
  retxSeq : Seq
  retxSentMs : Nat
  retxCount : Nat

structure Table where
  socks : Sd → Sock
  ephemeralNext : Port
  /-- Every segment handed to `tcp_send`, in order. -/
  sent : List Sent

inductive Reply
  | error | again | ok (n : Nat)
  deriving DecidableEq, Repr

namespace Sock

def unused : Sock where
  used := false
  type := .stream
  localIp := 0
  localPort := 0
  rx := []
  tcpState := .closed
  remoteIp := 0
  remotePort := 0
  sndNxt := 0
  sndUna := 0
  rcvNxt := 0
  tcpRx := .empty 0 (by norm_num)
  zombie := false
  peerFin := false
  parentSd := none
  acceptQ := .empty 0 (by norm_num)
  backlog := 0
  retxBuf := []
  retxSeq := 0
  retxSentMs := 0
  retxCount := 0

def create (s : Sock) (type : SockType) : Sock :=
  { s with
    used := true
    type := type
    localIp := 0
    localPort := 0
    rx := []
    tcpState := .closed
    remoteIp := 0
    remotePort := 0
    sndNxt := 0
    sndUna := 0
    rcvNxt := 0
    tcpRx := s.tcpRx.clear
    zombie := false
    peerFin := false
    parentSd := none
    acceptQ := s.acceptQ.clear
    backlog := 0
    retxBuf := []
    retxSeq := 0
    retxSentMs := 0
    retxCount := 0 }

-- `sock_create_raw` resets the count of the accept queue only; nothing reads the
-- queue of a raw socket, and every other way to fill the slot clears it whole
def createRaw (s : Sock) : Sock :=
  { s with
    used := true
    type := .raw
    localIp := 0
    localPort := 0
    rx := []
    tcpState := .closed
    remoteIp := 0
    remotePort := 0
    parentSd := none
    acceptQ := s.acceptQ.clear
    zombie := false
    peerFin := false }

def advertisedWindow (s : Sock) : Nat := 32768 - s.tcpRx.count

def reset (s : Sock) : Sock :=
  let s :=
    if s.zombie then { s with used := false, zombie := false, parentSd := none }
    else if s.parentSd.isSome then { s with tcpState := .closed, peerFin := true }
    else if s.tcpState ≠ .closed then { s with tcpState := .listen }
    else s
  { s with
    remoteIp := 0
    remotePort := 0
    sndNxt := 0
    sndUna := 0
    rcvNxt := 0
    tcpRx := s.tcpRx.clear }

def child (s : Sock) (i parent : Sd) (g : Segment) (now : Nat) : Sock :=
  let isn : Seq := BitVec.ofNat 32 now * 0x9E3779B1 ^^^ BitVec.ofNat 32 i * 0x1234ABCD
  { s with
    used := true
    type := .stream
    localIp := 0
    localPort := g.dstPort
    rx := []
    tcpRx := s.tcpRx.clear
    zombie := false
    peerFin := false
    parentSd := some parent
    acceptQ := s.acceptQ.clear
    backlog := 0
    retxBuf := []
    retxSeq := 0
    retxSentMs := 0
    retxCount := 0
    remoteIp := g.srcIp
    remotePort := g.srcPort
    sndUna := isn
    sndNxt := isn
    rcvNxt := g.seq + 1
    tcpState := .synRcvd }

def finish (s : Sock) : Sock :=
  if s.zombie then { s with tcpState := .closed, used := false, zombie := false }
  else { s with tcpState := .closed }

def segment (s : Sock) (seq : Seq) (flags : Flags) (window : Nat) (payload : List Byte) : Sent where
  dstIp := s.remoteIp
  dstPort := s.remotePort
  srcPort := s.localPort
  seq := seq
  ack := s.rcvNxt
  flags := flags
  window := window
  payload := payload

def emitAck (s : Sock) : Sent := s.segment s.sndNxt { ack := true } s.advertisedWindow []

def emitFinAck (s : Sock) : Sent :=
  s.segment s.sndNxt { fin := true, ack := true } s.advertisedWindow []

def acceptData (s : Sock) (g : Segment) : Sock × List Sent :=
  if g.payload.length > 0 ∧ g.seq = s.rcvNxt then
    let got := (g.payload.take (32768 - s.tcpRx.count)).length
    let s := { s with tcpRx := s.tcpRx.enqueue g.payload, rcvNxt := s.rcvNxt + BitVec.ofNat 32 got }
    (s, [s.emitAck])
  else (s, [])

-- `seq + payload_len` is a `size_t`: it does not wrap at 32 bits
def finInOrder (s : Sock) (g : Segment) : Bool :=
  g.flags.fin && decide (g.seq.toNat + g.payload.length = s.rcvNxt.toNat)

def takeFin (s : Sock) : Sock := { s with rcvNxt := s.rcvNxt + 1, peerFin := true }

def handleSynSent (s : Sock) (g : Segment) : Sock × List Sent :=
  if g.flags.rst then ({ s with tcpState := .closed, remoteIp := 0, remotePort := 0 }, [])
  else if g.flags.syn ∧ g.flags.ack then
    if g.ack ≠ s.sndNxt then
      ({ s with tcpState := .closed },
        [{ dstIp := g.srcIp, dstPort := g.srcPort, srcPort := g.dstPort, seq := g.ack, ack := 0,
           flags := { rst := true }, window := 0, payload := [] }])
    else
      let s := { s with sndUna := g.ack, rcvNxt := g.seq + 1, tcpState := .established }
      (s, [s.emitAck])
  else if g.flags.syn then
    let s := { s with rcvNxt := g.seq + 1, tcpState := .synRcvd }
    (s, [s.segment s.sndUna { syn := true, ack := true } s.advertisedWindow []])
  else (s, [])

/-- An ACK in ESTABLISHED moves `snd_una` and may clear the retransmission buffer. -/
def acceptAck (s : Sock) (g : Segment) : Sock :=
  if g.flags.ack ∧ (g.ack - s.sndUna).toInt > 0 ∧ (g.ack - s.sndNxt).toInt ≤ 0 then
    let s := { s with sndUna := g.ack }
    if s.retxBuf.length > 0 ∧
        (g.ack - (s.retxSeq + BitVec.ofNat 32 s.retxBuf.length)).toInt ≥ 0 then
      { s with retxBuf := [], retxCount := 0 }
    else s
  else s

def handleEstablished (s : Sock) (g : Segment) : Sock × List Sent :=
  if g.flags.rst then (s.reset, []) else
  let d := (s.acceptAck g).acceptData g
  if d.1.finInOrder g then
    let s := { d.1.takeFin with tcpState := .closeWait }
    (s, d.2 ++ [s.emitAck])
  else d

def handleFinWait1 (s : Sock) (g : Segment) : Sock × List Sent :=
  if g.flags.rst then (s.reset, []) else
  let d := s.acceptData g
  let s :=
    if g.flags.ack ∧ g.ack = d.1.sndNxt then { d.1 with sndUna := g.ack, tcpState := .finWait2 }
    else d.1
  if s.finInOrder g then (s.takeFin.finish, d.2 ++ [s.takeFin.emitAck]) else (s, d.2)

def handleFinWait2 (s : Sock) (g : Segment) : Sock × List Sent :=
  if g.flags.rst then (s.reset, []) else
  let d := s.acceptData g
  if d.1.finInOrder g then (d.1.takeFin.finish, d.2 ++ [d.1.takeFin.emitAck]) else d

def handleLastAck (s : Sock) (g : Segment) : Sock × List Sent :=
  if g.flags.rst then (s.reset, [])
  else if g.flags.ack ∧ g.ack = s.sndNxt then (s.finish, [])
  else (s, [])

end Sock

namespace Table
variable (t : Table)

def edit (i : Sd) (f : Sock → Sock) : Table :=
  { t with socks := Function.update t.socks i (f (t.socks i)) }

def emit (out : List Sent) : Table := { t with sent := t.sent ++ out }
def freeSlot : Option Sd := (List.finRange 8).find? fun i => !(t.socks i).used

def create (type : SockType) : Reply × Table :=
  match t.freeSlot with
  | none => (.error, t)
  | some i => (.ok i, t.edit i fun s => s.create type)

def createRaw : Reply × Table :=
  match t.freeSlot with
  | none => (.error, t)
  | some i => (.ok i, t.edit i Sock.createRaw)

def portInUse (port : Port) : Bool :=
  (List.finRange 8).any fun i =>
    let s := t.socks i
    s.used && s.localPort == port &&
      !(s.type == .stream && s.tcpState != .listen && s.tcpState != .closed)

def ephemeral : Nat → Port → Option Port × Port
  | 0, next => (none, next)
  | tries + 1, p =>
    let next : Port := if (p + 1).toNat > 60000 then 40000 else p + 1
    if p.toNat < 40000 then ephemeral tries next
    else if !t.portInUse p then (some p, next)
    else ephemeral tries next

def bind (sd : Sd) (ip : Ip) (port : Port) : Reply × Table :=
  let s := t.socks sd
  if !s.used then (.error, t)
  else if s.localPort ≠ 0 then (.error, t)
  else if port = 0 then
    let e := t.ephemeral 1000 t.ephemeralNext
    let t := { t with ephemeralNext := e.2 }
    match e.1 with
    | none => (.error, t)
    | some p => (.ok 0, t.edit sd fun s => { s with localIp := ip, localPort := p })
  else if t.portInUse port then (.error, t)
  else (.ok 0, t.edit sd fun s => { s with localIp := ip, localPort := port })

def listen (sd : Sd) (backlog : Int) : Reply × Table :=
  let s := t.socks sd
  if !s.used then (.error, t)
  else if s.type ≠ .stream then (.error, t)
  else if s.localPort = 0 then (.error, t)
  else
    let backlog := if backlog < 1 then 1 else backlog
    let backlog := if backlog > 4 then 4 else backlog
    (.ok 0, t.edit sd fun s => { s with tcpState := .listen, backlog := backlog.toNat })

def autoBind (sd : Sd) : Reply × Table :=
  if (t.socks sd).localPort = 0 then t.bind sd 0 0 else (.ok 0, t)

/-- `sock_connect`; `delivered` is what `tcp_send` returned. -/
def connect (sd : Sd) (dstIp : Ip) (dstPort : Port) (now : Nat) (delivered : Bool) :
    Reply × Table :=
  let s := t.socks sd
  if !s.used then (.error, t) else
  match s.type with
  | .dgram =>
    if dstIp = 0 ∨ dstPort = 0 then (.error, t) else
    let b := t.autoBind sd
    if b.1 ≠ .ok 0 then (.error, b.2)
    else (.ok 0, b.2.edit sd fun s => { s with remoteIp := dstIp, remotePort := dstPort })
  | .raw => (.error, t)
  | .stream =>
    if s.tcpState = .established then (.ok 0, t)
    else if s.tcpState = .synSent then (.again, t)
    else if s.tcpState ≠ .closed then (.error, t)
    else if s.remotePort ≠ 0 then (.error, t)
    else if dstIp = 0 ∨ dstPort = 0 then (.error, t)
    else
      let b := t.autoBind sd
      if b.1 ≠ .ok 0 then (.error, b.2) else
      let isn : Seq := BitVec.ofNat 32 now + BitVec.ofNat 32 sd * 1000
      let t := b.2.edit sd fun s =>
        { s with remoteIp := dstIp, remotePort := dstPort, sndNxt := isn, sndUna := isn
                 rcvNxt := 0, tcpState := .synSent }
      let s := t.socks sd
      let syn : Sent :=
        { s.segment s.sndNxt { syn := true } s.advertisedWindow [] with ack := 0 }
      if !delivered then
        (.error, (t.emit [syn]).edit sd fun s =>
          { s with tcpState := .closed, remoteIp := 0, remotePort := 0 })
      else (.again, (t.emit [syn]).edit sd fun s => { s with sndNxt := s.sndNxt + 1 })

/-- One poll of `sock_accept`; the reply is the child. -/
def accept (sd : Sd) (interrupted : Bool) : Reply × Table :=
  let s := t.socks sd
  if !s.used then (.error, t)
  else if s.type ≠ .stream then (.error, t)
  else if s.tcpState ≠ .listen then (.error, t)
  else if interrupted then (.error, t)
  else
    match s.acceptQ.pop with
    | none => (.again, t)
    | some p => (.ok p.1, t.edit sd fun s => { s with acceptQ := p.2 })

/-- One poll of `sock_recvfrom`: 0 where nothing is queued. -/
def recvfrom (sd : Sd) (len : Nat) (interrupted : Bool) : Reply × List Byte × Table :=
  let s := t.socks sd
  if !s.used then (.error, [], t)
  else if s.type ≠ .raw ∧ s.localPort = 0 then (.error, [], t)
  else if interrupted then (.error, [], t)
  else
    match s.rx with
    | [] => (.ok 0, [], t)
    | d :: rx => (.ok (d.data.take len).length, d.data.take len, t.edit sd fun s => { s with rx := rx })

/-- One poll of `sock_recv`; a timeout that has run out is `again`. -/
def recv (sd : Sd) (len : Nat) (interrupted : Bool) : Reply × List Byte × Table :=
  let s := t.socks sd
  if !s.used then (.error, [], t) else
  match s.type with
  | .dgram =>
    let r := t.recvfrom sd len interrupted
    if r.1 = .ok 0 then (.again, r.2) else r
  | .raw => (.error, [], t)
  | .stream =>
    if interrupted then (.error, [], t)
    else if s.tcpRx.count > 0 then
      let d := s.tcpRx.dequeue len
      (.ok d.1.length, d.1, t.edit sd fun s => { s with tcpRx := d.2 })
    else if s.peerFin ∨ s.tcpState = .closed then (.ok 0, [], t)
    else (.again, [], t)

/-- The loop of `sock_send`: one segment per chunk, the last one kept for
retransmission. `delivered` is what the next calls of `tcp_send` return. -/
def sendLoop (sd : Sd) (now : Nat) : Table → List (List Byte) → List Bool → Nat → Reply × Table
  | t, [], _, sent => (.ok sent, t)
  | t, chunk :: rest, delivered, sent =>
    let s := t.socks sd
    let t := t.emit [s.segment s.sndNxt { ack := true, psh := true } s.advertisedWindow chunk]
    if delivered.head? = some false then (if sent > 0 then .ok sent else .error, t)
    else
      let t := t.edit sd fun s =>
        { s with sndNxt := s.sndNxt + BitVec.ofNat 32 chunk.length, retxSeq := s.sndNxt
                 retxBuf := chunk, retxSentMs := now, retxCount := 0 }
      sendLoop sd now t rest delivered.tail (sent + chunk.length)

/-- `sock_send`; a datagram goes to `udp_send`, which changes no socket. -/
def send (sd : Sd) (buf : List Byte) (now : Nat) (delivered : List Bool) : Reply × Table :=
  let s := t.socks sd
  if !s.used then (.error, t) else
  match s.type with
  | .dgram =>
    if s.remoteIp = 0 ∨ s.remotePort = 0 then (.error, t) else
    let b := t.autoBind sd
    if b.1 ≠ .ok 0 then (.error, b.2)
    else if delivered.head? = some false then (.error, b.2)
    else (.ok buf.length, b.2)
  | .raw => (.error, t)
  | .stream =>
    if s.tcpState ≠ .established ∧ s.tcpState ≠ .closeWait then (.error, t)
    else sendLoop sd now t (buf.toChunks 1400) delivered 0

def closeTcp (sd : Sd) : Reply × Table :=
  let s := t.socks sd
  if !s.used then (.error, t)
  else if s.type ≠ .stream then (.error, t)
  else
    match s.tcpState with
    | .established => (.ok 0, (t.emit [s.emitFinAck]).edit sd fun s =>
        { s with sndNxt := s.sndNxt + 1, tcpState := .finWait1, zombie := true })
    | .closeWait => (.ok 0, (t.emit [s.emitFinAck]).edit sd fun s =>
        { s with sndNxt := s.sndNxt + 1, tcpState := .lastAck, zombie := true })
    | .listen | .closed => (.ok 0, t.edit sd fun s => { s with used := false })
    | _ => (.ok 0, t.edit sd fun s => { s with zombie := true })

def close (sd : Sd) : Reply × Table :=
  let s := t.socks sd
  if !s.used then (.error, t)
  else if s.type = .stream then t.closeTcp sd
  else (.ok 0, t.edit sd fun s => { s with used := false, localPort := 0, rx := [] })

def connected (g : Segment) (i : Sd) : Bool :=
  let s := t.socks i
  s.used && s.type == .stream && s.localPort == g.dstPort && s.tcpState != .listen &&
    s.tcpState != .closed && s.remoteIp == g.srcIp && s.remotePort == g.srcPort

def listening (g : Segment) (i : Sd) : Bool :=
  let s := t.socks i
  s.used && s.type == .stream && s.localPort == g.dstPort && s.tcpState == .listen

def lookup (g : Segment) : Option Sd :=
  ((List.finRange 8).find? (t.connected g)).or ((List.finRange 8).find? (t.listening g))

def handleListen (i : Sd) (g : Segment) (now : Nat) : Table :=
  if g.flags.rst then t
  else if !g.flags.syn then t
  else if (t.socks i).acceptQ.count ≥ (t.socks i).backlog then t
  else
    match t.freeSlot with
    | none => t
    | some c =>
      let t := t.edit c fun s => s.child c i g now
      let s := t.socks c
      (t.emit [s.segment s.sndNxt { syn := true, ack := true } s.advertisedWindow []]).edit c
        fun s => { s with sndNxt := s.sndNxt + 1 }

def enlist (i : Sd) : Table :=
  match (t.socks i).parentSd with
  | none => t
  | some p =>
    let s := t.socks p
    if s.used ∧ s.tcpState = .listen ∧ s.acceptQ.count < 4 then
      t.edit p fun s => { s with acceptQ := s.acceptQ.push i }
    else t

def handleSynRcvd (i : Sd) (g : Segment) : Table :=
  let s := t.socks i
  if g.flags.rst then t.edit i Sock.reset
  else if g.flags.ack ∧ g.ack = s.sndNxt then
    (t.edit i fun s => { s with sndUna := g.ack, tcpState := .established }).enlist i
  else t

def put (i : Sd) (d : Sock × List Sent) : Table := (t.edit i fun _ => d.1).emit d.2

def handleSegment (g : Segment) (now : Nat) : Table :=
  match t.lookup g with
  | none =>
    if g.flags.rst then t
    else t.emit [{
      dstIp := g.srcIp, dstPort := g.srcPort, srcPort := g.dstPort, seq := g.ack
      ack := g.seq + BitVec.ofNat 32 g.payload.length + (if g.flags.syn then 1 else 0) +
        (if g.flags.fin then 1 else 0)
      flags := { rst := true, ack := true }, window := 0, payload := [] }]
  | some i =>
    let s := t.socks i
    match s.tcpState with
    | .listen => t.handleListen i g now
    | .synSent => t.put i (s.handleSynSent g)
    | .synRcvd => t.handleSynRcvd i g
    | .established => t.put i (s.handleEstablished g)
    | .finWait1 => t.put i (s.handleFinWait1 g)
    | .finWait2 => t.put i (s.handleFinWait2 g)
    | .closeWait => if g.flags.rst then t.edit i Sock.reset else t
    | .lastAck | .closing => t.put i (s.handleLastAck g)
    | .closed | .timeWait => t

def deliverUdp (d : Dgram) (dstPort : Port) : Table :=
  let wanted : Sd → Bool := fun i =>
    (t.socks i).used && (t.socks i).type == .dgram && (t.socks i).localPort == dstPort
  match (List.finRange 8).find? wanted with
  | none => t
  | some i =>
    if (t.socks i).rx.length ≥ 8 then t
    else t.edit i fun s => { s with rx := s.rx ++ [{ d with data := d.data.take 1024 }] }

end Table

/-- `sock_tick` for one slot. -/
def Sock.tick (s : Sock) (now : Nat) : Sock × List Sent :=
  if !s.used then (s, [])
  else if s.type ≠ .stream then (s, [])
  else if s.retxBuf = [] then (s, [])
  else if s.tcpState = .closed then ({ s with retxBuf := [] }, [])
  else if (s.sndUna - (s.retxSeq + BitVec.ofNat 32 s.retxBuf.length)).toInt ≥ 0 then
    ({ s with retxBuf := [] }, [])
  else if (BitVec.ofNat 64 now - BitVec.ofNat 64 s.retxSentMs).toNat < 500 then (s, [])
  else if s.retxCount ≥ 5 then
    ({ s with retxBuf := [] }.finish, [s.segment s.sndNxt { rst := true, ack := true } 0 []])
  else
    ({ s with retxSentMs := now, retxCount := s.retxCount + 1 },
      [s.segment s.retxSeq { ack := true, psh := true } s.advertisedWindow s.retxBuf])

def Table.tick (t : Table) (now : Nat) : Table :=
  (List.finRange 8).foldl (fun t i => t.put i ((t.socks i).tick now)) t

end Osnos.Net
