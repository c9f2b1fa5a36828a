import Osnos.Base.Checksum
import Osnos.Net.Socket

/-! `ip.c`, `tcp.c` and `udp.c`: what a send hands to the Ethernet layer, and what a
received packet hands to the sockets. -/
namespace Osnos.Net
open List

abbrev IP_HEADER_SIZE : Nat := 20
abbrev IP_MAX_PAYLOAD : Nat := 1500 - IP_HEADER_SIZE
abbrev TCP_HEADER_SIZE : Nat := 20
abbrev UDP_HEADER_SIZE : Nat := 8
abbrev UDP_MAX_PAYLOAD : Nat := 1472
abbrev ETH_HEADER_SIZE : Nat := 14
abbrev IP_PROTO_ICMP : UInt8 := 1
abbrev IP_PROTO_TCP : UInt8 := 6
abbrev IP_PROTO_UDP : UInt8 := 17

inductive Delivery
  | tcp (srcIp : Ip) (srcPort : Port) (dstIp : Ip) (dstPort : Port) (seq ack : Seq)
      (flags : UInt8) (payload : List Byte)
  | udp (srcIp : Ip) (srcPort : Port) (dstIp : Ip) (dstPort : Port) (payload : List Byte)
  | icmp (payload : List Byte) (srcIp : Ip)
  | raw (protocol : UInt8) (packet : List Byte) (srcIp : Ip)
  deriving DecidableEq

def pseudoHeader (srcIp dstIp : Ip) (protocol : UInt8) (len : Nat) : List Byte :=
  be32 srcIp ++ be32 dstIp ++ [0, protocol] ++ be16 (BitVec.ofNat 16 len)

/-- A segment that does not fit the scratch buffer counts as verified. -/
def computeChecksum (protocol : UInt8) (limit : Nat) (srcIp dstIp : Ip) (seg : List Byte) :
    BitVec 16 :=
  if seg.length > limit then 0
  else checksum (pseudoHeader srcIp dstIp protocol seg.length ++ seg)

def tcpComputeChecksum : Ip → Ip → List Byte → BitVec 16 :=
  computeChecksum IP_PROTO_TCP (TCP_HEADER_SIZE + 1500)

def udpComputeChecksum : Ip → Ip → List Byte → BitVec 16 :=
  computeChecksum IP_PROTO_UDP (UDP_HEADER_SIZE + UDP_MAX_PAYLOAD)

structure Stack where
  localIp : Ip := 0x0A00020F
  netmask : Ip := 0xFFFFFF00
  gateway : Ip := 0x0A000202
  nextIpId : BitVec 16 := 1

/-- What happens below: which next hops `arp_resolve` finds, and which packets `eth_send` gets
out. -/
structure Link where
  resolves : Ip → Bool
  transmits : List Byte → Bool

/-- The header that `ip_send` writes, `cs` being its checksum and `frag` the field of the
fragment, which `ip_send` sets to 0. -/
def ipHeader (srcIp dstIp : Ip) (protocol : UInt8) (total id frag cs : BitVec 16) : List Byte :=
  [0x45, 0] ++ be16 total ++ be16 id ++ be16 frag ++ [64, protocol] ++ be16 cs ++ be32 srcIp ++
    be32 dstIp

def ipPacket (srcIp dstIp : Ip) (protocol : UInt8) (id frag : BitVec 16) (payload : List Byte) :
    List Byte :=
  let total := BitVec.ofNat 16 (IP_HEADER_SIZE + payload.length)
  ipHeader srcIp dstIp protocol total id frag
    (checksum (ipHeader srcIp dstIp protocol total id frag 0)) ++ payload

def Stack.nextHop (st : Stack) (dstIp : Ip) : Ip :=
  if dstIp &&& st.netmask = st.localIp &&& st.netmask then dstIp else st.gateway

/-- `ip_send`, with the packet it has handed down if it returns true. -/
def Stack.ipSend (st : Stack) (link : Link) (dstIp : Ip) (protocol : UInt8)
    (payload : List Byte) : Option (List Byte) × Stack :=
  if payload.length > IP_MAX_PAYLOAD then (none, st)
  else if link.resolves (st.nextHop dstIp) = false then (none, st)
  else
    let packet := ipPacket st.localIp dstIp protocol st.nextIpId 0 payload
    (if link.transmits packet then some packet else none, { st with nextIpId := st.nextIpId + 1 })

variable (srcPort : Port)

def tcpSegment (dstPort : Port) (seq ack : Seq) (flags : UInt8) (window cs : BitVec 16)
    (payload : List Byte) : List Byte :=
  be16 srcPort ++ be16 dstPort ++ be32 seq ++ be32 ack ++ [0x50, flags] ++ be16 window ++
    be16 cs ++ be16 0 ++ payload

def Stack.tcpSend (st : Stack) (link : Link) (dstIp : Ip) (dstPort srcPort : Port)
    (seq ack : Seq) (flags : UInt8) (window : BitVec 16) (payload : List Byte) :
    Option (List Byte) × Stack :=
  if payload.length > 1500 - TCP_HEADER_SIZE then (none, st)
  else
    let cs := tcpComputeChecksum st.localIp dstIp
      (tcpSegment srcPort dstPort seq ack flags window 0 payload)
    st.ipSend link dstIp IP_PROTO_TCP (tcpSegment srcPort dstPort seq ack flags window cs payload)

def udpSegment (dstPort : Port) (cs : BitVec 16) (payload : List Byte) : List Byte :=
  be16 srcPort ++ be16 dstPort ++ be16 (BitVec.ofNat 16 (UDP_HEADER_SIZE + payload.length)) ++
    be16 cs ++ payload

def Stack.udpSend (st : Stack) (link : Link) (dstIp : Ip) (dstPort srcPort : Port)
    (payload : List Byte) : Option (List Byte) × Stack :=
  if payload.length > UDP_MAX_PAYLOAD then (none, st)
  else
    let cs := udpComputeChecksum st.localIp dstIp (udpSegment srcPort dstPort 0 payload)
    st.ipSend link dstIp IP_PROTO_UDP
      (udpSegment srcPort dstPort (if cs = 0 then 0xFFFF else cs) payload)

def tcpHandle (data : List Byte) (srcIp dstIp : Ip) : List Delivery :=
  if data.length < TCP_HEADER_SIZE then []
  else if tcpComputeChecksum srcIp dstIp data ≠ 0 then []
  else
    let hlen := (data.getD 12 0).toNat / 16 * 4
    if hlen < TCP_HEADER_SIZE ∨ hlen > data.length then []
    else [.tcp srcIp (rd16Be data 0) dstIp (rd16Be data 2) (rd32Be data 4) (rd32Be data 8)
      (data.getD 13 0) (data.drop hlen)]

def udpHandle (data : List Byte) (srcIp dstIp : Ip) : List Delivery :=
  if data.length < UDP_HEADER_SIZE then []
  else
    let udpLen := (rd16Be data 4).toNat
    if udpLen < UDP_HEADER_SIZE ∨ udpLen > data.length then []
    else if rd16Be data 6 ≠ 0 ∧ udpComputeChecksum srcIp dstIp (data.take udpLen) ≠ 0 then []
    else [.udp srcIp (rd16Be data 0) dstIp (rd16Be data 2) ((data.take udpLen).drop UDP_HEADER_SIZE)]

def dispatch (protocol : UInt8) (payload : List Byte) (srcIp dstIp : Ip) : List Delivery :=
  if protocol = IP_PROTO_ICMP then [.icmp payload srcIp]
  else if protocol = IP_PROTO_UDP then udpHandle payload srcIp dstIp
  else if protocol = IP_PROTO_TCP then tcpHandle payload srcIp dstIp
  else []

theorem dispatch_tcp (payload : List Byte) (srcIp dstIp : Ip) :
    dispatch IP_PROTO_TCP payload srcIp dstIp = tcpHandle payload srcIp dstIp := by
  rw [dispatch, if_neg (by decide), if_neg (by decide), if_pos rfl]

theorem dispatch_udp (payload : List Byte) (srcIp dstIp : Ip) :
    dispatch IP_PROTO_UDP payload srcIp dstIp = udpHandle payload srcIp dstIp := by
  rw [dispatch, if_neg (by decide), if_pos rfl]

def ipHeaderLength (data : List Byte) : Nat := (data.getD 0 0).toNat % 16 * 4
def ipTotalLength (data : List Byte) : Nat := (rd16Be data 2).toNat

def ipPayload (data : List Byte) : List Byte :=
  (data.take (ipTotalLength data)).drop (ipHeaderLength data)

/-- The checks of `ip_handle`. The field of the fragment is not among them. -/
def ipAccepts (localIp : Ip) (data : List Byte) : Bool :=
  decide (IP_HEADER_SIZE ≤ data.length) && decide ((data.getD 0 0).toNat / 16 = 4) &&
    decide (IP_HEADER_SIZE ≤ ipHeaderLength data ∧ ipHeaderLength data ≤ data.length) &&
    decide (ipTotalLength data ≤ data.length ∧ ipHeaderLength data ≤ ipTotalLength data) &&
    decide (checksum (data.take (ipHeaderLength data)) = 0) &&
    decide (rd32Be data 16 = localIp ∨ rd32Be data 16 = 0xFFFFFFFF)

/-- `ip_handle`, on a host with the given address. -/
def ipHandle (localIp : Ip) (data : List Byte) : List Delivery :=
  if ipAccepts localIp data then
    dispatch (data.getD 9 0) (ipPayload data) (rd32Be data 12) (rd32Be data 16) ++
      [.raw (data.getD 9 0) (data.take (ipTotalLength data)) (rd32Be data 12)]
  else []

/-- `net_rx`, without the ARP packets, which go elsewhere. -/
def netRx (localIp : Ip) (frame : List Byte) : List Delivery :=
  if frame.length < ETH_HEADER_SIZE then []
  else if rd16Be frame 12 = 0x0800 then ipHandle localIp (frame.drop ETH_HEADER_SIZE)
  else []

section
variable {srcIp dstIp : Ip} {protocol : UInt8} {payload : List Byte}

@[simp] theorem length_ipHeader (srcIp dstIp : Ip) (protocol : UInt8)
    (total id frag cs : BitVec 16) :
    (ipHeader srcIp dstIp protocol total id frag cs).length = IP_HEADER_SIZE := rfl

@[simp] theorem length_pseudoHeader (srcIp dstIp : Ip) (protocol : UInt8) (len : Nat) :
    (pseudoHeader srcIp dstIp protocol len).length = 12 := rfl

@[simp] theorem length_tcpSegment (dstPort : Port) (seq ack : Seq) (flags : UInt8)
    (window cs : BitVec 16) (payload : List Byte) :
    (tcpSegment srcPort dstPort seq ack flags window cs payload).length =
      TCP_HEADER_SIZE + payload.length := by
  simp only [tcpSegment, length_append, length_be16, length_be32, length_cons,
    length_nil, TCP_HEADER_SIZE]

@[simp] theorem length_udpSegment (dstPort : Port) (cs : BitVec 16) (payload : List Byte) :
    (udpSegment srcPort dstPort cs payload).length = UDP_HEADER_SIZE + payload.length := by
  simp only [udpSegment, length_append, length_be16, UDP_HEADER_SIZE]

theorem ipHeader_verifies (srcIp dstIp : Ip) (protocol : UInt8) (total id frag : BitVec 16) :
    checksum (ipHeader srcIp dstIp protocol total id frag
      (checksum (ipHeader srcIp dstIp protocol total id frag 0))) = 0 := by
  -- the words before and after the open one
  let pre : List Byte := [0x45, 0] ++ be16 total ++ be16 id ++ be16 frag ++ [64, protocol]
  let post : List Byte := be32 srcIp ++ be32 dstIp
  have split (cs : BitVec 16) :
      ipHeader srcIp dstIp protocol total id frag cs = pre ++ be16 cs ++ post := rfl
  have even : pre.length % 2 = 0 := by simp [pre]
  have short : (pre ++ be16 0 ++ post).length ≤ 65536 := by
    rw [← split, length_ipHeader]
    decide
  rw [checksum_eq_zero (by rw [length_ipHeader]; decide), split, split]
  exact verifies_of_hole even short (.inl rfl)

/-- A well-formed packet is taken apart into what it was made of, whatever its identification,
its fragment field and the padding behind it. -/
theorem ipHandle_ipPacket (id frag : BitVec 16) (fits : payload.length ≤ IP_MAX_PAYLOAD)
    (pad : List Byte) :
    ipHandle dstIp (ipPacket srcIp dstIp protocol id frag payload ++ pad) =
      dispatch protocol payload srcIp dstIp ++
        [.raw protocol (ipPacket srcIp dstIp protocol id frag payload) srcIp] := by
  unfold ipPacket
  dsimp only
  generalize total_eq : BitVec.ofNat 16 (IP_HEADER_SIZE + payload.length) = total
  have verified := ipHeader_verifies srcIp dstIp protocol total id frag
  generalize checksum (ipHeader srcIp dstIp protocol total id frag 0) = cs at verified ⊢
  have total_toNat : total.toNat = IP_HEADER_SIZE + payload.length := by
    rw [← total_eq, BitVec.toNat_ofNat, IP_HEADER_SIZE]
    rw [IP_MAX_PAYLOAD, IP_HEADER_SIZE] at fits
    omega
  generalize data_eq : ipHeader srcIp dstIp protocol total id frag cs ++ payload ++ pad = data
  have first : data.getD 0 0 = 0x45 := by rw [← data_eq]; rfl
  have header : ipHeaderLength data = 20 := by rw [ipHeaderLength, first]; decide
  have length : ipTotalLength data = IP_HEADER_SIZE + payload.length := by
    rw [← total_toNat, ipTotalLength, ← data_eq]
    exact congrArg BitVec.toNat (join16_byteOf total)
  have whole : data.take (ipTotalLength data) =
      ipHeader srcIp dstIp protocol total id frag cs ++ payload := by
    rw [length, ← data_eq]
    exact take_left' (by simp)
  have body : ipPayload data = payload := by
    rw [ipPayload, whole, header]
    exact drop_left' rfl
  have front : data.take 20 = ipHeader srcIp dstIp protocol total id frag cs := by
    rw [← data_eq, append_assoc]
    exact take_left' rfl
  have source : rd32Be data 12 = srcIp := by rw [← data_eq]; exact join32_byteOf srcIp
  have target : rd32Be data 16 = dstIp := by rw [← data_eq]; exact join32_byteOf dstIp
  have kind : data.getD 9 0 = protocol := by rw [← data_eq]; rfl
  have version : (data.getD 0 0).toNat / 16 = 4 := by rw [first]; decide
  have size : IP_HEADER_SIZE + payload.length ≤ data.length := by
    rw [← data_eq]
    simp
  have accepted : ipAccepts dstIp data := by
    simp only [ipAccepts, header, length, front, verified, target, version, Bool.and_eq_true,
      decide_eq_true_eq, true_or, and_true, IP_HEADER_SIZE] at size ⊢
    omega
  rw [ipHandle, if_pos accepted, body, whole, source, target, kind]

/-- A segment with one word left open verifies under its pseudo-header once its checksum, or
the other zero, is stored there. -/
theorem segment_verifies {pre post : List Byte} {limit : Nat} {c : BitVec 16}
    (even : pre.length % 2 = 0) (fits : (pre ++ be16 0 ++ post).length ≤ limit)
    (short : limit ≤ 65000)
    (stored : c = computeChecksum protocol limit srcIp dstIp (pre ++ be16 0 ++ post) ∨
      computeChecksum protocol limit srcIp dstIp (pre ++ be16 0 ++ post) = 0 ∧ c = 0xFFFF) :
    computeChecksum protocol limit srcIp dstIp (pre ++ be16 c ++ post) = 0 := by
  have same : (pre ++ be16 c ++ post).length = (pre ++ be16 0 ++ post).length := by simp
  unfold computeChecksum at stored ⊢
  rw [if_neg (Nat.not_lt.2 fits)] at stored
  rw [if_neg (by omega), same]
  generalize pseudo_eq :
    pseudoHeader srcIp dstIp protocol (pre ++ be16 0 ++ post).length = pseudo at stored ⊢
  have twelve : pseudo.length = 12 := by rw [← pseudo_eq, length_pseudoHeader]
  have assoc (v : BitVec 16) :
      pseudo ++ (pre ++ be16 v ++ post) = pseudo ++ pre ++ be16 v ++ post := by
    simp only [append_assoc]
  have size (v : BitVec 16) : (pseudo ++ pre ++ be16 v ++ post).length ≤ 65536 := by
    simp only [length_append, length_be16] at fits ⊢
    omega
  have word : (pseudo ++ pre).length % 2 = 0 := by
    rw [length_append]
    omega
  rw [assoc] at stored ⊢
  rw [checksum_eq_zero (size c)]
  exact verifies_of_hole word (size 0) stored

theorem tcpHandle_tcpSegment (dstPort : Port) (seq ack : Seq) (flags : UInt8)
    (window : BitVec 16) (fits : payload.length ≤ 1500) :
    tcpHandle (tcpSegment srcPort dstPort seq ack flags window
        (tcpComputeChecksum srcIp dstIp
          (tcpSegment srcPort dstPort seq ack flags window 0 payload)) payload) srcIp dstIp =
      [.tcp srcIp srcPort dstIp dstPort seq ack flags payload] := by
  let pre : List Byte := be16 srcPort ++ be16 dstPort ++ be32 seq ++ be32 ack ++ [0x50, flags] ++
    be16 window
  have split (cs : BitVec 16) : tcpSegment srcPort dstPort seq ack flags window cs payload =
      pre ++ be16 cs ++ (be16 0 ++ payload) := rfl
  have even : pre.length % 2 = 0 := by simp [pre]
  have small : (pre ++ be16 0 ++ (be16 0 ++ payload)).length ≤ TCP_HEADER_SIZE + 1500 := by
    rw [← split, length_tcpSegment]
    omega
  generalize stored : tcpComputeChecksum srcIp dstIp
    (tcpSegment srcPort dstPort seq ack flags window 0 payload) = cs
  have verified : tcpComputeChecksum srcIp dstIp
      (tcpSegment srcPort dstPort seq ack flags window cs payload) = 0 := by
    rw [split] at stored ⊢
    exact segment_verifies even small (by decide) (.inl stored.symm)
  generalize data_eq : tcpSegment srcPort dstPort seq ack flags window cs payload = data
    at verified ⊢
  have length : data.length = TCP_HEADER_SIZE + payload.length := by
    rw [← data_eq, length_tcpSegment]
  have words : data.getD 12 0 = 0x50 := by rw [← data_eq]; rfl
  have offset : (data.getD 12 0).toNat / 16 * 4 = TCP_HEADER_SIZE := by rw [words]; decide
  have ports : rd16Be data 0 = srcPort ∧ rd16Be data 2 = dstPort := by
    rw [← data_eq]
    exact ⟨join16_byteOf srcPort, join16_byteOf dstPort⟩
  have numbers : rd32Be data 4 = seq ∧ rd32Be data 8 = ack := by
    rw [← data_eq]
    exact ⟨join32_byteOf seq, join32_byteOf ack⟩
  have bits : data.getD 13 0 = flags := by rw [← data_eq]; rfl
  have body : data.drop TCP_HEADER_SIZE = payload := by rw [← data_eq]; rfl
  rw [tcpHandle, if_neg (by omega), if_neg (not_not.2 verified)]
  dsimp only
  rw [offset, if_neg (by omega), ports.1, ports.2, numbers.1, numbers.2, bits, body]

theorem udpHandle_udpSegment (dstPort : Port) {cs : BitVec 16}
    (fits : payload.length ≤ UDP_MAX_PAYLOAD)
    (stored : cs = udpComputeChecksum srcIp dstIp (udpSegment srcPort dstPort 0 payload) ∨
      udpComputeChecksum srcIp dstIp (udpSegment srcPort dstPort 0 payload) = 0 ∧ cs = 0xFFFF) :
    udpHandle (udpSegment srcPort dstPort cs payload) srcIp dstIp =
      [.udp srcIp srcPort dstIp dstPort payload] := by
  generalize len_eq : BitVec.ofNat 16 (UDP_HEADER_SIZE + payload.length) = len
  let pre : List Byte := be16 srcPort ++ be16 dstPort ++ be16 len
  have split (v : BitVec 16) : udpSegment srcPort dstPort v payload = pre ++ be16 v ++ payload := by
    rw [udpSegment, len_eq]
  have even : pre.length % 2 = 0 := by simp [pre]
  have small : (pre ++ be16 0 ++ payload).length ≤ UDP_HEADER_SIZE + UDP_MAX_PAYLOAD := by
    rw [← split, length_udpSegment]
    omega
  have verified : udpComputeChecksum srcIp dstIp (udpSegment srcPort dstPort cs payload) = 0 := by
    rw [split] at stored ⊢
    exact segment_verifies even small (by decide) stored
  have size : len.toNat = UDP_HEADER_SIZE + payload.length := by
    rw [← len_eq, BitVec.toNat_ofNat, UDP_HEADER_SIZE]
    rw [UDP_MAX_PAYLOAD] at fits
    omega
  have length : (udpSegment srcPort dstPort cs payload).length = UDP_HEADER_SIZE + payload.length :=
    length_udpSegment srcPort dstPort cs payload
  generalize data_eq : udpSegment srcPort dstPort cs payload = data at verified length ⊢
  rw [split] at data_eq
  have ports : rd16Be data 0 = srcPort ∧ rd16Be data 2 = dstPort := by
    rw [← data_eq]
    exact ⟨join16_byteOf srcPort, join16_byteOf dstPort⟩
  have field : (rd16Be data 4).toNat = data.length := by
    rw [length, ← size, ← data_eq]
    exact congrArg BitVec.toNat (join16_byteOf len)
  have body : data.drop UDP_HEADER_SIZE = payload := by rw [← data_eq]; rfl
  rw [udpHandle, if_neg (by omega)]
  dsimp only
  rw [field, take_length, if_neg (by omega), if_neg (fun h => h.2 verified), ports.1, ports.2, body]

variable {st : Stack} {link : Link}

theorem ipSend_packet {packet : List Byte}
    (sent : (st.ipSend link dstIp protocol payload).1 = some packet) :
    payload.length ≤ IP_MAX_PAYLOAD ∧
      packet = ipPacket st.localIp dstIp protocol st.nextIpId 0 payload := by
  unfold Stack.ipSend at sent
  split at sent
  · cases sent
  rename_i small
  split at sent
  · cases sent
  dsimp only at sent
  split at sent
  · exact ⟨Nat.not_lt.1 small, (Option.some.inj sent).symm⟩
  · cases sent

def Link.up : Link where
  resolves _ := true
  transmits _ := true

theorem ipSend_up (fits : payload.length ≤ IP_MAX_PAYLOAD) :
    ∃ packet, (st.ipSend .up dstIp protocol payload).1 = some packet := by
  rw [Stack.ipSend, if_neg (Nat.not_lt.2 fits), if_neg (by simp [Link.up])]
  dsimp only
  exact ⟨_, if_pos rfl⟩

theorem tcpSend_up (dstPort srcPort : Port) (seq ack : Seq) (flags : UInt8) (window : BitVec 16)
    (fits : TCP_HEADER_SIZE + payload.length ≤ IP_MAX_PAYLOAD) :
    ∃ packet, (st.tcpSend .up dstIp dstPort srcPort seq ack flags window payload).1 =
      some packet := by
  have small : ¬ payload.length > 1500 - TCP_HEADER_SIZE := by
    simp only [TCP_HEADER_SIZE, IP_MAX_PAYLOAD, IP_HEADER_SIZE] at fits ⊢
    omega
  rw [Stack.tcpSend, if_neg small]
  exact ipSend_up (by rwa [length_tcpSegment])

theorem udpSend_up (dstPort srcPort : Port) (fits : payload.length ≤ UDP_MAX_PAYLOAD) :
    ∃ packet, (st.udpSend .up dstIp dstPort srcPort payload).1 = some packet := by
  rw [Stack.udpSend, if_neg (Nat.not_lt.2 fits)]
  apply ipSend_up
  rw [length_udpSegment]
  simp only [UDP_MAX_PAYLOAD, UDP_HEADER_SIZE, IP_MAX_PAYLOAD, IP_HEADER_SIZE] at fits ⊢
  omega

end

/-- Every packet that a send hands down arrives at a host with the address it was sent to as
what was sent, under any padding of the frame. -/
theorem sent_packets_arrive (st : Stack) (link : Link) (dstIp : Ip) (dstPort srcPort : Port)
    (seq ack : Seq) (flags : UInt8) (window : BitVec 16) (payload packet pad : List Byte) :
    ((st.tcpSend link dstIp dstPort srcPort seq ack flags window payload).1 = some packet →
      ipHandle dstIp (packet ++ pad) =
        [.tcp st.localIp srcPort dstIp dstPort seq ack flags payload,
          .raw IP_PROTO_TCP packet st.localIp]) ∧
    ((st.udpSend link dstIp dstPort srcPort payload).1 = some packet →
      ipHandle dstIp (packet ++ pad) =
        [.udp st.localIp srcPort dstIp dstPort payload, .raw IP_PROTO_UDP packet st.localIp]) := by
  constructor
  · intro sent
    unfold Stack.tcpSend at sent
    split at sent
    · cases sent
    rename_i small
    obtain ⟨fits, rfl⟩ := ipSend_packet sent
    have short : payload.length ≤ 1500 := by omega
    rw [ipHandle_ipPacket _ _ fits pad, dispatch_tcp,
      tcpHandle_tcpSegment srcPort dstPort seq ack flags window short, List.singleton_append]
  intro sent
  unfold Stack.udpSend at sent
  split at sent
  · cases sent
  rename_i small
  obtain ⟨fits, rfl⟩ := ipSend_packet sent
  have short : payload.length ≤ UDP_MAX_PAYLOAD := Nat.not_lt.1 small
  rw [ipHandle_ipPacket _ _ fits pad, dispatch_udp, udpHandle_udpSegment srcPort dstPort short,
    List.singleton_append]
  split
  · exact .inr ⟨‹_›, rfl⟩
  · exact .inl rfl

/-- Three bytes each way, in a frame that is padded. -/
theorem sent_packets_arrive_odd :
    (∃ packet, (({} : Stack).tcpSend .up 0x0A000202 80 40000 7 9 0x18 1024 [1, 2, 3]).1 =
        some packet ∧
      ipHandle 0x0A000202 (packet ++ [0, 0, 0]) =
        [.tcp 0x0A00020F 40000 0x0A000202 80 7 9 0x18 [1, 2, 3],
          .raw IP_PROTO_TCP packet 0x0A00020F]) ∧
    (∃ packet, (({} : Stack).udpSend .up 0x0A000202 53 40000 [1, 2, 3]).1 = some packet ∧
      ipHandle 0x0A000202 (packet ++ [0, 0, 0]) =
        [.udp 0x0A00020F 40000 0x0A000202 53 [1, 2, 3],
          .raw IP_PROTO_UDP packet 0x0A00020F]) := by
  constructor
  · obtain ⟨packet, sent⟩ :
        ∃ packet, (({} : Stack).tcpSend .up 0x0A000202 80 40000 7 9 0x18 1024 [1, 2, 3]).1 =
          some packet := tcpSend_up 80 40000 7 9 0x18 1024 (by decide)
    exact ⟨packet, sent, (sent_packets_arrive {} .up 0x0A000202 80 40000 7 9 0x18 1024 [1, 2, 3]
      packet [0, 0, 0]).1 sent⟩
  obtain ⟨packet, sent⟩ :
      ∃ packet, (({} : Stack).udpSend .up 0x0A000202 53 40000 [1, 2, 3]).1 = some packet :=
    udpSend_up 53 40000 (by decide)
  exact ⟨packet, sent, (sent_packets_arrive {} .up 0x0A000202 53 40000 7 9 0x18 1024 [1, 2, 3]
    packet [0, 0, 0]).2 sent⟩

end Osnos.Net
