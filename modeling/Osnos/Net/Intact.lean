import Osnos.Net.Packet

/-! What the checks of `ip_handle`, `tcp_handle` and `udp_handle` amount to for a frame
whose segment reaches the sockets, and what they leave open. -/
namespace Osnos.Net
open List

def Delivery.segment : Delivery → Bool
  | .tcp .. | .udp .. => true
  | _ => false

def Delivers (localIp : Ip) (frame : List Byte) : Prop :=
  ∃ d ∈ netRx localIp frame, d.segment = true

section
variable (data : List Byte)

def Unfragmented : Prop := rd16Be data 6 &&& 0x3FFF = 0
def Addressed (localIp : Ip) : Prop := rd32Be data 16 = localIp
def udpLength : Nat := (rd16Be (ipPayload data) 4).toNat

def SegmentVerifies (protocol : UInt8) (seg : List Byte) : Prop :=
  Verifies (pseudoHeader (rd32Be data 12) (rd32Be data 16) protocol seg.length ++ seg)

def TransportVerifies : Prop :=
  if data.getD 9 0 = IP_PROTO_TCP then SegmentVerifies data IP_PROTO_TCP (ipPayload data)
  else rd16Be (ipPayload data) 6 = 0 ∨
    SegmentVerifies data IP_PROTO_UDP ((ipPayload data).take (udpLength data))

def Summed : Prop :=
  if data.getD 9 0 = IP_PROTO_TCP then (ipPayload data).length ≤ TCP_HEADER_SIZE + 1500
  else rd16Be (ipPayload data) 6 = 0 ∨ udpLength data ≤ UDP_HEADER_SIZE + UDP_MAX_PAYLOAD

def SegmentWhole : Prop :=
  if data.getD 9 0 = IP_PROTO_TCP then TCP_HEADER_SIZE ≤ (ipPayload data).length
  else UDP_HEADER_SIZE ≤ udpLength data ∧ udpLength data ≤ (ipPayload data).length

/-- A segment carried whole by one IPv4 packet for this host, with both checksums right. -/
structure Intact (localIp : Ip) : Prop where
  version : (data.getD 0 0).toNat / 16 = 4
  header : IP_HEADER_SIZE ≤ ipHeaderLength data ∧ ipHeaderLength data ≤ ipTotalLength data
  whole : ipTotalLength data ≤ data.length
  segment : SegmentWhole data
  unfragmented : Unfragmented data
  addressed : Addressed data localIp
  headerSum : Verifies (data.take (ipHeaderLength data))
  transportSum : TransportVerifies data

end

section
variable {data seg : List Byte} {localIp srcIp dstIp : Ip} {protocol : UInt8} {d : Delivery}

theorem computeChecksum_eq_zero {limit : Nat} (short : limit ≤ 65000) :
    computeChecksum protocol limit srcIp dstIp seg = 0 ↔ (seg.length ≤ limit →
      Verifies (pseudoHeader srcIp dstIp protocol seg.length ++ seg)) := by
  unfold computeChecksum
  by_cases large : seg.length > limit
  · rw [if_pos large]
    exact ⟨fun _ small => absurd small (Nat.not_le.2 large), fun _ => rfl⟩
  have small : seg.length ≤ limit := Nat.not_lt.1 large
  have size : (pseudoHeader srcIp dstIp protocol seg.length ++ seg).length ≤ 65536 := by
    rw [length_append, length_pseudoHeader]
    omega
  rw [if_neg large, checksum_eq_zero size]
  exact ⟨fun verified _ => verified, fun verified => verified small⟩

theorem ipAccepts_spec (accepted : ipAccepts localIp data) : (data.getD 0 0).toNat / 16 = 4 ∧
      (IP_HEADER_SIZE ≤ ipHeaderLength data ∧ ipHeaderLength data ≤ ipTotalLength data) ∧
      ipTotalLength data ≤ data.length ∧ Verifies (data.take (ipHeaderLength data)) := by
  simp only [ipAccepts, Bool.and_eq_true, decide_eq_true_eq] at accepted
  obtain ⟨⟨⟨⟨⟨_, version⟩, header, _⟩, whole, inside⟩, sum⟩, _⟩ := accepted
  have short : (data.take (ipHeaderLength data)).length ≤ 65536 := by
    have : ipHeaderLength data ≤ 60 := by
      unfold ipHeaderLength
      omega
    rw [length_take]
    omega
  exact ⟨version, ⟨header, inside⟩, whole, (checksum_eq_zero short).1 sum⟩

theorem tcpHandle_delivers (delivered : d ∈ tcpHandle seg srcIp dstIp) :
    TCP_HEADER_SIZE ≤ seg.length ∧ (seg.length ≤ TCP_HEADER_SIZE + 1500 →
        Verifies (pseudoHeader srcIp dstIp IP_PROTO_TCP seg.length ++ seg)) := by
  unfold tcpHandle at delivered
  split at delivered
  · cases delivered
  split at delivered
  · cases delivered
  · exact ⟨Nat.not_lt.1 ‹_›, (computeChecksum_eq_zero (by decide)).1 (not_not.1 ‹_›)⟩

theorem udpHandle_delivers (delivered : d ∈ udpHandle seg srcIp dstIp) :
    (UDP_HEADER_SIZE ≤ (rd16Be seg 4).toNat ∧ (rd16Be seg 4).toNat ≤ seg.length) ∧
      (rd16Be seg 6 = 0 ∨ ((rd16Be seg 4).toNat ≤ UDP_HEADER_SIZE + UDP_MAX_PAYLOAD →
        Verifies (pseudoHeader srcIp dstIp IP_PROTO_UDP (seg.take (rd16Be seg 4).toNat).length ++
          seg.take (rd16Be seg 4).toNat))) := by
  unfold udpHandle at delivered
  split at delivered
  · cases delivered
  dsimp only at delivered
  split at delivered
  · cases delivered
  rename_i sizes
  have inside : UDP_HEADER_SIZE ≤ (rd16Be seg 4).toNat ∧ (rd16Be seg 4).toNat ≤ seg.length := by
    omega
  split at delivered
  · cases delivered
  rename_i passed
  refine ⟨inside, ?_⟩
  by_cases marker : rd16Be seg 6 = 0
  · exact .inl marker
  have zero := not_not.1 fun bad => passed ⟨marker, bad⟩
  refine .inr fun small => (computeChecksum_eq_zero (by decide)).1 zero ?_
  rw [length_take]
  omega

theorem dispatch_segment (delivered : d ∈ dispatch protocol seg srcIp dstIp)
    (kind : d.segment) :
    protocol = IP_PROTO_TCP ∧ d ∈ tcpHandle seg srcIp dstIp ∨
      protocol ≠ IP_PROTO_TCP ∧ d ∈ udpHandle seg srcIp dstIp := by
  unfold dispatch at delivered
  split at delivered
  · rw [List.mem_singleton.1 delivered] at kind
    cases kind
  split at delivered
  next udp =>
    refine .inr ⟨?_, delivered⟩
    rw [udp]
    decide
  · split at delivered
    · exact .inl ⟨‹_›, delivered⟩
    · cases delivered

theorem ipHandle_delivers (delivered : d ∈ ipHandle localIp data) (kind : d.segment) :
    ipAccepts localIp data = true ∧ SegmentWhole data ∧
      (Summed data → TransportVerifies data) := by
  unfold ipHandle at delivered
  split at delivered
  next accepted =>
    refine ⟨accepted, ?_⟩
    rcases List.mem_append.1 delivered with here | raw
    · unfold SegmentWhole Summed TransportVerifies
      rcases dispatch_segment here kind with ⟨tcp, here⟩ | ⟨other, here⟩
      · obtain ⟨whole, sum⟩ := tcpHandle_delivers here
        simp only [if_pos tcp]
        exact ⟨whole, sum⟩
      · obtain ⟨whole, sum⟩ := udpHandle_delivers here
        simp only [if_neg other]
        refine ⟨whole, fun summed => ?_⟩
        rcases sum with marker | sum
        · exact .inl marker
        · exact summed.imp_right sum
    · rw [List.mem_singleton.1 raw] at kind
      cases kind
  · cases delivered

end

/-- A delivered segment is intact if and only if its packet is no fragment, names this host
and, where the segment is too long to be summed, happens to be right. -/
theorem delivered_intact_iff (localIp : Ip) (frame : List Byte) :
    (Delivers localIp frame → Intact (frame.drop ETH_HEADER_SIZE) localIp) ↔
      (Delivers localIp frame → Unfragmented (frame.drop ETH_HEADER_SIZE) ∧
        Addressed (frame.drop ETH_HEADER_SIZE) localIp ∧
        (Summed (frame.drop ETH_HEADER_SIZE) ∨
          TransportVerifies (frame.drop ETH_HEADER_SIZE))) := by
  refine imp_congr_right fun delivers => ?_
  obtain ⟨d, delivered, kind⟩ := delivers
  have here : d ∈ ipHandle localIp (frame.drop ETH_HEADER_SIZE) := by
    unfold netRx at delivered
    split at delivered
    · cases delivered
    split at delivered
    · exact delivered
    · cases delivered
  obtain ⟨accepted, whole, summed⟩ := ipHandle_delivers here kind
  obtain ⟨version, header, inside, headerSum⟩ := ipAccepts_spec accepted
  constructor
  · intro intact
    exact ⟨intact.unfragmented, intact.addressed, .inr intact.transportSum⟩
  rintro ⟨unfragmented, addressed, sum⟩
  exact ⟨version, header, inside, whole, unfragmented, addressed, headerSum,
    sum.elim summed id⟩

/-- The last fragment of a packet, of an offset of eight bytes, whose bytes read as a
datagram without a checksum. -/
def fragment : List Byte :=
  ipPacket 0x0A000202 0x0A00020F IP_PROTO_UDP 1 1 (udpSegment 40000 53 0 [1, 2, 3])

def fragmentFrame : List Byte := List.replicate 12 0 ++ [0x08, 0x00] ++ fragment

/-- Data from the middle of a packet reaches the socket of its choice. -/
theorem fragment_delivered :
    .udp 0x0A000202 40000 0x0A00020F 53 [1, 2, 3] ∈ netRx 0x0A00020F fragmentFrame ∧
      ¬ Intact (fragmentFrame.drop ETH_HEADER_SIZE) 0x0A00020F := by
  have inner : fragmentFrame.drop ETH_HEADER_SIZE = fragment := rfl
  have handled : ipHandle 0x0A00020F fragment =
      dispatch IP_PROTO_UDP (udpSegment 40000 53 0 [1, 2, 3]) 0x0A000202 0x0A00020F ++
        [.raw IP_PROTO_UDP fragment 0x0A000202] := by
    have short : (udpSegment 40000 53 0 [1, 2, 3]).length ≤ IP_MAX_PAYLOAD := by decide
    rw [← append_nil fragment]
    exact ipHandle_ipPacket 1 1 short []
  have received : udpHandle (udpSegment 40000 53 0 [1, 2, 3]) 0x0A000202 0x0A00020F =
      [.udp 0x0A000202 40000 0x0A00020F 53 [1, 2, 3]] := by
    decide +kernel
  rw [inner]
  constructor
  · have frame : netRx 0x0A00020F fragmentFrame = ipHandle 0x0A00020F fragment := by
      have type : rd16Be fragmentFrame 12 = 0x0800 := by
        decide
      have long : ¬ fragmentFrame.length < ETH_HEADER_SIZE := by
        rw [fragmentFrame, length_append]
        exact Nat.not_lt.2 (Nat.le_add_right _ _)
      rw [netRx, if_neg long, if_pos type, inner]
    rw [frame, handled, dispatch_udp, received]
    exact mem_cons_self
  · intro intact
    have offset : rd16Be fragment 6 = 1 := by
      change join16 (byteOf (1 : BitVec 16) 1) (byteOf (1 : BitVec 16) 0) = 1
      rw [join16_byteOf]
    have clear := intact.unfragmented
    rw [Unfragmented, offset] at clear
    exact absurd clear (by decide)

end Osnos.Net
