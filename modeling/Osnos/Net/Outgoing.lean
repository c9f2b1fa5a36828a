import Osnos.Net.Timely

/-! `sock_send` and the acknowledgements it waits for touch the sequence numbers and the
retransmission buffer only; the data and the FIN of a segment touch the rest. -/
namespace Osnos.Net
open List

structure Outgoing where
  sndNxt : Seq
  sndUna : Seq
  retxBuf : List Byte
  retxSeq : Seq
  retxSentMs : Nat
  retxCount : Nat

namespace Sock

def outgoing (s : Sock) : Outgoing :=
  ⟨s.sndNxt, s.sndUna, s.retxBuf, s.retxSeq, s.retxSentMs, s.retxCount⟩

def withOutgoing (s : Sock) (x : Outgoing) : Sock :=
  { s with
    sndNxt := x.sndNxt, sndUna := x.sndUna, retxBuf := x.retxBuf, retxSeq := x.retxSeq
    retxSentMs := x.retxSentMs, retxCount := x.retxCount }

@[simp] theorem withOutgoing_state (s : Sock) (x : Outgoing) :
    (s.withOutgoing x).tcpState = s.tcpState := rfl

@[simp] theorem withOutgoing_sndNxt (s : Sock) (x : Outgoing) :
    (s.withOutgoing x).sndNxt = x.sndNxt := rfl

theorem withOutgoing_inj {s : Sock} {x y : Outgoing} :
    s.withOutgoing x = s.withOutgoing y ↔ x = y :=
  ⟨fun same => congrArg outgoing same, fun same => same ▸ rfl⟩

def receive (s : Sock) (g : Segment) : Sock :=
  let d := (s.acceptData g).1
  if d.finInOrder g then { d.takeFin with tcpState := .closeWait } else d

theorem receive_withOutgoing (s : Sock) (x : Outgoing) (g : Segment) :
    (s.withOutgoing x).receive g = (s.receive g).withOutgoing x := by
  unfold receive
  simp only [acceptData_fst]
  split
  next fin =>
    rw [if_pos (by exact fin)]
    rfl
  rename_i fin
  rw [if_neg (by exact fin)]
  rfl

end Sock

namespace Outgoing

def advance (x : Outgoing) (n : Nat) : Outgoing := { x with sndNxt := x.sndNxt + BitVec.ofNat 32 n }

def stash (x : Outgoing) (seq : Seq) (chunk : List Byte) (now : Nat) : Outgoing :=
  { x with retxSeq := seq, retxBuf := chunk, retxSentMs := now, retxCount := 0 }

def send (x : Outgoing) (chunk : List Byte) (now : Nat) : Outgoing :=
  (x.advance chunk.length).stash x.sndNxt chunk now

def sendAll (now : Nat) : List (List Byte) → List Bool → Outgoing → Outgoing
  | [], _, x => x
  | chunk :: rest, delivered, x =>
    if delivered.head? = some false then x else sendAll now rest delivered.tail (x.send chunk now)

def ack (x : Outgoing) (a : Seq) : Outgoing :=
  if (a - x.sndUna).toInt > 0 ∧ (a - x.sndNxt).toInt ≤ 0 then
    if x.retxBuf.length > 0 ∧ (a - (x.retxSeq + BitVec.ofNat 32 x.retxBuf.length)).toInt ≥ 0 then
      { x with sndUna := a, retxBuf := [], retxCount := 0 }
    else { x with sndUna := a }
  else x

end Outgoing

variable {g : Segment}

theorem Sock.hear_established {s : Sock} (state : s.tcpState = .established)
    (noRst : g.flags.rst = false) (ack : g.flags.ack) :
    s.hear g = (s.receive g).withOutgoing (s.outgoing.ack g.ack) := by
  have acked : s.acceptAck g = s.withOutgoing (s.outgoing.ack g.ack) := by
    unfold acceptAck Outgoing.ack
    simp only [ack, true_and]
    by_cases inWindow : (g.ack - s.sndUna).toInt > 0 ∧ (g.ack - s.sndNxt).toInt ≤ 0
    · have mine : (g.ack - s.outgoing.sndUna).toInt > 0 ∧ (g.ack - s.outgoing.sndNxt).toInt ≤ 0 :=
        inWindow
      rw [if_pos inWindow, if_pos mine, apply_ite s.withOutgoing]
      rfl
    have mine : ¬((g.ack - s.outgoing.sndUna).toInt > 0 ∧ (g.ack - s.outgoing.sndNxt).toInt ≤ 0) :=
      inWindow
    rw [if_neg inWindow, if_neg mine]
    rfl
  rw [hear, state]
  simp only [handleEstablished, noRst, Bool.false_eq_true, if_false]
  rw [← receive_withOutgoing, ← acked, receive]
  split <;> rfl

theorem sub_add_toInt {a : Seq} {d : Nat} (small : d < 2 ^ 31) :
    (a - (a + BitVec.ofNat 32 d)).toInt = -(d : Int) := by
  rw [BitVec.toInt_eq_toNat_cond, BitVec.toNat_sub, BitVec.toNat_add, BitVec.toNat_ofNat]
  split <;> omega

theorem add_sub_toInt {a : Seq} {d : Nat} (small : d < 2 ^ 31) :
    (a + BitVec.ofNat 32 d - a).toInt = d := by
  rw [BitVec.toInt_eq_toNat_cond, BitVec.toNat_sub, BitVec.toNat_add, BitVec.toNat_ofNat]
  split <;> omega

theorem sent_cons {n : Nat} {delivered : List Bool}
    (sent : ∀ j < n + 1, delivered[j]? ≠ some false) :
    delivered.head? ≠ some false ∧ ∀ j < n, delivered.tail[j]? ≠ some false := by
  refine ⟨?_, fun j low => ?_⟩
  · rw [head?_eq_getElem?]
    exact sent 0 (by omega)
  · rw [getElem?_tail]
    exact sent (j + 1) (by omega)

namespace Outgoing

structure Behind (a : Seq) (room : Nat) (x : Outgoing) : Prop where
  news : 0 < (a - x.sndUna).toInt
  sent : ∃ d, x.sndNxt = a + BitVec.ofNat 32 d ∧ d + room < 2 ^ 31

variable {a : Seq} {room : Nat} {x : Outgoing} {chunk : List Byte} {now : Nat}

theorem Behind.accepted (behind : Behind a room x) :
    (a - x.sndUna).toInt > 0 ∧ (a - x.sndNxt).toInt ≤ 0 := by
  obtain ⟨d, next, small⟩ := behind.sent
  refine ⟨behind.news, ?_⟩
  rw [next, sub_add_toInt (by omega)]
  omega

@[simp] theorem ack_sndNxt (x : Outgoing) (a : Seq) : (x.ack a).sndNxt = x.sndNxt := by
  unfold ack
  split_ifs <;> rfl

theorem Behind.ack_eq (behind : Behind a room x) :
    ∃ buf count, x.ack a = { x with sndUna := a, retxBuf := buf, retxCount := count } := by
  rw [ack, if_pos behind.accepted]
  split
  · exact ⟨_, _, rfl⟩
  · exact ⟨_, _, rfl⟩

section
variable (behind : Behind a (chunk.length + room) x)
include behind

theorem Behind.send : Behind a room (x.send chunk now) := by
  obtain ⟨d, next, small⟩ := behind.sent
  refine ⟨behind.news, d + chunk.length, ?_, by omega⟩
  rw [Outgoing.send, stash, advance, next, BitVec.ofNat_add, BitVec.add_assoc]

theorem Behind.ack_send (some_bytes : 0 < chunk.length) :
    (x.send chunk now).ack a = { x.send chunk now with sndUna := a } := by
  obtain ⟨d, distance, small⟩ := behind.sent
  have uncovered : (a - (x.sndNxt + BitVec.ofNat 32 chunk.length)).toInt < 0 := by
    rw [distance, BitVec.add_assoc, ← BitVec.ofNat_add, sub_add_toInt (by omega)]
    omega
  have next : Behind a room (x.send chunk now) := behind.send
  rw [ack, if_pos next.accepted, if_neg]
  rintro ⟨-, covers⟩
  exact absurd covers (not_le.2 uncovered)

theorem Behind.send_ack (some_bytes : 0 < chunk.length) :
    (x.ack a).send chunk now = (x.send chunk now).ack a := by
  obtain ⟨_, _, acked⟩ := behind.ack_eq
  rw [behind.ack_send some_bytes, acked]
  rfl

theorem Behind.advance : Behind a room (x.advance chunk.length) :=
  have sent : Behind a room (x.send chunk 0) := behind.send
  ⟨sent.news, sent.sent⟩

theorem Behind.stash_ack (some_bytes : 0 < chunk.length) :
    ((x.advance chunk.length).ack a).stash x.sndNxt chunk now = (x.send chunk now).ack a := by
  obtain ⟨_, _, acked⟩ := behind.advance.ack_eq
  rw [behind.ack_send some_bytes, acked]
  rfl

end

theorem ack_ahead (ahead : 0 < (a - x.sndNxt).toInt) : x.ack a = x := by
  rw [ack, if_neg]
  rintro ⟨-, sent⟩
  exact absurd sent (not_le.2 ahead)

theorem Behind.ack_sndUna (behind : Behind a room x) : (x.ack a).sndUna = a := by
  obtain ⟨_, _, acked⟩ := behind.ack_eq
  rw [acked]

theorem sendAll_sndUna (x : Outgoing) (now : Nat) (chunks : List (List Byte))
    (delivered : List Bool) :
    (x.sendAll now chunks delivered).sndUna = x.sndUna := by
  induction chunks generalizing delivered x with
  | nil => rfl
  | cons _ _ ih =>
    rw [sendAll]
    split
    · rfl
    · exact ih _ _

theorem Behind.after {chunks : List (List Byte)} (delivered : List Bool)
    (behind : Behind a chunks.flatten.length x) : Behind a 0 (x.sendAll now chunks delivered) := by
  induction chunks generalizing delivered x with
  | nil => exact behind
  | cons chunk rest ih =>
    rw [flatten_cons, length_append] at behind
    rw [Outgoing.sendAll]
    split
    · obtain ⟨d, distance, small⟩ := behind.sent
      exact ⟨behind.news, d, distance, by omega⟩
    · exact ih _ behind.send

theorem sendAll_append (x : Outgoing) (now : Nat) {before : List (List Byte)}
    (rest : List (List Byte)) {delivered : List Bool}
    (sent : ∀ j < before.length, delivered[j]? ≠ some false) :
    x.sendAll now (before ++ rest) delivered =
        (x.sendAll now before delivered).sendAll now rest (delivered.drop before.length) ∧
      (x.sendAll now before delivered).sndNxt =
        x.sndNxt + BitVec.ofNat 32 before.flatten.length := by
  induction before generalizing delivered x with
  | nil => exact ⟨rfl, by simp [sendAll]⟩
  | cons chunk before ih =>
    obtain ⟨first, others⟩ := sent_cons sent
    obtain ⟨all, next⟩ := ih (x.send chunk now) others
    rw [drop_tail] at all
    rw [cons_append, sendAll, sendAll, if_neg first, if_neg first]
    refine ⟨all, ?_⟩
    rw [next, flatten_cons, length_append, BitVec.ofNat_add, ← BitVec.add_assoc]
    rfl

theorem Behind.sendAll_ack {chunks : List (List Byte)} (filled : ∀ c ∈ chunks, 0 < c.length)
    (delivered : List Bool) (behind : Behind a chunks.flatten.length x) :
    sendAll now chunks delivered (x.ack a) = (sendAll now chunks delivered x).ack a := by
  induction chunks generalizing delivered x with
  | nil => rfl
  | cons chunk _ ih =>
    rw [flatten_cons, length_append] at behind
    rw [sendAll, sendAll]
    split
    · rfl
    · rw [behind.send_ack (filled chunk (by simp))]
      exact ih (fun c mem => filled c (by simp [mem])) _ behind.send

theorem Behind.cleared (behind : Behind a room (x.send chunk now))
    (seq : a = x.sndNxt + BitVec.ofNat 32 chunk.length) (some_bytes : 0 < chunk.length) :
    ((x.send chunk now).ack a).retxBuf = [] := by
  have covers : (x.send chunk now).retxBuf.length > 0 ∧ (a - ((x.send chunk now).retxSeq +
        BitVec.ofNat 32 (x.send chunk now).retxBuf.length)).toInt ≥ 0 := by
    refine ⟨some_bytes, ?_⟩
    rw [seq]
    simp [Outgoing.send, stash]
  rw [ack, if_pos behind.accepted, if_pos covers]

theorem Behind.kept_iff {rest : List (List Byte)} (filled : ∀ c ∈ rest, 0 < c.length)
    (delivered : List Bool) (behind : Behind a rest.flatten.length (x.send chunk now))
    (seq : a = x.sndNxt + BitVec.ofNat 32 chunk.length) (some_bytes : 0 < chunk.length) :
    sendAll now rest delivered { x.send chunk now with sndUna := a } =
        (sendAll now rest delivered (x.send chunk now)).ack a ↔
      rest ≠ [] ∧ delivered.head? ≠ some false := by
  have kept : { x.send chunk now with sndUna := a } ≠ (x.send chunk now).ack a := by
    intro same
    have empty := behind.cleared seq some_bytes
    rw [← same] at empty
    have empty : chunk = [] := empty
    simp [empty] at some_bytes
  cases rest with
  | nil => exact iff_of_false kept (by simp)
  | cons c rest =>
    rw [sendAll, sendAll]
    by_cases fail : delivered.head? = some false
    · rw [if_pos fail, if_pos fail]
      exact iff_of_false kept (by simp [fail])
    rw [if_neg fail, if_neg fail]
    refine iff_of_true ?_ ⟨by simp, fail⟩
    rw [flatten_cons, length_append] at behind
    have filled' : ∀ c ∈ rest, 0 < c.length := fun c mem => filled c (by simp [mem])
    rw [← behind.send.sendAll_ack filled', behind.ack_send (filled c (by simp))]
    rfl

end Outgoing

theorem toChunks_go {α : Type} (n : Nat) (xs : List α) (acc₁ : Array α) (acc₂ : Array (List α)) :
    (List.toChunks.go n xs acc₁ acc₂).flatten = acc₂.toList.flatten ++ acc₁.toList ++ xs := by
  induction xs generalizing acc₁ acc₂ with
  | nil => simp [List.toChunks.go]
  | cons _ _ ih =>
    rw [List.toChunks.go]
    split
    · simp [ih]
    · simp [ih]

theorem filled_push {α : Type} {acc₁ : Array α} {acc₂ : Array (List α)}
    (filled : ∀ c ∈ acc₂.toList, 0 < c.length) (pending : 0 < acc₁.size) :
    ∀ c ∈ (acc₂.push acc₁.toList).toList, 0 < c.length := by
  intro c mem
  rw [Array.toList_push, mem_append, mem_singleton] at mem
  rcases mem with mem | rfl
  · exact filled c mem
  · simpa using pending

theorem toChunks_go_filled {α : Type} (n : Nat) (xs : List α) (acc₁ : Array α)
    (acc₂ : Array (List α)) (pending : 0 < acc₁.size) (filled : ∀ c ∈ acc₂.toList, 0 < c.length) :
    ∀ c ∈ List.toChunks.go n xs acc₁ acc₂, 0 < c.length := by
  induction xs generalizing acc₁ acc₂ with
  | nil => exact filled_push filled pending
  | cons _ _ ih =>
    rw [List.toChunks.go]
    split
    · exact ih _ _ (by simp) (filled_push filled pending)
    · exact ih _ _ (by simp) filled

theorem toChunks_flatten (buf : List Byte) : (buf.toChunks 1400).flatten = buf := by
  cases buf with
  | nil => rfl
  | cons x xs =>
    rw [toChunks, toChunks_go]
    · simp
    · decide

theorem toChunks_filled (buf : List Byte) : ∀ c ∈ buf.toChunks 1400, 0 < c.length := by
  cases buf with
  | nil => simp [toChunks]
  | cons => exact toChunks_go_filled _ _ _ _ (by simp) (by simp)

end Osnos.Net
