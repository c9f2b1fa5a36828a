import Osnos.Net.Move

/-! What a segment can do to the connection it is for, and the timer to a slot. -/
namespace Osnos.Net

namespace Sock

def stores (s : Sock) (g : Segment) : List Byte :=
  if g.payload.length > 0 ∧ g.seq = s.rcvNxt then g.payload.take (32768 - s.tcpRx.count) else []

def Receives (s : Sock) : Prop :=
  s.tcpState = .established ∨ s.tcpState = .finWait1 ∨ s.tcpState = .finWait2

def Live (s : Sock) : Prop :=
  s.Receives ∨ s.tcpState = .synRcvd ∨ s.tcpState = .closeWait ∨ s.tcpState = .lastAck ∨
    s.tcpState = .closing

instance (s : Sock) : Decidable s.Receives := inferInstanceAs (Decidable (_ ∨ _))
instance (s : Sock) : Decidable s.Live := inferInstanceAs (Decidable (_ ∨ _))

def Breaks (s : Sock) (g : Segment) : Prop :=
  g.flags.rst = true ∧ (s.Live ∨ s.tcpState = .synSent) ∨
    s.tcpState = .synSent ∧ (g.flags.syn = true ∧ g.flags.ack = true) ∧ g.ack ≠ s.sndNxt

instance (s : Sock) (g : Segment) : Decidable (s.Breaks g) := inferInstanceAs (Decidable (_ ∨ _))

theorem not_breaks {s : Sock} {g : Segment} (noRst : g.flags.rst = false)
    (other : s.tcpState ≠ .synSent) : ¬ s.Breaks g := by
  rintro (⟨rst, _⟩ | ⟨state, _⟩)
  · cases rst.symm.trans noRst
  · exact other state

structure Taken (s : Sock) (g : Segment) (s' : Sock) : Prop where
  receives : s.Receives
  noRst : g.flags.rst = false
  state : s'.tcpState = s.tcpState ∨ s.tcpState = .finWait1 ∧ s'.tcpState = .finWait2
  rest : s' = { s with
    sndUna := s'.sndUna, retxBuf := s'.retxBuf, retxCount := s'.retxCount
    tcpState := s'.tcpState, tcpRx := s'.tcpRx
    rcvNxt := s.rcvNxt + BitVec.ofNat 32 (s.stores g).length }
  ring : s'.tcpRx.contents = s.tcpRx.contents ++ s.stores g

end Sock

inductive Hears (s : Sock) (g : Segment) : Sock → Prop
  | ignored (deaf : ¬ s.Receives) (unbroken : ¬ s.Breaks g) : Hears s g s
  | refused (state : s.tcpState = .synSent) (rst : g.flags.rst = true) :
      Hears s g { s with tcpState := .closed, remoteIp := 0, remotePort := 0 }
  | mismatched (state : s.tcpState = .synSent) (noRst : g.flags.rst = false)
      (synAck : g.flags.syn = true ∧ g.flags.ack = true) (wrong : g.ack ≠ s.sndNxt) :
      Hears s g { s with tcpState := .closed }
  | opened (state : s.tcpState = .synSent) (noRst : g.flags.rst = false)
      (synAck : g.flags.syn = true ∧ g.flags.ack = true) (right : g.ack = s.sndNxt) :
      Hears s g { s with sndUna := g.ack, rcvNxt := g.seq + 1, tcpState := .established }
  | crossed (state : s.tcpState = .synSent) (noRst : g.flags.rst = false)
      (syn : g.flags.syn = true) (noAck : g.flags.ack = false) :
      Hears s g { s with rcvNxt := g.seq + 1, tcpState := .synRcvd }
  | completed (completes : Completes s g) :
      Hears s g { s with sndUna := g.ack, tcpState := .established }
  | reset (live : s.Live) (rst : g.flags.rst = true) : Hears s g s.reset
  | received (s' : Sock) (taken : s.Taken g s') : Hears s g s'
  | fin (s' : Sock) (taken : s.Taken g s') (inOrder : s'.finInOrder g = true)
      (state : s.tcpState = .established) :
      Hears s g { s'.takeFin with tcpState := .closeWait }
  | finLast (s' : Sock) (taken : s.Taken g s') (inOrder : s'.finInOrder g = true)
      (state : s.tcpState ≠ .established) : Hears s g s'.takeFin.finish
  | acked (state : s.tcpState = .lastAck ∨ s.tcpState = .closing) (noRst : g.flags.rst = false) :
      Hears s g s.finish

namespace Sock
variable (s : Sock) (g : Segment)

theorem acceptAck_eq : ∃ u b n, s.acceptAck g = { s with sndUna := u, retxBuf := b, retxCount := n } := by
  unfold acceptAck
  split
  · dsimp only
    split
    all_goals exact ⟨_, _, _, rfl⟩
  · exact ⟨_, _, _, rfl⟩

theorem acceptData_eq : ∃ q : Ring Byte 32768, q.contents = s.tcpRx.contents ++ s.stores g ∧
      (s.acceptData g).1 =
        { s with tcpRx := q, rcvNxt := s.rcvNxt + BitVec.ofNat 32 (s.stores g).length } := by
  unfold acceptData stores
  split
  · exact ⟨_, s.tcpRx.enqueue_contents g.payload, rfl⟩
  · exact ⟨s.tcpRx, by simp, by simp⟩

theorem established_taken (state : s.tcpState = .established) (noRst : g.flags.rst = false) :
    s.Taken g ((s.acceptAck g).acceptData g).1 := by
  obtain ⟨u, b, n, acked⟩ := s.acceptAck_eq g
  obtain ⟨q, ring, data⟩ := (s.acceptAck g).acceptData_eq g
  rw [data, acked] at *
  exact ⟨.inl state, noRst, .inl rfl, rfl, ring⟩

def acked1 (s : Sock) (g : Segment) : Sock :=
  if g.flags.ack ∧ g.ack = (s.acceptData g).1.sndNxt then
    { (s.acceptData g).1 with sndUna := g.ack, tcpState := .finWait2 }
  else (s.acceptData g).1

theorem finWait1_taken (state : s.tcpState = .finWait1) (noRst : g.flags.rst = false) :
    s.Taken g (s.acked1 g) := by
  obtain ⟨q, ring, data⟩ := s.acceptData_eq g
  unfold acked1
  split
  · rw [data]
    exact ⟨.inr (.inl state), noRst, .inr ⟨state, rfl⟩, rfl, ring⟩
  · rw [data]
    exact ⟨.inr (.inl state), noRst, .inl rfl, rfl, ring⟩

theorem finWait2_taken (state : s.tcpState = .finWait2) (noRst : g.flags.rst = false) :
    s.Taken g (s.acceptData g).1 := by
  obtain ⟨q, ring, data⟩ := s.acceptData_eq g
  rw [data]
  exact ⟨.inr (.inr state), noRst, .inl rfl, rfl, ring⟩

theorem handleEstablished_hears (state : s.tcpState = .established) :
    Hears s g (s.handleEstablished g).1 := by
  unfold handleEstablished
  split
  next rst =>
    exact .reset (.inl (.inl state)) rst
  rename_i noRst
  have taken := s.established_taken g state (by simpa using noRst)
  dsimp only
  split
  next inOrder =>
    exact .fin _ taken inOrder state
  · exact .received _ taken

theorem handleFinWait1_eq : s.handleFinWait1 g =
    if g.flags.rst then (s.reset, [])
    else if (s.acked1 g).finInOrder g then
      ((s.acked1 g).takeFin.finish, (s.acceptData g).2 ++ [(s.acked1 g).takeFin.emitAck])
    else (s.acked1 g, (s.acceptData g).2) := rfl

theorem handleFinWait1_hears (state : s.tcpState = .finWait1) : Hears s g (s.handleFinWait1 g).1 := by
  rw [handleFinWait1_eq]
  split
  next rst =>
    exact .reset (.inl (.inr (.inl state))) rst
  rename_i noRst
  have taken := s.finWait1_taken g state (by simpa using noRst)
  split
  next inOrder =>
    exact .finLast _ taken inOrder (by rw [state]; decide)
  · exact .received _ taken

theorem handleFinWait2_hears (state : s.tcpState = .finWait2) : Hears s g (s.handleFinWait2 g).1 := by
  unfold handleFinWait2
  split
  next rst =>
    exact .reset (.inl (.inr (.inr state))) rst
  rename_i noRst
  have taken := s.finWait2_taken g state (by simpa using noRst)
  dsimp only
  split
  next inOrder =>
    exact .finLast _ taken inOrder (by rw [state]; decide)
  · exact .received _ taken

theorem handleSynSent_hears (state : s.tcpState = .synSent) : Hears s g (s.handleSynSent g).1 := by
  unfold handleSynSent
  split
  next rst =>
    exact .refused state rst
  rename_i noRst
  have noRst : g.flags.rst = false := by simpa using noRst
  split
  next synAck =>
    split
    next wrong =>
      exact .mismatched state noRst synAck wrong
    next right =>
      exact .opened state noRst synAck (by simpa using right)
  rename_i notBoth
  split
  next syn =>
    exact .crossed state noRst syn (by simpa [syn] using notBoth)
  refine .ignored (by simp [Receives, state]) ?_
  rintro (⟨rst, _⟩ | ⟨_, both, _⟩)
  · cases rst.symm.trans noRst
  · exact notBoth both

theorem handleLastAck_hears (state : s.tcpState = .lastAck ∨ s.tcpState = .closing) :
    Hears s g (s.handleLastAck g).1 := by
  unfold handleLastAck
  split
  next rst =>
    exact .reset (.inr (.inr (.inr state))) rst
  rename_i noRst
  have noRst : g.flags.rst = false := by simpa using noRst
  split
  · exact .acked state noRst
  · rcases state with state | state <;>
      exact .ignored (by simp [Receives, state]) (not_breaks noRst (by simp [state]))

theorem hear_hears : Hears s g (s.hear g) := by
  unfold hear
  cases state : s.tcpState with
  | synSent => exact s.handleSynSent_hears g state
  | established => exact s.handleEstablished_hears g state
  | finWait1 => exact s.handleFinWait1_hears g state
  | finWait2 => exact s.handleFinWait2_hears g state
  | lastAck => exact s.handleLastAck_hears g (.inl state)
  | closing => exact s.handleLastAck_hears g (.inr state)
  | listen | closed | timeWait =>
    exact .ignored (by simp [Receives, state]) (by simp [Breaks, Live, Receives, state])
  | closeWait =>
    dsimp only
    split
    next rst =>
      exact .reset (.inr (.inr (.inl state))) rst
    rename_i noRst
    exact .ignored (by simp [Receives, state])
      (not_breaks (by simpa using noRst) (by simp [state]))
  | synRcvd =>
    dsimp only
    split
    next rst =>
      exact .reset (.inr (.inl state)) rst
    rename_i noRst
    split
    next acks =>
      exact .completed ⟨state, by simpa using noRst, acks⟩
    · exact .ignored (by simp [Receives, state])
        (not_breaks (by simpa using noRst) (by simp [state]))

end Sock

theorem Table.handleSegment_hear {t : Table} {g : Segment} {i : Sd} (now : Nat)
    (found : t.lookup g = some i) (connection : (t.socks i).tcpState ≠ .listen) :
    (t.handleSegment g now).socks i = (t.socks i).hear g := by
  unfold handleSegment
  rw [found]
  cases state : (t.socks i).tcpState with
  | listen => exact absurd state connection
  | synRcvd =>
    dsimp only
    rw [handleSynRcvd, Sock.hear, state]
    dsimp only
    split
    · simp
    split
    · unfold enlist
      split
      · simp
      dsimp only
      split
      next p _ open_ =>
        have other : i ≠ p := by
          rintro rfl
          simp at open_
        simp [other]
      · simp
    · rfl
  | closeWait =>
    dsimp only
    rw [Sock.hear, state]
    dsimp only
    split
    · simp
    · rfl
  | _ => simp [Sock.hear, state, put_socks]

theorem Table.handleSegment_reset {t : Table} {g : Segment} {i : Sd} (now : Nat)
    (found : t.lookup g = some i) (live : (t.socks i).Live) (rst : g.flags.rst) :
    (t.handleSegment g now).socks = (t.edit i Sock.reset).socks := by
  unfold handleSegment
  rw [found]
  rcases live with (h | h | h) | h | h | h | h <;>
    simp [h, rst, put, Sock.handleEstablished, Sock.handleFinWait1, Sock.handleFinWait2,
      Sock.handleLastAck, handleSynRcvd]

inductive Ticks (s : Sock) (now : Nat) : Sock → Prop
  | idle : Ticks s now s
  | dropped (used : s.used = true) : Ticks s now { s with retxBuf := [] }
  | resent (used : s.used = true) :
      Ticks s now { s with retxSentMs := now, retxCount := s.retxCount + 1 }
  | gaveUp (used : s.used = true) (stream : s.type = .stream) (pending : s.retxBuf ≠ [])
      (opened : s.tcpState ≠ .closed) (tried : 5 ≤ s.retxCount) :
      Ticks s now { s with retxBuf := [] }.finish

theorem Sock.tick_ticks (s : Sock) (now : Nat) : Ticks s now (s.tick now).1 := by
  unfold tick
  split
  · exact .idle
  rename_i used
  have used : s.used := by simpa using used
  split
  · exact .idle
  rename_i stream
  split
  · exact .idle
  rename_i pending
  split
  · exact .dropped used
  rename_i opened
  split
  · exact .dropped used
  split
  · exact .idle
  split
  next tried =>
    exact .gaveUp used (by simpa using stream) pending opened tried
  · exact .resent used

end Osnos.Net
