import Osnos.Net.Outgoing
import Osnos.Net.Order

/-! `sock_send` keeps the last segment for the timer in `retx_buf`. Its number, its bytes
and the peer's address are separate fields with different lives. -/
namespace Osnos.Net
open List

namespace Sock
variable (s : Sock) (g : Segment)

@[simp] theorem acceptData_retxBuf : (s.acceptData g).1.retxBuf = s.retxBuf := by
  unfold acceptData
  split <;> rfl

@[simp] theorem finish_retxBuf : s.finish.retxBuf = s.retxBuf := by
  unfold finish
  split <;> rfl

@[simp] theorem reset_retxBuf : s.reset.retxBuf = s.retxBuf := by
  unfold reset
  split_ifs <;> rfl

theorem acceptAck_retxBuf : (s.acceptAck g).retxBuf = s.retxBuf ∨ (s.acceptAck g).retxBuf = [] := by
  unfold acceptAck
  split
  · dsimp only
    split
    · exact .inr rfl
    · exact .inl rfl
  · exact .inl rfl

theorem hear_retxBuf : (s.hear g).retxBuf = s.retxBuf ∨
    s.tcpState = .established ∧ (s.hear g).retxBuf = [] := by
  unfold hear
  split
  · left
    unfold handleSynSent
    split_ifs <;> rfl
  · left
    split_ifs <;> simp
  next state =>
    have acked := s.acceptAck_retxBuf g
    unfold handleEstablished
    split
    · exact .inl s.reset_retxBuf
    dsimp only
    split <;> simpa [takeFin, state] using acked
  · left
    rw [handleFinWait1_eq]
    have same : (s.acked1 g).retxBuf = s.retxBuf := by
      unfold acked1
      split <;> simp
    split_ifs <;> simp [takeFin, same]
  · left
    unfold handleFinWait2
    split
    · exact s.reset_retxBuf
    dsimp only
    split <;> simp [takeFin]
  · left
    split_ifs <;> simp
  · left
    unfold handleLastAck
    split_ifs <;> simp
  · left
    unfold handleLastAck
    split_ifs <;> simp
  all_goals exact .inl rfl

end Sock

def accepts : List (List Byte) → List Bool → List (List Byte)
  | [], _ => []
  | chunk :: rest, delivered =>
    if delivered.head? = some false then [] else chunk :: accepts rest delivered.tail

theorem accepts_leading (chunks : List (List Byte)) (delivered : List Bool) :
    accepts chunks delivered <+: chunks := by
  induction chunks generalizing delivered with
  | nil => exact prefix_rfl
  | cons chunk _ ih =>
    rw [accepts]
    split
    · exact nil_prefix
    · exact (prefix_cons_inj chunk).2 (ih delivered.tail)

theorem flatten_prefix {α : Type} {xs ys : List (List α)} (initial : xs <+: ys) :
    xs.flatten <+: ys.flatten := by
  obtain ⟨_, rfl⟩ := initial
  simp

namespace Table
variable (sd : Sd) (now : Nat) (chunks : List (List Byte)) (t : Table) (delivered : List Bool)

theorem sendLoop_reply (filled : ∀ chunk ∈ chunks, 0 < chunk.length) (sent : Nat) :
    (sendLoop sd now t chunks delivered sent).1 =
      if accepts chunks delivered = [] ∧ chunks ≠ [] ∧ sent = 0 then .error
      else .ok (sent + (accepts chunks delivered).flatten.length) := by
  induction chunks generalizing t delivered sent with
  | nil => simp [sendLoop, accepts]
  | cons chunk rest ih =>
    rw [sendLoop_cons, accepts]
    by_cases failed : delivered.head? = some false
    · rw [if_pos failed, if_pos failed]
      rcases Nat.eq_zero_or_pos sent with rfl | some_sent
      · simp
      · simp [some_sent, Nat.ne_of_gt some_sent]
    have some_bytes := filled chunk (.head _)
    rw [if_neg failed, if_neg failed, ih _ _ fun c mem => filled c (.tail _ mem)]
    rw [if_neg (by omega), if_neg (by simp)]
    simp [Nat.add_assoc]

theorem sendLoop_kept (sent : Nat) :
    (accepts chunks delivered = [] ∧ (sendLoop sd now t chunks delivered sent).2.socks = t.socks) ∨
      ∃ before last, accepts chunks delivered = before ++ [last] ∧
        (sendLoop sd now t chunks delivered sent).2.socks = (t.edit sd fun s =>
          { s with sndNxt := s.sndNxt + BitVec.ofNat 32 (accepts chunks delivered).flatten.length
                   retxSeq := s.sndNxt + BitVec.ofNat 32 before.flatten.length
                   retxBuf := last, retxSentMs := now, retxCount := 0 }).socks := by
  induction chunks generalizing t delivered sent with
  | nil => exact .inl ⟨rfl, rfl⟩
  | cons chunk _ ih =>
    rw [sendLoop_cons, accepts]
    by_cases failed : delivered.head? = some false
    · rw [if_pos failed, if_pos failed]
      exact .inl ⟨rfl, rfl⟩
    rw [if_neg failed, if_neg failed]
    right
    rcases ih (t.stashed sd now chunk) delivered.tail (sent + chunk.length) with
      ⟨none_more, same⟩ | ⟨before, last, took, after⟩
    · refine ⟨[], chunk, by rw [none_more]; rfl, ?_⟩
      rw [same, none_more]
      simp [stashed]
    refine ⟨chunk :: before, last, by rw [took]; rfl, ?_⟩
    rw [after, took]
    simp [stashed, BitVec.ofNat_add, BitVec.add_assoc]

theorem sendLoop_out (sent : Nat) :
    ∃ out, (sendLoop sd now t chunks delivered sent).2.sent = t.sent ++ out ∧
      ∀ (k : Nat) (m : Sent), out[k]? = some m → delivered[k]? ≠ some false →
        m.From (t.socks sd) ∧ ∃ before, before ++ [m.payload] <+: accepts chunks delivered ∧
          m.seq = (t.socks sd).sndNxt + BitVec.ofNat 32 before.flatten.length := by
  induction chunks generalizing t delivered sent with
  | nil => exact ⟨[], by simp [sendLoop], nofun⟩
  | cons chunk rest ih =>
    rw [sendLoop_cons, accepts]
    by_cases failed : delivered.head? = some false
    · rw [if_pos failed, if_pos failed]
      refine ⟨[_], rfl, fun k m here ok => ?_⟩
      cases k with
      | zero => exact absurd (head?_eq_getElem? ▸ failed) ok
      | succ => simp at here
    rw [if_neg failed, if_neg failed]
    obtain ⟨out, log, all⟩ := ih (t.stashed sd now chunk) delivered.tail (sent + chunk.length)
    refine ⟨_ :: out, log.trans (by simp [stashed]; rfl), fun k m here ok => ?_⟩
    cases k with
    | zero =>
      cases here
      exact ⟨⟨rfl, rfl, rfl⟩, [], by simp [Sock.segment], by simp [Sock.segment]⟩
    | succ k =>
      obtain ⟨mine, before, within, seq⟩ := all k m here (by rwa [getElem?_tail])
      simp only [stashed, edit_socks, emit_socks, Function.update_self] at mine seq
      refine ⟨{ mine with }, chunk :: before, ?_, ?_⟩
      · exact (prefix_cons_inj chunk).2 within
      · rw [seq]
        simp [BitVec.ofNat_add, BitVec.add_assoc]

end Table

end Osnos.Net
