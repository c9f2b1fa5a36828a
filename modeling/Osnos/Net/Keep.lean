import Osnos.Net.Hear

/-! What a socket keeps as long as it lives, and how a slot is taken and freed. -/
namespace Osnos.Net
open Bool Sock

theorem Sock.finish_state (s : Sock) : s.finish.tcpState = .closed := by
  unfold finish
  split <;> rfl

variable {c : Call} {i : Sd} {g : Segment} {s' : Sock} {t : Table}

theorem Sock.Taken.keeps {s : Sock} (taken : s.Taken g s') :
    s'.used = s.used ∧ s'.type = s.type ∧ s'.parentSd = s.parentSd ∧ s'.zombie = s.zombie ∧
      s'.peerFin = s.peerFin ∧ s'.acceptQ = s.acceptQ ∧ s'.localPort = s.localPort := by
  rw [taken.rest]
  simp

theorem Sock.Taken.receiving {s : Sock} (taken : s.Taken g s') : s'.Receives := by
  rcases taken.state with same | ⟨_, now⟩
  · unfold Receives
    rw [same]
    exact taken.receives
  · exact .inr (.inr now)

namespace Sock
variable (s : Sock)

@[simp] theorem finish_type : s.finish.type = s.type := by
  unfold finish
  split <;> rfl

@[simp] theorem finish_acceptQ : s.finish.acceptQ = s.acceptQ := by
  unfold finish
  split <;> rfl

theorem finish_used {s : Sock} (stays : s.finish.used) :
    s.zombie = false ∧ s.finish = { s with tcpState := .closed } := by
  unfold finish at stays ⊢
  cases zombie : s.zombie with
  | true => simp [zombie] at stays
  | false => simp

theorem finish_gone {s r : Sock} (zombie : s.zombie) (stays : r.finish.used)
    (same : r.zombie = s.zombie) : False := by
  have mine := (finish_used stays).1
  rw [same, zombie] at mine
  cases mine

theorem finish_freed {s : Sock} (used : s.used) (freed : s.finish.used = false) :
    s.zombie = true := by
  unfold finish at freed
  cases zombie : s.zombie with
  | true => rfl
  | false => simp [zombie, used] at freed

theorem reset_used {s : Sock} (used : s.used) : s.reset.used = !s.zombie := by
  unfold reset
  cases s.zombie with
  | true => simp
  | false => split_ifs <;> simp_all

theorem reset_kept {s : Sock} (mine : s.zombie = false) :
    s.reset.type = s.type ∧ s.reset.parentSd = s.parentSd ∧ s.reset.localPort = s.localPort ∧
      s.reset.zombie = false ∧ s.reset.acceptQ = s.acceptQ := by
  unfold reset
  simp only [mine, false_eq_true, if_false]
  split_ifs <;> simp [mine]

end Sock

structure Kept (c : Call) (i : Sd) (s s' : Sock) : Prop where
  type : s'.type = s.type
  parent : s'.parentSd = s.parentSd
  port : s.localPort ≠ 0 → s'.localPort = s.localPort
  zombie : s'.zombie = s.zombie ∨
    c = .close i ∧ s'.tcpState ≠ .listen ∧ s'.tcpState ≠ .closed ∧ s'.zombie = true

theorem Hears.kept {s : Sock} (c : Call) (i : Sd) (hears : Hears s g s')
    (used : s.used) (stays : s'.used) : Kept c i s s' := by
  cases hears with
  | reset =>
    rw [reset_used used, not_eq_true'] at stays
    obtain ⟨type, parent, port, zombie, _⟩ := reset_kept stays
    exact ⟨type, parent, fun _ => port, .inl (zombie.trans stays.symm)⟩
  | received _ taken | fin _ taken =>
    obtain ⟨_, type, parent, zombie, _, _, port⟩ := taken.keeps
    exact ⟨type, parent, fun _ => port, .inl zombie⟩
  | finLast _ taken =>
    obtain ⟨_, type, parent, zombie, _, _, port⟩ := taken.keeps
    obtain ⟨_, now⟩ := finish_used stays
    rw [now]
    exact ⟨type, parent, fun _ => port, .inl zombie⟩
  | acked =>
    obtain ⟨_, now⟩ := finish_used stays
    rw [now]
    exact ⟨rfl, rfl, fun _ => rfl, .inl rfl⟩
  | _ => exact ⟨rfl, rfl, fun _ => rfl, .inl rfl⟩

theorem Ticks.kept {s : Sock} {now : Nat} (c : Call) (i : Sd) (ticks : Ticks s now s')
    (stays : s'.used) : Kept c i s s' := by
  cases ticks with
  | gaveUp =>
    obtain ⟨_, now⟩ := finish_used stays
    rw [now]
    exact ⟨rfl, rfl, fun _ => rfl, .inl rfl⟩
  | _ => exact ⟨rfl, rfl, fun _ => rfl, .inl rfl⟩

theorem Move.kept (move : Move t c i s')
    (used : (t.socks i).used) (stays : s'.used) : Kept c i (t.socks i) s' := by
  cases move with
  | create _ free | child _ _ _ free =>
    rw [used] at free
    cases free
  | bind _ _ _ unbound => exact ⟨rfl, rfl, fun bound => absurd unbound bound, .inl rfl⟩
  | connectUdp _ _ _ _ _ _ _ bound => exact ⟨rfl, rfl, bound, .inl rfl⟩
  | connect _ _ _ _ _ _ delivered _ _ _ _ _ _ bound =>
    cases delivered <;> exact ⟨rfl, rfl, bound, .inl rfl⟩
  | close _ _ call =>
    unfold Sock.close at stays ⊢
    cases state : (t.socks i).tcpState with
    | listen | closed => simp [state] at stays
    | _ => exact ⟨rfl, rfl, fun _ => rfl, .inr ⟨call, by simp, by simp, rfl⟩⟩
  | hear g => exact ((t.socks i).hear_hears g).kept c i used stays
  | tick now => exact ((t.socks i).tick_ticks now).kept c i stays
  | drop => cases stays
  | _ => exact ⟨rfl, rfl, fun _ => rfl, .inl rfl⟩

theorem Move.freed (move : Move t c i s')
    (used : (t.socks i).used) (freed : s'.used = false) :
    (t.socks i).zombie = true ∨ c = .close i := by
  cases move with
  | hear g =>
    have hears := (t.socks i).hear_hears g
    generalize (t.socks i).hear g = s' at hears freed
    cases hears with
    | reset =>
      rw [reset_used used] at freed
      exact .inl (by simpa using freed)
    | received _ taken =>
      rw [taken.keeps.1, used] at freed
      cases freed
    | fin _ taken =>
      have freed : _ = false := taken.keeps.1.symm.trans freed
      cases used.symm.trans freed
    | finLast s₁ taken =>
      have zombie : s₁.takeFin.zombie := finish_freed (taken.keeps.1.trans used) freed
      exact .inl (taken.keeps.2.2.2.1 ▸ zombie)
    | acked => exact .inl (finish_freed used freed)
    | _ => cases used.symm.trans freed
  | tick now =>
    have ticks := (t.socks i).tick_ticks now
    generalize ((t.socks i).tick now).1 = s' at ticks freed
    cases ticks with
    | gaveUp =>
      have zombie : ({ t.socks i with retxBuf := [] } : Sock).zombie = true :=
        finish_freed used freed
      exact .inl zombie
    | _ => cases used.symm.trans freed
  | close _ _ call | drop _ _ call => exact .inr call
  | create _ free | child _ _ _ free => cases used.symm.trans free
  | connect _ _ _ _ _ _ delivered =>
    cases delivered <;> cases used.symm.trans freed
  | _ => cases used.symm.trans freed

theorem Move.born (move : Move t c i s') (free : (t.socks i).used = false) (made : s'.used) :
    (∃ type, c = .create type ∧
      (s' = (t.socks i).create type ∨ s' = (t.socks i).createRaw ∧ type = .raw)) ∨
    ∃ g now parent, c = .segment g now ∧ t.lookup g = some parent ∧
      (t.socks parent).tcpState = .listen ∧ s' = (t.socks i).spawned i parent g now := by
  have dead : (t.socks i).used ≠ true := by simp [free]
  cases move with
  | create type _ call _ how => exact .inl ⟨type, call, how⟩
  | child g now parent _ call found listener => exact .inr ⟨g, now, parent, call, found, listener, rfl⟩
  | hear g _ _ found => exact absurd (t.lookup_heard found).used dead
  | tick time =>
    have ticks := (t.socks i).tick_ticks time
    generalize ((t.socks i).tick time).1 = s' at ticks made
    cases ticks with
    | idle => exact absurd made dead
    | dropped used | resent used | gaveUp used => exact absurd used dead
  | same => exact absurd made dead
  | bind _ _ used | listen _ _ used | connectUdp _ _ _ _ used | connect _ _ _ _ _ _ _ used
  | accept _ _ _ used | datagrams _ used | recv _ used | send _ _ _ _ used | close used
  | drop used | enlist _ _ _ _ _ _ _ used => exact absurd used dead

theorem Hears.acceptQ {s : Sock} (hears : Hears s g s') (used : s.used)
    (stays : s'.used) : s'.acceptQ = s.acceptQ := by
  cases hears with
  | reset =>
    rw [reset_used used, not_eq_true'] at stays
    exact (reset_kept stays).2.2.2.2
  | received _ taken | fin _ taken => exact taken.keeps.2.2.2.2.2.1
  | finLast _ taken =>
    rw [finish_acceptQ]
    exact taken.keeps.2.2.2.2.2.1
  | acked => exact s.finish_acceptQ
  | _ => rfl

theorem Move.queue (move : Move t c i s')
    (used : (t.socks i).used) (stays : s'.used) :
    s'.acceptQ = (t.socks i).acceptQ ∨
    (∃ interrupted child q, c = .accept i interrupted ∧ (t.socks i).tcpState = .listen ∧
      (t.socks i).acceptQ.pop = some (child, q) ∧ s'.acceptQ = q) ∨
    ∃ g now child, c = .segment g now ∧ t.lookup g = some child ∧
      Completes (t.socks child) g ∧ (t.socks child).parentSd = some i ∧
      (t.socks i).tcpState = .listen ∧ (t.socks i).acceptQ.count < 4 ∧
      s'.acceptQ = (t.socks i).acceptQ.push child := by
  cases move with
  | accept interrupted child q _ listener popped call =>
    exact .inr (.inl ⟨interrupted, child, q, call, listener, popped, rfl⟩)
  | enlist g now child call found completes parent _ listener room =>
    exact .inr (.inr ⟨g, now, child, call, found, completes, parent, listener, room, rfl⟩)
  | create _ free | child _ _ _ free => cases used.symm.trans free
  | connect _ _ _ _ _ _ delivered => cases delivered <;> exact .inl rfl
  | hear g => exact .inl (((t.socks i).hear_hears g).acceptQ used stays)
  | tick now =>
    have ticks := (t.socks i).tick_ticks now
    generalize ((t.socks i).tick now).1 = s' at ticks
    cases ticks with
    | gaveUp => exact .inl (finish_acceptQ _)
    | _ => exact .inl rfl
  | close =>
    refine .inl ?_
    unfold Sock.close
    split <;> rfl
  | _ => exact .inl rfl

structure Standalone (s : Sock) : Prop where
  live : s.Live
  mine : s.zombie = false
  orphan : s.parentSd = none

inductive Turn (t : Table) (c : Call) (i : Sd) (s' : Sock) : TcpState → Prop
  | same : Turn t c i s' (t.socks i).tcpState
  | toListen (backlog : Int) (call : c = .listen i backlog) (bound : s'.localPort ≠ 0)
      (stream : (t.socks i).type = .stream) : Turn t c i s' .listen
  | thrown (g : Segment) (now : Nat) (call : c = .segment g now) (found : t.lookup g = some i)
      (rst : g.flags.rst = true) (alone : Standalone (t.socks i)) : Turn t c i s' .listen
  | toClosed : Turn t c i s' .closed
  | toSynSent (ip : Ip) (port : Port) (now : Nat) (call : c = .connect i ip port now true)
      (bound : s'.localPort ≠ 0) : Turn t c i s' .synSent
  | toSynRcvd (before : (t.socks i).tcpState = .synSent) : Turn t c i s' .synRcvd
  | toEstablished (before : (t.socks i).tcpState = .synSent ∨ (t.socks i).tcpState = .synRcvd) :
      Turn t c i s' .established
  | toFinWait1 (before : (t.socks i).tcpState = .established) (call : c = .close i)
      (zombie : s'.zombie = true) : Turn t c i s' .finWait1
  | toFinWait2 (before : (t.socks i).tcpState = .finWait1) : Turn t c i s' .finWait2
  | toCloseWait (before : (t.socks i).tcpState = .established) : Turn t c i s' .closeWait
  | toLastAck (before : (t.socks i).tcpState = .closeWait) (call : c = .close i)
      (zombie : s'.zombie = true) : Turn t c i s' .lastAck

theorem Hears.turn {now : Nat}
    (call : c = .segment g now) (found : t.lookup g = some i) (hears : Hears (t.socks i) g s')
    (stays : s'.used) : Turn t c i s' s'.tcpState := by
  cases hears with
  | ignored => exact .same
  | crossed before => exact .toSynRcvd before
  | opened before => exact .toEstablished (.inl before)
  | completed completes => exact .toEstablished (.inr completes.state)
  | fin _ _ _ before => exact .toCloseWait before
  | refused | mismatched => exact .toClosed
  | finLast | acked =>
    rw [finish_state]
    exact .toClosed
  | received _ taken =>
    rcases taken.state with same | ⟨before, now⟩
    · rw [same]
      exact .same
    · rw [now]
      exact .toFinWait2 before
  | reset live rst =>
    have used := (t.lookup_heard found).used
    rw [reset_used used, not_eq_true'] at stays
    simp only [Sock.reset, stays, false_eq_true, if_false]
    cases parent : (t.socks i).parentSd with
    | some => exact .toClosed
    | none =>
      rw [if_neg (by simp)]
      split
      · exact .thrown g now call found rst ⟨live, stays, parent⟩
      · exact .same

theorem Move.turn (move : Move t c i s')
    (used : (t.socks i).used) (stays : s'.used) : Turn t c i s' s'.tcpState := by
  cases move with
  | create _ free | child _ _ _ free => cases used.symm.trans free
  | listen backlog _ _ stream bound call => exact .toListen backlog call bound stream
  | connect ip _ port _ _ now delivered _ _ _ _ _ call _ named =>
    cases delivered with
    | false => exact .toClosed
    | true => exact .toSynSent ip port now call named
  | close _ _ call =>
    unfold Sock.close
    split
    next before =>
      exact .toFinWait1 before call rfl
    next before =>
      exact .toLastAck before call rfl
    all_goals exact .same
  | hear g _ call found => exact ((t.socks i).hear_hears g).turn call found stays
  | tick now =>
    have ticks := (t.socks i).tick_ticks now
    generalize ((t.socks i).tick now).1 = s' at ticks
    cases ticks with
    | gaveUp =>
      rw [finish_state]
      exact .toClosed
    | _ => exact .same
  | _ => exact .same

end Osnos.Net
