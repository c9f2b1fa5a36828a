import Osnos.Net.Listener

/-! Which sockets `sock_accept` returns. -/
namespace Osnos.Net
open Sock Table

/-- The past of the sockets: how many a slot has held, the listener (slot and age) whose SYN
made the present one, whether it completed its handshake and whether an accept returned it. -/
structure Lineage where
  age : Sd → Nat
  origin : Sd → Option (Sd × Nat)
  completed : Sd → Bool
  returned : Sd → Bool
  /-- An accept returned a socket it should not have. -/
  wrong : Bool

def accepted (c : Call) (a : Answer) : Option (Sd × Nat) :=
  match c, a.reply with
  | .accept sd _, .ok n => some (sd, n)
  | _, _ => none

structure Rightful (w : World) (h : Lineage) (l x : Sd) : Prop where
  used : (w.table.socks x).used = true
  origin : h.origin x = some (l, h.age l)
  port : (w.table.socks x).localPort = (w.table.socks l).localPort
  completed : h.completed x = true
  fresh : h.returned x = false

instance (w : World) (h : Lineage) (l x : Sd) : Decidable (Rightful w h l x) :=
  decidable_of_iff ((w.table.socks x).used = true ∧ h.origin x = some (l, h.age l) ∧
      (w.table.socks x).localPort = (w.table.socks l).localPort ∧ h.completed x = true ∧
      h.returned x = false)
    ⟨fun h => ⟨h.1, h.2.1, h.2.2.1, h.2.2.2.1, h.2.2.2.2⟩,
      fun h => ⟨h.used, h.origin, h.port, h.completed, h.fresh⟩⟩

def Lineage.source (h : Lineage) (w : World) : Call → Option (Sd × Nat)
  | .segment g _ => (w.table.lookup g).map fun l => (l, h.age l)
  | _ => none

def lineage : Observer Lineage where
  start :=
    { age := fun _ => 0, origin := fun _ => none, completed := fun _ => false
      returned := fun _ => false, wrong := false }
  see h w c a w' :=
    { age := fun i => if Born w w' i then h.age i + 1 else h.age i
      origin := fun i => if Born w w' i then h.source w c else h.origin i
      completed := fun i => !Born w w' i && (h.completed i ||
        (w.table.socks i).tcpState == .synRcvd && (w'.table.socks i).tcpState == .established)
      returned := fun i => !Born w w' i && (h.returned i || (accepted c a).any fun r => r.2 == i.val)
      wrong := h.wrong || (accepted c a).any fun r => decide (∀ x : Sd, r.2 = x.val →
        ¬ Rightful w h r.1 x) }

/-- No listener is closed while a handshake under it is unfinished, and no accepted socket
is used for a connect. -/
def Orderly (p : World × Lineage) : Call → Prop
  | .close l => ∀ x, (p.1.table.socks x).used = true → (p.1.table.socks x).tcpState = .synRcvd →
      (p.1.table.socks x).parentSd ≠ some l
  | .connect i .. => (p.1.table.socks i).parentSd = none
  | _ => True

instance (p : World × Lineage) (c : Call) : Decidable (Orderly p c) := by
  cases c <;> unfold Orderly <;> infer_instance

variable {i l x : Sd}

theorem Table.accept_ok {t : Table} {interrupted : Bool} {n : Nat}
    (ok : (t.accept l interrupted).1 = .ok n) :
    ∃ x q, n = x.val ∧ (t.socks l).used ∧ (t.socks l).acceptQ.pop = some (x, q) ∧
      ((t.accept l interrupted).2.socks l).acceptQ = q := by
  unfold accept at ok ⊢
  dsimp only at ok ⊢
  split at ok
  · cases ok
  rename_i used
  split at ok
  · cases ok
  rename_i stream
  split at ok
  · cases ok
  rename_i state
  split at ok
  · cases ok
  rename_i running
  cases popped : (t.socks l).acceptQ.pop with
  | none =>
    rw [popped] at ok
    cases ok
  | some p =>
    rw [popped] at ok
    cases ok
    refine ⟨p.1, p.2, rfl, by simpa using used, rfl, ?_⟩
    rw [if_neg used, if_neg stream, if_neg state, if_neg running]
    simp

theorem Table.handleSegment_completes {t : Table} {g : Segment} (now : Nat)
    (found : t.lookup g = some x) (completes : Completes (t.socks x) g) :
    ((t.handleSegment g now).socks x).tcpState = .established := by
  obtain ⟨state, noRst, acks⟩ := completes
  rw [t.handleSegment_hear now found (by simp [state])]
  simp [hear, state, noRst, acks]

theorem Move.port {t : Table} {c : Call} {s' : Sock} (move : Move t c i s')
    (bound : ∀ j, (t.socks j).used → (t.socks j).tcpState ≠ .closed →
      (t.socks j).localPort ≠ 0)
    (stays : s'.used) (opened : s'.tcpState ≠ .closed) : s'.localPort ≠ 0 := by
  cases used : (t.socks i).used with
  | false =>
    rcases move.born used stays with ⟨_, _, rfl | ⟨rfl, _⟩⟩ | ⟨g, _, parent, _, found, listener, rfl⟩
    · exact absurd rfl opened
    · exact absurd rfl opened
    have heard := t.lookup_heard found
    change g.dstPort ≠ 0
    rw [← heard.port]
    exact bound parent heard.used heard.opened
  | true =>
    have kept := move.kept used stays
    have stays_bound : (t.socks i).tcpState ≠ .closed → s'.localPort ≠ 0 := by
      intro before
      rw [kept.port (bound i used before)]
      exact bound i used before
    have turn := move.turn used stays
    generalize s'.tcpState = state at turn opened
    cases turn with
    | same => exact stays_bound opened
    | toListen _ _ named | toSynSent _ _ _ _ named => exact named
    | thrown _ _ _ found => exact stays_bound (t.lookup_heard found).opened
    | toClosed => exact absurd rfl opened
    | toSynRcvd before | toFinWait1 before | toFinWait2 before | toCloseWait before
    | toLastAck before => exact stays_bound (by simp [before])
    | toEstablished before => exact stays_bound (by rcases before with h | h <;> simp [h])

structure Waiting (w : World) (h : Lineage) (l x : Sd) : Prop where
  parentUsed : (w.table.socks l).used = true
  parentMine : (w.table.socks l).zombie = false
  mine : (w.table.socks x).zombie = false
  origin : h.origin x = some (l, h.age l)
  port : (w.table.socks x).localPort = (w.table.socks l).localPort
  bound : (w.table.socks l).localPort ≠ 0
  fresh : h.returned x = false
  unheld : w.held x = false

structure Queued (w : World) (h : Lineage) (l x : Sd) : Prop where
  rightful : Rightful w h l x
  bound : (w.table.socks l).localPort ≠ 0
  mine : (w.table.socks x).zombie = false
  parent : (w.table.socks x).parentSd = some l
  done : (w.table.socks x).tcpState ≠ .synRcvd
  unheld : w.held x = false

structure Lines (p : World × Lineage) : Prop where
  held : ∀ i, p.1.held i = true →
    (p.1.table.socks i).used = true ∧ (p.1.table.socks i).zombie = false
  quiet : ∀ i, (p.1.table.socks i).used = true → (p.1.table.socks i).zombie = true →
    (p.1.table.socks i).tcpState ≠ .listen
  bound : ∀ i, (p.1.table.socks i).used = true → (p.1.table.socks i).tcpState ≠ .closed →
    (p.1.table.socks i).localPort ≠ 0
  connecting : ∀ i, (p.1.table.socks i).used = true → (p.1.table.socks i).tcpState = .synSent →
    (p.1.table.socks i).parentSd = none
  waiting : ∀ x l, (p.1.table.socks x).used = true → (p.1.table.socks x).tcpState = .synRcvd →
    (p.1.table.socks x).parentSd = some l → Waiting p.1 p.2 l x
  queued : ∀ l x, (p.1.table.socks l).used = true → x ∈ (p.1.table.socks l).acceptQ.contents →
    Queued p.1 p.2 l x
  distinct : ∀ l, (p.1.table.socks l).used = true → (p.1.table.socks l).acceptQ.contents.Nodup
  right : p.2.wrong = false

theorem Lines.unused_unheld {p : World × Lineage} (lines : Lines p)
    (free : (p.1.table.socks i).used = false) : p.1.held i = false := by
  cases holds : p.1.held i with
  | false => rfl
  | true => cases (lines.held i holds).1.symm.trans free

namespace Stepped
variable {p p' : World × Lineage} {c : Call} {a : Answer}

theorem accepted_eq (step : Stepped lineage p c a p') {n : Nat}
    (returned : accepted c a = some (l, n)) :
    ∃ x q, n = x.val ∧ (p.1.table.socks l).used ∧
      (p.1.table.socks l).acceptQ.pop = some (x, q) ∧ (p'.1.table.socks l).acceptQ = q := by
  cases c with
  | accept sd interrupted =>
    have answer := step.answer
    have table := step.table
    subst answer
    simp only [accepted, Table.call] at returned table
    cases reply : (p.1.table.accept sd interrupted).1 with
    | ok =>
      rw [reply] at returned
      cases returned
      rw [table]
      exact accept_ok reply
    | error | again => rw [reply] at returned; cases returned
  | _ => cases returned

theorem held_cases (step : Stepped lineage p c a p') (now : p'.1.held i) :
    p.1.held i = true ∧ c ≠ .close i ∨
      (∃ type, c = .create type ∧ a.reply = .ok i.val) ∨ ∃ l, accepted c a = some (l, i.val) := by
  rw [step.holds] at now
  cases c with
  | create | accept =>
    cases reply : a.reply with
    | ok =>
      simp only [World.holds, reply, Bool.or_eq_true, decide_eq_true_eq] at now
      rcases now with was | rfl
      · exact .inl ⟨was, by simp⟩
      · simp [accepted, reply]
    | error | again => exact .inl ⟨by simpa [World.holds, reply] using now, by simp⟩
  | close sd =>
    simp only [World.holds] at now
    by_cases here : i = sd
    · subst here
      simp at now
    · rw [Function.update_of_ne here] at now
      exact .inl ⟨now, by simpa using Ne.symm here⟩
  | _ => exact .inl ⟨now, by simp⟩

end Stepped

theorem Table.create_ok {t : Table} {type : SockType}
    (ok : (t.call (.create type)).1.reply = .ok i.val) :
    (t.socks i).used = false ∧ ((t.call (.create type)).2.socks i).used ∧
      ((t.call (.create type)).2.socks i).zombie = false := by
  cases found : t.freeSlot with
  | none => cases type <;> simp [call, create, createRaw, found] at ok
  | some j =>
    have here : j = i := by
      cases type <;> simpa [call, create, createRaw, found, Fin.ext_iff] using ok
    subst here
    refine ⟨t.freeSlot_some found, ?_, ?_⟩ <;>
      cases type <;> simp [call, create, createRaw, found, Sock.create, Sock.createRaw]

namespace Lines
variable {p p' : World × Lineage} {c : Call} {a : Answer}

section
variable (step : Stepped lineage p c a p')
include step

theorem stays (used : (p.1.table.socks i).used)
    (mine : (p.1.table.socks i).zombie = false) (open_ : c ≠ .close i) :
    (p'.1.table.socks i).used = true ∧ (p'.1.table.socks i).zombie = false := by
  have still : (p'.1.table.socks i).used := by
    cases now : (p'.1.table.socks i).used with
    | true => rfl
    | false =>
      rcases (step.move i).freed used now with zombie | closed
      · rw [mine] at zombie
        cases zombie
      · exact absurd closed open_
  rcases ((step.move i).kept used still).zombie with same | ⟨closed, _⟩
  · exact ⟨still, same.trans mine⟩
  · exact absurd closed open_

theorem history (used : (p.1.table.socks i).used) :
    p'.2.age i = p.2.age i ∧ p'.2.origin i = p.2.origin i ∧
      (p.2.completed i → p'.2.completed i) ∧
      p'.2.returned i = (p.2.returned i || (accepted c a).any fun r => r.2 == i.val) := by
  rw [step.seen]
  simp only [lineage, not_born used]
  simp +contextual

omit step in
theorem not_given (passed : ∀ k, accepted c a ≠ some (k, x.val)) :
    ((accepted c a).any fun r => r.2 == x.val) = false := by
  cases out : accepted c a with
  | none => rfl
  | some r =>
    have differ : r.2 ≠ x.val := fun same => passed r.1 (out.trans (by rw [← same]))
    simpa using differ

theorem unheld (used : (p.1.table.socks x).used) (before : p.1.held x = false)
    (passed : ∀ l, accepted c a ≠ some (l, x.val)) : p'.1.held x = false := by
  cases now : p'.1.held x with
  | false => rfl
  | true =>
    rcases step.held_cases now with ⟨was, _⟩ | ⟨type, rfl, reply⟩ | ⟨l, returned⟩
    · rw [before] at was
      cases was
    · rw [step.answer] at reply
      cases used.symm.trans (create_ok reply).1
    · exact absurd returned (passed l)

variable (lines : Lines p)
include lines

theorem returns_queued {n : Nat} (returned : accepted c a = some (l, n)) :
    ∃ x q, n = x.val ∧ Queued p.1 p.2 l x ∧ (p.1.table.socks l).used ∧
      (p.1.table.socks l).acceptQ.contents = x :: q ∧
      (p'.1.table.socks l).acceptQ.contents = q := by
  obtain ⟨x, q, rfl, used, popped, now⟩ := step.accepted_eq returned
  have front := Ring.pop_contents popped
  exact ⟨x, q.contents, rfl, lines.queued l x used (by simp [front]), used, front, by rw [now]⟩

theorem not_returned (state : (p.1.table.socks x).tcpState = .synRcvd) (l : Sd) :
    accepted c a ≠ some (l, x.val) := by
  intro returned
  obtain ⟨y, q, same, queued, _⟩ := lines.returns_queued step returned
  cases Fin.ext same
  exact queued.done state

theorem held_step (i : Sd) (now : p'.1.held i) :
    (p'.1.table.socks i).used = true ∧ (p'.1.table.socks i).zombie = false := by
  rcases step.held_cases now with ⟨was, open_⟩ | ⟨type, rfl, reply⟩ | ⟨l, returned⟩
  · obtain ⟨used, mine⟩ := lines.held i was
    exact stays step used mine open_
  · rw [step.answer] at reply
    rw [step.table]
    exact (create_ok reply).2
  obtain ⟨y, q, same, queued, _⟩ := lines.returns_queued step returned
  cases Fin.ext same
  refine stays step queued.rightful.used queued.mine ?_
  rintro rfl
  cases returned

theorem quiet_step (i : Sd)
    (used : (p'.1.table.socks i).used) (zombie : (p'.1.table.socks i).zombie) :
    (p'.1.table.socks i).tcpState ≠ .listen := by
  intro listens
  obtain ⟨was, how⟩ := (step.move i).listen_cases used listens
  rcases ((step.move i).kept was used).zombie with same | ⟨_, other, _⟩
  · rw [zombie] at same
    rcases how with before | ⟨backlog, rfl⟩ | ⟨g, now, _, _, _, alone⟩
    · exact lines.quiet i was same.symm before
    · have := (lines.held i (step.user rfl)).2
      rw [← same] at this
      cases this
    · have := alone.mine
      rw [← same] at this
      cases this
  · exact other listens

theorem connecting_step (legal : Orderly p c) (i : Sd) (used : (p'.1.table.socks i).used)
    (state : (p'.1.table.socks i).tcpState = .synSent) :
    (p'.1.table.socks i).parentSd = none := by
  have move := step.move i
  cases was : (p.1.table.socks i).used with
  | false =>
    rcases move.born was used with ⟨_, _, made | ⟨made, _⟩⟩ | ⟨_, _, _, _, _, _, made⟩ <;>
    · rw [made] at state
      cases state
  | true =>
    rw [(move.kept was used).parent]
    have turn := move.turn was used
    generalize (p'.1.table.socks i).tcpState = after at turn state
    cases turn with
    | same => exact lines.connecting i was state
    | toSynSent _ _ _ call =>
      subst call
      exact legal
    | _ => cases state

theorem waiting_born {g : Segment}
    {now : Nat} (free : (p.1.table.socks x).used = false) (call : c = .segment g now)
    (found : p.1.table.lookup g = some l) (listener : (p.1.table.socks l).tcpState = .listen)
    (made : p'.1.table.socks x = (p.1.table.socks x).spawned x l g now) :
    Waiting p'.1 p'.2 l x := by
  subst call
  have heard := p.1.table.lookup_heard found
  have mine : (p.1.table.socks l).zombie = false := by
    cases zombie : (p.1.table.socks l).zombie with
    | false => rfl
    | true => exact absurd listener (lines.quiet l heard.used zombie)
  obtain ⟨still, mine'⟩ := stays step heard.used mine (by simp)
  have bound := lines.bound l heard.used heard.opened
  have port := ((step.move l).kept heard.used still).port bound
  have born : Born p.1 p'.1 x := by
    simp [Born, free, made, spawned, Sock.child]
  refine ⟨still, mine', ?_, ?_, ?_, port ▸ bound, ?_, ?_⟩
  · rw [made]
    rfl
  · rw [(history step heard.used).1, step.seen]
    simp [lineage, born, Lineage.source, found]
  · rw [made, port]
    exact heard.port.symm
  · rw [step.seen]
    simp [lineage, born]
  · rw [step.holds]
    exact lines.unused_unheld free

theorem waiting_step (legal : Orderly p c) (x l : Sd) (used : (p'.1.table.socks x).used)
    (state : (p'.1.table.socks x).tcpState = .synRcvd)
    (parent : (p'.1.table.socks x).parentSd = some l) : Waiting p'.1 p'.2 l x := by
  have move := step.move x
  cases was : (p.1.table.socks x).used with
  | false =>
    rcases move.born was used with ⟨_, _, made | ⟨made, _⟩⟩ |
      ⟨g, now, l', call, found, listener, made⟩
    · rw [made] at state
      cases state
    · rw [made] at state
      cases state
    · rw [made] at parent
      cases parent
      exact lines.waiting_born step was call found listener made
  | true =>
    have kept := move.kept was used
    rw [kept.parent] at parent
    have turn := move.turn was used
    generalize (p'.1.table.socks x).tcpState = after at turn state
    cases turn with
    | same =>
      have before := lines.waiting x l was state parent
      -- the listener cannot be closed now, nor can anyone close the child
      have open_ : c ≠ .close l := by
        rintro rfl
        exact legal x was state parent
      have own : c ≠ .close x := by
        rintro rfl
        have := step.user rfl
        rw [before.unheld] at this
        cases this
      obtain ⟨still, mine⟩ := stays step before.parentUsed before.parentMine open_
      have passed := lines.not_returned step state
      have port := ((step.move l).kept before.parentUsed still).port before.bound
      obtain ⟨_, origin, _, returned⟩ := history step was
      refine ⟨still, mine, (stays step was before.mine own).2, ?_, ?_, ?_, ?_,
        unheld step was before.unheld passed⟩
      · rw [origin, (history step before.parentUsed).1]
        exact before.origin
      · rw [port, kept.port (before.port ▸ before.bound)]
        exact before.port
      · rw [port]
        exact before.bound
      rw [returned, before.fresh, not_given passed]
      rfl
    | toSynRcvd before =>
      rw [lines.connecting x was before] at parent
      cases parent
    | _ => cases state

theorem queued_kept (used : (p.1.table.socks l).used)
    (still : (p'.1.table.socks l).used)
    (before : Queued p.1 p.2 l x) (passed : ∀ k, accepted c a ≠ some (k, x.val)) :
    Queued p'.1 p'.2 l x := by
  have rightful := before.rightful
  have own : c ≠ .close x := by
    rintro rfl
    have := step.user rfl
    rw [before.unheld] at this
    cases this
  obtain ⟨used', mine⟩ := stays step rightful.used before.mine own
  have port := ((step.move l).kept used still).port before.bound
  have kept := (step.move x).kept rightful.used used'
  obtain ⟨_, origin, completed, returned⟩ := history step rightful.used
  refine ⟨⟨used', ?_, ?_, completed rightful.completed, ?_⟩, port ▸ before.bound, mine,
    kept.parent.trans before.parent, ?_, unheld step rightful.used before.unheld passed⟩
  · rw [origin, (history step used).1]
    exact rightful.origin
  · rw [port, kept.port (rightful.port ▸ before.bound)]
    exact rightful.port
  · rw [returned, rightful.fresh, not_given passed]
    rfl
  intro state
  have turn := (step.move x).turn rightful.used used'
  generalize (p'.1.table.socks x).tcpState = after at turn state
  cases turn with
  | same => exact before.done state
  | toSynRcvd connecting =>
    have := lines.connecting x rightful.used connecting
    rw [before.parent] at this
    cases this
  | _ => cases state

theorem queued_joined {g : Segment}
    {now : Nat} (call : c = .segment g now) (found : p.1.table.lookup g = some x)
    (completes : Completes (p.1.table.socks x) g) (parent : (p.1.table.socks x).parentSd = some l)
    (still : (p'.1.table.socks l).used) : Queued p'.1 p'.2 l x := by
  subst call
  have used := (p.1.table.lookup_heard found).used
  have before := lines.waiting x l used completes.state parent
  obtain ⟨used', mine⟩ := stays step used before.mine (by simp)
  have port := ((step.move l).kept before.parentUsed still).port before.bound
  have kept := (step.move x).kept used used'
  obtain ⟨_, origin, _, returned⟩ := history step used
  have after : (p'.1.table.socks x).tcpState = .established := by
    rw [step.table]
    exact handleSegment_completes now found completes
  refine ⟨⟨used', ?_, ?_, ?_, ?_⟩, port ▸ before.bound, mine, kept.parent.trans parent, ?_,
    unheld step used before.unheld (fun _ => by simp [accepted])⟩
  · rw [origin, (history step before.parentUsed).1]
    exact before.origin
  · rw [port, kept.port (before.port ▸ before.bound)]
    exact before.port
  · rw [step.seen]
    simp [lineage, not_born used, completes.state, after]
  · rw [returned, before.fresh]
    rfl
  · rw [after]
    decide

theorem queue_step (l : Sd) (used : (p'.1.table.socks l).used) :
    (∀ x ∈ (p'.1.table.socks l).acceptQ.contents, Queued p'.1 p'.2 l x) ∧
      (p'.1.table.socks l).acceptQ.contents.Nodup := by
  have move := step.move l
  cases was : (p.1.table.socks l).used with
  | false =>
    have empty : (p'.1.table.socks l).acceptQ.contents = [] := by
      rcases move.born was used with ⟨_, _, made | ⟨made, _⟩⟩ | ⟨_, _, _, _, _, _, made⟩ <;>
      · rw [made]
        rfl
    simp [empty]
  | true =>
    have passed : ∀ x ∈ (p.1.table.socks l).acceptQ.contents, ∀ k, k ≠ l →
        accepted c a ≠ some (k, x.val) := by
      intro x mem k other returned
      obtain ⟨y, _, same, queued, _⟩ := lines.returns_queued step returned
      cases Fin.ext same
      have := queued.rightful.origin.symm.trans (lines.queued l x was mem).rightful.origin
      exact other ((Prod.ext_iff.1 (Option.some.inj this)).1)
    by_cases returned : ∃ n, accepted c a = some (l, n)
    · -- the front of this queue is returned
      obtain ⟨n, returned⟩ := returned
      obtain ⟨y, q, rfl, _, _, front, now⟩ := lines.returns_queued step returned
      have distinct := lines.distinct l was
      rw [front, List.nodup_cons] at distinct
      rw [now]
      refine ⟨fun x mem => ?_, distinct.2⟩
      refine lines.queued_kept step was used (lines.queued l x was (by simp [front, mem])) ?_
      intro k out
      rw [returned] at out
      obtain ⟨rfl, same⟩ := Prod.ext_iff.1 (Option.some.inj out)
      cases Fin.ext same
      exact distinct.1 mem
    have quiet : ∀ x ∈ (p.1.table.socks l).acceptQ.contents, ∀ k,
        accepted c a ≠ some (k, x.val) := by
      intro x mem k out
      by_cases here : k = l
      · exact returned ⟨_, here ▸ out⟩
      · exact passed x mem k here out
    have old : ∀ x ∈ (p.1.table.socks l).acceptQ.contents, Queued p'.1 p'.2 l x :=
      fun x mem => lines.queued_kept step was used (lines.queued l x was mem) (quiet x mem)
    rcases move.queue was used with same | ⟨interrupted, child, q, call, listener, popped, now⟩ |
      ⟨g, time, child, call, found, completes, parent, listener, room, now⟩
    · rw [same]
      exact ⟨old, lines.distinct l was⟩
    · have front := Ring.pop_contents popped
      have distinct := lines.distinct l was
      rw [front, List.nodup_cons] at distinct
      rw [now]
      exact ⟨fun x mem => old x (by simp [front, mem]), distinct.2⟩
    rw [now, Ring.push_contents child room]
    refine ⟨fun x mem => ?_, ?_⟩
    · rcases List.mem_append.1 mem with mem | mem
      · exact old x mem
      · cases List.mem_singleton.1 mem
        exact lines.queued_joined step call found completes parent used
    refine List.nodup_append.2 ⟨lines.distinct l was, by simp, ?_⟩
    intro x mem y last same
    cases List.mem_singleton.1 last
    subst same
    exact (lines.queued l x was mem).done completes.state

theorem right_step : p'.2.wrong = false := by
  rw [step.seen]
  simp only [lineage, lines.right, Bool.false_or]
  cases out : accepted c a with
  | none => rfl
  | some r =>
    obtain ⟨x, q, same, queued, _⟩ := lines.returns_queued step (show _ = some (r.1, r.2) from out)
    simp only [Option.any_some, decide_eq_false_iff_not, not_forall, not_not]
    exact ⟨x, same, queued.rightful⟩

end

theorem step (lines : Lines p) (legal : Orderly p c) (run : watch lineage c p = some (a, p')) :
    Lines p' := by
  have step := Stepped.of_watch run
  exact {
    held := lines.held_step step
    quiet := lines.quiet_step step
    bound := fun i used opened => (step.move i).port lines.bound used opened
    connecting := lines.connecting_step step legal
    waiting := lines.waiting_step step legal
    queued := fun l x used mem => (lines.queue_step step l used).1 x mem
    distinct := fun l used => (lines.queue_step step l used).2
    right := lines.right_step step }

theorem boot : Lines (World.boot, lineage.start) where
  held i holds := by simp [World.boot] at holds
  quiet i used := by simp [World.boot, unused] at used
  bound i used := by simp [World.boot, unused] at used
  connecting i used := by simp [World.boot, unused] at used
  waiting x l used := by simp [World.boot, unused] at used
  queued l x used := by simp [World.boot, unused] at used
  distinct l used := by simp [World.boot, unused] at used
  right := rfl

end Lines

/-- In every orderly run each accept returns a socket that a SYN for that very listener made,
with its port, after its handshake, and for the first time. -/
theorem accepts_rightful {calls : List Call} {p : World × Lineage}
    (run : Prog.Runs (watch lineage) Orderly (.boot, lineage.start) calls p) :
    p.2.wrong = false :=
  (run.invariant (fun _ _ _ _ lines legal step => Lines.step lines legal step) Lines.boot).right

theorem accepts_rightful_served :
    ∃ p, Prog.Runs (watch lineage) Orderly (.boot, lineage.start)
        (halfOpen ++ [handshakeAck, .accept 0 false]) p ∧
      p.2.returned 1 = true ∧ p.2.wrong = false := by
  obtain ⟨p, played, run⟩ : ∃ p, played lineage Orderly (.boot, lineage.start)
      (halfOpen ++ [handshakeAck, .accept 0 false]) = some p ∧ _ :=
    legal_runs (by decide +kernel)
  refine ⟨p, run, ?_, accepts_rightful run⟩
  have : (Osnos.Net.played lineage Orderly (.boot, lineage.start)
      (halfOpen ++ [handshakeAck, .accept 0 false])).all fun p => p.2.returned 1 := by
    decide +kernel
  simpa [played] using this

/-- The listener is closed before the handshake completes, and its slot becomes a listener on
port 90. -/
def recycledListener : List Call :=
  halfOpen ++ [.close 0, .create .stream, .bind 0 0 90, .listen 0 4, handshakeAck, .accept 0 false]

/-- The listener on port 90 accepts the connection to port 80. -/
theorem accepts_stranger :
    Prog.Runs (watch lineage) (fun _ _ => True) (.boot, lineage.start) recycledListener
        (observed lineage recycledListener) ∧
      (observed lineage recycledListener).2.wrong = true :=
  ⟨observed_runs (by decide +kernel), by decide +kernel⟩

end Osnos.Net
