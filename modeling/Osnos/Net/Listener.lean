import Osnos.Net.Keep

/-! How a socket comes to listen. -/
namespace Osnos.Net

theorem Move.listen_cases {t : Table} {c : Call} {i : Sd} {s' : Sock} (move : Move t c i s')
    (stays : s'.used) (listens : s'.tcpState = .listen) :
    (t.socks i).used = true ∧ ((t.socks i).tcpState = .listen ∨ (∃ backlog, c = .listen i backlog) ∨
      ∃ g now, c = .segment g now ∧ g.flags.rst ∧ t.lookup g = some i ∧
        Standalone (t.socks i)) := by
  cases used : (t.socks i).used with
  | false =>
    rcases move.born used stays with ⟨_, _, rfl | ⟨rfl, _⟩⟩ | ⟨_, _, _, _, _, _, rfl⟩ <;>
      cases listens
  | true =>
    refine ⟨rfl, ?_⟩
    have turn := move.turn used stays
    generalize s'.tcpState = state at turn listens
    cases turn with
    | same => exact .inl listens
    | toListen backlog call => exact .inr (.inl ⟨backlog, call⟩)
    | thrown g now call found rst alone => exact .inr (.inr ⟨g, now, call, rst, found, alone⟩)
    | _ => cases listens

/-- Which sockets `sock_listen` was called on since they were created, and whether the
network has made a listener of a socket that was none. -/
structure Heritage where
  listened : Sd → Bool
  turned : Bool

def Born (w w' : World) (i : Sd) : Bool := !(w.table.socks i).used && (w'.table.socks i).used

def World.listens (w : World) (i : Sd) : Bool :=
  (w.table.socks i).used && (w.table.socks i).type == .stream &&
    (w.table.socks i).tcpState == .listen

def Call.listensOn (i : Sd) : Call → Bool
  | .listen j _ => j == i
  | _ => false

def heritage : Observer Heritage where
  start := { listened := fun _ => false, turned := false }
  see h w c _ w' :=
    { listened := fun i => !Born w w' i && (h.listened i || c.listensOn i)
      turned := h.turned || c.fromNetwork && decide (∃ i, (w.table.socks i).used = true ∧
        (w.table.socks i).tcpState ≠ .listen ∧ w'.listens i = true) }

def ListenersOk (p : World × Heritage) : Prop :=
  (∀ i, p.1.listens i = true → p.2.listened i = true) ∧ p.2.turned = false

instance (p : World × Heritage) : Decidable (ListenersOk p) := inferInstanceAs (Decidable (_ ∧ _))

def NoStrayReset (p : World × Heritage) (c : Call) : Prop :=
  ∀ g now i, c = .segment g now → g.flags.rst = true → p.1.table.lookup g = some i →
    ¬ Standalone (p.1.table.socks i)

theorem listensOn_iff {c : Call} {i : Sd} : c.listensOn i ↔ ∃ backlog, c = .listen i backlog := by
  cases c <;> simp [Call.listensOn]

theorem World.listens_iff {w : World} {i : Sd} : w.listens i ↔
    (w.table.socks i).used = true ∧ (w.table.socks i).type = .stream ∧
      (w.table.socks i).tcpState = .listen := by
  simp [World.listens, and_assoc]

theorem not_born {w w' : World} {i : Sd} (used : (w.table.socks i).used) :
    Born w w' i = false := by
  simp [Born, used]

theorem listenersOk_step {p p' : World × Heritage} {c : Call} {a : Answer} (ok : ListenersOk p)
    (run : watch heritage c p = some (a, p')) : ListenersOk p' ↔ NoStrayReset p c := by
  obtain ⟨_, _, table, _, seen⟩ := watch_inv run
  have move : ∀ i, Move p.1.table c i (p'.1.table.socks i) := by
    intro i
    rw [table]
    exact p.1.table.call_move c i
  constructor
  · -- a stray reset turns its victim into a listener
    rintro ⟨_, unturned⟩ g now i rfl rst found alone
    rw [seen] at unturned
    simp only [heritage, Bool.or_eq_false_iff, Call.fromNetwork, Bool.true_and,
      decide_eq_false_iff_not] at unturned
    have after : p'.1.table.socks i = (p.1.table.socks i).reset := by
      rw [table, show (p.1.table.call (.segment g now)).2 = p.1.table.handleSegment g now from rfl,
        p.1.table.handleSegment_reset now found alone.live rst]
      simp
    have heard := p.1.table.lookup_heard found
    refine unturned.2 ⟨i, heard.used, ?_, ?_⟩
    · rcases alone.live with (h | h | h) | h | h | h | h <;> rw [h] <;> decide
    · rw [World.listens_iff, after]
      simp [Sock.reset, alone.mine, alone.orphan, heard.used, heard.stream, heard.opened]
  intro legal
  have cases_ : ∀ i, p'.1.listens i →
      p.1.listens i = true ∨ (p.1.table.socks i).used ∧ c.listensOn i := by
    intro i listens
    obtain ⟨used, stream, state⟩ := World.listens_iff.1 listens
    obtain ⟨was, before | call | ⟨g, now, call, rst, found, alone⟩⟩ :=
      (move i).listen_cases used state
    · exact .inl (World.listens_iff.2 ⟨was, ((move i).kept was used).type ▸ stream, before⟩)
    · exact .inr ⟨was, listensOn_iff.2 call⟩
    · exact absurd alone (legal g now i call rst found)
  rw [ListenersOk, seen]
  simp only [heritage]
  constructor
  · intro i listens
    rcases cases_ i listens with before | ⟨was, call⟩
    · simp [not_born (World.listens_iff.1 before).1, ok.1 i before]
    · simp [not_born was, call]
  rw [ok.2, Bool.false_or, Bool.and_eq_false_iff, or_iff_not_imp_left]
  intro network
  rw [decide_eq_false_iff_not]
  rintro ⟨i, _, other, listens⟩
  rcases cases_ i listens with before | ⟨_, call⟩
  · exact other (World.listens_iff.1 before).2.2
  · obtain ⟨_, rfl⟩ := listensOn_iff.1 call
    simp [Call.fromNetwork] at network

/-- In a run from boot the listeners are in order throughout exactly if no RST reaches a
connection that no listener spawned and its user has not closed. -/
theorem listeners_chosen_by_user {calls : List Call} {p : World × Heritage}
    (run : Prog.Runs (watch heritage) (fun _ _ => True) (.boot, heritage.start) calls p) :
    Prog.Always (watch heritage) ListenersOk (.boot, heritage.start) calls ↔
      Prog.Runs (watch heritage) NoStrayReset (.boot, heritage.start) calls p := by
  refine watch_always_iff (fun _ _ _ _ ok step => listenersOk_step ok step) run ?_
  exact ⟨fun i listens => by simp [World.listens, World.boot, Sock.unused] at listens, rfl⟩

def clientOpen : List Call :=
  [.create .stream, .connect 0 0x0A000202 80 100 true,
    .segment { srcIp := 0x0A000202, srcPort := 80, dstPort := 40000, seq := 7, ack := 101
               flags := { syn := true, ack := true }, payload := [] } 100]

def clientReset : List Call :=
  clientOpen ++
    [.segment { srcIp := 0x0A000202, srcPort := 80, dstPort := 40000, seq := 8, ack := 101
                flags := { rst := true }, payload := [] } 100]

theorem listeners_chosen_by_user_client :
    Prog.Always (watch heritage) ListenersOk (.boot, heritage.start) clientReset ↔
      Prog.Runs (watch heritage) NoStrayReset (.boot, heritage.start) clientReset
        (observed heritage clientReset) :=
  listeners_chosen_by_user (observed_runs (by decide +kernel))

/-- After the reset the client's socket listens on its port. -/
theorem reset_client_listens :
    Prog.Runs (watch heritage) (fun _ _ => True) (.boot, heritage.start) clientReset
        (observed heritage clientReset) ∧
      (observed heritage clientReset).1.listens 0 = true ∧
      ¬ ListenersOk (observed heritage clientReset) :=
  ⟨observed_runs (by decide +kernel), by decide +kernel, by decide +kernel⟩

end Osnos.Net
