import Osnos.Net.Accept

/-! A segment is for the first socket with its local port and peer. `port_in_use` does not
look at connections, so a second socket can be bound to the port of one and connected to the
same peer. -/
namespace Osnos.Net
open List Sock

namespace Sock

structure Active (s : Sock) : Prop where
  used : s.used = true
  stream : s.type = .stream
  opened : s.tcpState ≠ .closed
  connection : s.tcpState ≠ .listen

structure SameTuple (s s' : Sock) : Prop where
  port : s.localPort = s'.localPort
  ip : s.remoteIp = s'.remoteIp
  remote : s.remotePort = s'.remotePort

theorem SameTuple.refl (s : Sock) : s.SameTuple s := ⟨rfl, rfl, rfl⟩

theorem SameTuple.symm {s s' : Sock} (same : s.SameTuple s') : s'.SameTuple s :=
  ⟨same.port.symm, same.ip.symm, same.remote.symm⟩

theorem SameTuple.trans {s s' s'' : Sock} (same : s.SameTuple s') (next : s'.SameTuple s'') :
    s.SameTuple s'' :=
  ⟨same.port.trans next.port, same.ip.trans next.ip, same.remote.trans next.remote⟩

end Sock

namespace Table

def Distinct (t : Table) : Prop :=
  ∀ i j, (t.socks i).Active → (t.socks j).Active → (t.socks i).SameTuple (t.socks j) → i = j

def Bound (t : Table) : Prop :=
  ∀ i, (t.socks i).used = true → (t.socks i).tcpState ≠ .closed → (t.socks i).localPort ≠ 0

end Table

def KeepsDistinct (w : World) (c : Call) : Prop := (w.table.call c).2.Distinct

/-- The local port of a connect: the one bound before, or else the next ephemeral port. -/
def Table.connectPort (t : Table) (i : Sd) : Option Port :=
  if (t.socks i).localPort = 0 then (t.ephemeral 1000 t.ephemeralNext).1
  else some (t.socks i).localPort

/-- The socket can start a connect to the peer, with this local port. -/
structure Table.Starts (t : Table) (i : Sd) (ip : Ip) (port localPort : Port) : Prop where
  used : (t.socks i).used = true
  stream : (t.socks i).type = .stream
  closed : (t.socks i).tcpState = .closed
  fresh : (t.socks i).remotePort = 0
  ip : ip ≠ 0
  port : port ≠ 0
  picks : t.connectPort i = some localPort

/-- A connect that can start has a local port that no connection to the same peer has. -/
def PicksFresh (w : World) (c : Call) : Prop :=
  ∀ i ip port now localPort, c = .connect i ip port now true →
    w.table.Starts i ip port localPort → ∀ j, (w.table.socks j).Active →
      ¬((w.table.socks j).localPort = localPort ∧ (w.table.socks j).remoteIp = ip ∧
        (w.table.socks j).remotePort = port)

variable {t : Table} {c : Call} {i j : Sd} {s s' : Sock} {g : Segment}

theorem Sock.connected_iff : t.connected g i ↔
    (t.socks i).Active ∧ (t.socks i).localPort = g.dstPort ∧ (t.socks i).remoteIp = g.srcIp ∧
      (t.socks i).remotePort = g.srcPort := by
  simp only [Table.connected, Bool.and_eq_true, beq_iff_eq, bne_iff_ne]
  constructor
  · rintro ⟨⟨⟨⟨⟨⟨used, stream⟩, port⟩, connection⟩, opened⟩, ip⟩, remote⟩
    exact ⟨⟨used, stream, opened, connection⟩, port, ip, remote⟩
  · rintro ⟨⟨used, stream, opened, connection⟩, port, ip, remote⟩
    exact ⟨⟨⟨⟨⟨⟨used, stream⟩, port⟩, connection⟩, opened⟩, ip⟩, remote⟩

theorem Sock.reset_inactive (live : s.tcpState ≠ .closed) : ¬s.reset.Active := by
  intro active
  have opened := active.opened
  have connection := active.connection
  have used := active.used
  unfold reset at opened connection used
  cases zombie : s.zombie with
  | true => simp [zombie] at used
  | false =>
    cases parent : s.parentSd with
    | some => simp [zombie, parent] at opened
    | none => simp [zombie, parent, live] at connection

theorem Sock.finish_inactive : ¬s.finish.Active := fun active => active.opened s.finish_state

theorem Sock.Live.opened (live : s.Live) : s.tcpState ≠ .closed := by
  rcases live with (h | h | h) | h | h | h | h <;> simp [h]

theorem Hears.active (hears : Hears s g s') (active : s'.Active) (opened : s.tcpState ≠ .closed)
    (connection : s.tcpState ≠ .listen) : s.Active ∧ s'.SameTuple s := by
  cases hears with
  | ignored => exact ⟨active, .refl s⟩
  | refused | mismatched => exact absurd rfl active.opened
  | opened | crossed | completed => exact ⟨{ active with opened, connection }, rfl, rfl, rfl⟩
  | reset live => exact absurd active (reset_inactive live.opened)
  | received _ taken | fin _ taken =>
    obtain ⟨used, type, -⟩ := taken.keeps
    refine ⟨⟨used ▸ active.used, type ▸ active.stream, opened, connection⟩, ?_⟩
    rw [taken.rest]
    exact ⟨rfl, rfl, rfl⟩
  | finLast | acked => exact absurd active finish_inactive

/-- How a slot comes to hold a connection: it held it already, with the same addresses, or
a connect started it, or a SYN for a listener. -/
theorem Move.active (move : Move t c i s') (bound : t.Bound) (active : s'.Active) :
    (t.socks i).Active ∧ s'.SameTuple (t.socks i) ∨
      (∃ ip port now, c = .connect i ip port now true ∧ ¬(t.socks i).Active) ∨
      ∃ g now parent, c = .segment g now ∧ (t.socks i).used = false ∧ t.lookup g = some parent ∧
        (t.socks parent).tcpState = .listen ∧ s' = (t.socks i).spawned i parent g now := by
  cases move with
  | same => exact .inl ⟨active, .refl _⟩
  | create type free call _ made =>
    rcases made with rfl | ⟨rfl, -⟩
    all_goals exact absurd rfl active.opened
  | child g now parent free call found listener =>
    exact .inr (.inr ⟨g, now, parent, call, free, found, listener, rfl⟩)
  | bind _ _ used unbound =>
    exact absurd unbound (bound i used active.opened)
  | listen => exact absurd rfl active.connection
  | connectUdp _ _ _ _ _ dgram => cases dgram.symm.trans active.stream
  | connect ip _ port _ _ now delivered _ _ closed _ _ call =>
    cases delivered with
    | false => exact absurd rfl active.opened
    | true => exact .inr (.inl ⟨ip, port, now, call, fun before => before.opened closed⟩)
  | close used stream =>
    refine .inl ?_
    have same : (t.socks i).close.SameTuple (t.socks i) := by
      unfold Sock.close
      split <;> exact ⟨rfl, rfl, rfl⟩
    refine ⟨⟨used, stream, fun closed => ?_, fun listen => ?_⟩, same⟩
    · have off := active.used
      simp [Sock.close, closed] at off
    · have off := active.used
      simp [Sock.close, listen] at off
  | drop => exact absurd active.used (by simp)
  | hear g _ _ found connection =>
    exact .inl (((t.socks i).hear_hears g).active active (t.lookup_heard found).opened connection)
  | tick now =>
    have ticks := (t.socks i).tick_ticks now
    generalize ((t.socks i).tick now).1 = s' at ticks active ⊢
    refine .inl ?_
    cases ticks with
    | idle => exact ⟨active, .refl _⟩
    | dropped | resent => exact ⟨{ active with }, rfl, rfl, rfl⟩
    | gaveUp => exact absurd active finish_inactive
  | accept | datagrams | recv | send | enlist => exact .inl ⟨{ active with }, rfl, rfl, rfl⟩

theorem Table.handleListen_born {now : Nat} (free : (t.socks i).used = false)
    (born : ((t.handleListen j g now).socks i).used) : t.freeSlot = some i := by
  have dead : (t.socks i).used ≠ true := by simp [free]
  unfold handleListen at born
  split at born
  · exact absurd born dead
  split at born
  · exact absurd born dead
  split at born
  · exact absurd born dead
  split at born
  · exact absurd born dead
  rename_i k found
  by_cases here : i = k
  · rw [here]
    exact found
  rw [edit_socks, emit_socks, edit_socks, Function.update_of_ne here, Function.update_of_ne here]
    at born
  exact absurd born dead

theorem Table.lookup_listener (found : t.lookup g = some j) (listener : (t.socks j).tcpState = .listen)
    (i : Sd) : t.connected g i = false := by
  cases connected : t.connected g i with
  | false => rfl
  | true =>
    exfalso
    cases first : (finRange 8).find? (t.connected g) with
    | none =>
      have absent := List.find?_eq_none.1 first i (mem_finRange i)
      exact absent connected
    | some =>
      rw [lookup, first, Option.some_or] at found
      cases found
      exact (Sock.connected_iff.1 (find?_some first)).1.connection listener

theorem Move.untouched {ip : Ip} {port : Port} {now : Nat} {delivered : Bool}
    (move : Move t (.connect i ip port now delivered) j s') (other : j ≠ i)
    (active : (t.socks j).Active) : s' = t.socks j := by
  have elsewhere : (Call.connect i ip port now delivered).sd ≠ some j := fun on =>
    other (Option.some.inj on).symm
  cases move with
  | same => rfl
  | create _ free | child _ _ _ free => cases free.symm.trans active.used
  | bind _ _ _ _ call | connectUdp _ _ _ _ _ _ call => exact absurd call elsewhere
  | connect _ _ _ _ _ _ _ _ _ _ _ _ call =>
    cases call
    exact absurd rfl other
  | datagrams _ _ foreign => exact absurd active.stream foreign
  | send _ _ _ _ _ _ _ call => simp at call
  | listen _ _ _ _ _ call | accept _ _ _ _ _ _ call | recv _ _ _ _ call | close _ _ call
  | drop _ _ call | hear _ _ call | enlist _ _ _ call | tick _ call => cases call

theorem child_distinct {now : Nat} {parent : Sd} (found : t.lookup g = some parent)
    (listener : (t.socks parent).tcpState = .listen)
    (same : ((t.socks i).spawned i parent g now).SameTuple (t.socks j)) : ¬(t.socks j).Active := by
  intro active
  have absent := Table.lookup_listener found listener j
  have present : t.connected g j :=
    Sock.connected_iff.2 ⟨active, same.port.symm, same.ip.symm, same.remote.symm⟩
  rw [absent] at present
  cases present

theorem Table.autoBind_port (used : (t.socks i).used = true) :
    ((t.autoBind i).1 = .ok 0 ↔ ∃ p, t.connectPort i = some p) ∧
      ∀ p, t.connectPort i = some p → ∃ ip, (t.autoBind i).2.socks i =
        { t.socks i with localIp := ip, localPort := p } := by
  unfold autoBind connectPort
  by_cases unbound : (t.socks i).localPort = 0
  · unfold bind
    generalize t.ephemeral 1000 t.ephemeralNext = found
    simp only [unbound, if_true, used, Bool.not_true, Bool.false_eq_true, if_false, ne_eq,
      not_true_eq_false]
    cases found.1 with
    | none => simp
    | some p => exact ⟨by simp, fun _ same => ⟨0, by simp [← Option.some.inj same, used]⟩⟩
  · simp only [unbound, if_false]
    exact ⟨by simp, fun _ same => ⟨(t.socks i).localIp, by rw [← Option.some.inj same]⟩⟩

theorem Table.Starts.connects {ip : Ip} {port p : Port} (starts : t.Starts i ip port p) (now : Nat) :
    ((t.connect i ip port now true).2.socks i).Active ∧
      ((t.connect i ip port now true).2.socks i).localPort = p ∧
      ((t.connect i ip port now true).2.socks i).remoteIp = ip ∧
      ((t.connect i ip port now true).2.socks i).remotePort = port := by
  obtain ⟨ok, named⟩ := autoBind_port starts.used
  obtain ⟨localIp, bound⟩ := named p starts.picks
  have real : ¬(ip = 0 ∨ port = 0) := not_or.2 ⟨starts.ip, starts.port⟩
  unfold connect
  simp only [starts.used, starts.stream, starts.closed, starts.fresh, ok.2 ⟨p, starts.picks⟩, real,
    Bool.not_true, Bool.false_eq_true, if_false, reduceCtorEq, ne_eq, not_true_eq_false, edit_socks,
    emit_socks, Function.update_self, bound, and_true]
  exact ⟨rfl, rfl, by simp, by simp⟩

theorem Table.starts_of_active {ip : Ip} {port : Port} {now : Nat} (idle : ¬(t.socks i).Active)
    (active : ((t.connect i ip port now true).2.socks i).Active) : ∃ p, t.Starts i ip port p := by
  -- a failed automatic bind leaves the state of the socket as it was
  have quiet : ¬((t.autoBind i).2.socks i).Active := by
    obtain ⟨ip, port, same, -⟩ := t.autoBind_cases i
    intro started
    rw [same, edit_socks, Function.update_self] at started
    exact idle { started with }
  unfold connect at active
  dsimp only at active
  split at active
  · exact absurd active idle
  rename_i used
  replace used : (t.socks i).used = true := by simpa using used
  split at active
  · split at active
    · exact absurd active idle
    split at active
    · exact absurd active quiet
    · rw [edit_socks, Function.update_self] at active
      exact absurd { active with } quiet
  · exact absurd active idle
  rename_i stream
  split at active
  · exact absurd active idle
  split at active
  · exact absurd active idle
  split at active
  · exact absurd active idle
  rename_i closed
  split at active
  · exact absurd active idle
  rename_i fresh
  split at active
  · exact absurd active idle
  rename_i real
  split at active
  · exact absurd active quiet
  rename_i ok
  obtain ⟨p, picks⟩ := (autoBind_port used).1.1 (not_not.1 ok)
  exact ⟨p, used, stream, not_not.1 closed, not_not.1 fresh, fun zero => real (.inl zero),
    fun zero => real (.inr zero), picks⟩

theorem keepsDistinct_iff {w : World} (bound : w.table.Bound) (distinct : w.table.Distinct) (c : Call) :
    KeepsDistinct w c ↔ PicksFresh w c := by
  constructor
  · rintro keeps i ip port now p rfl starts j active_j ⟨samePort, sameIp, sameRemote⟩
    obtain ⟨active, localPort, remoteIp, remotePort⟩ := starts.connects now
    have other : j ≠ i := by
      rintro rfl
      exact active_j.opened starts.closed
    have still := (w.table.call_move (.connect i ip port now true) j).untouched other active_j
    refine other (keeps j i ?_ active ?_)
    · rw [still]
      exact active_j
    · rw [still]
      exact ⟨samePort.trans localPort.symm, sameIp.trans remoteIp.symm,
        sameRemote.trans remotePort.symm⟩
  intro fresh i j active_i active_j same
  by_contra other
  have connected : ∀ i j, i ≠ j → ((w.table.call c).2.socks i).Active →
      ((w.table.call c).2.socks i).SameTuple ((w.table.call c).2.socks j) →
      (∃ ip port now, c = .connect i ip port now true ∧ ¬(w.table.socks i).Active) →
      ((w.table.socks j).Active ∧
        ((w.table.call c).2.socks j).SameTuple (w.table.socks j)) → False := by
    rintro i j other active same ⟨ip, port, now, rfl, idle⟩ ⟨before, kept⟩
    obtain ⟨p, starts⟩ := Table.starts_of_active idle active
    obtain ⟨-, localPort, remoteIp, remotePort⟩ := starts.connects now
    obtain ⟨samePort, sameIp, sameRemote⟩ := (same.trans kept).symm
    exact fresh i ip port now p rfl starts j before
      ⟨samePort.trans localPort, sameIp.trans remoteIp, sameRemote.trans remotePort⟩
  rcases (w.table.call_move c i).active bound active_i with
    kept_i | ⟨ip, port, now, call, idle⟩ | ⟨g, now, parent, call, free, found, listener, made⟩
  · rcases (w.table.call_move c j).active bound active_j with
      kept_j | started | ⟨g, now, parent, call, free, found, listener, made⟩
    · exact other (distinct i j kept_i.1 kept_j.1 (kept_i.2.symm.trans (same.trans kept_j.2)))
    · exact connected j i (Ne.symm other) active_j same.symm started kept_i
    · rw [made] at same
      exact child_distinct found listener (same.symm.trans kept_i.2) kept_i.1
  · rcases (w.table.call_move c j).active bound active_j with
      kept_j | ⟨ip', port', now', call', _⟩ | ⟨g, now', parent, call', _⟩
    · exact connected i j other active_i same ⟨ip, port, now, call, idle⟩ kept_j
    · rw [call] at call'
      cases call'
      exact other rfl
    · rw [call] at call'
      cases call'
  rcases (w.table.call_move c j).active bound active_j with
    kept_j | ⟨ip', port', now', call', _⟩ | ⟨g', now', parent', call', free', -, -, -⟩
  · rw [made] at same
    exact child_distinct found listener (same.trans kept_j.2) kept_j.1
  · rw [call] at call'
    cases call'
  -- both would be the first free slot
  subst call
  have table : (w.table.call (.segment g now)).2 = w.table.handleListen parent g now := by
    change w.table.handleSegment g now = _
    unfold Table.handleSegment
    rw [found]
    simp only [listener]
  rw [table] at active_i active_j
  have first := Table.handleListen_born free active_i.used
  have second := Table.handleListen_born free' active_j.used
  exact other (Option.some.inj (first.symm.trans second))

theorem Table.Distinct.delivers (distinct : t.Distinct) (connected : t.connected g i) :
    t.lookup g = some i := by
  cases first : (finRange 8).find? (t.connected g) with
  | none =>
    have absent := List.find?_eq_none.1 first i (mem_finRange i)
    exact absurd connected absent
  | some k =>
    obtain ⟨active, port, ip, remote⟩ := Sock.connected_iff.1 connected
    obtain ⟨active', port', ip', remote'⟩ := Sock.connected_iff.1 (find?_some first)
    rw [lookup, first, Option.some_or]
    exact congrArg some (distinct k i active' active
      ⟨port'.trans port.symm, ip'.trans ip.symm, remote'.trans remote.symm⟩)

/-- Along a run no two connections ever have the same addresses exactly if every connect
that can start has a local port that no connection to the same peer has; then each segment of
a connection reaches its socket. -/
theorem connections_distinct (calls : List Call) (w : World) :
    (Prog.Runs exec KeepsDistinct .boot calls w ↔ Prog.Runs exec PicksFresh .boot calls w) ∧
      (Prog.Runs exec PicksFresh .boot calls w → w.table.Distinct ∧
        ∀ g i, w.table.connected g i = true → w.table.lookup g = some i) := by
  have start : World.boot.table.Bound ∧ World.boot.table.Distinct :=
    ⟨fun i used => by simp [World.boot, Sock.unused] at used,
      fun i _ active => by
        have used := active.used
        simp [World.boot, Sock.unused] at used⟩
  have keep : ∀ w c a w', w.table.Bound ∧ w.table.Distinct → KeepsDistinct w c →
      exec c w = some (a, w') → w'.table.Bound ∧ w'.table.Distinct := by
    rintro w c a w' ⟨bound, -⟩ keeps run
    unfold exec at run
    split at run
    · cases run
      exact ⟨fun i used opened => (w.table.call_move c i).port bound used opened, keeps⟩
    · cases run
  have same : Prog.Runs exec KeepsDistinct .boot calls w ↔ _ := Prog.Runs.congr
    (fun w c (known : w.table.Bound ∧ w.table.Distinct) => keepsDistinct_iff known.1 known.2 c) keep
    start
  refine ⟨same, fun run => ?_⟩
  have distinct := ((same.2 run).invariant keep start).2
  exact ⟨distinct, fun g i connected => distinct.delivers connected⟩

/-- Two sockets bound to port 5000, the second while the first is connecting, both connected
to 10.0.2.2:80. -/
def twins : List Call :=
  [.create .stream, .bind 0 0 5000, .connect 0 0x0A000202 80 100 true,
    .create .stream, .bind 1 0 5000, .connect 1 0x0A000202 80 100 true]

def synAckTwin : Segment :=
  { srcIp := 0x0A000202, srcPort := 80, dstPort := 5000, seq := 7, ack := 1101
    flags := { syn := true, ack := true }, payload := [] }

def afterTwins : World := (Prog.play exec .boot twins).getD .boot

/-- Both are connecting with the same addresses, and the answer to the second one's SYN is
taken for the first one's. -/
theorem twins_share_tuple :
    Prog.Runs exec (fun _ _ => True) .boot twins afterTwins ∧ ¬afterTwins.table.Distinct ∧
      (afterTwins.table.socks 1).sndNxt = synAckTwin.ack ∧
      afterTwins.table.lookup synAckTwin = some 0 := by
  refine ⟨.of_play ?_, fun distinct => ?_, by decide +kernel, by decide +kernel⟩
  · obtain ⟨w, done⟩ : ∃ w, Prog.play exec .boot twins = some w :=
      Option.isSome_iff_exists.1 (by decide +kernel)
    rw [afterTwins, done]
    rfl
  have active : ∀ i : Sd, i = 0 ∨ i = 1 → (afterTwins.table.socks i).Active := by
    rintro i (rfl | rfl)
    all_goals exact ⟨by decide +kernel, by decide +kernel, by decide +kernel, by decide +kernel⟩
  have same := distinct 0 1 (active 0 (.inl rfl)) (active 1 (.inr rfl))
    ⟨by decide +kernel, by decide +kernel, by decide +kernel⟩
  exact absurd same (by decide)

end Osnos.Net
