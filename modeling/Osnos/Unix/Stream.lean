import Osnos.Unix.Owners

/-! Each end owns the ring it reads from and the other end writes to it, so a direction of a
connection is one ring. -/
namespace Osnos.Unix
open Osnos.Fd Function Table World List Gap

def accepted (data : List UInt8) : Except Errno Nat → List UInt8
  | .ok n => data.take n
  | .error _ => []

def returned : Except Errno (List UInt8) → List UInt8
  | .ok l => l
  | .error _ => []

namespace Table

variable {t : Table} {i j k x : Idx}

def inbox (t : Table) (i : Idx) : List UInt8 := (t.socks i).rx.contents

structure Linked (t : Table) (i j : Idx) : Prop where
  apart : i ≠ j
  near : t.state i = .connected
  far : t.state j = .connected
  there : (t.socks i).peer = some j
  back : (t.socks j).peer = some i

theorem Linked.symm (linked : t.Linked i j) : t.Linked j i :=
  ⟨linked.apart.symm, linked.far, linked.near, linked.back, linked.there⟩

def write (t : Table) (i : Idx) (l : List UInt8) : Table :=
  t.edit i fun s => { s with rx := s.rx.write l }

def advance (t : Table) (i : Idx) (n : Nat) : Table :=
  t.edit i fun s => { s with rx := s.rx.advance n }

theorem write_inbox {l : List UInt8} (fits : l.length ≤ (t.socks i).rx.room) :
    (t.write i l).inbox k = if k = i then t.inbox k ++ l else t.inbox k := by
  unfold write inbox
  rw [edit_socks]
  split
  next here =>
    subst here
    exact write_contents fits
  · rfl

theorem advance_inbox {n : Nat} (enough : n ≤ (t.socks i).rx.available) :
    (t.advance i n).inbox k = if k = i then (t.inbox k).drop n else t.inbox k := by
  unfold advance inbox
  rw [edit_socks]
  split
  next here =>
    subst here
    exact advance_contents enough
  · rfl

structure SameLinks (t t' : Table) : Prop where
  state : ∀ k, t'.state k = t.state k
  peer : ∀ k, (t'.socks k).peer = (t.socks k).peer

theorem SameLinks.refl : SameLinks t t := ⟨fun _ => rfl, fun _ => rfl⟩

theorem SameLinks.trans {t' t'' : Table} (first : SameLinks t t') (next : SameLinks t' t'') :
    SameLinks t t'' :=
  ⟨fun k => (next.state k).trans (first.state k), fun k => (next.peer k).trans (first.peer k)⟩

theorem SameLinks.buffer {rx : Gap UInt8 UNIX_BUF_BYTES} :
    SameLinks t (t.edit i fun s => { s with rx := rx }) := by
  refine ⟨fun k => ?_, fun k => ?_⟩
  · unfold Table.state
    rw [edit_socks]
    split <;> rfl
  · rw [edit_socks]
    split <;> rfl

theorem SameLinks.linked {t' : Table} (same : SameLinks t t') (linked : t.Linked i j) :
    t'.Linked i j := by
  obtain ⟨state, peer⟩ := same
  exact ⟨linked.apart, (state i).trans linked.near, (state j).trans linked.far,
    (peer i).trans linked.there, (peer j).trans linked.back⟩

theorem send_cases (x : Idx) (data : List UInt8) (fault : Bool) :
    ((t.send x data fault).2 = t ∧ accepted data (t.send x data fault).1 = []) ∨
      ∃ y n, t.state x = .connected ∧ (t.socks x).peer = some y ∧ t.state y = .connected ∧
        n ≤ (t.socks y).rx.room ∧ t.send x data fault = (.ok n, t.write y (data.take n)) := by
  unfold send
  split
  · exact .inl ⟨rfl, rfl⟩
  split
  · exact .inl ⟨rfl, rfl⟩
  rename_i near
  split
  · exact .inl ⟨rfl, rfl⟩
  rename_i y peer
  unfold sendTo
  split
  · exact .inl ⟨rfl, rfl⟩
  rename_i far
  split
  · exact .inl ⟨rfl, rfl⟩
  split
  · exact .inl ⟨rfl, rfl⟩
  dsimp only
  split
  · exact .inl ⟨rfl, rfl⟩
  · exact .inr ⟨y, _, not_not.1 near, peer, not_not.1 far, min_le_left _ _, rfl⟩

theorem recv_cases (x : Idx) (len : Nat) (fault : Bool) :
    ((t.recv x len fault).2 = t ∧ returned (t.recv x len fault).1 = []) ∨
      ∃ n, n ≤ (t.socks x).rx.available ∧
        t.recv x len fault = (.ok ((t.inbox x).take n), t.advance x n) := by
  unfold recv
  split
  · exact .inl ⟨rfl, rfl⟩
  split
  · exact .inl ⟨rfl, rfl⟩
  split
  · exact .inl ⟨rfl, rfl⟩
  split
  · split <;> exact .inl ⟨rfl, rfl⟩
  dsimp only
  split
  · exact .inl ⟨rfl, rfl⟩
  refine .inr ⟨min (t.socks x).rx.available len, min_le_left _ _, ?_⟩
  rw [peek_eq (min_le_left _ _)]
  rfl

/-- On a connection a send takes the free room up to its length. It reports a full ring
and an inaccessible buffer, and then changes nothing. -/
theorem Linked.send (linked : t.Linked i j) (data : List UInt8) (fault : Bool) :
    t.send i data fault =
      if data = [] then (.ok 0, t)
      else if (t.socks j).rx.room = 0 then (.error .EAGAIN, t)
      else if fault then (.error .EFAULT, t)
      else (.ok (min (t.socks j).rx.room data.length),
        t.write j (data.take (min (t.socks j).rx.room data.length))) := by
  have used : t.state i ≠ .unused := by
    rw [linked.near]
    decide
  unfold Table.send
  rw [if_neg used, if_neg (not_not.2 linked.near)]
  simp only [linked.there]
  unfold sendTo
  rw [if_neg (not_not.2 linked.far)]
  simp only [length_eq_zero_iff]
  rfl

/-- On a socket that is or was connected a receive takes what is there up to its length;
an empty ring is the end of the stream once the other end is gone. -/
theorem recv_linked (linked : (t.state j).Linked) (len : Nat) (fault : Bool) : t.recv j len fault =
      if len = 0 then (.ok [], t)
      else if t.inbox j = [] then
        if t.state j = .disconnected then (.ok [], t) else (.error .EAGAIN, t)
      else if fault then (.error .EFAULT, t)
      else (.ok ((t.inbox j).take len), t.advance j (min (t.socks j).rx.available len)) := by
  have nothing : (t.socks j).rx.available = 0 ↔ t.inbox j = [] := by
    rw [← contents_length, length_eq_zero_iff]
    rfl
  have all : (t.inbox j).take (min (t.socks j).rx.available len) = (t.inbox j).take len := by
    rw [← contents_length]
    exact List.take_eq_take_iff.2 (by unfold inbox; omega)
  unfold recv
  rw [if_neg linked.ne_unused, if_neg (by unfold SockState.Linked at linked; tauto)]
  simp only [nothing]
  rw [peek_eq (min_le_left _ _)]
  change (if len = 0 then _ else if t.inbox j = [] then _ else if fault = true then _
    else (Except.ok ((t.inbox j).take (min (t.socks j).rx.available len)), _)) = _
  rw [all]
  rfl

end Table

inductive Io
  | send (data : List UInt8) (fault : Bool)
  | recv (len : Nat) (fault : Bool)

/-- The table, and for each socket the bytes its sends have accepted and its receives have
returned. -/
structure Session where
  table : Table
  accepted : Idx → List UInt8 := fun _ => []
  returned : Idx → List UInt8 := fun _ => []

namespace Session

def call (s : Session) (x : Idx) : Io → Session
  | .send data fault =>
    { s with
      table := (s.table.send x data fault).2
      accepted := update s.accepted x
        (s.accepted x ++ Unix.accepted data (s.table.send x data fault).1) }
  | .recv len fault =>
    { s with
      table := (s.table.recv x len fault).2
      returned := update s.returned x
        (s.returned x ++ Unix.returned (s.table.recv x len fault).1) }

def run (s : Session) (cs : List (Idx × Io)) : Session := cs.foldl (fun s c => s.call c.1 c.2) s

end Session

/-- What a call did: it accepted bytes for the ring of a connected peer, or returned bytes
from the caller's ring, or nothing. -/
inductive Flow (s : Session) (x : Idx) : Session → Prop
  | idle : Flow s x s
  | send {y : Idx} {l : List UInt8} (near : s.table.state x = .connected)
      (peer : (s.table.socks x).peer = some y) (far : s.table.state y = .connected)
      (fits : l.length ≤ (s.table.socks y).rx.room) :
      Flow s x { s with
        table := s.table.write y l
        accepted := update s.accepted x (s.accepted x ++ l) }
  | recv {n : Nat} (enough : n ≤ (s.table.socks x).rx.available) :
      Flow s x { s with
        table := s.table.advance x n
        returned := update s.returned x (s.returned x ++ (s.table.inbox x).take n) }

theorem call_flow (s : Session) (x : Idx) (io : Io) : Flow s x (s.call x io) := by
  cases io with
  | send data fault =>
    unfold Session.call
    rcases send_cases (t := s.table) x data fault with ⟨same, nothing⟩ |
      ⟨y, n, near, peer, far, fits, sent⟩
    · dsimp only
      rw [same, nothing, append_nil, update_eq_self]
      exact .idle
    dsimp only
    rw [sent]
    exact .send near peer far ((length_take_le n data).trans fits)
  | recv len fault =>
    unfold Session.call
    rcases recv_cases (t := s.table) x len fault with ⟨same, nothing⟩ | ⟨n, enough, received⟩
    · dsimp only
      rw [same, nothing, append_nil, update_eq_self]
      exact .idle
    dsimp only
    rw [received]
    exact .recv enough

variable {s : Session} {w : World}

theorem Flow.sameLinks {s' : Session} {x : Idx} (flow : Flow s x s') :
    Table.SameLinks s.table s'.table := by
  cases flow with
  | idle => exact .refl
  | send | recv => exact .buffer

variable {t : Table} {i j : Idx}

def Stranger (t : Table) (i j x : Idx) : Prop :=
  t.state x = .connected → (t.socks x).peer ≠ some i ∧ (t.socks x).peer ≠ some j

/-- What is accepted on `i`, after what was there at the start, is what `j` has returned
and still holds. -/
structure InOrder (t : Table) (i j : Idx) (s : Session) : Prop where
  links : Table.SameLinks t s.table
  order : t.inbox j ++ s.accepted i = s.returned j ++ s.table.inbox j

theorem InOrder.call {s' : Session} {x : Idx} (inOrder : InOrder t i j s)
    (linked : t.Linked i j) (known : x = i ∨ x = j ∨ Stranger t i j x) (flow : Flow s x s') :
    InOrder t i j s' := by
  obtain ⟨links, order⟩ := inOrder
  refine ⟨links.trans flow.sameLinks, ?_⟩
  cases flow with
  | idle => exact order
  | @send y l near peer far fits =>
    rw [links.state] at near
    rw [links.peer] at peer
    change t.inbox j ++ update s.accepted x _ i = s.returned j ++ (s.table.write y l).inbox j
    rw [write_inbox fits]
    by_cases mine : x = i
    · subst mine
      cases linked.there.symm.trans peer
      rw [update_self, if_pos rfl, ← append_assoc, order, append_assoc]
    -- the only other end of a connection to `j` is `i`
    have elsewhere : j ≠ y := by
      rintro rfl
      rcases known with is_i | is_j | stranger
      · exact mine is_i
      · subst is_j
        exact linked.apart (Option.some.inj (linked.back.symm.trans peer))
      · exact (stranger near).2 peer
    rw [update_of_ne (Ne.symm mine), if_neg elsewhere, order]
  | @recv n enough =>
    change t.inbox j ++ s.accepted i = update s.returned x _ j ++ (s.table.advance x n).inbox j
    rw [advance_inbox enough]
    by_cases mine : j = x
    · subst mine
      rw [update_self, if_pos rfl, append_assoc, take_append_drop, order]
    · rw [update_of_ne mine, if_neg mine, order]

theorem InOrder.run (linked : t.Linked i j) (cs : List (Idx × Io))
    (known : ∀ c ∈ cs, c.1 = i ∨ c.1 = j ∨ Stranger t i j c.1) (inOrder : InOrder t i j s) :
    InOrder t i j (s.run cs) := by
  induction cs generalizing s with
  | nil => exact inOrder
  | cons c cs ih =>
    have next := inOrder.call linked (known c (by simp)) (call_flow s c.1 c.2)
    exact ih (fun c' member => known c' (mem_cons_of_mem _ member)) next

theorem inOrder_start : InOrder t i j { table := t } := ⟨.refl, by simp⟩

structure Draining (l : List UInt8) (j : Idx) (s : Session) : Prop where
  cut : s.table.state j = .disconnected
  rest : s.returned j ++ s.table.inbox j = l

theorem Draining.call {l : List UInt8} {s' : Session} {x : Idx} (draining : Draining l j s)
    (flow : Flow s x s') : Draining l j s' := by
  obtain ⟨cut, rest⟩ := draining
  refine ⟨(flow.sameLinks.state j).trans cut, ?_⟩
  cases flow with
  | idle => exact rest
  | @send y l' near peer far fits =>
    have elsewhere : j ≠ y := by
      rintro rfl
      cases cut.symm.trans far
    change s.returned j ++ (s.table.write y l').inbox j = l
    rw [write_inbox fits, if_neg elsewhere, rest]
  | @recv n enough =>
    change update s.returned x _ j ++ (s.table.advance x n).inbox j = l
    rw [advance_inbox enough]
    by_cases mine : j = x
    · subst mine
      rw [update_self, if_pos rfl, append_assoc, take_append_drop, rest]
    · rw [update_of_ne mine, if_neg mine, rest]

theorem Draining.run {l : List UInt8} (cs : List (Idx × Io)) (draining : Draining l j s) :
    Draining l j (s.run cs) := by
  induction cs generalizing s with
  | nil => exact draining
  | cons c _ ih => exact ih (draining.call (call_flow s c.1 c.2))

theorem close_draining (linked : t.Linked i j) : Draining (t.inbox j) j { table := t.close i } := by
  have used : t.state i ≠ .unused := by
    rw [linked.near]
    decide
  have deaf : t.state i ≠ .listening := by
    rw [linked.near]
    decide
  have left : (t.close i).socks j = (t.socks j).disconnect := by
    unfold close
    rw [if_neg used, if_neg deaf]
    dsimp only
    rw [if_pos linked.near, edit_socks, if_neg linked.apart.symm, hangUp_socks,
      if_pos ⟨linked.there, linked.far⟩]
  refine ⟨?_, ?_⟩
  · change (t.close i).state j = .disconnected
    rw [Table.state, left]
    rfl
  change [] ++ (t.close i).inbox j = t.inbox j
  rw [inbox, left]
  rfl

structure Direction (t : Table) (i j : Idx) : Prop where
  accepts : ∀ data, (t.send i data false).1 =
    if data ≠ [] ∧ (t.socks j).rx.room = 0 then .error .EAGAIN
    else .ok (min (t.socks j).rx.room data.length)
  send_fails : ∀ data fault e, (t.send i data fault).1 = .error e → (t.send i data fault).2 = t
  recv_fails : ∀ len fault e, (t.recv j len fault).1 = .error e → (t.recv j len fault).2 = t
  send_local : ∀ data fault k, k ≠ j → (t.send i data fault).2.socks k = t.socks k
  recv_local : ∀ len fault k, k ≠ j → (t.recv j len fault).2.socks k = t.socks k
  drains : ∀ later, Draining (t.inbox j) j (Session.run { table := t.close i } later)
  ends : ∀ later len, 0 < len →
    ((Session.run { table := t.close i } later).table.recv j len false).1 =
      .ok (((Session.run { table := t.close i } later).table.inbox j).take len)

theorem Table.Linked.direction (linked : t.Linked i j) : Direction t i j where
  accepts data := by
    rw [linked.send]
    by_cases nothing : data = []
    · subst nothing
      simp
    · by_cases full : (t.socks j).rx.room = 0 <;> simp [nothing, full]
  send_fails data fault e fails := by
    rcases send_cases (t := t) i data fault with ⟨same, -⟩ | ⟨y, n, -, -, -, -, sent⟩
    · exact same
    · rw [sent] at fails
      cases fails
  recv_fails len fault e fails := by
    rcases recv_cases (t := t) j len fault with ⟨same, -⟩ | ⟨n, -, received⟩
    · exact same
    · rw [received] at fails
      cases fails
  send_local data fault k other := by
    rcases send_cases (t := t) i data fault with ⟨same, -⟩ | ⟨y, n, -, peer, -, -, sent⟩
    · rw [same]
    cases linked.there.symm.trans peer
    rw [sent]
    unfold write
    rw [edit_socks, if_neg other]
  recv_local len fault k other := by
    rcases recv_cases (t := t) j len fault with ⟨same, -⟩ | ⟨n, -, received⟩
    · rw [same]
    rw [received]
    unfold advance
    rw [edit_socks, if_neg other]
  drains later := (close_draining linked).run later
  ends later len positive := by
    have cut := ((close_draining linked).run later).cut
    rw [recv_linked (.inr cut), if_neg (by omega), if_pos cut]
    split
    next empty =>
      rw [empty, take_nil]
    · rfl

def World.Clean (w : World) : Prop :=
  ∀ i, w.table.state i = .unbound ∨ w.table.state i = .listening → w.table.inbox i = []

theorem World.Clean.frame (clean : w.Clean) {t : Table}
    (ring : ∀ k, t.state k = .unbound ∨ t.state k = .listening →
      t.inbox k = [] ∨ (w.table.state k = .unbound ∨ w.table.state k = .listening) ∧
        t.inbox k = w.table.inbox k) {pool : Pool Idx} : Clean ⟨t, pool⟩ := by
  intro k idle
  rcases ring k idle with empty | ⟨before, same⟩
  · exact empty
  · exact same.trans (clean k before)

theorem World.Clean.edit (clean : w.Clean) {i : Idx} {f : Sock → Sock}
    (ring : (f (w.table.socks i)).state = .unbound ∨ (f (w.table.socks i)).state = .listening →
      (f (w.table.socks i)).rx.contents = [] ∨
        (w.table.state i = .unbound ∨ w.table.state i = .listening) ∧
          (f (w.table.socks i)).rx = (w.table.socks i).rx) {pool : Pool Idx} :
    Clean ⟨w.table.edit i f, pool⟩ := by
  refine clean.frame fun k idle => ?_
  unfold Table.state at idle
  unfold inbox
  rw [edit_socks] at idle ⊢
  split at idle
  next here =>
    subst here
    rw [if_pos rfl]
    exact (ring idle).imp id fun both => ⟨both.1, by rw [both.2]⟩
  next other =>
    rw [if_neg other]
    exact .inr ⟨idle, rfl⟩

theorem tweak_clean {w' : World} (clean : w.Clean) (change : Tweak w w') : w'.Clean := by
  cases change with
  | idle => exact clean
  | @buffer i rx linked =>
    refine clean.edit fun idle => ?_
    have linked : (w.table.state i).Linked := linked
    rcases idle with unbound | listening
    · exact absurd unbound linked.ne_unbound
    · exact absurd listening linked.ne_listening
  | listens before => exact clean.edit fun _ => .inr ⟨before, rfl⟩
  | @connects client server listener unbound free listening room =>
    have served : Clean ⟨w.table.edit server _, w.pool⟩ := clean.edit
      (f := fun s => { s.reset with state := .connected, peer := some client }) (by simp)
    have joined : Clean ⟨edit _ client _, w.pool⟩ := served.edit
      (f := fun s => { s with state := .connected, peer := some server }) (by simp)
    have queued : Clean ⟨edit _ listener _, w.pool⟩ := joined.edit
      (f := fun s => { s with backlog := s.backlog.push server }) fun idle => .inr ⟨idle, rfl⟩
    exact queued

theorem close_clean {i : Idx} (sound : Sound w) (loose : Loose w i) (clean : w.Clean)
    {pool : Pool Idx} : Clean ⟨w.table.close i, pool⟩ := by
  have closed := sound.closed loose
  refine clean.frame fun k idle => ?_
  have other : k ≠ i := by
    rintro rfl
    rw [closed.state] at idle
    rcases idle with h | h <;> cases h
  have ring := congrArg (fun s : Sock => s.rx.contents) (closed_same closed other).1
  rcases (closed_same closed other).2 with same | ⟨-, gone⟩
  · rw [same] at idle
    exact .inr ⟨idle, ring⟩
  · rw [gone] at idle
    rcases idle with h | h <;> cases h

theorem loosen_clean {w₁ : World} {i : Idx} (clean : w.Clean) (loose : Loosen w i w₁) :
    w₁.Clean := by
  cases loose with
  | create =>
    exact clean.edit (i := i) (f := fun s => { s.reset with state := .unbound }) fun _ =>
      .inl (clear_contents _)
  | pop => exact clean.edit fun idle => .inr ⟨idle, rfl⟩

theorem step_clean (sound : Sound w) (clean : w.Clean) (c : Call) : (w.step c).2.Clean := by
  have move := step_move (w := w) c
  generalize (w.step c).2 = w' at move ⊢
  cases move with
  | tweak _ change => exact tweak_clean clean change
  | @bind i path b _ _ found =>
    have moved : Clean ⟨w.table.edit i _, w.pool⟩ := clean.edit
      (f := fun s => { s with path := path }) fun idle => .inr ⟨idle, rfl⟩
    exact moved
  | settle _ loose settled =>
    obtain ⟨sound₁, loose₁⟩ := loosen_sound sound loose
    have clean₁ := loosen_clean clean loose
    cases settled with
    | hold => exact clean₁
    | close => exact close_clean sound₁ loose₁ clean₁
  | close _ _ held given =>
    obtain ⟨sound₁, loose₁⟩ := release_sound sound held given
    exact close_clean sound₁ loose₁ clean

theorem connect_linked (clean : w.Clean) {path : Path}
    (success : (w.table.connect i path).1 = .ok ()) :
    ∃ j, (w.table.connect i path).2.Linked i j ∧ (w.table.connect i path).2.inbox i = [] ∧
      (w.table.connect i path).2.inbox j = [] := by
  rcases connect_cases w.table i path with ⟨e, fails⟩ | ⟨server, e, found, connects⟩
  · rw [fails] at success
    cases success
  have apart := ne_of_state found.unbound found.free (by decide)
  have socks := fun k => pair_socks (t := w.table) (k := k) apart
    (ne_of_state found.unbound found.listening (by decide))
    (ne_of_state found.free found.listening (by decide))
  have at_server := socks server
  have at_client := socks i
  rw [if_pos rfl] at at_server
  rw [if_neg apart, if_pos rfl] at at_client
  refine ⟨server, ?_⟩
  rw [connects]
  refine ⟨⟨apart, ?_, ?_, ?_, ?_⟩, ?_, ?_⟩
  · rw [Table.state, at_client]
  · rw [Table.state, at_server]
  · rw [at_client]
  · rw [at_server]
  · rw [inbox, at_client]
    exact clean i (.inl found.unbound)
  · rw [inbox, at_server]
    exact clear_contents _

/-- Every connection starts as a pair with empty rings. From any pair on, along every
sequence of sends and receives on its ends and on sockets not connected to them, each
direction returns in order what it has accepted, both keep their promises, and the pair
stays. -/
theorem connection_streams :
    (∀ cs w, Prog.Runs exec (fun _ _ => True) {} cs w → ∀ i path,
      (w.table.connect i path).1 = .ok () →
        ∃ j, (w.table.connect i path).2.Linked i j ∧ (w.table.connect i path).2.inbox i = [] ∧
          (w.table.connect i path).2.inbox j = []) ∧
      ∀ (t : Table) (i j : Idx), t.Linked i j → ∀ cs : List (Idx × Io),
        (∀ c ∈ cs, c.1 = i ∨ c.1 = j ∨ Stranger t i j c.1) →
          let s := Session.run { table := t } cs
          s.table.Linked i j ∧
            t.inbox j ++ s.accepted i = s.returned j ++ s.table.inbox j ∧
            t.inbox i ++ s.accepted j = s.returned i ++ s.table.inbox i ∧
            Direction s.table i j ∧ Direction s.table j i := by
  refine ⟨fun cs w run i path success => ?_, fun t i j linked cs known => ?_⟩
  · have known : Sound w ∧ w.Clean := by
      refine run.invariant (fun w c a w' (inv : Sound w ∧ w.Clean) _ next => ?_)
        ⟨sound_init, fun _ _ => Gap.empty_contents _ _⟩
      rw [exec_step next]
      exact ⟨step_sound inv.1 c, step_clean inv.1 inv.2 c⟩
    exact connect_linked known.2 success
  have forth := inOrder_start.run linked cs known
  have back := inOrder_start.run linked.symm cs fun c member => by
    rcases known c member with is_i | is_j | stranger
    · exact .inr (.inl is_i)
    · exact .inl is_j
    · exact .inr (.inr fun connected => (stranger connected).symm)
  have still := forth.links.linked linked
  exact ⟨still, forth.order, back.order, still.direction, still.symm.direction⟩

/-- A client connects to a listener; of its two bytes one is received. -/
theorem connection_streams_client : ∃ (t : Table) (j : Idx), t.Linked 1 j ∧
    let s := Session.run { table := t } [(1, .send [7, 8] false), (j, .recv 1 false)]
    s.accepted 1 = s.returned j ++ s.table.inbox j := by
  have ok : (Prog.play exec {} [.socket true, .bind 0 ⟨[97], by decide⟩, .listen 0, .socket true]).any
      fun w => (w.table.connect 1 ⟨[97], by decide⟩).1.isOk := by
    decide +kernel
  obtain ⟨w, run, connects⟩ := (Option.any_eq_true _ _).1 ok
  obtain ⟨j, linked, -, empty⟩ := connection_streams.1 _ w (.of_play run) 1 ⟨[97], by decide⟩ (by
    revert connects
    cases (w.table.connect 1 _).1 <;> simp [Except.isOk, Except.toBool])
  have streams := connection_streams.2 _ 1 j linked [(1, .send [7, 8] false), (j, .recv 1 false)] (by simp)
  rw [empty] at streams
  exact ⟨_, j, linked, streams.2.1⟩

end Osnos.Unix
