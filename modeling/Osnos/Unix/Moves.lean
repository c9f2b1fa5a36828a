import Osnos.Unix.Sock

/-! What a call can do to the world: change sockets in place, or let go of one and
then give it a descriptor or close it. -/
namespace Osnos.Unix
open Osnos.Fd Table World List Sock

namespace Table

variable {t : Table} {i j k : Idx}

@[simp] theorem put_socks (s : Sock) : (t.put i s).socks k = if k = i then s else t.socks k := by
  unfold put
  by_cases same : k = i
  · subst same
    simp
  · simp [same]

@[simp] theorem edit_socks (f : Sock → Sock) :
    (t.edit i f).socks k = if k = i then f (t.socks k) else t.socks k := by
  unfold edit
  rw [put_socks]
  by_cases same : k = i
  · rw [if_pos same, if_pos same, same]
  · rw [if_neg same, if_neg same]

@[simp] theorem edit_binds (f : Sock → Sock) : (t.edit i f).binds = t.binds := rfl
@[simp] theorem reset_pending (s : Sock) : s.reset.backlog.contents = [] := rfl

theorem allocSock_unused (found : t.allocSock = some i) : t.state i = .unused := by
  simpa using find?_some found

theorem allocBind_free {b : BindIdx} (found : t.allocBind = some b) : t.binds b = none := by
  simpa using find?_some found

theorem findBind_some {b : BindIdx} {path : Path} (found : t.findBind path = some b) :
    (t.binds b).map Bind.path = some path := by
  simpa using find?_some found

theorem findBind_none {path : Path} (absent : t.findBind path = none) (b : BindIdx) {e : Bind}
    (entry : t.binds b = some e) : e.path ≠ path := by
  have differs := List.find?_eq_none.1 absent b (mem_finRange b)
  rw [entry] at differs
  simpa using differs

theorem ne_of_state {a b : SockState} (ha : t.state i = a) (hb : t.state j = b) (ne : a ≠ b) :
    i ≠ j := fun same => ne (ha.symm.trans (same ▸ hb))

theorem pair_socks {client server listener : Idx} (apart : client ≠ server)
    (client_other : client ≠ listener) (server_other : server ≠ listener) :
    (t.pair client server listener).socks k =
      if k = server then
        { (t.socks server).reset with state := .connected, peer := some client }
      else if k = client then { t.socks client with state := .connected, peer := some server }
      else if k = listener then
        { t.socks listener with backlog := (t.socks listener).backlog.push server }
      else t.socks k := by
  unfold pair
  rw [edit_socks, edit_socks, put_socks]
  by_cases at_server : k = server
  · subst at_server
    simp [Ne.symm apart, server_other]
  by_cases at_client : k = client
  · subst at_client
    simp [at_server, client_other]
  by_cases at_listener : k = listener
  · subst at_listener
    simp [at_server, at_client]
  · simp [at_server, at_client, at_listener]

structure Pairs (t t' : Table) (client server listener : Idx) : Prop where
  apart : client ≠ server
  binds : t'.binds = t.binds
  states : ∀ k, t'.state k = if k = server ∨ k = client then .connected else t.state k
  peers : ∀ k, (t'.socks k).peer = if k = server then some client else if k = client then some server
    else (t.socks k).peer
  paths : ∀ k, (t'.socks k).path = if k = server then .empty else (t.socks k).path
  pending : ∀ k, t'.pending k = if k = server then []
    else if k = listener then t.pending k ++ [server] else t.pending k

theorem pair_pairs {client server listener : Idx} (unbound : t.state client = .unbound)
    (free : t.state server = .unused) (listening : t.state listener = .listening)
    (room : (t.socks listener).backlog.count < UNIX_BACKLOG_MAX) :
    t.Pairs (t.pair client server listener) client server listener := by
  have apart := ne_of_state unbound free (by decide)
  have client_other := ne_of_state unbound listening (by decide)
  have server_other := ne_of_state free listening (by decide)
  have each (k : Idx) := pair_socks (t := t) (k := k) apart client_other server_other
  refine ⟨apart, rfl, ?_, ?_, ?_, ?_⟩
  all_goals
    intro k
    simp only [state, pending, each]
    by_cases at_server : k = server
    · simp [at_server, reset]
    by_cases at_client : k = client
    · simp [at_client, apart, client_other]
    by_cases at_listener : k = listener
    · subst at_listener
      simp [at_server, at_client, Ring.push_contents server room]
    · simp [at_server, at_client, at_listener]

theorem hangUp_socks {peer : Option Idx} : (t.hangUp peer).socks k =
      if peer = some k ∧ t.state k = .connected then (t.socks k).disconnect else t.socks k := by
  unfold hangUp
  cases peer with
  | none => simp
  | some c =>
    dsimp only
    by_cases same : c = k
    · subst same
      by_cases connected : t.state c = .connected <;> simp [connected]
    · have other : ¬k = c := fun h => same h.symm
      by_cases connected : t.state c = .connected <;> simp [connected, same, other]

theorem hangUp_binds {peer : Option Idx} : (t.hangUp peer).binds = t.binds := by
  unfold hangUp
  split
  · rfl
  · split <;> rfl

def Dropped (t : Table) (l : List Idx) (k : Idx) : Prop :=
  k ∈ l ∨ t.state k = .connected ∧ ∃ p ∈ l, (t.socks p).peer = some k

theorem reject_socks (used : t.state j ≠ .unused) (k : Idx) :
    (k = j ∨ t.state k = .connected ∧ (t.socks j).peer = some k →
        (t.reject j).socks k = (t.socks k).disconnect) ∧
      (¬(k = j ∨ t.state k = .connected ∧ (t.socks j).peer = some k) →
        (t.reject j).socks k = t.socks k) := by
  unfold reject
  rw [if_neg used, hangUp_socks]
  unfold state
  rw [edit_socks]
  by_cases same : k = j
  · subst same
    simp [disconnect]
  simp only [same, if_false, false_or]
  constructor
  · rintro ⟨connected, peer⟩
    rw [if_pos ⟨peer, connected⟩]
  · intro none_of
    rw [if_neg fun both => none_of ⟨both.2, both.1⟩]

theorem reject_binds : (t.reject j).binds = t.binds := by
  unfold reject
  split
  · rfl
  · exact hangUp_binds

theorem reject_same (used : t.state j ≠ .unused) (k : Idx) :
    ((t.reject j).socks k).disconnect = (t.socks k).disconnect ∧
      ((t.reject j).state k = t.state k ∨ (t.reject j).state k = .disconnected) := by
  obtain ⟨cut, kept⟩ := reject_socks used k
  unfold state
  by_cases hit : k = j ∨ t.state k = .connected ∧ (t.socks j).peer = some k
  · rw [cut hit]
    exact ⟨rfl, .inr rfl⟩
  · rw [kept hit]
    exact ⟨rfl, .inl rfl⟩

theorem foldl_reject_socks (l : List Idx) {t : Table} (used : ∀ p ∈ l, t.state p ≠ .unused)
    (k : Idx) :
    (t.Dropped l k → (l.foldl reject t).socks k = (t.socks k).disconnect) ∧
      (¬t.Dropped l k → (l.foldl reject t).socks k = t.socks k) := by
  induction l generalizing t with
  | nil => exact ⟨fun dropped => by simp [Dropped] at dropped, fun _ => rfl⟩
  | cons p l ih =>
    have used_p := used p (by simp)
    have peers : ∀ q, ((t.reject p).socks q).peer = (t.socks q).peer := fun q => by
      have same := congrArg Sock.peer (reject_same used_p q).1
      exact same
    obtain ⟨cut, kept⟩ := reject_socks used_p k
    obtain ⟨later, spared⟩ := ih (t := t.reject p) fun q member => by
      rcases (reject_same used_p q).2 with same | gone
      · rw [same]
        exact used q (mem_cons_of_mem _ member)
      · rw [gone]
        decide
    have same := (reject_same used_p k).1
    rw [foldl_cons]
    constructor
    · intro dropped
      by_cases again : (t.reject p).Dropped l k
      · rw [later again, same]
      rw [spared again]
      refine cut ?_
      by_contra missed
      have before := kept missed
      refine again ?_
      rcases dropped with member | ⟨connected, q, member, peer⟩
      · rcases List.mem_cons.1 member with here | there
        · exact absurd (.inl here) missed
        · exact .inl there
      · rcases List.mem_cons.1 member with here | there
        · subst here
          exact absurd (.inr ⟨connected, peer⟩) missed
        · refine .inr ⟨?_, q, there, by rw [peers, peer]⟩
          unfold state
          rwa [before]
    · intro spared_all
      have missed : ¬(k = p ∨ t.state k = .connected ∧ (t.socks p).peer = some k) := by
        rintro (here | ⟨connected, peer⟩)
        · exact spared_all (.inl (by simp [here]))
        · exact spared_all (.inr ⟨connected, p, by simp, peer⟩)
      have before := kept missed
      rw [spared, before]
      rintro (member | ⟨connected, q, member, peer⟩)
      · exact spared_all (.inl (mem_cons_of_mem _ member))
      · refine spared_all (.inr ⟨?_, q, mem_cons_of_mem _ member, by rw [← peers, peer]⟩)
        unfold state at connected ⊢
        rwa [before] at connected

theorem foldl_reject_binds (l : List Idx) (t : Table) : (l.foldl reject t).binds = t.binds := by
  induction l generalizing t with
  | nil => rfl
  | cons p l ih => rw [foldl_cons, ih, reject_binds]

def Cut (t : Table) (i k : Idx) : Prop :=
  t.state i = .listening ∧ t.Dropped (t.pending i) k ∨
    t.state i = .connected ∧ t.state k = .connected ∧ (t.socks i).peer = some k

structure Closed (t : Table) (i : Idx) (t' : Table) : Prop where
  cut : ∀ k, k ≠ i → t.Cut i k → t'.socks k = (t.socks k).disconnect
  kept : ∀ k, k ≠ i → ¬t.Cut i k → t'.socks k = t.socks k
  state : t'.state i = .unused
  path : (t'.socks i).path = .empty
  pending : t'.pending i = []
  unbound : ∀ b, t.state i = .listening → (t.binds b).map Bind.sock = some i → t'.binds b = none
  bound : ∀ b, ¬(t.state i = .listening ∧ (t.binds b).map Bind.sock = some i) →
    t'.binds b = t.binds b

theorem close_closed (used : t.state i ≠ .unused)
    (waiting : ∀ p ∈ t.pending i, t.state p = .connected ∨ t.state p = .disconnected) :
    t.Closed i (t.close i) := by
  unfold close
  rw [if_neg used]
  by_cases listening : t.state i = .listening
  · have live : ∀ p ∈ t.pending i, (t.unbind i).state p ≠ .unused := fun p member => by
      have in_use : t.state p ≠ .unused := by
        rcases waiting p member with h | h <;> rw [h] <;> decide
      exact in_use
    have spared : ¬(t.unbind i).Dropped (t.pending i) i := by
      rintro (member | ⟨connected, -⟩)
      · rcases waiting i member with h | h <;> rw [listening] at h <;> cases h
      · cases listening.symm.trans connected
    have stays : (t.closeListener i).state i = .listening := by
      have same := (foldl_reject_socks (t.pending i) live i).2 spared
      unfold state closeListener
      rw [same]
      exact listening
    rw [if_pos listening]
    dsimp only
    rw [if_neg (by rw [stays]; decide)]
    have cut_iff : ∀ k, t.Cut i k ↔ (t.unbind i).Dropped (t.pending i) k := fun k => by
      constructor
      · rintro (⟨-, dropped⟩ | ⟨connected, -⟩)
        · exact dropped
        · cases listening.symm.trans connected
      · exact fun dropped => .inl ⟨listening, dropped⟩
    have binds : ((t.closeListener i).edit i reset).binds = (t.unbind i).binds :=
      foldl_reject_binds _ _
    refine ⟨fun k other hit => ?_, fun k other miss => ?_, ?_, ?_, ?_, fun b _ mine => ?_,
      fun b others => ?_⟩
    · rw [edit_socks, if_neg other]
      exact (foldl_reject_socks (t.pending i) live k).1 ((cut_iff k).1 hit)
    · rw [edit_socks, if_neg other]
      exact (foldl_reject_socks (t.pending i) live k).2 fun dropped => miss ((cut_iff k).2 dropped)
    · simp [state, reset]
    · simp [reset]
    · simp [pending]
    · rw [binds]
      exact if_pos mine
    · rw [binds]
      exact if_neg fun mine => others ⟨listening, mine⟩
  · rw [if_neg listening]
    dsimp only
    have cut_iff : ∀ k, t.Cut i k ↔
        t.state i = .connected ∧ t.state k = .connected ∧ (t.socks i).peer = some k := fun k =>
      ⟨fun hit => hit.resolve_left fun both => listening both.1, .inr⟩
    have others : ∀ k, k ≠ i → ((if t.state i = .connected then t.hangUp (t.socks i).peer else t).edit
        i reset).socks k = (if t.state i = .connected then t.hangUp (t.socks i).peer else t).socks
          k := fun k other => by rw [edit_socks, if_neg other]
    refine ⟨fun k other hit => ?_, fun k other miss => ?_, ?_, ?_, ?_,
      fun b listens => absurd listens listening, fun b _ => ?_⟩
    · obtain ⟨connected, far, peer⟩ := (cut_iff k).1 hit
      rw [others k other, if_pos connected, hangUp_socks, if_pos ⟨peer, far⟩]
    · rw [others k other]
      split
      next connected =>
        rw [hangUp_socks, if_neg fun both => miss ((cut_iff k).2 ⟨connected, both.2, both.1⟩)]
      · rfl
    · simp [state, reset]
    · simp [reset]
    · simp [pending]
    rw [edit_binds]
    split
    · rw [hangUp_binds]
    · rfl

end Table

variable {w w' : World} {i : Idx}

inductive Tweak (w : World) : World → Prop
  | idle {pool : Pool Idx} (same : ∀ o, pool.backend o = w.pool.backend o) :
      Tweak w { w with pool := pool }
  | buffer {i : Idx} {rx : Gap UInt8 UNIX_BUF_BYTES}
      (linked : w.table.state i = .connected ∨ w.table.state i = .disconnected) :
      Tweak w { w with table := w.table.edit i fun s => { s with rx := rx } }
  | listens {i : Idx} (before : w.table.state i = .unbound ∨ w.table.state i = .listening) :
      Tweak w { w with table := w.table.edit i fun s => { s with state := .listening } }
  | connects {client server listener : Idx} (unbound : w.table.state client = .unbound)
      (free : w.table.state server = .unused) (listening : w.table.state listener = .listening)
      (room : (w.table.socks listener).backlog.count < UNIX_BACKLOG_MAX) :
      Tweak w { w with table := w.table.pair client server listener }

inductive Loosen (w : World) : Idx → World → Prop
  | create {i : Idx} (free : w.table.state i = .unused) :
      Loosen w i { w with table := w.table.put i { (w.table.socks i).reset with state := .unbound } }
  | pop {l i : Idx} {rest : Ring Idx UNIX_BACKLOG_MAX} (listening : w.table.state l = .listening)
      (first : (w.table.socks l).backlog.pop = some (i, rest)) :
      Loosen w i { w with table := w.table.edit l fun s => { s with backlog := rest } }

inductive Settle (w : World) (i : Idx) : World → Prop
  | hold {o : OfdIdx} (free : w.pool.backend o = none) :
      Settle w i { w with pool := w.pool.install o (some i) }
  | close : Settle w i { w with table := w.table.close i }

theorem adopt_settles (room : Bool) (t : Table) :
    Settle { w with table := t } i (w.adopt room i t).2 := by
  unfold adopt
  split
  · exact .close
  next o taken =>
    exact .hold (w := { w with table := t }) (Pool.fdAlloc_free taken)

theorem reply_tweak {α : Type} {answer : α → Reply} {r : Except Errno α × Table}
    (change : Tweak w { w with table := r.2 }) : Tweak w (w.reply answer r).2 := by
  unfold reply
  split <;> exact change

theorem Tweak.refl : Tweak w w := .idle (w := w) fun _ => rfl

def Table.bindAt (t : Table) (i : Idx) (path : Path) (b : BindIdx) : Table :=
  { t.edit i fun s => { s with path := path } with
    binds := Function.update t.binds b (some ⟨i, path⟩) }

structure Bindable (t : Table) (i : Idx) (path : Path) (b : BindIdx) : Prop where
  unbound : t.state i = .unbound
  named : path ≠ .empty
  new : t.findBind path = none
  free : t.binds b = none

theorem bind_cases (t : Table) (i : Idx) (path : Path) : (∃ e, t.bind i path = (.error e, t)) ∨
      ∃ b, Bindable t i path b ∧ t.bind i path = (.ok (), t.bindAt i path b) := by
  unfold Table.bind
  split
  · exact .inl ⟨_, rfl⟩
  split
  · exact .inl ⟨_, rfl⟩
  rename_i unbound
  split
  · exact .inl ⟨_, rfl⟩
  rename_i named
  split
  · exact .inl ⟨_, rfl⟩
  rename_i new
  split
  · exact .inl ⟨_, rfl⟩
  rename_i b free
  exact .inr ⟨b, ⟨not_not.1 unbound, named, by simpa using new, allocBind_free free⟩, rfl⟩

theorem listen_tweak : Tweak w { w with table := (w.table.listen i).2 } := by
  unfold Table.listen
  split
  · exact .refl
  split
  · exact .refl
  split
  · exact .refl
  rename_i before
  exact .listens (by tauto)

structure Connectable (t : Table) (client : Idx) (path : Path) (server : Idx) (e : Bind) : Prop where
  unbound : t.state client = .unbound
  free : t.state server = .unused
  entry : ∃ b, t.binds b = some e
  path : e.path = path
  listening : t.state e.sock = .listening
  room : (t.socks e.sock).backlog.count < UNIX_BACKLOG_MAX

theorem connect_cases (t : Table) (i : Idx) (path : Path) :
    (∃ e, t.connect i path = (.error e, t)) ∨ ∃ server e, Connectable t i path server e ∧
        t.connect i path = (.ok (), t.pair i server e.sock) := by
  unfold Table.connect
  split
  · exact .inl ⟨_, rfl⟩
  split
  · exact .inl ⟨_, rfl⟩
  rename_i unbound
  split
  · exact .inl ⟨_, rfl⟩
  split
  · exact .inl ⟨_, rfl⟩
  rename_i entry found
  split
  · exact .inl ⟨_, rfl⟩
  rename_i listening
  split
  · exact .inl ⟨_, rfl⟩
  rename_i room
  split
  · exact .inl ⟨_, rfl⟩
  rename_i server free
  obtain ⟨b, first, here⟩ := Option.bind_eq_some_iff.1 found
  have same := findBind_some first
  rw [here] at same
  exact .inr ⟨server, entry, ⟨not_not.1 unbound, allocSock_unused free, ⟨b, here⟩,
    Option.some.inj same, not_not.1 listening, by omega⟩, rfl⟩

theorem connect_tweak (path : Path) : Tweak w { w with table := (w.table.connect i path).2 } := by
  rcases connect_cases w.table i path with ⟨e, fails⟩ | ⟨server, e, found, connects⟩
  · rw [fails]
    exact .refl
  · rw [connects]
    exact .connects found.unbound found.free found.listening found.room

theorem recv_tweak (len : Nat) (fault : Bool) :
    Tweak w { w with table := (w.table.recv i len fault).2 } := by
  unfold Table.recv
  split
  · exact .refl
  split
  · exact .refl
  rename_i linked
  split
  · exact .refl
  split
  · split <;> exact .refl
  dsimp only
  split
  · exact .refl
  · have linked' : w.table.state i = .connected ∨ w.table.state i = .disconnected := by tauto
    exact Tweak.buffer (w := w) (i := i) linked'

theorem send_tweak (data : List UInt8) (fault : Bool) :
    Tweak w { w with table := (w.table.send i data fault).2 } := by
  unfold Table.send
  split
  · exact .refl
  split
  · exact .refl
  split
  · exact .refl
  rename_i peer _
  unfold sendTo
  split
  · exact .refl
  rename_i connected
  split
  · exact .refl
  split
  · exact .refl
  dsimp only
  split
  · exact .refl
  · exact Tweak.buffer (w := w) (i := peer) (.inl (not_not.1 connected))

def World.closing (w : World) : Call → Option Idx
  | .close o => (w.pool.ofdUnref o).1
  | _ => none

def World.binding (w : World) : Call → Option Idx
  | .bind o path => (w.pool.backend o).filter fun i => (w.table.bind i path).1.isOk
  | _ => none

structure Silent (w : World) (c : Call) : Prop where
  closing : w.closing c = none
  binding : w.binding c = none

inductive Move (w : World) (c : Call) : World → Prop
  | tweak {w' : World} (silent : Silent w c) (change : Tweak w w') : Move w c w'
  | bind {i : Idx} {path : Path} {b : BindIdx} (silent : w.closing c = none)
      (asked : w.binding c = some i) (found : Bindable w.table i path b) :
      Move w c { w with table := w.table.bindAt i path b }
  | settle {i : Idx} {w₁ w' : World} (silent : Silent w c) (loose : Loosen w i w₁)
      (settled : Settle w₁ i w') : Move w c w'
  | close {i : Idx} {o : OfdIdx} {pool : Pool Idx} (asked : w.closing c = some i)
      (silent : w.binding c = none) (held : w.pool.backend o = some i)
      (given : ∀ o', pool.backend o' = if o' = o then none else w.pool.backend o') :
      Move w c ⟨w.table.close i, pool⟩

theorem onSocket_move {c : Call} {o : OfdIdx} {call : Idx → Reply × World}
    (silent : Silent w c) (each : ∀ i, Move w c (call i).2) :
    Move w c (w.onSocket o call).2 := by
  unfold onSocket
  split
  · exact .tweak silent .refl
  · exact each _

theorem onSocket_tweak {α : Type} {c : Call} {o : OfdIdx} {answer : α → Reply}
    {call : Idx → Except Errno α × Table} (silent : Silent w c)
    (each : ∀ i, Tweak w { w with table := (call i).2 }) :
    Move w c (w.onSocket o fun i => w.reply answer (call i)).2 :=
  onSocket_move silent fun i => .tweak silent (reply_tweak (each i))

theorem step_move (c : Call) : Move w c (w.step c).2 := by
  cases c with
  | socket room =>
    change Move w _ (w.sysSocket room).2
    unfold sysSocket Table.create
    cases found : w.table.allocSock with
    | none => exact .tweak ⟨rfl, rfl⟩ .refl
    | some => exact .settle ⟨rfl, rfl⟩ (.create (allocSock_unused found)) (adopt_settles room _)
  | openOther room =>
    change Move w _ (w.openOther room).2
    unfold World.openOther
    split
    · exact .tweak ⟨rfl, rfl⟩ .refl
    rename_i o taken
    refine .tweak ⟨rfl, rfl⟩ (.idle fun o' => ?_)
    rw [Pool.install_backend]
    split
    next same =>
      rw [same, Pool.fdAlloc_free taken]
    · rfl
  | bind o path =>
    change Move w _ (w.onSocket o fun i => w.reply (fun _ => .done) (w.table.bind i path)).2
    unfold onSocket
    cases held : w.pool.backend o with
    | none =>
      refine .tweak ⟨rfl, ?_⟩ .refl
      rw [binding, held]
      rfl
    | some i =>
      rcases bind_cases w.table i path with ⟨e, fails⟩ | ⟨b, found, binds⟩
      · have silent : w.binding (.bind o path) = none := by
          rw [binding, held, Option.filter_some, fails]
          rfl
        dsimp only
        rw [fails]
        exact .tweak ⟨rfl, silent⟩ .refl
      have asked : w.binding (.bind o path) = some i := by
        rw [binding, held, Option.filter_some, binds]
        rfl
      dsimp only
      rw [binds]
      exact .bind rfl asked found
  | listen => exact onSocket_tweak ⟨rfl, rfl⟩ fun i => listen_tweak
  | connect o path => exact onSocket_tweak ⟨rfl, rfl⟩ fun i => connect_tweak path
  | accept o room =>
    refine onSocket_move ⟨rfl, rfl⟩ fun l => ?_
    unfold sysAccept Table.accept
    split
    · exact .tweak ⟨rfl, rfl⟩ .refl
    rename_i child t accepted
    split at accepted
    · cases accepted
    split at accepted
    · cases accepted
    rename_i listening
    split at accepted
    · cases accepted
    rename_i server rest first
    cases accepted
    exact .settle ⟨rfl, rfl⟩ (.pop (not_not.1 listening) first) (adopt_settles room _)
  | send o data fault => exact onSocket_tweak ⟨rfl, rfl⟩ fun i => send_tweak data fault
  | recv o len fault => exact onSocket_tweak ⟨rfl, rfl⟩ fun i => recv_tweak len fault
  | dup o => exact .tweak ⟨rfl, rfl⟩ (.idle (Pool.ofdRef_backend o))
  | close o =>
    change Move w _ (w.sysClose o).2
    unfold sysClose
    rcases Pool.ofdUnref_cases (p := w.pool) o with ⟨nothing, same⟩ | ⟨i, held, last, given⟩
    · have silent : w.closing (.close o) = none := nothing
      generalize w.pool.ofdUnref o = r at nothing same
      obtain ⟨b, pool⟩ := r
      cases nothing
      exact .tweak ⟨silent, rfl⟩ (.idle same)
    have asked : w.closing (.close o) = some i := last
    generalize w.pool.ofdUnref o = r at last given
    obtain ⟨b, pool⟩ := r
    cases last
    exact .close asked rfl held given

end Osnos.Unix
