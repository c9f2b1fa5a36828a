import Osnos.Unix.Owners

/-! A connection waiting in a backlog remembers its client by slot. When the client has
closed and the slot has a new owner, closing the listener disconnects that owner. -/
namespace Osnos.Unix
open Osnos.Fd Table

namespace Table

def Paired (t : Table) : Prop :=
  ∀ i, t.state i = .connected →
    ∃ j, (t.socks i).peer = some j ∧ t.state j = .connected ∧ (t.socks j).peer = some i

/-- The sockets that closing `s` ends: itself and its peer, and for a listener the waiting
connections and their clients. -/
def Own (t : Table) (s k : Idx) : Prop :=
  k = s ∨ (t.socks k).peer = some s ∨ k ∈ t.pending s ∨ ∃ p ∈ t.pending s, (t.socks k).peer = some p

/-- A socket loses its connection only where a socket it was connected to is closed. -/
def CutsOwn (t t' : Table) : Prop :=
  ∀ k, t.state k = .connected → t'.state k ≠ .connected →
    ∃ s, t.state s ≠ .unused ∧ t'.state s = .unused ∧ t.Own s k

/-- Whoever a dead waiting connection of `i` remembers is no stranger to `i`. -/
def Current (t : Table) (i : Idx) : Prop :=
  ∀ p ∈ t.pending i, t.state p = .disconnected → ∀ k, (t.socks p).peer = some k →
    t.state k = .connected → k ∈ t.pending i ∨ ∃ q ∈ t.pending i, (t.socks k).peer = some q

end Table

/-- The call leaves pairs, and cuts only what was connected to a closed socket. -/
def KeepsPairs (w : World) (c : Call) : Prop :=
  (w.step c).2.table.Paired ∧ w.table.CutsOwn (w.step c).2.table

/-- No listener is closed while a client slot that one of its dead waiting connections
remembers belongs to a connection elsewhere. -/
def ClosesCurrent (w : World) (c : Call) : Prop := ∀ i, w.closing c = some i → w.table.Current i

variable {w w' : World} {i k : Idx} {t t' : Table}

theorem Table.Paired.same (paired : t.Paired) (states : ∀ k, t'.state k = .connected ↔ t.state k = .connected)
    (peers : ∀ k, t.state k = .connected → (t'.socks k).peer = (t.socks k).peer) :
    t'.Paired ∧ t.CutsOwn t' := by
  refine ⟨fun k connected => ?_, fun k connected gone => absurd ((states k).2 connected) gone⟩
  have before := (states k).1 connected
  obtain ⟨j, there, far, back⟩ := paired k before
  exact ⟨j, (peers k before).trans there, (states j).2 far, (peers j far).trans back⟩

theorem Table.Paired.edit (paired : t.Paired) {f : Sock → Sock}
    (fixed : (f (t.socks i)).state = t.state i ∧ (f (t.socks i)).peer = (t.socks i).peer ∨
      t.state i ≠ .connected ∧ (f (t.socks i)).state ≠ .connected) :
    (t.edit i f).Paired ∧ t.CutsOwn (t.edit i f) := by
  refine paired.same (fun k => ?_) (fun k connected => ?_)
  · unfold state
    rw [edit_socks]
    split
    next here =>
      subst here
      rcases fixed with ⟨same, -⟩ | ⟨before, after⟩
      · rw [same]
        rfl
      · exact iff_of_false after before
    · rfl
  · rw [edit_socks]
    split
    next here =>
      subst here
      rcases fixed with ⟨-, same⟩ | ⟨before, -⟩
      · exact same
      · exact absurd connected before
    · rfl

theorem connects_paired (paired : t.Paired) {client server listener : Idx}
    (unbound : t.state client = .unbound) (free : t.state server = .unused)
    (pairs : t.Pairs t' client server listener) : t'.Paired ∧ t.CutsOwn t' := by
  -- a connected socket is neither of the two
  have stays : ∀ k, t.state k = .connected → k ≠ server ∧ k ≠ client := fun k connected =>
    ⟨ne_of_state connected free (by decide), ne_of_state connected unbound (by decide)⟩
  constructor
  · intro k connected
    by_cases is_server : k = server
    · subst is_server
      exact ⟨client, by simp [pairs.peers], by simp [pairs.states], by simp [pairs.peers, pairs.apart]⟩
    by_cases is_client : k = client
    · subst is_client
      exact ⟨server, by simp [pairs.peers, is_server], by simp [pairs.states], by simp [pairs.peers]⟩
    rw [pairs.states, if_neg (by simp [is_server, is_client])] at connected
    obtain ⟨j, there, far, back⟩ := paired k connected
    obtain ⟨not_server, not_client⟩ := stays j far
    refine ⟨j, ?_, ?_, ?_⟩
    · rw [pairs.peers, if_neg is_server, if_neg is_client, there]
    · simp [pairs.states, not_server, not_client, far]
    · rw [pairs.peers, if_neg not_server, if_neg not_client, back]
  · intro k connected gone
    obtain ⟨not_server, not_client⟩ := stays k connected
    exact absurd (by simp [pairs.states, not_server, not_client, connected]) gone

theorem tweak_paired (paired : w.table.Paired) (change : Tweak w w') :
    w'.table.Paired ∧ w.table.CutsOwn w'.table := by
  cases change with
  | idle => exact paired.same (fun _ => Iff.rfl) fun _ _ => rfl
  | @buffer i rx linked =>
    exact paired.edit (i := i) (f := fun s => { s with rx := rx }) (.inl ⟨rfl, rfl⟩)
  | @listens i before =>
    refine paired.edit (i := i) (f := fun s => { s with state := .listening }) (.inr ⟨?_, nofun⟩)
    rcases before with h | h <;> rw [h] <;> decide
  | connects unbound free listening room =>
    exact connects_paired paired unbound free (pair_pairs unbound free listening room)

theorem cut_own (sound : Sound w) (paired : w.table.Paired) (current : w.table.Current i)
    (connected : w.table.state k = .connected) (hit : w.table.Cut i k) : w.table.Own i k := by
  rcases hit with ⟨-, waiting | ⟨-, p, waiting, peer⟩⟩ | ⟨live, -, peer⟩
  · exact .inr (.inr (.inl waiting))
  · rcases sound.waits i p waiting with live | dead
    · -- a live waiting connection: its client is its partner
      obtain ⟨j, there, -, back⟩ := paired p live
      cases peer.symm.trans there
      exact .inr (.inr (.inr ⟨p, waiting, back⟩))
    · exact .inr (.inr (current p waiting dead k peer connected))
  · obtain ⟨j, there, -, back⟩ := paired i live
    cases peer.symm.trans there
    exact .inr (.inl back)

theorem own_cut (sound : Sound w) {j : Idx} (connected : w.table.state k = .connected)
    (back : (w.table.socks j).peer = some k) (other : j ≠ i) (own : w.table.Own i j) :
    k = i ∨ w.table.Cut i k := by
  have listens : ∀ p, p ∈ w.table.pending i → w.table.state i = .listening := by
    intro p waiting
    by_contra silent
    rw [sound.quiet i silent] at waiting
    cases waiting
  rcases own with same | peer | waiting | ⟨p, waiting, peer⟩
  · exact absurd same other
  · cases back.symm.trans peer
    exact .inl rfl
  · exact .inr (.inl ⟨listens j waiting, .inr ⟨connected, j, waiting, back⟩⟩)
  · cases back.symm.trans peer
    exact .inr (.inl ⟨listens k waiting, .inl waiting⟩)

theorem close_paired (sound : Sound w) (loose : Loose w i) (paired : w.table.Paired)
    (current : w.table.Current i) :
    (w.table.close i).Paired ∧ w.table.CutsOwn (w.table.close i) := by
  have closed := sound.closed loose
  constructor
  · intro k connected
    have other : k ≠ i := by
      rintro rfl
      rw [closed.state] at connected
      cases connected
    have spared : ¬w.table.Cut i k := fun hit => by
      rw [state, closed.cut k other hit] at connected
      cases connected
    have same := closed.kept k other spared
    have before : w.table.state k = .connected := by
      rwa [state, same] at connected
    obtain ⟨j, there, far, back⟩ := paired k before
    have other_j : j ≠ i := by
      rintro rfl
      exact spared (.inr ⟨far, before, back⟩)
    have spared_j : ¬w.table.Cut i j := fun hit => by
      rcases own_cut sound before back other_j (cut_own sound paired current far hit) with
        same | hit_k
      · exact other same
      · exact spared hit_k
    have same_j := closed.kept j other_j spared_j
    exact ⟨j, by rw [same, there], by rw [state, same_j]; exact far, by rw [same_j, back]⟩
  · intro k connected gone
    refine ⟨i, loose.used, closed.state, ?_⟩
    by_cases here : k = i
    · exact .inl here
    · refine cut_own sound paired current connected (not_not.1 fun spared => gone ?_)
      rw [state, closed.kept k here spared]
      exact connected

theorem current_of_cutsOwn (sound : Sound w) (loose : Loose w i) (paired : w.table.Paired)
    (own : w.table.CutsOwn (w.table.close i)) : w.table.Current i := by
  intro p waiting dead k peer connected
  have closed := sound.closed loose
  have listening : w.table.state i = .listening := by
    by_contra silent
    rw [sound.quiet i silent] at waiting
    cases waiting
  have other : k ≠ i := by
    rintro rfl
    cases listening.symm.trans connected
  have hit : w.table.Cut i k := .inl ⟨listening, .inr ⟨connected, p, waiting, peer⟩⟩
  have gone : (w.table.close i).state k ≠ .connected := by
    rw [state, closed.cut k other hit]
    simp [Sock.disconnect]
  obtain ⟨s, used, unused, mine⟩ := own k connected gone
  have is_i : s = i := by
    by_contra different
    rcases (closed_same closed different).2 with same | ⟨-, off⟩
    · exact used (same.symm.trans unused)
    · rw [off] at unused
      cases unused
  subst is_i
  rcases mine with same | to_s | queued | through
  · exact absurd same other
  · obtain ⟨j, there, far, -⟩ := paired k connected
    cases to_s.symm.trans there
    cases listening.symm.trans far
  · exact .inl queued
  · exact .inr through

theorem Table.CutsOwn.before {t₁ : Table} (own : t₁.CutsOwn t')
    (states : ∀ k, t₁.state k = t.state k) (peers : ∀ k, (t₁.socks k).peer = (t.socks k).peer)
    (shorter : ∀ k, (t₁.pending k).Sublist (t.pending k)) : t.CutsOwn t' := by
  intro k connected gone
  obtain ⟨s, used, unused, mine⟩ := own k ((states k).trans connected) gone
  refine ⟨s, (states s) ▸ used, unused, ?_⟩
  unfold Own at mine ⊢
  rw [peers] at mine
  rcases mine with same | peer | waiting | ⟨p, waiting, peer⟩
  · exact .inl same
  · exact .inr (.inl peer)
  · exact .inr (.inr (.inl ((shorter s).subset waiting)))
  · exact .inr (.inr (.inr ⟨p, (shorter s).subset waiting, peer⟩))

theorem settle_paired {w₁ : World} (sound : Sound w) (paired : w.table.Paired)
    (loose : Loosen w i w₁) (settled : Settle w₁ i w') :
    w'.table.Paired ∧ w.table.CutsOwn w'.table := by
  obtain ⟨sound₁, loose₁⟩ := loosen_sound sound loose
  cases loose with
  | create free =>
    have idle : w.table.state i ≠ .connected := by
      rw [free]
      decide
    have moved := paired.edit (i := i) (f := fun s => { s.reset with state := .unbound })
      (.inr ⟨idle, nofun⟩)
    cases settled with
    | hold => exact moved
    | close =>
      -- a fresh socket has no peer and no backlog: closing it changes no other
      have closed := sound₁.closed loose₁
      have fresh : (w.table.put i { (w.table.socks i).reset with state := .unbound }).state i =
          .unbound := by simp [state]
      have same : ∀ k, k ≠ i → ((w.table.put i { (w.table.socks i).reset with
          state := .unbound }).close i).socks k = w.table.socks k := by
        intro k other
        rw [closed.kept k other, put_socks, if_neg other]
        rintro (⟨listening, -⟩ | ⟨connected, -⟩)
        · cases fresh.symm.trans listening
        · cases fresh.symm.trans connected
      refine paired.same (fun k => ?_) fun k connected => ?_
      · by_cases here : k = i
        · subst here
          rw [free, closed.state]
        · rw [state, same k here]
          rfl
      · exact congrArg Sock.peer (same k fun here => idle (here ▸ connected))
  | @pop l _ rest listening first =>
    have moved := paired.edit (i := l) (f := fun s => { s with backlog := rest }) (.inl ⟨rfl, rfl⟩)
    cases settled with
    | hold => exact moved
    | close =>
      have contents := Ring.pop_contents first
      have linked := sound.waits l i (by rw [pending, contents]; simp)
      have states : ∀ k, (w.table.edit l fun s => { s with backlog := rest }).state k =
          w.table.state k := fun k => by
        unfold state
        rw [edit_socks]
        split <;> rfl
      have current : (w.table.edit l fun s => { s with backlog := rest }).Current i := by
        intro p waiting
        rw [sound₁.quiet i (by rw [states]; exact linked.ne_listening)] at waiting
        cases waiting
      obtain ⟨paired', own⟩ := close_paired sound₁ loose₁ moved.1 current
      refine ⟨paired', own.before states (fun k => ?_) fun k => ?_⟩
      · rw [edit_socks]
        split <;> rfl
      unfold pending
      rw [edit_socks]
      split
      next here =>
        subst here
        rw [contents]
        exact List.sublist_cons_self _ _
      · exact List.Sublist.refl _

theorem keepsPairs_iff (sound : Sound w) (paired : w.table.Paired) (c : Call) :
    KeepsPairs w c ↔ ClosesCurrent w c := by
  have none_closed : w.closing c = none → ClosesCurrent w c := fun silent i asked => by
    rw [silent] at asked
    cases asked
  have move := step_move (w := w) c
  unfold KeepsPairs
  generalize (w.step c).2 = w' at move ⊢
  cases move with
  | tweak silent change => exact iff_of_true (tweak_paired paired change) (none_closed silent.closing)
  | @bind i path b silent _ found =>
    have moved := paired.edit (i := i) (f := fun s => { s with path := path }) (.inl ⟨rfl, rfl⟩)
    exact iff_of_true moved (none_closed silent)
  | settle silent loose settled =>
    exact iff_of_true (settle_paired sound paired loose settled) (none_closed silent.closing)
  | @close i o pool asked _ held given =>
    obtain ⟨sound₁, loose₁⟩ := release_sound sound held given
    constructor
    · rintro ⟨-, own⟩ i' asked'
      cases asked.symm.trans asked'
      exact current_of_cutsOwn (w := { w with pool := pool }) sound₁ loose₁ paired own
    · intro careful
      exact close_paired (w := { w with pool := pool }) sound₁ loose₁ paired (careful i asked)

/-- Along a run every state has its connected sockets in pairs, and every close cuts
only what was connected to it, exactly if no listener is closed while a dead waiting
connection of it remembers the slot of a stranger. -/
theorem pairs_kept (cs : List Call) (w : World) :
    Prog.Runs exec KeepsPairs {} cs w ↔ Prog.Runs exec ClosesCurrent {} cs w :=
  (runs_keep_iff (P := (·.table.Paired)) (fun _ c sound paired => keepsPairs_iff sound paired c)
    (fun _ _ keeps => keeps.1) nofun cs w).1

def World.after (w : World) (cs : List Call) : World := cs.foldl (fun w c => (w.step c).2) w
def pathA : Path := ⟨[97], by decide⟩
def pathB : Path := ⟨[98], by decide⟩

/-- Listeners on two paths. A client of the first closes while it waits, and its slot
goes to a client of the second. -/
def reusedSlot : List Call :=
  [.socket true, .bind 0 pathA, .listen 0, .socket true, .bind 1 pathB, .listen 1,
    .socket true, .connect 2 pathA, .close 2, .socket true, .connect 2 pathB]

/-- Closing the first listener disconnects the second one's client; its server socket
still takes itself for connected. -/
theorem close_cuts_stranger :
    let before := World.after {} reusedSlot
    let after := World.after {} (reusedSlot ++ [.close 0])
    before.table.state 2 = .connected ∧ (before.table.socks 2).peer = some 4 ∧
      after.table.state 2 = .disconnected ∧ after.table.state 4 = .connected ∧
      (after.table.socks 4).peer = some 2 ∧ ¬after.table.Paired := by
  have facts : (World.after {} (reusedSlot ++ [.close 0])).table.state 2 = .disconnected ∧
      (World.after {} (reusedSlot ++ [.close 0])).table.state 4 = .connected ∧
      ((World.after {} (reusedSlot ++ [.close 0])).table.socks 4).peer = some 2 := by decide +kernel
  refine ⟨by decide +kernel, by decide +kernel, facts.1, facts.2.1, facts.2.2, fun paired => ?_⟩
  obtain ⟨j, there, far, -⟩ := paired 4 facts.2.1
  cases facts.2.2.symm.trans there
  cases facts.1.symm.trans far

end Osnos.Unix
