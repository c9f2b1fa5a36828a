import Osnos.Unix.Paired

/-! An entry of the bind table is given up only by closing a listener. A socket that is
bound and closed without listening leaves its entry behind, and so does one that is bound
twice. -/
namespace Osnos.Unix
open Osnos.Fd Table

namespace Table

def Named (t : Table) : Prop :=
  ∀ b e, t.binds b = some e → t.state e.sock ≠ .unused ∧ (t.socks e.sock).path = e.path

/-- A connection is queued at a listener bound to its path, and a path is taken only
while a socket in use holds it. -/
structure Serves (t : Table) : Prop where
  queued : ∀ i path, (t.connect i path).1 = .ok () →
    ∃ server l, t.state server = .unused ∧ t.state l = .listening ∧ (t.socks l).path = path ∧
      (t.connect i path).2 = t.pair i server l
  taken : ∀ path b, t.findBind path = some b → ∃ i, t.state i ≠ .unused ∧ (t.socks i).path = path

end Table

def KeepsNames (w : World) (c : Call) : Prop := (w.step c).2.table.Named

/-- A socket is bound once, and one that has an entry is listening when it is closed. -/
structure BindsOnce (w : World) (c : Call) : Prop where
  bind : ∀ i, w.binding c = some i → ∀ b e, w.table.binds b = some e → e.sock ≠ i
  close : ∀ i, w.closing c = some i → w.table.state i = .listening ∨
    ∀ b e, w.table.binds b = some e → e.sock ≠ i

variable {w w' : World} {i : Idx} {t t' : Table}

theorem Table.Named.serves (named : t.Named) : t.Serves where
  queued i path success := by
    rcases connect_cases t i path with ⟨e, fails⟩ | ⟨server, e, found, connects⟩
    · rw [fails] at success
      cases success
    obtain ⟨b, entry⟩ := found.entry
    exact ⟨server, e.sock, found.free, found.listening, (named b e entry).2.trans found.path,
      by rw [connects]⟩
  taken path b found := by
    have here := findBind_some found
    obtain ⟨e, entry, same⟩ := Option.map_eq_some_iff.1 here
    obtain ⟨used, own⟩ := named b e entry
    exact ⟨e.sock, used, own.trans same⟩

theorem Table.Named.frame (named : t.Named)
    (fewer : ∀ b e, t'.binds b = some e → t.binds b = some e)
    (stay : ∀ b e, t'.binds b = some e → t.state e.sock ≠ .unused →
      t'.state e.sock ≠ .unused ∧ (t'.socks e.sock).path = (t.socks e.sock).path) : t'.Named := by
  intro b e entry
  obtain ⟨used, own⟩ := named b e (fewer b e entry)
  obtain ⟨used', same⟩ := stay b e entry used
  exact ⟨used', same.trans own⟩

theorem tweak_named (named : w.table.Named) (change : Tweak w w') : w'.table.Named := by
  cases change with
  | idle => exact named
  | @buffer i rx linked =>
    refine named.frame (fun _ _ => id) fun b e _ used => ?_
    unfold state
    rw [edit_socks]
    split
    all_goals exact ⟨used, rfl⟩
  | @listens i before =>
    refine named.frame (fun _ _ => id) fun b e _ used => ?_
    unfold state
    rw [edit_socks]
    split
    · exact ⟨nofun, rfl⟩
    · exact ⟨used, rfl⟩
  | @connects client server listener unbound free listening room =>
    refine named.frame (fun _ _ => id) fun b' e _ used => ?_
    have not_server : e.sock ≠ server := fun same => used (same ▸ free)
    unfold state pair
    rw [edit_socks, edit_socks, put_socks, if_neg not_server]
    split
    · split
      · exact ⟨nofun, rfl⟩
      · exact ⟨used, rfl⟩
    split
    · exact ⟨nofun, rfl⟩
    · exact ⟨used, rfl⟩

theorem bind_named {path : Path} {b : BindIdx} (named : t.Named) (found : Bindable t i path b) :
    (t.bindAt i path b).Named ↔ ∀ b e, t.binds b = some e → e.sock ≠ i := by
  have entries : ∀ b', (t.bindAt i path b).binds b' =
      if b' = b then some ⟨i, path⟩ else t.binds b' := fun b' => by
    change Function.update t.binds b _ b' = _
    rw [Function.update_apply]
  constructor
  · intro named' b' e entry same
    have other : b' ≠ b := fun here => by
      rw [here, found.free] at entry
      cases entry
    have own := (named' b' e (by rw [entries, if_neg other, entry])).2
    change ((t.edit i fun s => { s with path := path }).socks e.sock).path = e.path at own
    rw [edit_socks, if_pos same] at own
    exact findBind_none found.new b' entry own.symm
  intro once b' e entry
  rw [entries] at entry
  change (t.edit i fun s => { s with path := path }).state e.sock ≠ .unused ∧
    ((t.edit i fun s => { s with path := path }).socks e.sock).path = e.path
  unfold state
  split at entry
  · cases entry
    rw [edit_socks, if_pos rfl]
    refine ⟨?_, rfl⟩
    change t.state i ≠ .unused
    rw [found.unbound]
    decide
  · rw [edit_socks, if_neg (once b' e entry)]
    exact named b' e entry

theorem close_named (sound : Sound w) (loose : Loose w i) (named : w.table.Named) :
    (w.table.close i).Named ↔ (w.table.state i = .listening ∨
      ∀ b e, w.table.binds b = some e → e.sock ≠ i) := by
  have closed := sound.closed loose
  constructor
  · intro named'
    by_contra stays
    push Not at stays
    obtain ⟨deaf, b, e, entry, same⟩ := stays
    have kept := closed.bound b fun both => deaf both.1
    refine (named' b e (kept.trans entry)).1 ?_
    rw [same]
    exact closed.state
  intro careful
  have fewer : ∀ b e, (w.table.close i).binds b = some e →
      w.table.binds b = some e ∧ e.sock ≠ i := by
    intro b e entry
    by_cases mine : w.table.state i = .listening ∧ (w.table.binds b).map Bind.sock = some i
    · rw [closed.unbound b mine.1 mine.2] at entry
      cases entry
    rw [closed.bound b mine] at entry
    refine ⟨entry, ?_⟩
    rcases careful with listening | free
    · intro same
      exact mine ⟨listening, by rw [entry, ← same]; rfl⟩
    · exact free b e entry
  refine named.frame (fun b e entry => (fewer b e entry).1) fun b e entry used => ?_
  have other := (fewer b e entry).2
  have path := congrArg Sock.path (closed_same closed other).1
  refine ⟨?_, path⟩
  rcases (closed_same closed other).2 with same | ⟨-, gone⟩
  · rwa [same]
  · rw [gone]
    decide

theorem loosen_named {w₁ : World} (sound : Sound w) (named : w.table.Named)
    (loose : Loosen w i w₁) :
    w₁.table.Named ∧ ∀ b e, w₁.table.binds b = some e → e.sock ≠ i := by
  cases loose with
  | create free =>
    have others : ∀ b e, w.table.binds b = some e → e.sock ≠ i := fun b e entry same =>
      (named b e entry).1 (same ▸ free)
    refine ⟨named.frame (fun _ _ => id) fun b e entry used => ?_, others⟩
    unfold state
    rw [put_socks, if_neg (others b e entry)]
    exact ⟨used, rfl⟩
  | @pop l _ rest listening first =>
    have waiting : i ∈ w.table.pending l := by
      rw [pending, Ring.pop_contents first]
      simp
    refine ⟨named.frame (fun _ _ => id) fun b e entry used => ?_, fun b e entry same => ?_⟩
    · unfold state
      rw [edit_socks]
      split
      all_goals exact ⟨used, rfl⟩
    · refine sound.named b e entry ?_
      rw [← (named b e entry).2, same]
      exact sound.plain l i waiting

theorem keepsNames_iff (sound : Sound w) (named : w.table.Named) (c : Call) :
    KeepsNames w c ↔ BindsOnce w c := by
  have silent_once : Silent w c → BindsOnce w c := by
    refine fun silent => ⟨fun i asked => ?_, fun i asked => ?_⟩
    · rw [silent.binding] at asked
      cases asked
    · rw [silent.closing] at asked
      cases asked
  have move := step_move (w := w) c
  unfold KeepsNames
  generalize (w.step c).2 = w' at move ⊢
  cases move with
  | tweak silent change => exact iff_of_true (tweak_named named change) (silent_once silent)
  | @bind i path b silent asked found =>
    refine (bind_named named found).trans ⟨fun once => ⟨fun i' asked' => ?_, fun i' asked' => ?_⟩,
      fun once => once.bind i asked⟩
    · cases asked.symm.trans asked'
      exact once
    · rw [silent] at asked'
      cases asked'
  | @settle i w₁ _ silent loose settled =>
    obtain ⟨sound₁, loose₁⟩ := loosen_sound sound loose
    obtain ⟨named₁, free⟩ := loosen_named sound named loose
    refine iff_of_true ?_ (silent_once silent)
    cases settled with
    | hold => exact named₁
    | close => exact (close_named sound₁ loose₁ named₁).2 (.inr free)
  | @close i o pool asked silent held given =>
    obtain ⟨sound₁, loose₁⟩ := release_sound sound held given
    refine (close_named sound₁ loose₁ named).trans ⟨fun careful => ⟨fun i' asked' => ?_,
      fun i' asked' => ?_⟩, fun once => once.close i asked⟩
    · rw [silent] at asked'
      cases asked'
    · cases asked.symm.trans asked'
      exact careful

/-- Along a run every entry names the socket in use that holds its path exactly if no
socket is bound twice and none with an entry is closed before it listens; then connections
go to the listener of their path, and only paths of sockets in use are taken. -/
theorem entries_named (cs : List Call) (w : World) :
    (Prog.Runs exec KeepsNames {} cs w ↔ Prog.Runs exec BindsOnce {} cs w) ∧
      (Prog.Runs exec BindsOnce {} cs w → w.table.Serves) := by
  obtain ⟨same, known⟩ := runs_keep_iff (P := (·.table.Named))
    (fun w c sound named => keepsNames_iff sound named c) (fun _ _ keeps => keeps) nofun cs w
  exact ⟨same, fun run => (known run).2.serves⟩

/-- A socket is bound and closed; another one takes its slot, binds its own path and
listens. -/
def staleEntry : List Call :=
  [.socket true, .bind 0 pathA, .close 0, .socket true, .bind 0 pathB, .listen 0]

/-- The path of the closed socket cannot be bound, and a connect to it is queued at the
listener of the other path. -/
theorem stale_entry_misleads :
    let t := (World.after {} (staleEntry ++ [.socket true])).table
    let t' := (World.after {} (staleEntry ++ [.socket true, .connect 1 pathA])).table
    ¬t.Named ∧ (t.bind 1 pathA).1 = .error .EADDRINUSE ∧ (t.socks 0).path = pathB ∧
      t'.pending 0 = [2] := by
  have entry : (World.after {} (staleEntry ++ [.socket true])).table.binds 0 = some ⟨0, pathA⟩ := by
    decide +kernel
  have path : ((World.after {} (staleEntry ++ [.socket true])).table.socks 0).path = pathB := by
    decide +kernel
  refine ⟨fun named => ?_, by rfl, path, by decide +kernel⟩
  have own := (named 0 _ entry).2
  cases path.symm.trans own

end Osnos.Unix
