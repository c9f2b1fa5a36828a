import Osnos.Unix.Paired

/-! A socket in use is held by an open file description or waits in the backlog of a
listener. Closing a listener disconnects the sockets that wait for it and forgets them. -/
namespace Osnos.Unix
open Osnos.Fd Table World

/-- An open file description or a live listener's backlog refers to the socket. -/
def World.Referred (w : World) (i : Idx) : Prop :=
  (∃ o, w.pool.backend o = some i) ∨ ∃ l, w.table.state l = .listening ∧ i ∈ w.table.pending l

def World.NoLeak (w : World) : Prop := ∀ i, w.table.state i ≠ .unused → w.Referred i
def KeepsSlots (w : World) (c : Call) : Prop := (w.step c).2.NoLeak

def ClosesIdle (w : World) (c : Call) : Prop :=
  ∀ i, w.closing c = some i → w.table.pending i = []

variable {w w' w₁ : World} {i : Idx}

theorem World.NoLeak.edit (noLeak : w.NoLeak) {f : Sock → Sock}
    (used : (f (w.table.socks i)).state ≠ .unused → w.table.state i ≠ .unused)
    (listens : w.table.state i = .listening → (f (w.table.socks i)).state = .listening)
    (queue : (f (w.table.socks i)).backlog = (w.table.socks i).backlog) :
    NoLeak { w with table := w.table.edit i f } := by
  refine fun k used_k => (noLeak k ?_).imp id ?_
  · unfold state at used_k
    rw [edit_socks] at used_k
    split at used_k
    next here =>
      subst here
      exact used used_k
    · exact used_k
  rintro ⟨l, listening, waiting⟩
  refine ⟨l, ?_, ?_⟩
  · unfold state
    rw [edit_socks]
    split
    next here =>
      subst here
      exact listens listening
    · exact listening
  unfold pending at waiting ⊢
  rw [edit_socks]
  split
  next here =>
    subst here
    rwa [queue]
  · exact waiting

theorem tweak_noLeak (noLeak : w.NoLeak) (change : Tweak w w') : w'.NoLeak := by
  cases change with
  | idle same =>
    intro k used
    rcases noLeak k used with ⟨o, held⟩ | waiting
    · exact .inl ⟨o, (same o).trans held⟩
    · exact .inr waiting
  | buffer => exact noLeak.edit id id rfl
  | listens before =>
    refine noLeak.edit (f := fun s => { s with state := .listening }) (fun _ => ?_) (fun _ => rfl) rfl
    rcases before with h | h <;> rw [h] <;> decide
  | @connects client server listener unbound free listening room =>
    have pairs := pair_pairs unbound free listening room
    generalize w.table.pair client server listener = t at pairs
    -- a listener stays one, and those that wait for it go on waiting
    have waits : ∀ l k, w.table.state l = .listening →
        k ∈ w.table.pending l ∨ k = server ∧ l = listener →
        t.state l = .listening ∧ k ∈ t.pending l := by
      intro l k listens waiting
      have not_server := ne_of_state listens free (by decide)
      have not_client := ne_of_state listens unbound (by decide)
      rw [pairs.states, pairs.pending, if_neg not_server]
      refine ⟨by simp [not_server, not_client, listens], ?_⟩
      rcases waiting with old | ⟨rfl, rfl⟩
      · split
        · exact List.mem_append_left _ old
        · exact old
      · simp
    intro k used
    by_cases is_server : k = server
    · exact .inr ⟨listener, waits listener k listening (.inr ⟨is_server, rfl⟩)⟩
    have before : w.table.state k ≠ .unused := by
      change t.state k ≠ .unused at used
      rw [pairs.states] at used
      split at used
      next new =>
        rw [new.resolve_left is_server, unbound]
        decide
      · exact used
    rcases noLeak k before with held | ⟨l, listening_l, waiting⟩
    · exact .inl held
    · exact .inr ⟨l, waits l k listening_l (.inl waiting)⟩

def OneLoose (w : World) (i : Idx) : Prop :=
  ∀ k, k ≠ i → w.table.state k ≠ .unused → w.Referred k

theorem loosen_oneLoose (noLeak : w.NoLeak) (loose : Loosen w i w₁) : OneLoose w₁ i := by
  cases loose with
  | create free =>
    refine fun k other used => (noLeak k ?_).imp id ?_
    · unfold state at used
      rwa [put_socks, if_neg other] at used
    rintro ⟨l, listening, waiting⟩
    have not_fresh : l ≠ i := fun same => by
      rw [same, free] at listening
      cases listening
    refine ⟨l, ?_, ?_⟩
    · rw [state, put_socks, if_neg not_fresh]
      exact listening
    · rw [pending, put_socks, if_neg not_fresh]
      exact waiting
  | @pop l _ rest listening first =>
    have contents := Ring.pop_contents first
    refine fun k other used => (noLeak k ?_).imp id ?_
    · unfold state at used
      rw [edit_socks] at used
      split at used <;> exact used
    rintro ⟨l', listening', waiting⟩
    refine ⟨l', ?_, ?_⟩
    · unfold state
      rw [edit_socks]
      split <;> exact listening'
    unfold pending at waiting ⊢
    rw [edit_socks]
    split
    next here =>
      subst here
      rw [contents] at waiting
      exact (List.mem_cons.1 waiting).resolve_left other
    · exact waiting

theorem release_oneLoose {o : OfdIdx} {pool : Pool Idx} (noLeak : w.NoLeak)
    (held : w.pool.backend o = some i)
    (given : ∀ o', pool.backend o' = if o' = o then none else w.pool.backend o') :
    OneLoose { w with pool := pool } i := by
  intro k other used
  rcases noLeak k used with ⟨o', held'⟩ | waiting
  · refine .inl ⟨o', ?_⟩
    have different : o' ≠ o := fun same => by
      rw [same, held] at held'
      exact other (Option.some.inj held').symm
    change pool.backend o' = some k
    rw [given, if_neg different, held']
  · exact .inr waiting

theorem close_noLeak (sound : Sound w) (loose : Loose w i) (others : OneLoose w i) :
    NoLeak { w with table := w.table.close i } ↔ w.table.pending i = [] := by
  have closed := sound.closed loose
  constructor
  · intro noLeak
    by_contra waiting
    obtain ⟨p, member⟩ := List.exists_mem_of_ne_nil _ waiting
    have other : p ≠ i := fun same => loose.alone i (same ▸ member)
    have used : (w.table.close i).state p ≠ .unused := by
      rcases (closed_same closed other).2 with same | ⟨-, gone⟩
      · rw [same]
        exact (sound.waits i p member).ne_unused
      · rw [gone]
        decide
    rcases noLeak p used with ⟨o, held⟩ | ⟨l, -, elsewhere⟩
    · exact sound.waits_free i p o member held
    by_cases here : l = i
    · subst here
      rw [closed.pending] at elsewhere
      cases elsewhere
    · rw [closed_queue closed here] at elsewhere
      exact here (sound.apart l i p elsewhere member)
  intro idle k used
  have other : k ≠ i := fun same => used (same ▸ closed.state)
  have before : w.table.state k ≠ .unused := by
    rcases (closed_same closed other).2 with same | ⟨hit, -⟩
    · rwa [← same]
    · exact (cut_linked sound hit).ne_unused
  refine (others k other before).imp id ?_
  rintro ⟨l, listening, waiting⟩
  have not_closed : l ≠ i := fun same => by
    rw [same, idle] at waiting
    cases waiting
  refine ⟨l, ?_, ?_⟩
  · rcases (closed_same closed not_closed).2 with same | ⟨hit, -⟩
    · exact same.trans listening
    · exact absurd listening (cut_linked sound hit).ne_listening
  change k ∈ (w.table.close i).pending l
  rw [closed_queue closed not_closed]
  exact waiting

theorem settle_noLeak (sound : Sound w) (noLeak : w.NoLeak) (loose : Loosen w i w₁)
    (settled : Settle w₁ i w') : w'.NoLeak := by
  obtain ⟨sound₁, loose₁⟩ := loosen_sound sound loose
  have others := loosen_oneLoose noLeak loose
  cases settled with
  | @hold o free =>
    intro k used
    by_cases here : k = i
    · refine .inl ⟨o, ?_⟩
      rw [Pool.install_backend, if_pos rfl, here]
    rcases others k here used with ⟨o', held⟩ | waiting
    · refine .inl ⟨o', ?_⟩
      have different : o' ≠ o := fun same => by
        rw [same, free] at held
        cases held
      rw [Pool.install_backend, if_neg different, held]
    · exact .inr waiting
  | close =>
    refine (close_noLeak sound₁ loose₁ others).2 (sound₁.quiet i ?_)
    -- neither a fresh socket nor one from a backlog listens
    cases loose with
    | create => simp [state]
    | @pop l _ rest listening first =>
      have linked := sound.waits l i (by rw [pending, Ring.pop_contents first]; simp)
      unfold state
      rw [edit_socks]
      split <;> exact linked.ne_listening

theorem keepsSlots_iff (sound : Sound w) (noLeak : w.NoLeak) (c : Call) :
    KeepsSlots w c ↔ ClosesIdle w c := by
  have none_closed : w.closing c = none → ClosesIdle w c := fun silent i asked => by
    rw [silent] at asked
    cases asked
  have move := step_move (w := w) c
  unfold KeepsSlots
  generalize (w.step c).2 = w' at move ⊢
  cases move with
  | tweak silent change => exact iff_of_true (tweak_noLeak noLeak change) (none_closed silent.closing)
  | @bind i path b silent _ _ =>
    have moved := noLeak.edit (i := i) (f := fun s => { s with path := path }) id id rfl
    exact iff_of_true moved (none_closed silent)
  | settle silent loose settled =>
    exact iff_of_true (settle_noLeak sound noLeak loose settled) (none_closed silent.closing)
  | @close i o pool asked _ held given =>
    obtain ⟨sound₁, loose₁⟩ := release_sound sound held given
    have others := release_oneLoose noLeak held given
    refine (close_noLeak sound₁ loose₁ others).trans ⟨fun idle i' asked' => ?_,
      fun careful => careful i asked⟩
    cases asked.symm.trans asked'
    exact idle

theorem World.NoLeak.empty (sound : Sound w) (noLeak : w.NoLeak)
    (closed : ∀ o, w.pool.backend o = none) (i : Idx) : w.table.state i = .unused := by
  by_contra used
  rcases noLeak i used with ⟨o, held⟩ | ⟨l, listening, -⟩
  · rw [closed] at held
    cases held
  have used_l : w.table.state l ≠ .unused := by
    rw [listening]
    decide
  rcases noLeak l used_l with ⟨o, held⟩ | ⟨l', -, waiting⟩
  · rw [closed] at held
    cases held
  · exact (sound.waits l' l waiting).ne_listening listening

/-- Along a run every socket in use is referred to exactly if no listener is closed while
connections wait for it; then closing every descriptor empties the table. A failing accept
or socket call loses nothing. -/
theorem slots_referred (cs : List Call) (w : World) :
    (Prog.Runs exec KeepsSlots {} cs w ↔ Prog.Runs exec ClosesIdle {} cs w) ∧
      (Prog.Runs exec ClosesIdle {} cs w → (∀ o, w.pool.backend o = none) →
        ∀ i, w.table.state i = .unused) := by
  obtain ⟨same, known⟩ := runs_keep_iff (P := NoLeak)
    (fun w c sound noLeak => keepsSlots_iff sound noLeak c) (fun _ _ keeps => keeps)
    (fun i used => absurd rfl used) cs w
  refine ⟨same, fun run closed => ?_⟩
  obtain ⟨sound, noLeak⟩ := known run
  exact noLeak.empty sound closed

/-- No two descriptions hold one socket, and a connection waits for one listener, once, unheld. -/
theorem unix_connections_accounted (cs : List Call) : Sound (after {} cs) :=
  List.foldlRecOn cs _ sound_init fun _ sound c _ => step_sound sound c

def refused : List Call :=
  [.socket true, .bind 0 pathA, .listen 0, .socket true, .connect 1 pathA, .close 0, .close 1]

/-- No descriptor is left, but the server's socket of the refused connection is. -/
theorem refused_leaks :
    (∀ o, (World.after {} refused).pool.backend o = none) ∧
      (World.after {} refused).table.state 2 = .disconnected ∧
      ¬(World.after {} refused).NoLeak := by
  have empty : ∀ o, (after {} refused).pool.backend o = none := by decide +kernel
  have stays : (after {} refused).table.state 2 = .disconnected := by decide +kernel
  refine ⟨empty, stays, fun noLeak => ?_⟩
  have listeners : ∀ l, (after {} refused).table.state l ≠ .listening := by decide +kernel
  rcases noLeak 2 (by rw [stays]; decide) with ⟨o, held⟩ | ⟨l, listening, -⟩
  · rw [empty] at held
    cases held
  · exact listeners l listening

end Osnos.Unix
