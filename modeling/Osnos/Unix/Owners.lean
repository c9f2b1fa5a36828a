import Osnos.Unix.Moves

/-! Who refers to a socket: an open file description or the backlog of one listener,
never two of them. -/
namespace Osnos.Unix
open Osnos.Fd Table List Prog List.Sublist

def SockState.Linked (s : SockState) : Prop := s = .connected ∨ s = .disconnected

theorem SockState.Linked.ne_unused {s : SockState} (linked : s.Linked) : s ≠ .unused := by
  rcases linked with h | h <;> rw [h] <;> decide

theorem SockState.Linked.ne_listening {s : SockState} (linked : s.Linked) : s ≠ .listening := by
  rcases linked with h | h <;> rw [h] <;> decide

theorem SockState.Linked.ne_unbound {s : SockState} (linked : s.Linked) : s ≠ .unbound := by
  rcases linked with h | h <;> rw [h] <;> decide

structure Sound (w : World) : Prop where
  held_used : ∀ o i, w.pool.backend o = some i → w.table.state i ≠ .unused
  held_once : ∀ o o' i, w.pool.backend o = some i → w.pool.backend o' = some i → o = o'
  waits : ∀ l p, p ∈ w.table.pending l → (w.table.state p).Linked
  plain : ∀ l p, p ∈ w.table.pending l → (w.table.socks p).path = .empty
  waits_free : ∀ l p o, p ∈ w.table.pending l → w.pool.backend o ≠ some p
  nodup : ∀ l, (w.table.pending l).Nodup
  apart : ∀ l l' p, p ∈ w.table.pending l → p ∈ w.table.pending l' → l = l'
  quiet : ∀ l, w.table.state l ≠ .listening → w.table.pending l = []
  named : ∀ b e, w.table.binds b = some e → e.path ≠ .empty

structure Loose (w : World) (i : Idx) : Prop where
  used : w.table.state i ≠ .unused
  unheld : ∀ o, w.pool.backend o ≠ some i
  alone : ∀ l, i ∉ w.table.pending l

theorem sound_init : Sound {} where
  held_used _ _ held := by cases held
  held_once _ _ _ held := by cases held
  waits _ _ member := by cases member
  plain _ _ member := by cases member
  waits_free _ _ _ member := by cases member
  nodup _ := nodup_nil
  apart _ _ _ member := by cases member
  quiet _ _ := rfl
  named _ _ entry := by cases entry

variable {w w' : World} {i : Idx}

theorem closed_same {t t' : Table} (closed : t.Closed i t') {k : Idx} (other : k ≠ i) :
    (t'.socks k).disconnect = (t.socks k).disconnect ∧
      (t'.state k = t.state k ∨ t.Cut i k ∧ t'.state k = .disconnected) := by
  unfold state
  by_cases hit : t.Cut i k
  · rw [closed.cut k other hit]
    exact ⟨rfl, .inr ⟨hit, rfl⟩⟩
  · rw [closed.kept k other hit]
    exact ⟨rfl, .inl rfl⟩

theorem closed_queue {t t' : Table} (closed : t.Closed i t') {k : Idx} (other : k ≠ i) :
    t'.pending k = t.pending k := by
  have same := congrArg (fun s : Sock => s.backlog.contents) (closed_same closed other).1
  exact same

variable (sound : Sound w)
include sound

theorem Sound.frame {t : Table} (shorter : ∀ l, (t.pending l).Sublist (w.table.pending l))
    (held : ∀ o k, w.pool.backend o = some k → t.state k ≠ .unused)
    (waits : ∀ l p, p ∈ t.pending l → (t.state p).Linked ∧ (t.socks p).path = .empty)
    (quiet : ∀ l, t.state l ≠ .listening → t.pending l = [])
    (named : ∀ b e, t.binds b = some e → e.path ≠ .empty) : Sound { w with table := t } where
  held_used := held
  held_once := sound.held_once
  waits l p member := (waits l p member).1
  plain l p member := (waits l p member).2
  waits_free l p o member := sound.waits_free l p o ((shorter l).subset member)
  nodup l := (sound.nodup l).sublist (shorter l)
  apart l l' p here there :=
    sound.apart l l' p ((shorter l).subset here) ((shorter l').subset there)
  quiet := quiet
  named := named

theorem Sound.edit {f : Sock → Sock} (outside : ∀ l, i ∉ w.table.pending l ∨
      ((f (w.table.socks i)).state.Linked ∧ (f (w.table.socks i)).path = .empty))
    (used : (f (w.table.socks i)).state ≠ .unused)
    (shorter : ((f (w.table.socks i)).backlog.contents).Sublist (w.table.pending i))
    (quiet : (f (w.table.socks i)).state ≠ .listening → (f (w.table.socks i)).backlog.contents = []) :
    Sound { w with table := w.table.edit i f } := by
  have shorter : ∀ l, ((w.table.edit i f).pending l).Sublist (w.table.pending l) := by
    intro l
    unfold pending
    rw [edit_socks]
    split
    next same =>
      subst same
      exact shorter
    · exact refl _
  refine sound.frame shorter (fun o k held => ?_) (fun l p member => ?_) (fun l other => ?_)
    sound.named
  · unfold state
    rw [edit_socks]
    split
    next same =>
      subst same
      exact used
    · exact sound.held_used o k held
  · have before := (shorter l).subset member
    unfold state
    rw [edit_socks]
    split
    next same =>
      subst same
      exact (outside l).resolve_left fun absent => absent before
    · exact ⟨sound.waits l p before, sound.plain l p before⟩
  · unfold state at other
    unfold pending
    rw [edit_socks] at other ⊢
    split at other
    next same =>
      subst same
      rw [if_pos rfl]
      exact quiet other
    next different =>
      rw [if_neg different]
      exact sound.quiet l other

theorem Sound.not_waiting (unlinked : ¬(w.table.state i).Linked) (l : Idx) :
    i ∉ w.table.pending l := fun member => unlinked (sound.waits l i member)

theorem connects_sound {client server listener : Idx}
    (unbound : w.table.state client = .unbound) (free : w.table.state server = .unused)
    (listening : w.table.state listener = .listening)
    (room : (w.table.socks listener).backlog.count < UNIX_BACKLOG_MAX) :
    Sound { w with table := w.table.pair client server listener } := by
  have pairs := pair_pairs unbound free listening room
  generalize w.table.pair client server listener = t at pairs
  have fresh : ∀ l, server ∉ w.table.pending l :=
    sound.not_waiting fun linked => linked.ne_unused free
  have unheld : ∀ o, w.pool.backend o ≠ some server := fun o held =>
    sound.held_used o server held free
  have queue : ∀ l, t.pending l =
      if l = listener then w.table.pending l ++ [server] else w.table.pending l := by
    intro l
    rw [pairs.pending]
    split
    next here =>
      subst here
      rw [if_neg (ne_of_state free listening (by decide)), sound.quiet l (by rw [free]; decide)]
    · rfl
  have member : ∀ l p, p ∈ t.pending l → p ∈ w.table.pending l ∨ p = server ∧ l = listener := by
    intro l p waiting
    rw [queue] at waiting
    split at waiting
    next here =>
      rcases List.mem_append.1 waiting with old | new
      · exact .inl old
      · exact .inr ⟨List.mem_singleton.1 new, here⟩
    · exact .inl waiting
  refine ⟨fun o k held => ?_, sound.held_once, fun l p waiting => ?_, fun l p waiting => ?_,
    fun l p o waiting => ?_, fun l => ?_, fun l l' p here there => ?_, fun l other => ?_,
    pairs.binds ▸ sound.named⟩
  · change t.state k ≠ .unused
    rw [pairs.states]
    split
    · decide
    · exact sound.held_used o k held
  · change (t.state p).Linked
    rw [pairs.states]
    split
    · exact .inl rfl
    next not_new =>
      exact sound.waits l p ((member l p waiting).resolve_right fun new => not_new (.inl new.1))
  · change (t.socks p).path = .empty
    rw [pairs.paths]
    split
    · rfl
    next not_new =>
      exact sound.plain l p ((member l p waiting).resolve_right fun new => not_new new.1)
  · rcases member l p waiting with before | ⟨rfl, -⟩
    · exact sound.waits_free l p o before
    · exact unheld o
  · change (t.pending l).Nodup
    rw [queue]
    split
    · refine List.nodup_append.2 ⟨sound.nodup l, nodup_singleton _, ?_⟩
      intro a waiting b new same
      rw [List.mem_singleton.1 new] at same
      exact fresh l (same ▸ waiting)
    · exact sound.nodup l
  · rcases member l p here with before | ⟨rfl, rfl⟩
    · rcases member l' p there with before' | ⟨rfl, -⟩
      · exact sound.apart l l' p before before'
      · exact absurd before (fresh l)
    · rcases member l' _ there with before' | ⟨-, rfl⟩
      · exact absurd before' (fresh l')
      · rfl
  · change t.state l ≠ .listening at other
    change t.pending l = []
    have not_listener : l ≠ listener := by
      rintro rfl
      rw [pairs.states, if_neg] at other
      · exact other listening
      · rintro (rfl | rfl)
        · cases free.symm.trans listening
        · cases unbound.symm.trans listening
    rw [queue, if_neg not_listener]
    refine sound.quiet l fun listens => ?_
    rw [pairs.states] at other
    split at other
    next new =>
      obtain rfl | rfl := new
      · cases free.symm.trans listens
      · cases unbound.symm.trans listens
    · exact other listens

theorem bind_sound {path : Path} {b : BindIdx} (found : Bindable w.table i path b) :
    Sound { w with table := w.table.bindAt i path b } := by
  have moved := sound.edit (i := i) (f := fun s => { s with path := path })
    (fun l => .inl (sound.not_waiting (fun linked => linked.ne_unbound found.unbound) l))
    (fun unused => by
      have both := found.unbound.symm.trans unused
      cases both)
    (refl _) fun other => sound.quiet i other
  refine moved.frame (fun l => refl _) moved.held_used
    (fun l p member => ⟨moved.waits l p member, moved.plain l p member⟩) moved.quiet ?_
  intro b' e entry
  change Function.update w.table.binds b _ b' = some e at entry
  by_cases here : b' = b
  · subst here
    rw [Function.update_self] at entry
    cases entry
    exact found.named
  · rw [Function.update_of_ne here] at entry
    exact sound.named b' e entry

theorem tweak_sound (change : Tweak w w') : Sound w' := by
  cases change with
  | idle same =>
    refine ⟨fun o i held => ?_, fun o o' i held held' => ?_, sound.waits, sound.plain,
      fun l p o waiting => ?_, sound.nodup, sound.apart, sound.quiet, sound.named⟩
    · exact sound.held_used o i ((same o).symm.trans held)
    · exact sound.held_once o o' i ((same o).symm.trans held) ((same o').symm.trans held')
    · rw [same]
      exact sound.waits_free l p o waiting
  | @buffer i rx linked =>
    have linked : (w.table.state i).Linked := linked
    refine sound.edit (fun l => ?_) linked.ne_unused (refl _) fun other =>
      sound.quiet i other
    by_cases waiting : i ∈ w.table.pending l
    · exact .inr ⟨linked, sound.plain l i waiting⟩
    · exact .inl waiting
  | @listens i before =>
    refine sound.edit (fun l => .inl (sound.not_waiting (fun linked => ?_) l)) (by simp)
      (refl _) (by simp)
    rcases before with unbound | listening
    · exact linked.ne_unbound unbound
    · exact linked.ne_listening listening
  | connects unbound free listening room =>
    exact connects_sound sound unbound free listening room

theorem loosen_sound (loose : Loosen w i w') : Sound w' ∧ Loose w' i := by
  cases loose with
  | create free =>
    have absent : ∀ l, i ∉ w.table.pending l :=
      sound.not_waiting fun linked => linked.ne_unused free
    have moved := sound.edit (i := i) (f := fun s => { s.reset with state := .unbound })
      (fun l => .inl (absent l)) (by simp) (nil_sublist _) fun _ => rfl
    refine ⟨moved, ?_, fun o held => sound.held_used o i held free, fun l member => ?_⟩
    · simp [Table.state]
    · have linked := moved.waits l i member
      simp [Table.state, edit, SockState.Linked] at linked
  | @pop l _ rest listening first =>
    have contents := Ring.pop_contents first
    change w.table.pending l = i :: rest.contents at contents
    have moved := sound.edit (i := l) (f := fun s => { s with backlog := rest })
      (fun l' => .inl (sound.not_waiting (fun linked => linked.ne_listening listening) l'))
      (fun unused => by
        have both := listening.symm.trans unused
        cases both)
      (by rw [contents]; exact sublist_cons_self _ _) fun other => absurd listening other
    have was := sound.waits l i (by rw [contents]; simp)
    have other : i ≠ l := fun same => was.ne_listening (same ▸ listening)
    refine ⟨moved, ?_, fun o => sound.waits_free l i o (by rw [contents]; simp), fun l' member => ?_⟩
    · simpa [Table.state, other] using was.ne_unused
    unfold pending at member
    rw [edit_socks] at member
    split at member
    next same =>
      subst same
      have unique := sound.nodup l'
      rw [contents] at unique
      exact (List.nodup_cons.1 unique).1 member
    next different =>
      exact different (sound.apart l' l i member (by rw [contents]; simp))

theorem release_sound {o : OfdIdx} {pool : Pool Idx} (held : w.pool.backend o = some i)
    (given : ∀ o', pool.backend o' = if o' = o then none else w.pool.backend o') :
    Sound { w with pool := pool } ∧ Loose { w with pool := pool } i := by
  have before : ∀ o' k, pool.backend o' = some k → o' ≠ o ∧ w.pool.backend o' = some k := by
    intro o' k still
    rw [given] at still
    split at still
    · cases still
    next other =>
      exact ⟨other, still⟩
  refine ⟨⟨fun o' k still => sound.held_used o' k (before o' k still).2, fun o₁ o₂ k h₁ h₂ => ?_,
    sound.waits, sound.plain, fun l p o' waiting still => ?_, sound.nodup, sound.apart, sound.quiet,
    sound.named⟩, sound.held_used o i held, fun o' still => ?_, fun l waiting => ?_⟩
  · exact sound.held_once o₁ o₂ k (before o₁ k h₁).2 (before o₂ k h₂).2
  · exact sound.waits_free l p o' waiting (before o' p still).2
  · obtain ⟨other, was⟩ := before o' i still
    exact other (sound.held_once o' o i was held)
  · exact sound.waits_free l i o waiting held

theorem hold_sound (loose : Loose w i) (o : OfdIdx) :
    Sound { w with pool := w.pool.install o (some i) } := by
  have held : ∀ o' k, (w.pool.install o (some i)).backend o' = some k →
      o' = o ∧ k = i ∨ w.pool.backend o' = some k ∧ k ≠ i := by
    intro o' k now
    rw [Pool.install_backend] at now
    split at now
    next here =>
      cases now
      exact .inl ⟨here, rfl⟩
    refine .inr ⟨now, ?_⟩
    rintro rfl
    exact loose.unheld o' now
  refine ⟨fun o' k now => ?_, fun o₁ o₂ k h₁ h₂ => ?_, sound.waits, sound.plain,
    fun l p o' waiting now => ?_, sound.nodup, sound.apart, sound.quiet, sound.named⟩
  · rcases held o' k now with ⟨-, rfl⟩ | ⟨was, -⟩
    · exact loose.used
    · exact sound.held_used o' k was
  · rcases held o₁ k h₁ with ⟨rfl, rfl⟩ | ⟨was₁, other⟩
    · rcases held o₂ _ h₂ with ⟨rfl, -⟩ | ⟨-, other⟩
      · rfl
      · exact absurd rfl other
    · rcases held o₂ k h₂ with ⟨-, same⟩ | ⟨was₂, -⟩
      · exact absurd same other
      · exact sound.held_once o₁ o₂ k was₁ was₂
  · rcases held o' p now with ⟨-, rfl⟩ | ⟨was, -⟩
    · exact loose.alone l waiting
    · exact sound.waits_free l p o' waiting was

theorem Sound.closed (loose : Loose w i) : w.table.Closed i (w.table.close i) :=
  close_closed loose.used fun p waiting => sound.waits i p waiting

theorem cut_linked {k : Idx} (hit : w.table.Cut i k) : (w.table.state k).Linked := by
  rcases hit with ⟨-, waiting | ⟨connected, -⟩⟩ | ⟨-, connected, -⟩
  · exact sound.waits i k waiting
  · exact .inl connected
  · exact .inl connected

theorem close_sound (loose : Loose w i) : Sound { w with table := w.table.close i } := by
  have closed := sound.closed loose
  have states : ∀ k, k ≠ i → w.table.state k ≠ .unused → (w.table.close i).state k ≠ .unused := by
    intro k other used
    rcases (closed_same closed other).2 with same | ⟨-, gone⟩
    · rwa [same]
    · rw [gone]
      decide
  refine sound.frame (fun l => ?_) (fun o k held => ?_) (fun l p waiting => ?_) (fun l other => ?_)
    fun b e entry => ?_
  · by_cases here : l = i
    · subst here
      rw [closed.pending]
      exact nil_sublist _
    · rw [closed_queue closed here]
  · exact states k (fun same => loose.unheld o (same ▸ held)) (sound.held_used o k held)
  · have not_closed : l ≠ i := by
      rintro rfl
      rw [closed.pending] at waiting
      cases waiting
    rw [closed_queue closed not_closed] at waiting
    have other : p ≠ i := fun same => loose.alone l (same ▸ waiting)
    have path := congrArg Sock.path (closed_same closed other).1
    refine ⟨?_, Eq.trans path (sound.plain l p waiting)⟩
    rcases (closed_same closed other).2 with same | ⟨-, gone⟩
    · rw [same]
      exact sound.waits l p waiting
    · exact .inr gone
  · by_cases here : l = i
    · rw [here]
      exact closed.pending
    rw [closed_queue closed here]
    refine sound.quiet l fun listening => ?_
    rcases (closed_same closed here).2 with same | ⟨hit, -⟩
    · exact other (same.trans listening)
    · exact (cut_linked sound hit).ne_listening listening
  · by_cases mine : w.table.state i = .listening ∧ (w.table.binds b).map Bind.sock = some i
    · rw [closed.unbound b mine.1 mine.2] at entry
      cases entry
    · rw [closed.bound b mine] at entry
      exact sound.named b e entry

theorem settle_sound (loose : Loose w i) (settled : Settle w i w') : Sound w' := by
  cases settled with
  | hold => exact hold_sound sound loose _
  | close => exact close_sound sound loose

theorem step_sound (c : Call) : Sound (w.step c).2 := by
  have move := step_move (w := w) c
  generalize (w.step c).2 = w' at move ⊢
  cases move with
  | tweak _ change => exact tweak_sound sound change
  | bind _ _ found => exact bind_sound sound found
  | settle _ loose settled =>
    obtain ⟨sound₁, loose₁⟩ := loosen_sound sound loose
    exact settle_sound sound₁ loose₁ settled
  | close _ _ held given =>
    obtain ⟨sound₁, loose₁⟩ := release_sound sound held given
    exact close_sound sound₁ loose₁

omit sound in
/-- What is needed to keep `P` in sound worlds allows the same runs, and keeps both. -/
theorem runs_keep_iff {P : World → Prop} {keeps legal : World → Call → Prop}
    (one : ∀ w c, Sound w → P w → (keeps w c ↔ legal w c))
    (next : ∀ w c, keeps w c → P (w.step c).2) (start : P {}) (cs : List Call) (w : World) :
    (Runs exec keeps {} cs w ↔ Runs exec legal {} cs w) ∧
      (Runs exec legal {} cs w → Sound w ∧ P w) := by
  have first : Sound {} ∧ P {} := ⟨sound_init, start⟩
  have keep : ∀ w c a w', Sound w ∧ P w → keeps w c → exec c w = some (a, w') →
      Sound w' ∧ P w' := by
    intro w c a w' known kept run
    rw [exec_step run]
    exact ⟨step_sound known.1 c, next w c kept⟩
  have same : Runs exec keeps {} cs w ↔ _ :=
    Prog.Runs.congr (fun w c known => one w c known.1 known.2) keep first
  exact ⟨same, fun run => (same.2 run).invariant keep first⟩

end Osnos.Unix
