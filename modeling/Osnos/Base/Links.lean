import Mathlib.Tactic

/-! Chains in a successor table: the nodes from a first one up to the node whose
successor is a mark of the end. Nothing here says what the nodes are. -/
namespace Links
open Function List

variable {α : Type}

/-- `Path next fin c l`: `l` are the nodes from `c` on, in order, and the last one
points at an end mark. -/
inductive Path (next : α → α) (fin : α → Prop) : α → List α → Prop where
  | last {c : α} : fin (next c) → Path next fin c [c]
  | step {c : α} {l : List α} : ¬ fin (next c) → Path next fin (next c) l → Path next fin c (c :: l)

namespace Path

variable {next next' : α → α} {fin : α → Prop} {c d : α} {l l' : List α} (h : Path next fin c l)
include h

theorem head : ∃ t, l = c :: t := by
  cases h with
  | last => exact ⟨[], rfl⟩
  | step _ => exact ⟨_, rfl⟩

theorem ne_nil : l ≠ [] := by
  obtain ⟨t, rfl⟩ := h.head
  simp

theorem first_mem : c ∈ l := by
  obtain ⟨t, rfl⟩ := h.head
  simp

theorem unique (h' : Path next fin c l') : l = l' := by
  induction h generalizing l' with
  | last e =>
    cases h' with
    | last => rfl
    | step n => exact absurd e n
  | step n _ ih =>
    cases h' with
    | last e => exact absurd e n
    | step _ t => rw [ih t]

theorem suffix (member : d ∈ l) : ∃ t, Path next fin d t ∧ t <:+ l := by
  induction h with
  | last e =>
    have same : d = _ := List.mem_singleton.1 member
    subst same
    exact ⟨_, .last e, suffix_refl _⟩
  | @step c l n t ih =>
    rcases List.mem_cons.1 member with same | later
    · subst same
      exact ⟨_, .step n t, suffix_refl _⟩
    · obtain ⟨t', ht, hs⟩ := ih later
      exact ⟨t', ht, hs.trans (suffix_cons _ _)⟩

theorem nodup : l.Nodup := by
  induction h with
  | last => simp
  | @step c l n t ih =>
    refine List.nodup_cons.2 ⟨?_, ih⟩
    intro again
    obtain ⟨t', ht', hs⟩ := t.suffix again
    have same : t' = c :: l := ht'.unique (.step n t)
    have longer := hs.length_le
    rw [same] at longer
    simp at longer

theorem congr (agree : ∀ x ∈ l, next' x = next x) : Path next' fin c l := by
  induction h with
  | last e =>
    have same := agree _ (List.mem_singleton.2 rfl)
    exact .last (same ▸ e)
  | @step c l n t ih =>
    have same := agree c (by simp)
    have rest := ih fun x hx => agree x (by simp [hx])
    exact .step (same ▸ n) (by rw [same]; exact rest)

theorem next_mem (member : d ∈ l) (more : ¬ fin (next d)) : next d ∈ l := by
  obtain ⟨t, ht, hs⟩ := h.suffix member
  cases ht with
  | last e => exact absurd e more
  | step _ t' => exact hs.subset (mem_cons_of_mem _ t'.first_mem)

theorem extend [DecidableEq α] (tail : Path next fin d l')
    (apart : ∀ x ∈ l', x ∉ l) (open' : ¬ fin d) :
    Path (update next (l.getLast h.ne_nil) d) fin c (l ++ l') := by
  induction h with
  | @last c e =>
    have keep : Path (update next c d) fin d l' :=
      tail.congr fun x hx => update_of_ne (fun same => apart x hx (by simp [same])) _ _
    have here : update next c d c = d := update_self _ _ _
    exact .step (by simpa [here] using open') (by simpa [here] using keep)
  | @step c l n t ih =>
    have rest := ih fun x hx => fun hm => apart x hx (by simp [hm])
    have fresh := (List.nodup_cons.1 (Path.step n t).nodup).1
    have other : c ≠ l.getLast t.ne_nil := fun same => fresh (same ▸ getLast_mem t.ne_nil)
    rw [getLast_cons t.ne_nil]
    have here : update next (l.getLast t.ne_nil) d c = next c := update_of_ne other _ _
    exact .step (by simpa [here] using n) (by simpa [here] using rest)

end Path

variable [DecidableEq α]

def link (next : α → α) (eoc : α) : List α → α → α
  | [] => next
  | [c] => update next c eoc
  | c :: d :: l => update (link next eoc (d :: l)) c d

variable {next : α → α} {fin : α → Prop} {eoc : α}

theorem link_of_not_mem {x : α} (l : List α) (h : x ∉ l) : link next eoc l x = next x := by
  induction l with
  | nil => rfl
  | cons c l ih =>
    have hx : x ≠ c := fun same => h (by simp [same])
    have hl : x ∉ l := fun hm => h (by simp [hm])
    cases l with
    | nil => exact update_of_ne hx _ _
    | cons => rw [link, update_of_ne hx]; exact ih hl

theorem link_path {c : α} {l : List α} (nodup : (c :: l).Nodup) (ends : fin eoc)
    (inner : ∀ x ∈ l, ¬ fin x) : Path (link next eoc (c :: l)) fin c (c :: l) := by
  induction l generalizing c with
  | nil => exact .last (by simpa [link] using ends)
  | cons d l ih =>
    have fresh := List.nodup_cons.1 nodup
    have rest := ih fresh.2 fun x hx => inner x (by simp [hx])
    have here : link next eoc (c :: d :: l) c = d := by simp [link]
    refine .step (by rw [here]; exact inner d (by simp)) ?_
    rw [here]
    apply rest.congr
    intro x hx
    have other : x ≠ c := fun same => fresh.1 (same ▸ hx)
    exact update_of_ne other _ _

theorem link_concat (l : List α) (prev c : α) (fresh : c ∉ l ++ [prev])
    (nodup : (l ++ [prev]).Nodup) :
    link next eoc (l ++ [prev] ++ [c]) =
      update (update (link next eoc (l ++ [prev])) c eoc) prev c := by
  induction l with
  | nil =>
    have hc : c ≠ prev := by simpa using fresh
    funext x
    simp only [nil_append, cons_append, link]
    by_cases hx : x = prev
    · subst hx; simp
    simp only [update_of_ne hx]
    by_cases hc' : x = c
    · subst hc'; simp
    · simp [update_of_ne hc', update_of_ne hx]
  | cons a l ih =>
    have fresh' : c ∉ l ++ [prev] := fun h => fresh (by simp at h ⊢; tauto)
    have split := List.nodup_cons.1 nodup
    have ha : a ≠ prev := fun same => split.1 (by simp [same])
    have hc : a ≠ c := fun same => fresh (by simp [same])
    obtain ⟨d, m, eq⟩ : ∃ d m, l ++ [prev] = d :: m := by
      cases l with
      | nil => exact ⟨prev, [], rfl⟩
      | cons d l => exact ⟨d, l ++ [prev], rfl⟩
    have long : link next eoc (a :: (l ++ [prev] ++ [c])) =
        update (link next eoc (l ++ [prev] ++ [c])) a d := by rw [eq]; rfl
    have short : link next eoc (a :: (l ++ [prev])) =
        update (link next eoc (l ++ [prev])) a d := by rw [eq]; rfl
    simp only [cons_append]
    rw [long, short, ih fresh' split.2, update_comm ha.symm, update_comm hc.symm]

end Links
