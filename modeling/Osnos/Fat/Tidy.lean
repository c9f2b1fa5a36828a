import Osnos.Fat.Edits

/-! Directories in order: every long-name slot belongs to the entry behind it, and
behind the end mark there is nothing. In such a directory a new entry in free slots
adds exactly one entry to the listing. -/
namespace Osnos.Fat
open List

def isFree (slot : Slot) : Bool := slot 0 = 0xE5 || slot 0 = 0
def consumeAll (a : LfnAccum) (L : List (Pos × Slot)) : LfnAccum := L.foldl (fun a e => a.consume e.2) a

structure Headed (L : List (Pos × Slot)) (e : Pos × Slot) : Prop where
  long : ∀ x ∈ L, x.2 0 ≠ 0 ∧ x.2 0 ≠ 0xE5 ∧ isLfnSlot x.2
  used : e.2 0 ≠ 0
  valid : direntIsValid e.2
  spelled : L = [] ∨ ∃ name, ∀ a, (consumeAll a L).finalize (name11 e.2) = some name

inductive Tidy : List (Pos × Slot) → Prop
  | fin {S : List (Pos × Slot)} (zero : ∀ e ∈ S, e.2 0 = 0) : Tidy S
  | skip {e : Pos × Slot} {S : List (Pos × Slot)} (used : e.2 0 ≠ 0)
      (kind : e.2 0 = 0xE5 ∨ isLfnSlot e.2 = false ∧ isVolSlot e.2) (rest : Tidy S) : Tidy (e :: S)
  | entry {L : List (Pos × Slot)} {e : Pos × Slot} {S : List (Pos × Slot)} (headed : Headed L e)
      (rest : Tidy S) : Tidy (L ++ e :: S)

theorem entriesFrom_long (a : LfnAccum) (L S : List (Pos × Slot))
    (long : ∀ x ∈ L, x.2 0 ≠ 0 ∧ x.2 0 ≠ 0xE5 ∧ isLfnSlot x.2) :
    entriesFrom a (L ++ S) = entriesFrom (consumeAll a L) S := by
  induction L generalizing a with
  | nil => rfl
  | cons x L ih =>
    obtain ⟨used, live, lfn⟩ := long x (by simp)
    rw [cons_append, entriesFrom, if_neg used, if_neg live, if_pos lfn,
      ih _ fun y hy => long y (by simp [hy])]
    rfl

theorem entriesFrom_entry (a : LfnAccum) (e : Pos × Slot) (S : List (Pos × Slot)) (used : e.2 0 ≠ 0)
    (valid : direntIsValid e.2) :
    entriesFrom a (e :: S) = decodeEntry a e.2 e.1.1 e.1.2 :: entriesFrom .empty S := by
  simp only [direntIsValid, Bool.and_eq_true, decide_eq_true_eq, Bool.not_eq_true', ne_eq] at valid
  rw [entriesFrom, if_neg used, if_neg valid.1.1]
  simp [valid]

variable {a : LfnAccum} {F L S Y : List (Pos × Slot)} {e : Pos × Slot}

theorem Headed.entriesFrom (h : Headed L e) (a : LfnAccum) (S : List (Pos × Slot)) :
    entriesFrom a (L ++ e :: S) =
      decodeEntry (consumeAll a L) e.2 e.1.1 e.1.2 :: Fat.entriesFrom .empty S := by
  rw [entriesFrom_long a L _ h.long, entriesFrom_entry _ e S h.used h.valid]

theorem finalize_inactive (ha : a.active = false) (name11 : List UInt8) :
    a.finalize name11 = none := by simp [LfnAccum.finalize, ha]

theorem Headed.settled (h : Headed L e) {b : LfnAccum}
    (ha : a.active = false) (hb : b.active = false) :
    (consumeAll a L).finalize (name11 e.2) = (consumeAll b L).finalize (name11 e.2) := by
  rcases h.spelled with rfl | ⟨name, all⟩
  · exact (finalize_inactive ha _).trans (finalize_inactive hb _).symm
  · rw [all a, all b]

theorem Headed.decode (h : Headed L e) {b : LfnAccum}
    (ha : a.active = false) (hb : b.active = false) :
    decodeEntry (consumeAll a L) e.2 e.1.1 e.1.2 = decodeEntry
    (consumeAll b L) e.2 e.1.1 e.1.2 := by
  rw [decodeEntry, decodeEntry, h.settled ha hb]

theorem entriesFrom_zero (a : LfnAccum) (zero : ∀ e ∈ S, e.2 0 = 0) : entriesFrom a S = [] := by
  cases S with
  | nil => rfl
  | cons e => rw [entriesFrom, if_pos (zero e (by simp))]

theorem entriesFrom_skip (a : LfnAccum) (S : List (Pos × Slot)) (used : e.2 0 ≠ 0)
    (kind : e.2 0 = 0xE5 ∨ isLfnSlot e.2 = false ∧ isVolSlot e.2) :
    entriesFrom a (e :: S) = entriesFrom a.reset S := by
  rw [entriesFrom, if_neg used]
  rcases kind with deleted | ⟨lfn, vol⟩
  · rw [if_pos deleted]
  · simp [lfn, vol]

theorem Tidy.entriesFrom (h : Tidy S) {b : LfnAccum} (ha : a.active = false)
    (hb : b.active = false) : entriesFrom a S = entriesFrom b S := by
  induction h generalizing a b with
  | fin zero => rw [entriesFrom_zero a zero, entriesFrom_zero b zero]
  | skip used kind _ ih =>
    rw [entriesFrom_skip a _ used kind, entriesFrom_skip b _ used kind]
    exact ih rfl rfl
  | entry headed => rw [headed.entriesFrom, headed.entriesFrom, headed.decode ha hb]

theorem entriesFrom_append_zero (a : LfnAccum) (S : List (Pos × Slot)) {Z : List (Pos × Slot)}
    (zero : ∀ e ∈ Z, e.2 0 = 0) : Fat.entriesFrom a (S ++ Z) = Fat.entriesFrom a S := by
  induction S generalizing a with
  | nil => rw [nil_append, entriesFrom_zero a zero, Fat.entriesFrom]
  | cons e S ih => simp only [cons_append, Fat.entriesFrom, ih]

theorem Tidy.append_zero {Z : List (Pos × Slot)} (h : Tidy S) (zero : ∀ e ∈ Z, e.2 0 = 0) :
    Tidy (S ++ Z) := by
  induction h with
  | fin all =>
    refine .fin fun e he => ?_
    rcases List.mem_append.1 he with he | he
    · exact all e he
    · exact zero e he
  | skip used kind _ ih => exact .skip used kind ih
  | @entry L e S headed _ ih =>
    rw [append_assoc, cons_append]
    exact .entry headed ih

theorem isFree_iff {slot : Slot} : isFree slot ↔ slot 0 = 0xE5 ∨ slot 0 = 0 := by simp [isFree]

theorem Headed.not_free (h : Headed L e) : ∀ x ∈ L ++ [e], ¬ isFree x.2 := by
  intro x hx
  rw [isFree_iff]
  rcases List.mem_append.1 hx with hx | hx
  · exact fun free => free.elim (h.long x hx).2.1 (h.long x hx).1
  obtain rfl := List.mem_singleton.1 hx
  have valid := h.valid
  simp only [direntIsValid, Bool.and_eq_true, decide_eq_true_eq, ne_eq] at valid
  exact fun free => free.elim valid.1.1 h.used

theorem Tidy.after_free (h : Tidy (F ++ Y)) (free : ∀ x ∈ F, isFree x.2) :
    Tidy Y ∧ ∀ a : LfnAccum, a.active = false → Fat.entriesFrom a
    (F ++ Y) = Fat.entriesFrom .empty Y := by
  induction F with
  | nil => exact ⟨h, fun a ha => h.entriesFrom ha rfl⟩
  | cons x F ih =>
    rw [cons_append] at h
    generalize whole : x :: (F ++ Y) = S at h
    cases h with
    | fin zero =>
      subst whole
      have tail : ∀ e ∈ Y, e.2 0 = 0 := fun e he => zero e (by simp [he])
      exact ⟨.fin tail, fun a _ => by
        rw [cons_append, entriesFrom_zero a zero, entriesFrom_zero .empty tail]⟩
    | skip used kind rest =>
      obtain ⟨rfl, rfl⟩ := List.cons.inj whole
      obtain ⟨tidy, same⟩ := ih rest fun y hy => free y (by simp [hy])
      refine ⟨tidy, fun a ha => ?_⟩
      rw [cons_append, entriesFrom_skip a _ used kind, same _ rfl]
    | @entry L e S headed rest =>
      -- the first slot of a group is not free
      exfalso
      have first : x ∈ L ++ [e] := by
        cases L with
        | nil | cons => simp [(List.cons.inj whole).1]
      exact headed.not_free x first (free x (by simp))

theorem group_before {G X : List (Pos × Slot)} (whole : G ++ S = X ++ (F ++ Y))
    (busy : ∀ x ∈ G, ¬ isFree x.2) (some_free : F ≠ []) (free : ∀ x ∈ F, isFree x.2) :
    ∃ X', X = G ++ X' ∧ S = X' ++ (F ++ Y) := by
  rcases List.append_eq_append_iff.1 whole with ⟨X', rfl, rest⟩ | ⟨G', rfl, rest⟩
  · exact ⟨X', rfl, rest⟩
  cases G' with
  | nil => exact ⟨[], by simp, by simpa using rest.symm⟩
  | cons x G' =>
    exfalso
    obtain ⟨f, F', rfl⟩ := exists_cons_of_ne_nil some_free
    have same : f = x := by simpa using congrArg head? rest
    exact busy x (by simp) (same ▸ free f (by simp))

theorem Tidy.insert {X : List (Pos × Slot)} (h : Tidy (X ++ (F ++ Y)))
    (some_free : F ≠ []) (free : ∀ x ∈ F, isFree x.2) (start : ∀ x ∈ X.getLast?, ¬ isFree x.2)
    (headed : Headed L e) :
    Tidy (X ++ (L ++ e :: Y)) ∧ ∃ B, ∀ a : LfnAccum, a.active = false → ∃ A,
      Fat.entriesFrom a (X ++ (F ++ Y)) = A ++ B ∧
      Fat.entriesFrom a (X ++ (L ++ e :: Y)) =
        A ++ decodeEntry (consumeAll .empty L) e.2 e.1.1 e.1.2 :: B := by
  generalize whole : X ++ (F ++ Y) = S at h
  induction h generalizing X with
  | fin zero =>
    subst whole
    cases X with
    | nil =>
      have tail : ∀ e ∈ Y, e.2 0 = 0 := fun e he => zero e (by simp [he])
      refine ⟨.entry headed (.fin tail), [], fun a ha => ⟨[], ?_, ?_⟩⟩
      · rw [entriesFrom_zero a zero, nil_append]
      · rw [nil_append, nil_append, headed.entriesFrom, entriesFrom_zero .empty tail,
          headed.decode (b := .empty) ha rfl]
    | cons x X =>
      exfalso
      have last := getLast_mem (cons_ne_nil x X)
      refine start _ (getLast?_eq_some_getLast (cons_ne_nil x X)) ?_
      rw [isFree_iff]
      exact .inr (zero _ (mem_append_left _ last))
  | @skip x S used kind rest ih =>
    cases X with
    | nil =>
      have tidy : Tidy (F ++ Y) := by
        rw [nil_append] at whole
        exact whole ▸ .skip used kind rest
      obtain ⟨tail, same⟩ := tidy.after_free free
      refine ⟨.entry headed tail, Fat.entriesFrom .empty Y, fun a ha => ⟨[], ?_, ?_⟩⟩
      · rw [← whole, nil_append, nil_append, same a ha]
      · rw [nil_append, headed.entriesFrom, headed.decode (b := .empty) ha rfl]
        rfl
    | cons y X =>
      obtain ⟨rfl, rfl⟩ := List.cons.inj whole
      obtain ⟨tidy, B, list⟩ := ih (X := X) (by
        intro z hz
        cases X with
        | nil => cases hz
        | cons w X => exact start z (by simpa [getLast?_cons_cons] using hz)) rfl
      refine ⟨.skip used kind tidy, B, fun a ha => ?_⟩
      obtain ⟨A, was, now⟩ := list a.reset rfl
      exact ⟨A, by rw [entriesFrom_skip a _ used kind, was], by
        rw [cons_append, entriesFrom_skip a _ used kind, now]⟩
  | @entry M m S group rest ih =>
    have shape : M ++ [m] ++ S = X ++ (F ++ Y) := by rw [whole]; simp
    obtain ⟨X', rfl, rfl⟩ := group_before shape group.not_free some_free free
    obtain ⟨tidy, B, list⟩ := ih (X := X') (by
      intro z hz
      refine start z ?_
      rw [getLast?_append, hz]
      rfl) rfl
    have tidy' : Tidy (M ++ m :: (X' ++ (L ++ e :: Y))) := .entry group tidy
    refine ⟨by simpa using tidy', B, fun a ha => ?_⟩
    obtain ⟨A, was, now⟩ := list .empty rfl
    refine ⟨decodeEntry (consumeAll a M) m.2 m.1.1 m.1.2 :: A, ?_, ?_⟩
    · rw [group.entriesFrom, was]
      rfl
    have flat : M ++ [m] ++ X' ++ (L ++ e :: Y) = M ++ m :: (X' ++ (L ++ e :: Y)) := by simp
    rw [flat, group.entriesFrom, now]
    rfl

end Osnos.Fat
