import Osnos.Fat.Files
import Osnos.Fat.Naming

/-! A new entry in a directory, seen from the listings and from lookup. -/
namespace Osnos.Fat
open List

structure Fresh (g : Geometry) (V W : Vol) : Prop where
  fat : ∀ c, Allocated g V c → W.fat c = V.fat c
  sec : ∀ lba, (lba < g.dataLba ∨ ∃ c, Allocated g V c ∧ InCluster g c lba) → W.sec lba = V.sec lba

/-- A directory in order: every long name belongs to the entry behind it, an entry
that answers to a name in short form has that short name, and no name is answered
by two entries. -/
structure Orderly (g : Geometry) (V : Vol) (dir : Nat) : Prop where
  tidy : Tidy (slots g V dir)
  honest : ∀ de ∈ entries g V dir, ∀ p, p ≠ pad 11 [] →
    nameTo83 de.name = some p ∨ nameTo83 de.shortName = some p → name11 (slotAt V de.pos) = p
  apart : (entries g V dir).Pairwise fun a b => ∀ want, ¬ (a.matches want ∧ b.matches want)

variable {e : Pos × Slot}

section
variable {g : Geometry} {V U V' W : Vol} {dir d : Nat} {X F Y N : List (Pos × Slot)}

theorem slots_congr (same : dirLbas g V' d = dirLbas g V d)
    (sec : ∀ lba ∈ dirLbas g V d, V'.sec lba = V.sec lba) : slots g V' d = slots g V d := by
  rw [slots, slots, same]
  apply flatMap_congr
  intro lba mem
  rw [sectorSlots, sectorSlots, sec lba mem]

theorem entries_congr (same : slots g V' d = slots g V d) : entries g V' d = entries g V d := by
  rw [entries, entries, same]

theorem Fresh.refl (V : Vol) : Fresh g V V := ⟨fun _ _ => rfl, fun _ _ => rfl⟩

theorem Fresh.chain (fresh : Fresh g V W) {c : Nat} {l : List Nat} (chain : Chain g V c l) :
    Chain g W c l := chain.congr fun x hx => fresh.fat x (chain.allocated hx)

theorem Fresh.keeps (fresh : Fresh g V W) (ok : DirOk g V d) :
    DirOk g W d ∧ dirLbas g W d = dirLbas g V d ∧ slots g W d = slots g V d := by
  rcases ok with rfl | ⟨l, chain⟩
  · refine ⟨.inl rfl, rfl, slots_congr rfl fun lba mem => fresh.sec lba (.inl ?_)⟩
    exact (mem_rootLbas.1 mem).2
  have chain' := fresh.chain chain
  have same : dirLbas g W d = dirLbas g V d := by rw [dirLbas_chain chain', dirLbas_chain chain]
  refine ⟨.inr ⟨l, chain'⟩, same, slots_congr same fun lba mem => fresh.sec lba (.inr ?_)⟩
  obtain ⟨c, hc, inside⟩ := (mem_dirLbas_chain chain).1 mem
  exact ⟨c, chain.allocated hc, inside⟩

theorem inCluster_first (c : Nat) : InCluster g c (g.clusterToLba c) := by
  have := g.spc_pos
  exact ⟨Nat.le_refl _, by omega⟩

theorem Room.other (room : Room g V U dir) (ok : DirOk g V d)
    (apart : ∀ lba ∈ dirLbas g V d, lba ∉ dirLbas g V dir) :
    DirOk g U d ∧ dirLbas g U d = dirLbas g V d ∧
      ∀ lba ∈ dirLbas g V d, lba ∉ dirLbas g U dir ∧ U.sec lba = V.sec lba := by
  rcases room with rfl | ⟨l, c, ne, chain, free, rfl⟩
  · exact ⟨ok, rfl, fun lba mem => ⟨apart lba mem, rfl⟩⟩
  have cluster := freeList_cluster free
  have empty := (mem_freeList.1 free).2.2
  have grown := grown_chain chain free
  have last : l.getLast ne ∈ l := getLast_mem ne
  -- a sector outside the new cluster and outside the directory
  have outside : ∀ lba, ¬ InCluster g c lba → lba ∉ dirLbas g V dir →
      lba ∉ dirLbas g (V.grown g (l.getLast ne) c) dir ∧
        (V.grown g (l.getLast ne) c).sec lba = V.sec lba := by
    intro lba miss out
    refine ⟨fun mem => ?_, if_neg miss⟩
    obtain ⟨x, hx, inside⟩ := (mem_dirLbas_chain grown).1 mem
    rcases List.mem_append.1 hx with hx | hx
    · exact out ((mem_dirLbas_chain chain).2 ⟨x, hx, inside⟩)
    · exact miss (List.mem_singleton.1 hx ▸ inside)
  rcases ok with rfl | ⟨k, other⟩
  · refine ⟨.inl rfl, rfl, fun lba mem => outside lba (not_inCluster_root mem c) (apart lba mem)⟩
  have new : c ∉ k := fun hc => (other.allocated hc).2.1 empty
  have disjoint : l.getLast ne ∉ k := fun hk =>
    apart _ ((mem_dirLbas_chain other).2 ⟨_, hk, inCluster_first _⟩)
      ((mem_dirLbas_chain chain).2 ⟨_, last, inCluster_first _⟩)
  have kept : Chain g (V.grown g (l.getLast ne) c) d k := by
    refine other.congr fun x hx => ?_
    have h₁ : x ≠ l.getLast ne := ne_of_mem_of_not_mem hx disjoint
    have h₂ : x ≠ c := ne_of_mem_of_not_mem hx new
    simp only [Vol.grown, Vol.setFat, Vol.zeroed, Function.update_of_ne h₁, Function.update_of_ne h₂]
  refine ⟨.inr ⟨k, kept⟩, by rw [dirLbas_chain kept, dirLbas_chain other], fun lba mem =>
    outside lba (fun inside => ?_) (apart lba mem)⟩
  obtain ⟨x, hx, here⟩ := (mem_dirLbas_chain other).1 mem
  exact new (cluster_inj (other.clusters x hx).1 cluster.1 here inside ▸ hx)

theorem Installed.other (h : Installed g V U V' dir X F Y N) (ok : DirOk g V d)
    (apart : ∀ lba ∈ dirLbas g V d, lba ∉ dirLbas g V dir) :
    DirOk g V' d ∧ slots g V' d = slots g V d := by
  obtain ⟨okU, same, out⟩ := h.room.other ok apart
  have same' : dirLbas g V' d = dirLbas g V d := (dirLbas_congr h.fat d).trans same
  exact ⟨okU.congr h.fat, slots_congr same' fun lba mem =>
    (h.sec lba (out lba mem).1).trans (out lba mem).2⟩

theorem Installed.before (h : Installed g V U V' dir X F Y N) :
    ∃ Z : List (Pos × Slot), X ++ (F ++ Y) = slots g V dir ++ Z ∧ ∀ e ∈ Z, e.2 0 = 0 := by
  rcases h.room with rfl | ⟨l, c, ne, chain, free, rfl⟩
  · exact ⟨[], by rw [← h.free.whole, append_nil], by simp⟩
  · obtain ⟨Z, whole, _, zero⟩ := slots_grown chain free
    exact ⟨Z, by rw [← h.free.whole, whole], fun e he => zero e he 0⟩

theorem Installed.listing {L : List (Pos × Slot)} (h : Installed g V U V' dir X F Y (L ++ [e]))
    (tidy : Tidy (slots g V dir)) (headed : Headed L e) :
    Tidy (slots g V' dir) ∧ ∃ A B, entries g V dir = A ++ B ∧
      entries g V' dir = A ++ decodeEntry (consumeAll .empty L) e.2 e.1.1 e.1.2 :: B := by
  obtain ⟨Z, before, zero⟩ := h.before
  have some_free : F ≠ [] := fun nil => by
    have := h.free.count
    simp [nil] at this
  have tidy' : Tidy (X ++ (F ++ Y)) := before ▸ tidy.append_zero zero
  obtain ⟨after, B, list⟩ := tidy'.insert some_free h.free.free h.free.start headed
  obtain ⟨A, was, now⟩ := list .empty rfl
  have flat : X ++ (L ++ [e] ++ Y) = X ++ (L ++ e :: Y) := by simp
  rw [before, entriesFrom_append_zero _ _ zero] at was
  refine ⟨by rw [h.now, flat]; exact after, A, B, was, ?_⟩
  rw [entries, h.now, flat]
  exact now

theorem live_busy (mem : e ∈ live g V d) : ¬ isFree e.2 := by
  have valid := live_valid mem
  simp only [direntIsValid, Bool.and_eq_true, decide_eq_true_eq, ne_eq] at valid
  rw [isFree_iff]
  exact fun free => free.elim valid.1.1 (live_first mem)

theorem Installed.stays (inst : Installed g V U V' dir X F Y N) (mem : e ∈ live g V dir) :
    e ∈ slots g V' dir := by
  obtain ⟨Z, before, _⟩ := inst.before
  have at_slots : e ∈ X ++ (F ++ Y) := by
    rw [before]
    exact mem_append_left _ (live_slots mem)
  rw [inst.now]
  simp only [mem_append] at at_slots ⊢
  rcases at_slots with hx | hf | hy
  · exact .inl hx
  · exact absurd (inst.free.free e hf) (live_busy mem)
  · exact .inr (.inr hy)

theorem Installed.keeps (inst : Installed g V U V' dir X F Y N) (mem : e ∈ live g V dir) :
    slotAt V' e.1 = e.2 := by
  obtain ⟨p, _⟩ := e
  exact (slots_slotAt (inst.stays mem)).symm

theorem matches_iff {de : Dirent} {want : List UInt8} :
    de.matches want ↔ upper de.name = upper want ∨ upper de.shortName = upper want := by
  simp only [Dirent.matches, Bool.or_eq_true, nameIequal_iff]

theorem find_none_iff {want : List UInt8} :
    find g V dir want = none ↔ ∀ de ∈ entries g V dir, ¬ de.matches want := by
  simp [find, find?_eq_none]

theorem entries_slotAt {de : Dirent} (h : de ∈ entries g V dir) :
    (de.pos, slotAt V de.pos) ∈ live g V dir := by
  obtain ⟨e, mem, of⟩ := entries_live h
  have at_pos : de.pos = e.1 := of.pos
  have slot : e.2 = slotAt V e.1 := live_slotAt mem
  rw [at_pos, ← slot]
  exact mem

theorem aliasOf_ne_blank (name : List UInt8) {n : Nat} (small : n ≤ 99) : aliasOf name n ≠ pad 11
    [] := by
  intro same
  obtain ⟨_, _, eq, some_base, _, _, chars, _⟩ := aliasOf_parts name small
  obtain ⟨b, _, rfl⟩ := exists_cons_of_ne_nil some_base
  have first := congrArg (·.getD 0 0) (eq.symm.trans same)
  exact (chars b (by simp)).ne (by decide) first

variable {name : List UInt8} {naming : EntryNaming} {raw : Slot} {pos : Pos} {new : Dirent}

section
variable (h : NamingOf g V dir name naming) (plain : 0 ∉ name) (good : GoodName name)
  (entry : NewEntry name naming.alias11 raw pos new)

include h plain good entry

theorem NamingOf.unknown (orderly : Orderly g V dir) (absent : find g V dir name = none)
    {want : List UInt8} (hit : new.matches want) :
    ∀ de ∈ entries g V dir, ¬ de.matches want := by
  intro de mem answers
  have other : upper want ≠ upper name := fun same => by
    refine find_none_iff.1 absent de mem ?_
    rw [matches_iff, ← same]
    exact matches_iff.1 answers
  have by_alias : upper (unpacked naming.alias11) = upper want := by
    rcases matches_iff.1 hit with long | short
    · exact absurd (long.symm.trans entry.caps) other
    · rw [← entry.short, short]
  cases h with
  | short fits =>
    rw [unpacked_nameTo83 fits plain (good.2 (by simp [fits])).1, upper_upper] at by_alias
    exact other by_alias.symm
  | @long n none tried unused slots =>
    obtain ⟨caps, packs⟩ := unpacked_aliasOf name tried.2
    rw [caps] at by_alias
    have packed : nameTo83 de.name = some (aliasOf name n) ∨ nameTo83 de.shortName = some (aliasOf name n) := by
      rw [← nameTo83_upper de.name, ← nameTo83_upper de.shortName, ← packs]
      rcases matches_iff.1 answers with same | same
      · exact .inl (by rw [same, by_alias])
      · exact .inr (by rw [same, by_alias])
    exact unused _ (entries_slotAt mem) (orderly.honest de mem _ (aliasOf_ne_blank name tried.2) packed)

theorem NamingOf.honest {p : List UInt8}
    (packs : nameTo83 new.name = some p ∨ nameTo83 new.shortName = some p) :
    naming.alias11 = p := by
  rw [← nameTo83_upper new.name, entry.caps, nameTo83_upper, entry.short] at packs
  cases h with
  | short fits =>
    rw [unpacked_nameTo83 fits plain (good.2 (by simp [fits])).1, nameTo83_upper, or_self, fits] at packs
    exact Option.some.inj packs
  | @long n none tried unused slots =>
    rw [none, (unpacked_aliasOf name tried.2).2] at packs
    rcases packs with absurd_none | same
    · cases absurd_none
    · exact Option.some.inj same

theorem Orderly.insert {A B : List Dirent} (orderly : Orderly g V dir)
    (absent : find g V dir name = none) (inst : Installed g V U V' dir X F Y N)
    (at_pos : (pos, cut raw) ∈ slots g V' dir) (tidy : Tidy (slots g V' dir))
    (was : entries g V dir = A ++ B) (now : entries g V' dir = A ++ new :: B) :
    Orderly g V' dir := by
  have pos_eq : new.pos = pos := entry.of.pos
  refine ⟨tidy, ?_, ?_⟩
  · intro de mem p blank packs
    have cases : de = new ∨ de ∈ entries g V dir := by
      rw [now] at mem
      rw [was]
      simp only [mem_append, mem_cons] at mem ⊢
      tauto
    rcases cases with rfl | old
    · rw [pos_eq, ← slots_slotAt at_pos, entry.packed]
      exact h.honest plain good entry packs
    · rw [inst.keeps (entries_slotAt old)]
      exact orderly.honest de old p blank packs
  · rw [now, pairwise_middle fun apart want both => apart want ⟨both.2, both.1⟩, ← was]
    refine List.pairwise_cons.2 ⟨fun de mem want both => ?_, orderly.apart⟩
    exact h.unknown plain good entry orderly absent both.1 de mem both.2

end

theorem Orderly.short_unique (orderly : Orderly g V dir) :
    (live g V dir).Pairwise fun a b => name11 a.2 ≠ name11 b.2 := by
  have both := entriesFrom_live .empty (slots g V dir)
  have apart := orderly.apart
  rw [← entries] at both
  rw [← live] at both
  generalize entries g V dir = E at both apart
  generalize live g V dir = S at both
  induction both with
  | nil => exact .nil
  | @cons de e E S of rest ih =>
    obtain ⟨first, tail⟩ := List.pairwise_cons.1 apart
    refine List.pairwise_cons.2 ⟨fun x hx same => ?_, ih tail⟩
    obtain ⟨i, hi, rfl⟩ := getElem_of_mem hx
    have len := rest.length_eq
    have of' := (List.forall₂_iff_get.1 rest).2 i (len ▸ hi) hi
    have short : ∀ {d : Dirent} {y : Pos × Slot}, EntryOf d y → d.shortName = unpacked (name11 y.2) := by
      intro d y h
      rw [h]
      exact nameFrom83_eq _
    refine first _ (getElem_mem (len ▸ hi)) de.shortName ⟨matches_iff.2 (.inr rfl), matches_iff.2 (.inr ?_)⟩
    rw [short of, same]
    exact congrArg upper (short of')

theorem resolve_keep {P : Nat → Prop} (closed : Closed g V P) (ok : ∀ d, P d → DirOk g V' d)
    (keeps : ∀ d, P d → ∀ want de, find g V d want = some de → find g V' d want = some de)
    (comps : List (List UInt8)) {cur de : Dirent} (start : cur.isDir → P cur.firstCluster)
    (h : resolve g V cur comps = some de) :
    resolve g V' cur comps = some de ∧ Walkable g V' cur comps := by
  induction comps generalizing cur with
  | nil => exact ⟨h, trivial⟩
  | cons comp rest ih =>
    rw [resolve] at h ⊢
    cases is_dir : cur.isDir with
    | false => simp [is_dir] at h
    | true =>
      have inside := start is_dir
      simp only [is_dir, if_true, Option.bind_eq_some_iff] at h ⊢
      obtain ⟨next, hit, onwards⟩ := h
      have hit' := keeps _ inside comp next hit
      obtain ⟨now, walk⟩ := ih (fun down => closed.step _ inside next (find_mem hit) down) onwards
      refine ⟨⟨next, hit', now⟩, fun _ => ⟨ok _ inside, fun next' same => ?_⟩⟩
      rw [hit'] at same
      rw [← Option.some.inj same]
      exact walk

theorem walkable_snoc {comps : List (List UInt8)} {cur last : Dirent} (comp : List UInt8)
    (walk : Walkable g V cur comps) (h : resolve g V cur comps = some last)
    (ok : last.isDir → DirOk g V last.firstCluster) : Walkable g V cur (comps ++ [comp]) := by
  induction comps generalizing cur with
  | nil =>
    obtain rfl := Option.some.inj h
    exact fun is_dir => ⟨ok is_dir, fun _ _ => trivial⟩
  | cons c rest ih =>
    intro is_dir
    obtain ⟨here, onwards⟩ := walk is_dir
    refine ⟨here, fun next hit => ih (onwards next hit) ?_⟩
    rw [resolve, if_pos is_dir, hit] at h
    exact h

theorem find_insert {A B : List Dirent} (want : List UInt8) (was : entries g V dir = A ++ B)
    (now : entries g V' dir = A ++ new :: B) :
    (¬ new.matches want → find g V' dir want = find g V dir want) ∧
      (new.matches want → find g V dir want = none → find g V' dir want = some new) := by
  constructor
  · intro miss
    simp [find, was, now, find?_append, miss]
  intro hit absent
  have front : A.find? (·.matches want) = none := by
    rw [find?_eq_none]
    intro de mem
    exact find_none_iff.1 absent de (by simp [was, mem])
  simp [find, now, find?_append, hit, front]

end

end Osnos.Fat
