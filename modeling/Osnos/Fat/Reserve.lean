import Osnos.Fat.FileOps
import Osnos.Fat.LongName

/-! Where a new entry goes: a run of free slots, or the slots of a cluster that the
directory grows by; and what the directory holds once the slots are written. -/
namespace Osnos.Fat
open Function List Prog

def freeRun (count : Nat) : List Pos → List (Pos × Slot) → Option (List Pos)
  | _, [] => none
  | run, (pos, slot) :: rest =>
    if isFree slot then
      if (run ++ [pos]).length = count then some (run ++ [pos]) else freeRun count (run ++ [pos]) rest
    else freeRun count [] rest

namespace Vol

def zeroed (V : Vol) (lba n : Nat) : Vol :=
  { V with sec := fun l => if lba ≤ l ∧ l < lba + n then fun _ => 0 else V.sec l }

def grown (g : Geometry) (V : Vol) (last c : Nat) : Vol :=
  ((V.setFat c 0xFFFF).zeroed (g.clusterToLba c) g.sectorsPerCluster).setFat last c

def putPos (V : Vol) (e : Pos × Slot) : Vol := V.setSec e.1.1 (putSlot (V.sec e.1.1) e.1.2 e.2)
def putAll (V : Vol) (put : List (Pos × Slot)) : Vol := put.foldl putPos V

end Vol

def cut (raw : Slot) : Slot := fun k => if k < 32 then raw k else 0

def Room (g : Geometry) (V U : Vol) (dir : Nat) : Prop :=
  U = V ∨ ∃ (l : List Nat) (c : Nat) (ne : l ≠ []),
    Chain g V dir l ∧ c ∈ V.freeList g ∧ U = V.grown g (l.getLast ne) c

variable {l : List Nat}

section
variable {g : Geometry} {V U : Vol} {dir : Nat}

theorem findFreeLoop_does (ok : DirOk g V dir) (count n idx : Nat) (run : List Pos)
    (rounds : (slots g V dir).length - idx < n) :
    Does (Holds g) V (findFreeLoop g dir count n run idx)
      (match freeRun count run ((slots g V dir).drop idx) with
        | none => .error (-28)
        | some run => .ok run) V := by
  induction n generalizing idx run with
  | zero => omega
  | succ n ih =>
    have located := dirSlotLocate_does ok idx
    rw [findFreeLoop]
    rw [locatedAt] at located
    cases h : (slots g V dir)[idx]? with
    | none =>
      rw [h] at located
      rw [drop_eq_nil_of_le (List.getElem?_eq_none_iff.1 h)]
      exact .bind located (.pure _)
    | some e =>
      obtain ⟨pos, slot⟩ := e
      rw [h] at located
      obtain ⟨inside, step⟩ := slots_step ok h
      rw [drop_cons_of_getElem? h, freeRun]
      refine .bind located ?_
      by_cases free : slot 0 = 0xE5 ∨ slot 0 = 0
      · have is_free : isFree slot := isFree_iff.2 free
        simp only [free, is_free, if_true, step]
        by_cases enough : (run ++ [pos]).length = count
        · simp only [enough, if_true]
          exact .pure _
        · simp only [enough, if_false]
          exact ih _ _ (by omega)
      · have busy : isFree slot = false := by simpa [isFree] using free
        simp only [free, busy, Bool.false_eq_true, if_false, step]
        exact ih _ _ (by omega)

theorem findFreeDirSlotsRun_does (ok : DirOk g V dir) (count : Nat) :
    Does (Holds g) V (findFreeDirSlotsRun g dir count)
      (match freeRun count [] (slots g V dir) with
        | none => .error (-28)
        | some run => .ok run) V := by
  have := slots_length_lt ok
  have h := findFreeLoop_does ok count scanRounds 0 [] (by simp only [scanRounds]; omega)
  simpa [findFreeDirSlotsRun] using h

structure FreeAt (S : List (Pos × Slot)) (count : Nat) (run : List Pos) (X F Y : List (Pos × Slot)) :
    Prop where
  whole : S = X ++ (F ++ Y)
  at_run : F.map (·.1) = run
  count : F.length = count
  free : ∀ x ∈ F, isFree x.2
  start : ∀ x ∈ X.getLast?, ¬ isFree x.2

theorem freeRun_spec {count : Nat} (S X R : List (Pos × Slot)) {found : List Pos}
    (free : ∀ x ∈ R, isFree x.2) (start : ∀ x ∈ X.getLast?, ¬ isFree x.2)
    (h : freeRun count (R.map (·.1)) S = some found) :
    ∃ X' F Y, FreeAt (X ++ (R ++ S)) count found X' F Y := by
  induction S generalizing X R with
  | nil => cases h
  | cons e S ih =>
    obtain ⟨pos, slot⟩ := e
    rw [freeRun] at h
    have snoc : R.map (·.1) ++ [pos] = (R ++ [(pos, slot)]).map (·.1) := by simp
    by_cases is_free : isFree slot
    · rw [if_pos is_free] at h
      have free' : ∀ x ∈ R ++ [(pos, slot)], isFree x.2 := by
        intro x hx
        rcases List.mem_append.1 hx with hx | hx
        · exact free x hx
        · rw [List.mem_singleton.1 hx]
          exact is_free
      by_cases enough : (R.map (·.1) ++ [pos]).length = count
      · rw [if_pos enough] at h
        refine ⟨X, R ++ [(pos, slot)], S, by simp, ?_, by simpa using enough, free', start⟩
        rw [← snoc]
        exact Option.some.inj h
      · rw [if_neg enough, snoc] at h
        simpa using ih X (R ++ [(pos, slot)]) free' start h
    · rw [if_neg is_free] at h
      have last : ∀ x ∈ (X ++ (R ++ [(pos, slot)])).getLast?, ¬ isFree x.2 := by
        intro x hx
        rw [← append_assoc, getLast?_concat] at hx
        obtain rfl := Option.some.inj hx
        exact is_free
      simpa using ih (X ++ (R ++ [(pos, slot)])) [] (by simp) last h

theorem freeRun_free {count : Nat} (Z T : List (Pos × Slot)) (run : List Pos)
    (free : ∀ x ∈ Z, isFree x.2) (short : run.length < count)
    (enough : count ≤ run.length + Z.length) :
    freeRun count run (Z ++ T) ≠ none := by
  induction Z generalizing run with
  | nil =>
    simp only [length_nil] at enough
    omega
  | cons e Z ih =>
    obtain ⟨pos, slot⟩ := e
    rw [cons_append, freeRun, if_pos (free (pos, slot) (by simp))]
    by_cases now : (run ++ [pos]).length = count
    · simp [now]
    rw [if_neg now]
    simp only [length_cons, length_append, length_nil] at *
    refine ih (run ++ [pos]) (fun x hx => free x (by simp [hx])) ?_ ?_
    all_goals
      simp only [length_append, length_cons, length_nil]
      omega

theorem freeRun_append {count : Nat} (S Z : List (Pos × Slot)) (run : List Pos)
    (free : ∀ x ∈ Z, isFree x.2) (short : run.length < count) (enough : count ≤ Z.length) :
    freeRun count run (S ++ Z) ≠ none := by
  induction S generalizing run with
  | nil => simpa using freeRun_free Z [] run free short (by omega)
  | cons e S ih =>
    obtain ⟨pos, slot⟩ := e
    rw [cons_append, freeRun]
    by_cases is_free : isFree slot
    · rw [if_pos is_free]
      by_cases now : (run ++ [pos]).length = count
      · simp [now]
      rw [if_neg now]
      refine ih (run ++ [pos]) ?_
      simp only [length_append, length_cons, length_nil] at now ⊢
      omega
    · rw [if_neg is_free]
      exact ih [] (by simp only [length_nil]; omega)

theorem lastOfDir_does {n c : Nat} (chain : Chain g V c l) (rounds : l.length < n) :
    Does (Holds g) V (lastOfDir g n c) (some (l.getLast chain.path.ne_nil)) V := by
  induction n generalizing c l with
  | zero => omega
  | succ n ih =>
    have hc := chain.first
    rw [lastOfDir, if_neg hc.go]
    refine .bind (fatGetEntry_does hc.2.2) ?_
    cases chain with
    | mk path clusters =>
      cases path with
      | last fin =>
        have ends : V.fat c ≥ 0xFFF8 := fin
        simp only [ends, if_true, getLast_singleton]
        exact .pure _
      | step more tail =>
        have goes_on : ¬ V.fat c ≥ 0xFFF8 := more
        simp only [goes_on, if_false, getLast_cons tail.ne_nil]
        simp only [length_cons] at rounds
        exact ih ⟨tail, fun x hx => clusters x (by simp [hx])⟩ (by omega)

theorem zeroed_zero (V : Vol) (lba : Nat) : V.zeroed lba 0 = V := by
  have none : ∀ l, ¬ (lba ≤ l ∧ l < lba + 0) := fun l => by omega
  simp only [Vol.zeroed, none, if_false]

theorem zeroSectors_does (n lba : Nat) (V : Vol) (area : g.rootDirLba ≤ lba) :
    Does (Holds g) V (zeroSectors n lba) true (V.zeroed lba n) := by
  induction n generalizing V lba with
  | zero =>
    rw [zeroed_zero]
    exact .pure _
  | succ n ih =>
    rw [zeroSectors]
    refine .bind (write_does .data (fun _ => 0) area) ?_
    have rest := ih (lba + 1) (V.setSec lba fun _ => 0) (by omega)
    have whole : (V.setSec lba fun _ => 0).zeroed (lba + 1) n = V.zeroed lba (n + 1) := by
      simp only [Vol.zeroed, Vol.setSec, Vol.mk.injEq, true_and]
      funext l
      by_cases first : l = lba
      · subst first
        have out : ¬ (l + 1 ≤ l ∧ l < l + 1 + n) := by omega
        have inside : l ≤ l ∧ l < l + (n + 1) := by omega
        rw [if_neg out, if_pos inside, update_self]
      · have same : (lba + 1 ≤ l ∧ l < lba + 1 + n) ↔ (lba ≤ l ∧ l < lba + (n + 1)) := by omega
        simp only [same, update_of_ne first]
    rw [whole] at rest
    simpa using rest

theorem grown_chain {c : Nat} (chain : Chain g V dir l) (free : c ∈ V.freeList g) :
    Chain g (V.grown g (l.getLast chain.path.ne_nil) c) dir (l ++ [c]) := by
  have cluster := freeList_cluster free
  have empty := (mem_freeList.1 free).2.2
  have apart : c ∉ l := fun hc => (chain.allocated hc).2.1 empty
  have kept : Links.Path (update V.fat c 0xFFFF) (0xFFF8 ≤ ·) dir l :=
    chain.path.congr fun x hx => update_of_ne (ne_of_mem_of_not_mem hx apart) _ _
  have tail : Links.Path (update V.fat c 0xFFFF) (0xFFF8 ≤ ·) c [c] := .last (by simp [update_self])
  have inside : ¬ 0xFFF8 ≤ c := by have := cluster.2.1; omega
  refine ⟨kept.extend tail (by simpa using apart) inside, fun x hx => ?_⟩
  rcases List.mem_append.1 hx with hx | hx
  · exact chain.clusters x hx
  · rw [List.mem_singleton.1 hx]
    exact cluster

theorem extendDirChain_does (chain : Chain g V dir l) :
    V.freeList g = [] ∧ Does (Holds g) V (extendDirChain g dir) (-28) V ∨
      ∃ c ∈ V.freeList g, Does (Holds g) V (extendDirChain g dir) 0
        (V.grown g (l.getLast chain.path.ne_nil) c) := by
  have two := chain.first.1
  have ne : dir ≠ 0 := by omega
  have last := lastOfDir_does chain chain.length_lt
  have alloc := fatAllocCluster_does (g := g) (V := V)
  rw [extendDirChain, if_neg ne]
  cases h : V.freeList g with
  | nil =>
    rw [h] at alloc
    exact .inl ⟨rfl, .bind last (.bind alloc (.pure _))⟩
  | cons c rest =>
    right
    have free : c ∈ V.freeList g := by simp [h]
    have cluster := freeList_cluster free
    have nonzero : c ≠ 0 := by have := cluster.1; omega
    have at_last := chain.clusters _ (getLast_mem chain.path.ne_nil)
    rw [h] at alloc
    simp only [head?_cons, Option.getD_some, Vol.claim] at alloc
    refine ⟨c, by simp, .bind last (.bind alloc ?_)⟩
    simp only [nonzero, if_false]
    refine .bind (zeroSectors_does _ _ _ (rootDirLba_le_cluster c)) ?_
    simp only [Bool.not_true, Bool.false_eq_true, if_false]
    have small : c < 65536 := by have := cluster.2.1; omega
    refine .bind (fatSetEntry_does at_last.2.2 small) ?_
    simp only [ne_eq, not_true_eq_false, if_false]
    exact .pure _

theorem slotIn_zero (i : Nat) : slotIn (fun _ => 0) i = fun _ => 0 := by
  funext k
  simp [slotIn]

theorem slots_grown {c : Nat} (chain : Chain g V dir l) (free : c ∈ V.freeList g) :
    ∃ Z : List (Pos × Slot), slots g (V.grown g (l.getLast chain.path.ne_nil) c) dir =
        slots g V dir ++ Z ∧ Z.length = g.sectorsPerCluster * 16 ∧ ∀ e ∈ Z, ∀ k, e.2 k = 0 := by
  have cluster := freeList_cluster free
  have empty := (mem_freeList.1 free).2.2
  have apart : c ∉ l := fun hc => (chain.allocated hc).2.1 empty
  refine ⟨(clusterLbas g c).flatMap (sectorSlots (V.grown g (l.getLast chain.path.ne_nil) c)), ?_, ?_, ?_⟩
  · rw [slots, slots, dirLbas_chain (grown_chain chain free), dirLbas_chain chain, flatMap_append,
      flatMap_singleton, flatMap_append]
    congr 1
    apply flatMap_congr
    intro lba mem
    obtain ⟨x, hx, inside⟩ := List.mem_flatMap.1 mem
    -- the new cluster's sectors are none of the old ones
    have differ : ¬ (g.clusterToLba c ≤ lba ∧ lba < g.clusterToLba c + g.sectorsPerCluster) := by
      intro here
      simp only [clusterLbas, mem_range'_1] at inside
      exact apart (cluster_inj (chain.clusters x hx).1 cluster.1 inside here ▸ hx)
    simp only [sectorSlots, Vol.grown, Vol.setFat, Vol.zeroed, if_neg differ]
  · rw [length_flatMap_block _ (m := 16) fun lba => by simp [sectorSlots]]
    simp [clusterLbas]
  intro e he k
  obtain ⟨lba, mem, he⟩ := List.mem_flatMap.1 he
  obtain ⟨i, _, rfl⟩ := mem_sectorSlots.1 he
  have here : g.clusterToLba c ≤ lba ∧ lba < g.clusterToLba c + g.sectorsPerCluster := by
    simpa only [clusterLbas, mem_range'_1] using mem
  simp only [Vol.grown, Vol.setFat, Vol.zeroed, if_pos here, slotIn_zero]

theorem reserveSlots_does (ok : DirOk g V dir) {count : Nat} (some_slot : 0 < count)
    (small : count ≤ 16) :
    Does (Holds g) V (reserveSlots g dir count) (.error (-28)) V ∨
      ∃ U run X F Y, Does (Holds g) V (reserveSlots g dir count) (.ok run) U ∧ Room g V U dir ∧
        DirOk g U dir ∧ FreeAt (slots g U dir) count run X F Y := by
  have first := findFreeDirSlotsRun_does ok count
  rw [reserveSlots]
  cases found : freeRun count [] (slots g V dir) with
  | some run =>
    rw [found] at first
    obtain ⟨X, F, Y, at_run⟩ := freeRun_spec (slots g V dir) [] [] (by simp) (by simp) found
    exact .inr ⟨V, run, X, F, Y, .bind first (.pure _), .inl rfl, ok, by simpa using at_run⟩
  | none =>
    rw [found] at first
    rcases id ok with rfl | ⟨l, chain⟩
    · exact .inl (.bind first (.pure _))
    have two := chain.first.1
    have ne : dir ≠ 0 := by omega
    rcases extendDirChain_does chain with ⟨_, fails⟩ | ⟨c, free, grows⟩
    · left
      refine .bind first ?_
      simp only [ne, ne_eq, not_false_eq_true, and_self, if_true, growAndFind]
      exact .bind fails (.pure _)
    right
    have ok' : DirOk g (V.grown g (l.getLast chain.path.ne_nil) c) dir :=
      .inr ⟨_, grown_chain chain free⟩
    obtain ⟨Z, whole, len, zero⟩ := slots_grown chain free
    have again := findFreeDirSlotsRun_does ok' count
    have enough : count ≤ Z.length := by
      have := g.spc_pos
      rw [len]
      omega
    have hit : freeRun count [] (slots g V dir ++ Z) ≠ none :=
      freeRun_append _ Z [] (fun x hx => isFree_iff.2 (.inr (zero x hx 0))) some_slot enough
    obtain ⟨run, found'⟩ := Option.ne_none_iff_exists'.1 hit
    rw [← whole] at found'
    rw [found'] at again
    obtain ⟨X, F, Y, at_run⟩ := freeRun_spec _ [] [] (by simp) (by simp) found'
    refine ⟨_, run, X, F, Y, .bind first ?_, .inr ⟨l, c, _, chain, free, rfl⟩, ok', by
      simpa using at_run⟩
    simp only [ne, ne_eq, not_false_eq_true, and_self, if_true, growAndFind]
    refine .bind grows ?_
    simp only [not_true_eq_false, if_false]
    exact .bind again (.pure _)

end

end Osnos.Fat
