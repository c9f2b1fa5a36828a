import Osnos.Fat.View

/-! What the allocator does to the table: claiming a cluster, linking a chain,
freeing one. Failed allocations give the table back as it was. -/
namespace Osnos.Fat
open List Prog Links

def IsCluster (g : Geometry) (c : Nat) : Prop := 2 ≤ c ∧ c < 0xFFF7 ∧ c < g.fatEntries

structure Chain (g : Geometry) (V : Vol) (c : Nat) (l : List Nat) : Prop where
  path : Links.Path V.fat (0xFFF8 ≤ ·) c l
  clusters : ∀ x ∈ l, IsCluster g x

namespace Vol

def firstFree (V : Vol) (c n : Nat) : Option Nat := (List.range' c n).find? (V.fat · = 0)

def claim (V : Vol) : Option Nat → Vol
  | none => V
  | some c => V.setFat c 0xFFFF

def freeList (g : Geometry) (V : Vol) : List Nat :=
  (List.range' 2 (g.maxEntries - 2)).filter (V.fat · = 0)

def free (V : Vol) (l : List Nat) : Vol := { V with fat := fun c => if c ∈ l then 0 else V.fat c }
def linked (V : Vol) (l : List Nat) : Vol := { V with fat := Links.link V.fat 0xFFFF l }

end Vol

variable {l : List Nat} {c : Nat}

section
variable {g : Geometry} {V : Vol} {d : Nat → Sector}

theorem maxEntries_le : g.maxEntries ≤ g.fatEntries := by
  simp only [Bpb.maxEntries, Bpb.fatEntries]
  omega

theorem maxEntries_cap : g.maxEntries ≤ 65525 := Nat.min_le_right _ _

theorem mem_freeList : c ∈ V.freeList g ↔ 2 ≤ c ∧ c < g.maxEntries ∧ V.fat c = 0 := by
  simp only [Vol.freeList, mem_filter, mem_range'_1, decide_eq_true_eq]
  omega

theorem freeList_cluster (h : c ∈ V.freeList g) : IsCluster g c := by
  have hm := mem_freeList.1 h
  have h₁ : g.maxEntries ≤ g.fatEntries := maxEntries_le
  have h₂ : g.maxEntries ≤ 65525 := maxEntries_cap
  exact ⟨hm.1, by omega, by omega⟩

theorem freeList_nodup : (V.freeList g).Nodup := List.Nodup.filter _ (nodup_range' ..)

theorem firstFree_eq_head : V.firstFree 2 (g.maxEntries - 2) = (V.freeList g).head? := by
  simp only [Vol.firstFree, Vol.freeList, head?_filter]

theorem nodup_length_le {N : Nat} (nodup : l.Nodup) (small : ∀ x ∈ l, x < N) : l.length ≤ N := by
  have sub : l ⊆ List.range N := fun x hx => List.mem_range.2 (small x hx)
  simpa using (nodup.subperm sub).length_le

theorem IsCluster.go (h : IsCluster g c) : ¬ (c < 2 ∨ c ≥ 0xFFF8) := by
  have := h.1
  have := h.2.1
  omega

theorem Chain.first (h : Chain g V c l) : IsCluster g c := h.clusters c h.path.first_mem

theorem Chain.length_lt (h : Chain g V c l) : l.length < 65537 := by
  have := nodup_length_le h.path.nodup fun x hx => (h.clusters x hx).2.1
  omega

theorem Chain.unique {l' : List Nat} (h : Chain g V c l) (h' : Chain g V c l') : l = l' :=
  h.path.unique h'.path

theorem Chain.congr {V' : Vol} (h : Chain g V c l)
    (agree : ∀ x ∈ l, V'.fat x = V.fat x) : Chain g V' c l :=
  ⟨h.path.congr agree, h.clusters⟩

def FatSector (g : Geometry) (V : Vol) (sec : Nat) (buf : Sector) : Prop :=
  ∀ x < g.fatEntries, g.fatLba + x * 2 / 512 = sec → rd16 buf (x * 2 % 512) = V.fat x

theorem read_fat_sector (sec : Nat) {s : State} (hs : Cached g d s) :
    ∃ buf s', blockAtaReadSector sec s = some (some buf, s') ∧ Cached g d s' ∧
      FatSector g (view g d) sec buf := by
  refine ⟨s.disk sec, { s with requests := s.requests + 1 }, ?_,
    { hs with }, ?_⟩
  · simp only [blockAtaReadSector, bind_apply, get_apply, set_apply,
      Option.bind_some, hs.ok, if_true, pure_apply]
  · intro x hx same
    rw [view_fat hx, same, hs.disk]

theorem firstFree_succ (c n : Nat) :
    V.firstFree c (n + 1) = if V.fat c = 0 then some c else V.firstFree (c + 1) n := by
  simp only [Vol.firstFree, range'_succ, find?_cons]
  by_cases h : V.fat c = 0 <;> simp [h]

def claimed (g : Geometry) (d : Nat → Sector) : Option Nat → Nat → Sector
  | none => d
  | some c => copyPut g c 0xFFFF g.numFats 0 d

theorem fatAllocClusterFrom_cached (n c cachedSec : Nat) (buf : Sector)
    (range : c + n ≤ g.fatEntries) (known : FatSector g (view g d) cachedSec buf) :
    Does (Cached g) d (fatAllocClusterFrom g n c cachedSec buf)
      (((view g d).firstFree c n).getD 0) (claimed g d ((view g d).firstFree c n)) := by
  induction n generalizing c cachedSec buf with
  | zero => exact .pure 0
  | succ n ih =>
    have hc : c < g.fatEntries := by omega
    have claim : ∀ b, FatSector g (view g d) (g.fatLba + c * 2 / 512) b → Does (Cached g) d
          (do
            if rd16 b (c * 2 % 512) = 0 then
              if (← fatSetEntry g c 0xFFFF) ≠ 0 then return 0
              return c
            fatAllocClusterFrom g n (c + 1) (g.fatLba + c * 2 / 512) b)
          (((view g d).firstFree c (n + 1)).getD 0) (claimed g d ((view g d).firstFree c (n + 1))) := by
      intro b hb
      rw [hb c hc rfl, firstFree_succ]
      by_cases free : (view g d).fat c = 0
      · simp only [if_pos free, Option.getD_some, claimed]
        exact .bind (fatSetEntry_cached c _) (.pure c)
      · simp only [if_neg free]
        exact ih (c + 1) _ b (by omega) hb
    rw [fatAllocClusterFrom]
    by_cases other : g.fatLba + c * 2 / 512 ≠ cachedSec
    · intro s hs
      obtain ⟨b, s₁, run, hs₁, hb⟩ := read_fat_sector (g.fatLba + c * 2 / 512) hs
      obtain ⟨s', run', hs'⟩ := claim b hb s₁ hs₁
      refine ⟨s', ?_, hs'⟩
      simp only [if_pos other]
      rw [bind_some run]
      exact run'
    · simp only [if_neg other]
      have same : g.fatLba + c * 2 / 512 = cachedSec := by simpa using other
      exact claim buf (same ▸ known)

theorem fatAllocCluster_cached : Does (Cached g) d (fatAllocCluster g) (((view g d).freeList g).head?.getD 0)
      (claimed g d ((view g d).freeList g).head?) := by
  have range : g.maxEntries ≤ g.fatEntries := maxEntries_le
  have vacuous : FatSector g (view g d) noSector (fun _ => 0) :=
    fun x hx same => absurd same (first_copy_ne_noSector g hx)
  by_cases small : g.maxEntries ≤ 2
  · have none : g.maxEntries - 2 = 0 := by omega
    simp only [fatAllocCluster, Vol.freeList, none]
    exact .pure 0
  · rw [← firstFree_eq_head]
    exact fatAllocClusterFrom_cached _ 2 _ _ (by omega) vacuous

theorem claimed_keeps {free : Option Nat} (covered : ∀ c ∈ free, c < g.fatEntries) :
    (Mirrored g d → Mirrored g (claimed g d free)) ∧
      view g (claimed g d free) = (view g d).claim free := by
  cases free with
  | none => exact ⟨id, rfl⟩
  | some c =>
    have inside := covered c rfl
    exact ⟨mirrored_copyPut inside _, view_copyPut inside (by decide) d⟩

theorem first_free_covered : ∀ c ∈ (V.freeList g).head?, c < g.fatEntries :=
  fun _ first => (freeList_cluster (mem_of_mem_head? first)).2.2

theorem fatAllocCluster_does : Does (Holds g) V (fatAllocCluster g) ((V.freeList g).head?.getD 0)
      (V.claim (V.freeList g).head?) := by
  refine Holds.of_cached (claimed g · (V.freeList g).head?)
    (fun d viewed => viewed ▸ fatAllocCluster_cached)
    (fun d => (claimed_keeps first_free_covered).1) fun d viewed => ?_
  rw [(claimed_keeps first_free_covered).2, viewed]

theorem free_nil : V.free [] = V := by simp [Vol.free]

theorem free_cons (c : Nat) (l : List Nat) : (V.setFat c 0).free l = V.free (c :: l) := by
  simp only [Vol.free, Vol.setFat, Vol.mk.injEq, and_true]
  funext x
  by_cases hx : x ∈ l
  · simp [hx]
  by_cases hc : x = c
  · simp [hc]
  · simp [hx, hc]

theorem fatFreeChainLoop_does {n : Nat} (h : Chain g V c l) (rounds : l.length < n) :
    Does (Holds g) V (fatFreeChainLoop g n c) 0 (V.free l) := by
  induction l generalizing c n V with
  | nil => exact absurd rfl h.path.ne_nil
  | cons x l ih =>
    obtain ⟨t, same⟩ := h.path.head
    obtain rfl : x = c := (List.cons.inj same).1
    obtain ⟨n, rfl⟩ : ∃ m, n = m + 1 := ⟨n - 1, by simp at rounds; omega⟩
    have hx := h.clusters x (by simp)
    rw [fatFreeChainLoop, if_neg hx.go, ← free_cons]
    refine .bind (fatGetEntry_does hx.2.2) (.bind (fatSetEntry_does hx.2.2 (by omega)) ?_)
    simp only [ne_eq, not_true_eq_false, if_false]
    have fresh := (List.nodup_cons.1 h.path.nodup).1
    cases h.path with
    | last e =>
      obtain ⟨n, rfl⟩ : ∃ m, n = m + 1 := ⟨n - 1, by simp at rounds; omega⟩
      rw [fatFreeChainLoop, if_pos (.inr e), free_nil]
      exact .pure 0
    | step _ p =>
      apply ih ⟨p.congr ?_, fun y hy => h.clusters y (by simp [hy])⟩ (by simp at rounds; omega)
      intro y hy
      have other : y ≠ x := fun same => fresh (same ▸ hy)
      exact Function.update_of_ne other _ _

theorem fatFreeChain_does (h : Chain g V c l) : Does (Holds g) V (fatFreeChain g c) 0 (V.free l) :=
  fatFreeChainLoop_does h h.length_lt

theorem fatFreeChain_zero_does : Does (Holds g) V (fatFreeChain g 0) 0 V := by
  exact .pure 0

theorem link_ne_zero (nonzero : ∀ x ∈ l, x ≠ 0) {x : Nat} (member : x ∈ l) :
    link V.fat 0xFFFF l x ≠ 0 := by
  induction l with
  | nil => simp at member
  | cons c l ih =>
    cases l with
    | nil =>
      have same : x = c := by simpa using member
      subst same
      simp [link]
    | cons d l =>
      by_cases same : x = c
      · subst same
        have := nonzero d (by simp)
        simpa [link] using this
      rw [link, Function.update_of_ne same]
      have later : x ∈ d :: l := by simpa [same] using member
      exact ih (fun y hy => nonzero y (by simp [hy])) later

theorem linked_freeList {r : List Nat} (split : V.freeList g = l ++ r) :
    (V.linked l).freeList g = r := by
  have nodup : (l ++ r).Nodup := split ▸ freeList_nodup
  have nonzero : ∀ x ∈ l, x ≠ 0 := by
    intro x hx
    have := (mem_freeList.1 (split ▸ mem_append_left r hx : x ∈ V.freeList g)).1
    omega
  have pointwise : ∀ x, decide ((V.linked l).fat x = 0) = (decide (x ∉ l) && decide (V.fat x = 0)) := by
    intro x
    by_cases hx : x ∈ l
    · have := link_ne_zero (V := V) nonzero hx
      simp [Vol.linked, hx, this]
    · simp [Vol.linked, hx, link_of_not_mem]
  calc (V.linked l).freeList g = (V.freeList g).filter (fun x => decide (x ∉ l)) := by
        simp only [Vol.freeList, pointwise, filter_filter]
    _ = r := by
        rw [split, filter_append]
        have left : l.filter (fun x => decide (x ∉ l)) = [] := by simp
        have right : r.filter (fun x => decide (x ∉ l)) = r := by
          apply List.filter_eq_self.2
          intro x hx
          have apart := (List.nodup_append.1 nodup).2.2
          simp only [decide_eq_true_eq]
          exact fun hl => apart x hl x hx rfl
        rw [left, right, nil_append]

theorem linked_chain (nodup : (c :: l).Nodup)
    (clusters : ∀ x ∈ c :: l, IsCluster g x) : Chain g (V.linked (c :: l)) c (c :: l) := by
  refine ⟨link_path nodup (by decide) ?_, clusters⟩
  intro x hx
  have := (clusters x (by simp [hx])).2.1
  omega

theorem linked_free (free : ∀ x ∈ l, V.fat x = 0) : (V.linked l).free l = V := by
  simp only [Vol.free, Vol.linked]
  congr 1
  funext x
  by_cases hx : x ∈ l
  · simp [hx, free x hx]
  · simp [hx, link_of_not_mem]

theorem fatAllocChainLoop_does (n : Nat) {first : Nat} (a : List Nat) (prev : Nat) (r : List Nat)
    (split : V.freeList g = (a ++ [prev]) ++ r) (head : (a ++ [prev]).head? = some first) :
    Does (Holds g) (V.linked (a ++ [prev])) (fatAllocChainLoop g n first prev)
      (if n ≤ r.length then (0, first) else (-28, 0))
      (if n ≤ r.length then V.linked (a ++ [prev] ++ r.take n) else V) := by
  induction n generalizing a prev r with
  | zero =>
    simp only [fatAllocChainLoop, Nat.zero_le, if_true, take_zero, append_nil]
    exact .pure _
  | succ n ih =>
    have nodup : (a ++ [prev] ++ r).Nodup := split ▸ freeList_nodup
    have nodupA : (a ++ [prev]).Nodup := (List.nodup_append.1 nodup).1
    have inFree : ∀ x ∈ a ++ [prev], x ∈ V.freeList g := fun x hx => by
      rw [split]; exact mem_append_left r hx
    obtain ⟨l, whole⟩ : ∃ l, a ++ [prev] = first :: l := by
      cases h : a ++ [prev] with
      | nil => simp at h
      | cons c l => rw [h] at head; simp at head; exact ⟨l, by rw [head]⟩
    have headNe : first ≠ 0 := by
      have h := (mem_freeList.1 (inFree first (by rw [whole]; simp))).1
      omega
    have chain : Chain g (V.linked (a ++ [prev])) first (a ++ [prev]) := by
      rw [whole]
      exact linked_chain (whole ▸ nodupA) fun x hx => freeList_cluster (inFree x (whole ▸ hx))
    have alloc := fatAllocCluster_does (g := g) (V := V.linked (a ++ [prev]))
    rw [linked_freeList split] at alloc
    cases r with
    | nil =>
      refine .bind alloc ?_
      simp only [head?_nil, Option.getD_none, if_true, ne_eq, headNe, not_false_eq_true,
        length_nil, Nat.le_zero_eq, Nat.add_one_ne_zero, if_false, Vol.claim]
      refine .bind (fatFreeChain_does chain) ?_
      rw [linked_free fun x hx => (mem_freeList.1 (inFree x hx)).2.2]
      exact .pure _
    | cons c r =>
      have hcFree : c ∈ V.freeList g := by rw [split]; simp
      have hcNe : c ≠ 0 := by have := (mem_freeList.1 hcFree).1; omega
      have hcNot : c ∉ a ++ [prev] := fun hm =>
        (List.nodup_append.1 nodup).2.2 c hm c (by simp) rfl
      have hprev := freeList_cluster (inFree prev (by simp))
      have hcSmall := (freeList_cluster hcFree).2.1
      refine .bind alloc ?_
      simp only [head?_cons, Option.getD_some, hcNe, if_false, headNe, Vol.claim]
      refine .bind (fatSetEntry_does hprev.2.2 (by omega)) ?_
      have grown : ((V.linked (a ++ [prev])).setFat c 0xFFFF).setFat prev c =
          V.linked (a ++ [prev] ++ [c]) := by
        simp only [Vol.linked, Vol.setFat]
        rw [link_concat a prev c hcNot nodupA]
      have rest := ih (a ++ [prev]) c r (by rw [split]; simp)
        (by rw [head?_append, head]; rfl)
      simp only [ne_eq, not_true_eq_false, if_false, grown, length_cons, Nat.add_le_add_iff_right]
      simpa using rest

/-- A chain of `count` clusters is the first `count` free ones in order, or there
are not that many and nothing changed. -/
theorem fatAllocChain_does (count : Nat) : Does (Holds g) V (fatAllocChain g count)
      (if count ≤ (V.freeList g).length then (0, ((V.freeList g).take count).head?.getD 0) else (-28, 0))
      (if count ≤ (V.freeList g).length then V.linked ((V.freeList g).take count) else V) := by
  rw [fatAllocChain]
  cases count with
  | zero =>
    exact .pure _
  | succ n =>
    have alloc := fatAllocCluster_does (g := g) (V := V)
    cases h : V.freeList g with
    | nil =>
      rw [h] at alloc
      refine .bind alloc ?_
      simp only [head?_nil, Option.getD_none, if_true, ne_eq, not_true_eq_false, if_false,
        length_nil, Nat.le_zero_eq, Nat.add_one_ne_zero, Vol.claim]
      exact .pure _
    | cons c r =>
      have hcFree : c ∈ V.freeList g := by rw [h]; simp
      have hcNe : c ≠ 0 := by have := (mem_freeList.1 hcFree).1; omega
      rw [h] at alloc
      refine .bind alloc ?_
      have rest := fatAllocChainLoop_does (g := g) (V := V) n [] c r (by simp [h]) rfl
      simp only [head?_cons, Option.getD_some, hcNe, if_false, if_true, Vol.claim,
        length_cons, Nat.add_le_add_iff_right, take_succ_cons]
      have start : V.setFat c 0xFFFF = V.linked [c] := rfl
      rw [start]
      simpa using rest

end

end Osnos.Fat
