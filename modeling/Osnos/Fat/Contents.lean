import Mathlib.Data.List.GetD
import Osnos.Fat.Alloc
import Osnos.Fat.File

/-! What the data loops do to the bytes of a chain: reading a range, filling a
fresh chain, growing the last cluster in place. -/
namespace Osnos.Fat
open Function Nat Prog Bpb List

section
variable (g : Geometry)

def InCluster (c lba : Nat) : Prop :=
  g.clusterToLba c ≤ lba ∧ lba < g.clusterToLba c + g.sectorsPerCluster

def byteAt (V : Vol) (l : List Nat) (i : Nat) : UInt8 :=
  V.sec (g.clusterToLba (l.getD (i / g.clusterSize) 0) + i % g.clusterSize / 512) (i % 512)

def slice (V : Vol) (l : List Nat) (off n : Nat) : List UInt8 :=
  (List.range n).map fun i => byteAt g V l (off + i)

end

def sectors (V : Vol) (lba off n : Nat) : List UInt8 :=
  (List.range n).map fun i => V.sec (lba + (off + i) / 512) ((off + i) % 512)

section
variable {g : Geometry} {V V' : Vol}

theorem rootDirLba_le_cluster (c : Nat) : g.rootDirLba ≤ g.clusterToLba c := by
  simp only [clusterToLba, dataLba]
  omega

theorem dataLba_le_cluster (c : Nat) : g.dataLba ≤ g.clusterToLba c := Nat.le_add_right _ _

theorem cluster_inj {c d lba : Nat} (hc : 2 ≤ c) (hd : 2 ≤ d) (h₁ : InCluster g c lba)
    (h₂ : InCluster g d lba) : c = d := by
  have hs := g.spc_pos
  have bound : ∀ {x}, InCluster g x lba → (lba - g.dataLba) / g.sectorsPerCluster = x - 2 := by
    intro x hx
    obtain ⟨lo, hi⟩ := hx
    simp only [clusterToLba] at lo hi
    apply Nat.div_eq_of_lt_le
    · omega
    · rw [succ_mul]; omega
  have := bound h₁
  have := bound h₂
  omega

theorem mod_cluster_div (i : Nat) : i % g.clusterSize / 512 < g.sectorsPerCluster := by
  have h := mod_lt i g.clusterSize_pos
  simp only [clusterSize] at *
  omega

theorem byteAt_sector (l : List Nat) {i : Nat} (h : i < l.length * g.clusterSize) :
    l.getD (i / g.clusterSize) 0 ∈ l ∧ InCluster g (l.getD (i / g.clusterSize) 0)
        (g.clusterToLba (l.getD (i / g.clusterSize) 0) + i % g.clusterSize / 512) := by
  have inside : i / g.clusterSize < l.length := (Nat.div_lt_iff_lt_mul g.clusterSize_pos).2 h
  constructor
  · rw [getD_eq_getElem _ _ inside]
    exact getElem_mem inside
  · have := mod_cluster_div (g := g) i
    exact ⟨by omega, by omega⟩

theorem byteAt_congr (l : List Nat) {i : Nat} (h : i < l.length * g.clusterSize)
    (same : ∀ c ∈ l, ∀ lba, InCluster g c lba → V'.sec lba = V.sec lba) :
    byteAt g V' l i = byteAt g V l i := by
  have hs := byteAt_sector l h
  simp only [byteAt, same _ hs.1 _ hs.2]

theorem slice_congr (l : List Nat) {off n : Nat} (h : off + n ≤ l.length * g.clusterSize)
    (same : ∀ c ∈ l, ∀ lba, InCluster g c lba → V'.sec lba = V.sec lba) :
    slice g V' l off n = slice g V l off n := by
  apply map_congr_left
  intro i hi
  have := List.mem_range.1 hi
  exact byteAt_congr l (by omega) same

theorem byteAt_head (c : Nat) (l : List Nat) {i : Nat} (h : i < g.clusterSize) :
    byteAt g V (c :: l) i = V.sec (g.clusterToLba c + i / 512) (i % 512) := by
  simp only [byteAt, div_eq_of_lt h, getD_cons_zero, mod_eq_of_lt h]

theorem byteAt_tail (c : Nat) (l : List Nat) {i : Nat} (h : g.clusterSize ≤ i) :
    byteAt g V (c :: l) i = byteAt g V l (i - g.clusterSize) := by
  have pos := g.clusterSize_pos
  have quot : i / g.clusterSize = (i - g.clusterSize) / g.clusterSize + 1 := by
    rw [div_eq_sub_div pos h]
  have inner : (i - g.clusterSize) % g.clusterSize = i % g.clusterSize := (mod_eq_sub_mod h).symm
  have outer : (i - g.clusterSize) % 512 = i % 512 := by
    simp only [clusterSize] at *
    omega
  simp only [byteAt, quot, getD_cons_succ, inner, outer]

theorem byteAt_drop (l : List Nat) (k i : Nat) :
    byteAt g V (l.drop k) i = byteAt g V l (k * g.clusterSize + i) := by
  induction k generalizing l with
  | zero => simp
  | succ k ih =>
    cases l with
    | nil =>
      have h₁ : (k + 1) * g.clusterSize + i = g.clusterSize * (k + 1) + i := by rw [Nat.mul_comm]
      have h₂ : (g.clusterSize * (k + 1) + i) % 512 = i % 512 := by
        rw [clusterSize, show g.sectorsPerCluster * 512 * (k + 1) =
          512 * (g.sectorsPerCluster * (k + 1)) by ring, mul_add_mod]
      simp only [byteAt, drop_nil, getD_nil, h₁, mul_add_mod, h₂]
    | cons c l =>
      rw [drop_succ_cons, ih, byteAt_tail c l (by rw [succ_mul]; omega)]
      congr 1
      rw [succ_mul]
      omega

theorem byteAt_append_left (l l' : List Nat) {i : Nat} (h : i < l.length * g.clusterSize) :
    byteAt g V (l ++ l') i = byteAt g V l i := by
  have inside : i / g.clusterSize < l.length := (Nat.div_lt_iff_lt_mul g.clusterSize_pos).2 h
  simp only [byteAt, getD_append _ _ _ _ inside]

theorem sectors_add (lba off m n : Nat) :
    sectors V lba off (m + n) = sectors V lba off m ++ sectors V lba (off + m) n := by
  simp [sectors, range_add, Nat.add_assoc]

theorem sectors_from (lba off n : Nat) :
    sectors V (lba + off / 512) (off % 512) n = sectors V lba off n := by
  apply map_congr_left
  intro i _
  have e₁ : lba + off / 512 + (off % 512 + i) / 512 = lba + (off + i) / 512 := by omega
  have e₂ : (off % 512 + i) % 512 = (off + i) % 512 := by omega
  rw [e₁, e₂]

theorem sectors_within {lba off n : Nat} (inside : off + n ≤ 512) :
    sectors V lba off n = (range n).map fun i => V.sec lba (off + i) := by
  apply map_congr_left
  intro i hi
  have := List.mem_range.1 hi
  rw [div_eq_of_lt (by omega), mod_eq_of_lt (by omega), Nat.add_zero]

theorem slice_add (l : List Nat) (off m n : Nat) :
    slice g V l off (m + n) = slice g V l off m ++ slice g V l (off + m) n := by
  simp [slice, range_add, Nat.add_assoc]

theorem slice_head (c : Nat) (l : List Nat) {off n : Nat} (inside : off + n ≤ g.clusterSize) :
    slice g V (c :: l) off n = sectors V (g.clusterToLba c) off n := by
  apply map_congr_left
  intro i hi
  have := List.mem_range.1 hi
  exact byteAt_head c l (by omega)

theorem slice_tail (c : Nat) (l : List Nat) (n : Nat) :
    slice g V (c :: l) g.clusterSize n = slice g V l 0 n := by
  apply map_congr_left
  intro i _
  rw [byteAt_tail c l (by omega), Nat.add_sub_cancel_left, Nat.zero_add]

theorem readSectors_does (lbaStart len n secIn secOff : Nat) (out : List UInt8)
    (area : g.rootDirLba ≤ lbaStart) (inside : secOff < 512) :
    Does (Holds g) V (readSectors lbaStart len n secIn secOff out)
      (some (out ++ sectors V (lbaStart + secIn) secOff
        (min (len - out.length) (n * 512 - secOff)))) V := by
  induction n generalizing secIn secOff out with
  | zero =>
    rw [readSectors, Nat.zero_mul, Nat.zero_sub, Nat.min_zero]
    simpa [sectors] using Prog.Does.pure (some out)
  | succ n ih =>
    rw [readSectors]
    by_cases more : out.length < len
    · simp only [more, not_true_eq_false, if_false]
      refine .bind (read_does (by omega)) ?_
      generalize taken : min (512 - secOff) (len - out.length) = m
      dsimp only
      rw [← sectors_within (by omega)]
      have rest := ih (secIn + 1) 0 (out ++ sectors V (lbaStart + secIn) secOff m) (by decide)
      have length : (out ++ sectors V (lbaStart + secIn) secOff m).length = out.length + m := by
        simp [sectors]
      have total : min (len - out.length) ((n + 1) * 512 - secOff) =
          m + min (len - (out.length + m)) (n * 512 - 0) := by omega
      -- either the sector was read to its end or nothing is left to read
      have next : sectors V (lbaStart + (secIn + 1)) 0 (min (len - (out.length + m)) (n * 512 - 0)) =
          sectors V (lbaStart + secIn) (secOff + m) (min (len - (out.length + m)) (n * 512 - 0)) := by
        by_cases full : secOff + m = 512
        · rw [full]
          exact sectors_from (lbaStart + secIn) 512 _
        · have none : min (len - (out.length + m)) (n * 512 - 0) = 0 := by omega
          rw [none]
          rfl
      rw [length, next, append_assoc, ← sectors_add, ← total] at rest
      exact rest
    · have none : min (len - out.length) ((n + 1) * 512 - secOff) = 0 := by omega
      rw [if_pos more, none]
      simpa [sectors] using Prog.Does.pure (some out)

theorem readClusters_does (len n c inClusterOff : Nat) (l : List Nat) (out : List UInt8)
    (chain : Chain g V c l) (start : inClusterOff < g.clusterSize)
    (fits : inClusterOff + (len - out.length) ≤ l.length * g.clusterSize)
    (rounds : len - out.length < n) :
    Does (Holds g) V (readClusters g len n c inClusterOff out)
      (some (out ++ slice g V l inClusterOff (len - out.length))) V := by
  induction n generalizing c inClusterOff l out with
  | zero => omega
  | succ n ih =>
    rw [readClusters]
    by_cases more : out.length < len
    · have hc := chain.first
      simp only [more, not_true_eq_false, if_false, if_neg hc.go]
      obtain ⟨t, rfl⟩ := chain.path.head
      have got := readSectors_does (V := V) (g.clusterToLba c) len
        (g.sectorsPerCluster - inClusterOff / 512) (inClusterOff / 512) (inClusterOff % 512) out
        (rootDirLba_le_cluster c) (by omega)
      have part : min (len - out.length) ((g.sectorsPerCluster - inClusterOff / 512) * 512 -
          inClusterOff % 512) = min (len - out.length) (g.clusterSize - inClusterOff) := by
        simp only [clusterSize] at *
        omega
      rw [part, sectors_from, ← slice_head c t (by omega)] at got
      refine .bind got ?_
      generalize taken : min (len - out.length) (g.clusterSize - inClusterOff) = m
      have length : (out ++ slice g V (c :: t) inClusterOff m).length = out.length + m := by
        simp [slice]
      simp only [length]
      by_cases again : out.length + m < len
      · simp only [again, if_true]
        have nonempty : t ≠ [] := by
          rintro rfl
          simp only [length_singleton, Nat.one_mul] at fits
          omega
        refine .bind (fatGetEntry_does hc.2.2) ?_
        cases chain.path with
        | last => exact absurd rfl nonempty
        | step _ p =>
          rw [length_cons, succ_mul] at fits
          have rest := ih (V.fat c) 0 t (out ++ slice g V (c :: t) inClusterOff m)
            ⟨p, fun x hx => chain.clusters x (by simp [hx])⟩ g.clusterSize_pos
            (by rw [length]; omega) (by rw [length]; omega)
          have total : len - out.length = m + (len - (out.length + m)) := by omega
          have past : inClusterOff + m = g.clusterSize := by omega
          rw [total, slice_add, past, slice_tail, ← append_assoc]
          rw [length] at rest
          exact rest
      · simp only [again, if_false]
        have all : m = len - out.length := by omega
        obtain ⟨n, rfl⟩ : ∃ k, n = k + 1 := ⟨n - 1, by omega⟩
        rw [readClusters, length, if_pos again, all]
        exact .pure _
    · have none : len - out.length = 0 := by omega
      rw [if_pos more, none]
      simpa [slice] using Prog.Does.pure (some out)

theorem Chain.drop_succ {c : Nat} {l : List Nat} (h : Chain g V c l) (more : 1 < l.length) :
    ¬ 0xFFF8 ≤ V.fat c ∧ Chain g V (V.fat c) l.tail := by
  cases h.path with
  | last => simp at more
  | step n p => exact ⟨n, p, fun x hx => h.clusters x (mem_of_mem_tail hx)⟩

theorem skipClusters_does (n c : Nat) (l : List Nat) (chain : Chain g V c l) (inside : n < l.length) :
    ∃ d, Does (Holds g) V (skipClusters g n c) (some d) V ∧ Chain g V d (l.drop n) := by
  induction n generalizing c l with
  | zero => exact ⟨c, .pure _, by simpa using chain⟩
  | succ n ih =>
    have hc := chain.first
    have next := chain.drop_succ (by omega)
    obtain ⟨d, does, rest⟩ := ih (V.fat c) l.tail next.2 (by simp; omega)
    refine ⟨d, ?_, ?_⟩
    · rw [skipClusters, if_neg hc.go]
      exact .bind (fatGetEntry_does hc.2.2) does
    · rw [drop_tail] at rest
      simpa [Nat.add_comm] using rest

theorem readRange_does {de : Dirent} {l : List Nat} (off len : Nat) (file : de.isDir = false)
    (chain : l = [] ∧ de.size = 0 ∨ Chain g V de.firstCluster l)
    (fits : de.size ≤ l.length * g.clusterSize) :
    Does (Holds g) V (readRange g de off len)
      (some (slice g V l off (min len (de.size - off)))) V := by
  rw [readRange]
  simp only [file, Bool.false_eq_true, if_false]
  by_cases past : off ≥ de.size
  · have none : min len (de.size - off) = 0 := by omega
    simp only [past, if_true, none, slice, range_zero, map_nil]
    exact .pure _
  simp only [past, if_false]
  by_cases zero : min len (de.size - off) = 0
  · simp only [zero, if_true, slice, range_zero, map_nil]
    exact .pure _
  simp only [zero, if_false]
  have pos := g.clusterSize_pos
  rcases chain with ⟨rfl, empty⟩ | chain
  · omega
  have before : off / g.clusterSize < l.length := by
    apply (Nat.div_lt_iff_lt_mul pos).2
    omega
  obtain ⟨d, skip, rest⟩ := skipClusters_does (off / g.clusterSize) de.firstCluster l chain before
  refine .bind skip ?_
  have split : off = off / g.clusterSize * g.clusterSize + off % g.clusterSize := by
    rw [Nat.mul_comm]; exact (div_add_mod _ _).symm
  have enough : off % g.clusterSize + (min len (de.size - off) - ([] : List UInt8).length) ≤
      (l.drop (off / g.clusterSize)).length * g.clusterSize := by
    rw [length_drop, Nat.sub_mul, length_nil]
    omega
  have got := readClusters_does (min len (de.size - off))
    (min len (de.size - off) + 1) d (off % g.clusterSize) _ [] rest (mod_lt _ pos) enough
    (by simp)
  have value : [] ++ slice g V (l.drop (off / g.clusterSize)) (off % g.clusterSize)
      (min len (de.size - off) - ([] : List UInt8).length) =
      slice g V l off (min len (de.size - off)) := by
    apply map_congr_left
    intro i _
    rw [byteAt_drop, ← Nat.add_assoc, ← split]
  rw [value] at got
  exact got

structure OnlyClusters (g : Geometry) (l : List Nat) (V V' : Vol) : Prop where
  fat : V'.fat = V.fat
  sec : ∀ lba, (∀ c ∈ l, ¬ InCluster g c lba) → V'.sec lba = V.sec lba

theorem OnlyClusters.refl (l : List Nat) : OnlyClusters g l V V := ⟨rfl, fun _ _ => rfl⟩

theorem writeSectors_does (lbaStart len n s w : Nat) (src : Nat → UInt8) (V : Vol)
    (area : g.rootDirLba ≤ lbaStart) (hw : w ≤ len) :
    ∃ V', Does (Holds g) V (writeSectors lbaStart src len n s w)
        (some (min len (w + n * 512))) V' ∧ V'.fat = V.fat ∧
      (∀ lba, ¬ (lbaStart + s ≤ lba ∧ lba < lbaStart + s + n) → V'.sec lba = V.sec lba) ∧
      ∀ j o, j < n → o < 512 → w + j * 512 + o < len →
        V'.sec (lbaStart + s + j) o = src (w + j * 512 + o) := by
  induction n generalizing s w V with
  | zero =>
    refine ⟨V, ?_, rfl, fun _ _ => rfl, fun j o hj => absurd hj (Nat.not_lt_zero j)⟩
    rw [writeSectors, Nat.zero_mul, Nat.add_zero, Nat.min_eq_right hw]
    exact .pure _
  | succ n ih =>
    rw [writeSectors]
    by_cases more : w < len
    · simp only [more, not_true_eq_false, if_false]
      let chunk := min 512 (len - w)
      obtain ⟨V', does, fat, frame, bytes⟩ := ih (s + 1) (w + chunk)
        (V.setSec (lbaStart + s) (sectorOf src w chunk)) (by simp only [chunk]; omega)
      have result : min len (w + chunk + n * 512) = min len (w + (n + 1) * 512) := by
        simp only [chunk]; omega
      refine ⟨V', ?_, fat, ?_, ?_⟩
      · refine .bind (write_does .data _ (by omega)) ?_
        rw [← result]
        exact does
      · intro lba out
        have other : lba ≠ lbaStart + s := by omega
        rw [frame lba (by omega), Vol.setSec_sec, update_of_ne other]
      · intro j o hj ho inside
        cases j with
        | zero =>
          rw [frame _ (by omega), Vol.setSec_sec, Nat.add_zero, update_self]
          simp only [sectorOf]
          rw [if_pos (by simp only [chunk]; omega)]
          congr 1
        | succ j =>
          have step := bytes j o (by omega) ho (by simp only [chunk]; omega)
          have pos : lbaStart + s + (j + 1) = lbaStart + (s + 1) + j := by omega
          have idx : w + (j + 1) * 512 + o = w + chunk + j * 512 + o := by simp only [chunk]; omega
          rw [pos, idx]
          exact step
    · simp only [more, not_false_eq_true, if_true]
      have done : min len (w + (n + 1) * 512) = w := by omega
      refine ⟨V, ?_, rfl, fun _ _ => rfl, fun j o _ _ inside => by omega⟩
      rw [done]
      exact .pure _

theorem writeDataLoop_does (len n w c : Nat) (src : Nat → UInt8) (l : List Nat) (V : Vol)
    (chain : Chain g V c l) (hw : w ≤ len) (fits : len - w ≤ l.length * g.clusterSize)
    (rounds : len - w < n) :
    ∃ V', Does (Holds g) V (writeDataLoop g src len n c w) 0 V' ∧ OnlyClusters g l V V' ∧
      ∀ i, w + i < len → byteAt g V' l i = src (w + i) := by
  induction n generalizing w c l V with
  | zero => omega
  | succ n ih =>
    rw [writeDataLoop]
    by_cases more : w < len
    · have hc := chain.first
      simp only [more, not_true_eq_false, if_false, if_neg hc.go]
      obtain ⟨t, rfl⟩ := chain.path.head
      obtain ⟨V₁, does, fat, frame, bytes⟩ := writeSectors_does (g := g) (g.clusterToLba c) len
        g.sectorsPerCluster 0 w src V (rootDirLba_le_cluster c) hw
      have pos := g.clusterSize_pos
      have size : g.sectorsPerCluster * 512 = g.clusterSize := rfl
      -- the bytes of the first cluster, before the rest of the chain is written
      have firstBytes : ∀ i, i < g.clusterSize → w + i < len →
          V₁.sec (g.clusterToLba c + i / 512) (i % 512) = src (w + i) := by
        intro i hi inside
        have h := bytes (i / 512) (i % 512) (by rw [← size] at hi; omega) (by omega) (by omega)
        rw [Nat.add_zero] at h
        rw [h]
        congr 1
        omega
      have keep : OnlyClusters g [c] V V₁ := by
        refine ⟨fat, fun lba out => frame lba ?_⟩
        have h := out c (by simp)
        simp only [InCluster] at h
        omega
      rw [size] at does
      by_cases again : w + g.clusterSize < len
      · have value : min len (w + g.clusterSize) = w + g.clusterSize := by omega
        rw [value] at does
        have nonempty : t ≠ [] := by
          rintro rfl
          simp only [length_singleton, Nat.one_mul] at fits
          omega
        have hfat : V₁.fat c = V.fat c := by rw [fat]
        cases chain.path with
        | last => exact absurd rfl nonempty
        | step _ p =>
          have rest : Chain g V₁ (V.fat c) t :=
            ⟨p.congr fun x _ => by rw [fat], fun x hx => chain.clusters x (by simp [hx])⟩
          obtain ⟨V', does', only, bytes'⟩ := ih (w + g.clusterSize) (V.fat c) t V₁ rest (by omega)
            (by simp only [length_cons, succ_mul] at fits; omega) (by omega)
          refine ⟨V', ?_, ?_, ?_⟩
          · refine .bind does ?_
            simp only [again, if_true]
            refine .bind (fatGetEntry_does hc.2.2) ?_
            rw [hfat]
            exact does'
          · refine ⟨only.fat.trans fat, fun lba out => ?_⟩
            rw [only.sec lba fun d hd => out d (by simp [hd])]
            exact keep.sec lba fun d hd => out d (by simp at hd; simp [hd])
          · intro i inside
            by_cases here : i < g.clusterSize
            · rw [byteAt_head c t here, only.sec, firstBytes i here inside]
              intro d hd hin
              have first : InCluster g c (g.clusterToLba c + i / 512) := by
                refine ⟨by omega, ?_⟩
                rw [← size] at here
                omega
              have same := cluster_inj hc.1 (chain.clusters d (by simp [hd])).1 first hin
              exact (List.nodup_cons.1 chain.path.nodup).1 (same ▸ hd)
            · rw [byteAt_tail c t (by omega), bytes' (i - g.clusterSize) (by omega)]
              congr 1
              omega
      · have value : min len (w + g.clusterSize) = len := by omega
        rw [value] at does
        obtain ⟨n, rfl⟩ : ∃ k, n = k + 1 := ⟨n - 1, by omega⟩
        refine ⟨V₁, ?_, ?_, ?_⟩
        · refine .bind does ?_
          simp only [Nat.lt_irrefl, if_false]
          rw [writeDataLoop]
          simp only [Nat.lt_irrefl, not_false_eq_true, if_true]
          exact .pure _
        · exact ⟨fat, fun lba out => keep.sec lba fun d hd => out d (by simp at hd; simp [hd])⟩
        · intro i inside
          rw [byteAt_head c t (by omega), firstBytes i (by omega) inside]
    · simp only [more, not_false_eq_true, if_true]
      exact ⟨V, .pure _, .refl _, fun i inside => by omega⟩

theorem writeDataIntoChain_does (c len : Nat) (src : Nat → UInt8) (l : List Nat)
    (chain : Chain g V c l) (fits : len ≤ l.length * g.clusterSize) :
    ∃ V', Does (Holds g) V (writeDataIntoChain g c src len) 0 V' ∧ OnlyClusters g l V V' ∧
      ∀ i < len, byteAt g V' l i = src i := by
  obtain ⟨V', does, only, bytes⟩ := writeDataLoop_does len (len + 1) 0 c src l V chain
    (Nat.zero_le _) fits (by omega)
  refine ⟨V', does, only, fun i hi => ?_⟩
  simpa using bytes i (by omega)

theorem writeDataIntoChain_zero_does (len : Nat) (src : Nat → UInt8) (some_data : 0 < len) :
    Does (Holds g) V (writeDataIntoChain g 0 src len) (-5) V := by
  rw [writeDataIntoChain, writeDataLoop]
  simp only [some_data, not_true_eq_false, if_false]
  exact .pure _

theorem tailWalk_does (n c before : Nat) (l : List Nat) (chain : Chain g V c l)
    (rounds : l.length ≤ n) (start : before < 2 ^ 32) :
    Does (Holds g) V (tailWalk g n c before)
      (some (l.getLast chain.path.ne_nil, (before + (l.length - 1) * g.clusterSize) % 2 ^ 32)) V := by
  induction n generalizing c before l with
  | zero => exact absurd (List.length_eq_zero_iff.1 (by omega)) chain.path.ne_nil
  | succ n ih =>
    have hc := chain.first
    refine .bind (fatGetEntry_does hc.2.2) ?_
    by_cases more : 1 < l.length
    · have next := chain.drop_succ more
      have hn := next.2.first
      have low : ¬ V.fat c < 2 := by have := hn.1; omega
      obtain ⟨t, rfl⟩ := chain.path.head
      have rest := ih (V.fat c) ((before + g.clusterSize) % 2 ^ 32) t next.2
        (by simp at rounds; omega) (mod_lt _ (by decide))
      have count : ((before + g.clusterSize) % 2 ^ 32 + (t.length - 1) * g.clusterSize) % 2 ^ 32 =
          (before + ((c :: t).length - 1) * g.clusterSize) % 2 ^ 32 := by
        rw [mod_add_mod]
        congr 1
        have one : 1 ≤ t.length := by simp at more; omega
        rw [length_cons, Nat.add_sub_cancel, Nat.sub_mul, Nat.one_mul]
        have := Nat.mul_le_mul_right g.clusterSize one
        omega
      have last : (c :: t).getLast chain.path.ne_nil = t.getLast next.2.path.ne_nil :=
        getLast_cons _
      simp only [ge_iff_le, if_neg next.1, if_neg low]
      rw [last, ← count]
      exact rest
    · cases chain.path with
      | last e =>
        simp only [ge_iff_le, if_pos e, getLast_singleton, length_singleton,
          Nat.sub_self, Nat.zero_mul, Nat.add_zero, mod_eq_of_lt start]
        exact .pure _
      | step _ p =>
        have := List.length_pos_iff.2 p.ne_nil
        rw [length_cons] at more
        omega

theorem fillTail_does (lba0 toLast n secOff inSec srcOff : Nat) (src : Nat → UInt8) (V : Vol)
    (area : g.rootDirLba ≤ lba0) (inside : inSec < 512) (hs : srcOff ≤ toLast)
    (rounds : toLast - srcOff < n) {pos : Nat} (hpos : pos = 512 * secOff + inSec) :
    ∃ V', Does (Holds g) V (fillTail lba0 src toLast n secOff inSec srcOff) true V' ∧
      V'.fat = V.fat ∧
      (∀ lba, (∀ q, pos ≤ q → q < pos + (toLast - srcOff) → lba ≠ lba0 + q / 512) →
        V'.sec lba = V.sec lba) ∧
      ∀ q, V'.sec (lba0 + q / 512) (q % 512) =
        if pos ≤ q ∧ q < pos + (toLast - srcOff) then src (srcOff + (q - pos))
        else V.sec (lba0 + q / 512) (q % 512) := by
  induction n generalizing secOff inSec srcOff V pos with
  | zero => omega
  | succ n ih =>
    rw [fillTail]
    by_cases more : srcOff < toLast
    · simp only [more, not_true_eq_false, if_false]
      generalize hcan : min (512 - inSec) (toLast - srcOff) = can
      obtain ⟨next, hnext⟩ : ∃ p, p = 512 * (secOff + 1) + 0 := ⟨_, rfl⟩
      obtain ⟨V', does, fat, frame, bytes⟩ := ih (secOff + 1) 0 (srcOff + can)
        (V.setSec (lba0 + secOff) (putBytes (V.sec (lba0 + secOff)) inSec src srcOff can))
        (by omega) (by omega) (by omega) hnext
      refine ⟨V', ?_, fat, ?_, ?_⟩
      · exact .bind (read_does (by omega)) (.bind (write_does .data _ (by omega)) does)
      · intro lba out
        have here := out pos (Nat.le_refl _) (by omega)
        have other : lba ≠ lba0 + secOff := by omega
        rw [frame lba, Vol.setSec_sec, update_of_ne other]
        intro q lo hi
        exact out q (by omega) (by omega)
      · intro q
        rw [bytes q, Vol.setSec_sec]
        by_cases sector : q / 512 = secOff
        · -- the sector that this round rewrites
          have e : lba0 + q / 512 = lba0 + secOff := by omega
          have notLater : ¬ (next ≤ q ∧ q < next + (toLast - (srcOff + can))) := by omega
          rw [if_neg notLater, e, update_self]
          simp only [putBytes]
          by_cases put : inSec ≤ q % 512 ∧ q % 512 < inSec + can
          · rw [if_pos put, if_pos (by omega)]
            congr 1
            omega
          · rw [if_neg put, if_neg (by omega)]
        · have e : lba0 + q / 512 ≠ lba0 + secOff := by omega
          rw [update_of_ne e]
          by_cases later : next ≤ q ∧ q < next + (toLast - (srcOff + can))
          · rw [if_pos later, if_pos (by omega)]
            congr 1
            omega
          · rw [if_neg later, if_neg (by omega)]
    · simp only [more, not_false_eq_true, if_true]
      refine ⟨V, .pure _, rfl, fun _ _ => rfl, fun q => ?_⟩
      rw [if_neg (by omega)]

end

end Osnos.Fat
