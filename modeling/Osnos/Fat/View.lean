import Osnos.Base.Links
import Osnos.Fat.Table

/-! What the driver sees of a disk: one allocation table and the sectors behind it.
`Holds g V s` ties a driver state to a view. It hides the FAT copies, the sector
cache and the request counter, and it is where "no block I/O errors" stands. -/
namespace Osnos.Fat
open Function Prog Nat State

structure Vol where
  fat : Nat → Nat
  sec : Nat → Sector

namespace Vol

def setFat (V : Vol) (c v : Nat) : Vol := { V with fat := update V.fat c v }

def setSec (V : Vol) (lba : Nat) (buf : Sector) : Vol :=
  { V with sec := update V.sec lba buf }

@[simp] theorem setFat_fat (V : Vol) (c v : Nat) : (V.setFat c v).fat = update V.fat c v := rfl

@[simp] theorem setSec_fat (V : Vol) (lba : Nat) (buf : Sector) :
    (V.setSec lba buf).fat = V.fat := rfl

@[simp] theorem setSec_sec (V : Vol) (lba : Nat) (buf : Sector) :
    (V.setSec lba buf).sec = update V.sec lba buf := rfl

end Vol

section
variable (g : Geometry)

def Bpb.fatEntries (b : Bpb) : Nat := b.fatSizeSectors * 256
def fatSec (k c : Nat) : Nat := g.fatLba + k * g.fatSizeSectors + c * 2 / 512

def view (d : Nat → Sector) : Vol where
  fat c := if c < g.fatEntries then rd16 (d (g.fatLba + c * 2 / 512)) (c * 2 % 512) else 0
  sec lba := if g.rootDirLba ≤ lba then d lba else fun _ => 0

def Mirrored (d : Nat → Sector) : Prop :=
  ∀ k < g.numFats, ∀ i < g.fatSizeSectors, ∀ o < 512,
    d (g.fatLba + k * g.fatSizeSectors + i) o = d (g.fatLba + i) o

def CacheCoherent (s : State) : Prop :=
  s.fatCacheSec = noSector ∨
    (g.fatLba ≤ s.fatCacheSec ∧ s.fatCacheSec < g.fatLba + g.fatSizeSectors ∧
      s.fatCacheBuf = s.disk s.fatCacheSec)

structure Holds (V : Vol) (s : State) : Prop where
  fs : s.fs = some g
  ok : ∀ n lba, s.blockOk n lba = true
  cache : CacheCoherent g s
  mirrored : Mirrored g s.disk
  view : view g s.disk = V

/-- The same with the disk itself as the view, whatever its FAT copies hold. -/
structure Cached (d : Nat → Sector) (s : State) : Prop where
  fs : s.fs = some g
  ok : ∀ n lba, s.blockOk n lba = true
  cache : CacheCoherent g s
  disk : s.disk = d

end

theorem ofNat_toNat (v : Nat) : (UInt8.ofNat v).toNat = v % 256 := by simp

theorem rd16_put16_self (b : Sector) (o v : Nat) (small : v < 65536) : rd16
    (put16 b o v) o = v := by
  have here : o ≠ o + 1 := by omega
  simp only [rd16, put16, update_self, update_of_ne here, ofNat_toNat]
  omega

theorem put16_of_ne (b : Sector) (o v x : Nat) (h₁ : x ≠ o) (h₂ : x ≠ o + 1) :
    put16 b o v x = b x := by
  simp only [put16, update_of_ne h₂, update_of_ne h₁]

theorem rd16_put16_other (b : Sector) (o v o' : Nat) (apart : o' + 1 < o ∨ o + 1 < o') :
    rd16 (put16 b o v) o' = rd16 b o' := by
  have h₁ := put16_of_ne b o v o' (by omega) (by omega)
  have h₂ := put16_of_ne b o v (o' + 1) (by omega) (by omega)
  simp only [rd16, h₁, h₂]

theorem put16_congr (b b' : Sector) (o v x : Nat) (h : b x = b' x) :
    put16 b o v x = put16 b' o v x := by
  simp only [put16, update_apply, h]

variable {c : Nat} {d : Nat → Sector}

section
variable (g : Geometry)

theorem fatLba_pos : 0 < g.fatLba := pos_of_ne_zero g.accepted.2.2.1

theorem fat_copy_lt {k i : Nat} (hk : k < g.numFats) (hi : i < g.fatSizeSectors) :
    g.fatLba + k * g.fatSizeSectors + i < g.rootDirLba := by
  have h : (k + 1) * g.fatSizeSectors ≤ g.numFats * g.fatSizeSectors := mul_le_mul_right _ hk
  simp only [Bpb.rootDirLba, succ_mul] at *
  omega

theorem entry_sector_lt (hc : c < g.fatEntries) : c * 2 / 512 < g.fatSizeSectors := by
  simp only [Bpb.fatEntries] at hc
  omega

theorem first_copy_lt (hc : c < g.fatEntries) : g.fatLba + c * 2 / 512 < g.rootDirLba := by
  have h := fat_copy_lt g g.numFats_pos (entry_sector_lt g hc)
  omega

theorem rootDirLba_lt : g.rootDirLba < 2 ^ 25 := by
  have h := g.dataLba_lt
  simp only [Bpb.dataLba] at h
  omega

theorem first_copy_ne_noSector (hc : c < g.fatEntries) : g.fatLba + c * 2 / 512 ≠ noSector := by
  have h₁ := first_copy_lt g hc
  have h₂ := rootDirLba_lt g
  simp only [noSector]
  omega

theorem copy_inj {k k' i i' : Nat} (hi : i < g.fatSizeSectors) (hi' : i' < g.fatSizeSectors)
    (same : g.fatLba + k * g.fatSizeSectors + i = g.fatLba + k' * g.fatSizeSectors + i') :
    k = k' ∧ i = i' := by
  have eq : k * g.fatSizeSectors + i = k' * g.fatSizeSectors + i' := by omega
  have hk := congrArg (· / g.fatSizeSectors) eq
  have hr := congrArg (· % g.fatSizeSectors) eq
  simp only [mul_comm _ g.fatSizeSectors, mul_add_div g.fatSize_pos, mul_add_mod,
    div_eq_of_lt hi, div_eq_of_lt hi', mod_eq_of_lt hi, mod_eq_of_lt hi'] at hk hr
  omega

end

section
variable {g : Geometry} {V : Vol}

theorem read_does {lba : Nat} (h : g.rootDirLba ≤ lba) :
    Does (Holds g) V (blockAtaReadSector lba) (some (V.sec lba)) V := by
  intro s hs
  refine ⟨{ s with requests := s.requests + 1 }, ?_, { hs with }⟩
  have same : s.disk lba = V.sec lba := by
    rw [← hs.view]
    simp only [view, if_pos h]
  simp only [blockAtaReadSector, bind_apply, get_apply, set_apply,
    Option.bind_some, hs.ok, if_true, same, pure_apply]

theorem write_run (p : Purpose) (lba : Nat) (buf : Sector) (s : State)
    (ok : ∀ n l, s.blockOk n l) :
    blockAtaWriteSector p lba buf s = some (true,
      { s with requests := s.requests + 1, writes := (p, lba) :: s.writes,
               disk := update s.disk lba buf }) := by
  simp only [blockAtaWriteSector, bind_apply, get_apply, set_apply,
    Option.bind_some, ok, if_true, pure_apply]

theorem view_update_sec {lba : Nat} (buf : Sector) (h : g.rootDirLba ≤ lba) :
    view g (update d lba buf) = (view g d).setSec lba buf := by
  simp only [view, Vol.setSec, Vol.mk.injEq]
  constructor
  · funext c
    split
    next hc =>
      have other : g.fatLba + c * 2 / 512 ≠ lba := by
        have := first_copy_lt g hc
        omega
      rw [update_of_ne other]
    · rfl
  · funext l
    by_cases same : l = lba
    · subst same
      simp [h]
    · simp [update_of_ne same]

theorem write_does {lba : Nat} (p : Purpose) (buf : Sector) (h : g.rootDirLba ≤ lba) :
    Does (Holds g) V (blockAtaWriteSector p lba buf) true (V.setSec lba buf) := by
  intro s hs
  refine ⟨_, write_run p lba buf s hs.ok, hs.fs, hs.ok, ?_, ?_, ?_⟩
  · rcases hs.cache with none | ⟨lo, hi, eq⟩
    · exact .inl none
    refine .inr ⟨lo, hi, ?_⟩
    have other : s.fatCacheSec ≠ lba := by
      have := fat_copy_lt g g.numFats_pos (show s.fatCacheSec - g.fatLba < g.fatSizeSectors by omega)
      omega
    simpa only [update_of_ne other] using eq
  · intro k hk i hi o ho
    have h₁ := fat_copy_lt g hk hi
    have h₂ := fat_copy_lt g g.numFats_pos hi
    have n₁ : g.fatLba + k * g.fatSizeSectors + i ≠ lba := by omega
    have n₂ : g.fatLba + i ≠ lba := by omega
    simp only [update_of_ne n₁, update_of_ne n₂]
    exact hs.mirrored k hk i hi o ho
  · rw [← hs.view]
    exact view_update_sec buf h

theorem view_fat (hc : c < g.fatEntries) :
    (view g d).fat c = rd16 (d (g.fatLba + c * 2 / 512)) (c * 2 % 512) := by
  simp only [view, if_pos hc]

theorem Holds.of_cached {α : Type} {x : Driver α} {a : α} {V' : Vol}
    (next : (Nat → Sector) → Nat → Sector)
    (cached : ∀ d, Fat.view g d = V → Does (Cached g) d x a (next d))
    (mirrored : ∀ d, Mirrored g d → Mirrored g (next d))
    (viewed : ∀ d, Fat.view g d = V → Fat.view g (next d) = V') : Does (Holds g) V x a V' := by
  intro s hs
  obtain ⟨s', run, fs, ok, cache, disk⟩ :=
    cached s.disk hs.view s ⟨hs.fs, hs.ok, hs.cache, rfl⟩
  exact ⟨s', run, fs, ok, cache, disk ▸ mirrored _ hs.mirrored, disk ▸ viewed _ hs.view⟩

theorem fatGetEntry_cached (hc : c < g.fatEntries) :
    Does (Cached g) d (fatGetEntry g c) (some ((view g d).fat c)) d := by
  intro s hs
  have value : rd16 (s.disk (g.fatLba + c * 2 / 512)) (c * 2 % 512) = (view g d).fat c := by
    rw [hs.disk, view_fat hc]
  by_cases hit : s.fatCacheSec = g.fatLba + c * 2 / 512
  · refine ⟨s, ?_, hs⟩
    have buf : s.fatCacheBuf = s.disk (g.fatLba + c * 2 / 512) := by
      rcases hs.cache with none | ⟨_, _, eq⟩
      · exact absurd (hit.symm.trans none) (first_copy_ne_noSector g hc)
      · rw [eq, hit]
    simp only [fatGetEntry, bind_apply, get_apply, Option.bind_some, hit, ne_eq,
      not_true_eq_false, if_false, buf, value, pure_apply]
  refine ⟨{ s with requests := s.requests + 1, fatCacheBuf := s.disk (g.fatLba + c * 2 / 512),
                   fatCacheSec := g.fatLba + c * 2 / 512 }, ?_,
    hs.fs, hs.ok, .inr ⟨by simp, ?_, rfl⟩, hs.disk⟩
  · simp only [fatGetEntry, bind_apply, get_apply, Option.bind_some, ne_eq, hit,
      not_false_eq_true, if_true, blockAtaReadSector, set_apply, hs.ok, pure_apply,
      modify_apply, value]
  · have := entry_sector_lt g hc
    simpa using this

theorem fatGetEntry_does (hc : c < g.fatEntries) :
    Does (Holds g) V (fatGetEntry g c) (some (V.fat c)) V :=
  Holds.of_cached id (fun _ viewed => viewed ▸ fatGetEntry_cached hc) (fun _ => id) fun _ => id

def copyPut (g : Geometry) (c v : Nat) : Nat → Nat → (Nat → Sector) → Nat → Sector
  | 0, _, d => d
  | n + 1, k, d =>
    copyPut g c v n (k + 1)
      (update d (fatSec g k c) (put16 (d (fatSec g k c)) (c * 2 % 512) v))

theorem fatSec_inj {k k' : Nat} (hc : c < g.fatEntries) (same : fatSec g k c = fatSec g k' c) :
    k = k' :=
  (copy_inj g (entry_sector_lt g hc) (entry_sector_lt g hc) same).1

theorem copyPut_hit (hc : c < g.fatEntries) (v n k : Nat) (d : Nat → Sector) {j : Nat}
    (lo : k ≤ j) (hi : j < k + n) :
    copyPut g c v n k d (fatSec g j c) = put16 (d (fatSec g j c)) (c * 2 % 512) v := by
  induction n generalizing k d with
  | zero => omega
  | succ n ih =>
    rw [copyPut]
    by_cases first : j = k
    · subst first
      -- the later copies are other sectors
      have keep : ∀ (m k' : Nat) (e : Nat → Sector), j < k' →
          copyPut g c v m k' e (fatSec g j c) = e (fatSec g j c) := by
        intro m
        induction m with
        | zero => intro k' e _; rfl
        | succ m ihm =>
          intro k' e later
          rw [copyPut, ihm (k' + 1) _ (by omega)]
          exact update_of_ne (fun same => by have := fatSec_inj hc same; omega) _ _
      rw [keep n (j + 1) _ (by omega), update_self]
    · have other : fatSec g j c ≠ fatSec g k c := fun same => first (fatSec_inj hc same)
      rw [ih (k + 1) _ (by omega) (by omega), update_of_ne other]

theorem copyPut_miss (v n k : Nat) (d : Nat → Sector) {l : Nat}
    (miss : ∀ j, k ≤ j → j < k + n → l ≠ fatSec g j c) : copyPut g c v n k d l = d l := by
  induction n generalizing k d with
  | zero => rfl
  | succ n ih =>
    rw [copyPut, ih (k + 1) _ fun j lo hi => miss j (by omega) (by omega)]
    exact update_of_ne (miss k (by omega) (by omega)) _ _

def State.afterFatWrite (s : State) (sec : Nat) (buf : Sector) : State :=
  { s with
    requests := s.requests + 1 + 1, writes := (.fat, sec) :: s.writes
    disk := update s.disk sec buf
    fatCacheSec := if s.fatCacheSec = sec then noSector else s.fatCacheSec }

theorem coherent_after_write {s : State} (h : CacheCoherent g s) (sec : Nat) (buf : Sector) :
    CacheCoherent g (s.afterFatWrite sec buf) := by
  rcases h with none | ⟨lo, hi, eq⟩
  · left
    simp [afterFatWrite, none]
  by_cases same : s.fatCacheSec = sec
  · left
    simp [afterFatWrite, same]
  right
  simp only [afterFatWrite, if_neg same]
  exact ⟨lo, hi, by rw [update_of_ne same]; exact eq⟩

theorem fatSetEntryFrom_run (c v n k : Nat) (s : State) (ok : ∀ n l, s.blockOk n l)
    (cache : CacheCoherent g s) :
    ∃ s', fatSetEntryFrom g c v n k s = some (0, s') ∧ s'.fs = s.fs ∧
      s'.blockOk = s.blockOk ∧ CacheCoherent g s' ∧ s'.disk = copyPut g c v n k s.disk := by
  induction n generalizing k s with
  | zero => exact ⟨s, rfl, rfl, rfl, cache, rfl⟩
  | succ n ih =>
    let buf := put16 (s.disk (fatSec g k c)) (c * 2 % 512) v
    obtain ⟨s', run, fs, bok, cch, dsk⟩ := ih (k + 1) (s.afterFatWrite (fatSec g k c) buf) ok
      (coherent_after_write cache _ _)
    refine ⟨s', ?_, fs, bok, cch, dsk⟩
    rw [← run]
    simp only [fatSetEntryFrom, blockAtaReadSector, blockAtaWriteSector, fatCacheInvalidate,
      bind_apply, get_apply, set_apply, modify_apply, pure_apply,
      Option.bind_some, ok, if_true, Bool.not_true, Bool.false_eq_true, if_false]
    have sec : g.fatLba + k * g.fatSizeSectors + c * 2 / 512 = fatSec g k c := rfl
    simp only [sec, afterFatWrite, buf]
    congr 1
    split <;> rfl

theorem mirrored_copyPut (hc : c < g.fatEntries) (v : Nat) (h : Mirrored g d) : Mirrored g
    (copyPut g c v g.numFats 0 d) := by
  intro k hk i hi o ho
  have hs := entry_sector_lt g hc
  by_cases here : i = c * 2 / 512
  · subst here
    have e₁ := copyPut_hit hc v g.numFats 0 d (zero_le k) (by omega)
    have e₂ := copyPut_hit hc v g.numFats 0 d (le_refl 0) (by have := g.numFats_pos; omega)
    simp only [fatSec, zero_mul, add_zero] at e₁ e₂
    rw [e₁, e₂]
    exact put16_congr _ _ _ _ _ (h k hk _ hs o ho)
  have miss : ∀ k', ∀ j, 0 ≤ j → j < 0 + g.numFats →
      g.fatLba + k' * g.fatSizeSectors + i ≠ fatSec g j c :=
    fun k' j _ _ same => here (copy_inj g hi hs same).2
  have m₀ := copyPut_miss v g.numFats 0 d (miss 0)
  simp only [zero_mul, add_zero] at m₀
  rw [copyPut_miss v g.numFats 0 d (miss k), m₀]
  exact h k hk i hi o ho

theorem view_copyPut {v : Nat} (hc : c < g.fatEntries) (small : v < 65536) (d : Nat → Sector) :
    view g (copyPut g c v g.numFats 0 d) = (view g d).setFat c v := by
  have hs := entry_sector_lt g hc
  have hit := copyPut_hit hc v g.numFats 0 d (le_refl 0) (by have := g.numFats_pos; omega)
  simp only [fatSec, zero_mul, add_zero] at hit
  simp only [view, Vol.setFat, Vol.mk.injEq]
  constructor
  · funext x
    by_cases hx : x < g.fatEntries
    · simp only [if_pos hx]
      have hxs := entry_sector_lt g hx
      by_cases same : x = c
      · subst same
        rw [hit, update_self, rd16_put16_self _ _ _ small]
      rw [update_of_ne same, if_pos hx]
      by_cases sector : x * 2 / 512 = c * 2 / 512
      · rw [sector, hit]
        exact rd16_put16_other _ _ _ _ (by omega)
      have miss : ∀ j, 0 ≤ j → j < 0 + g.numFats → g.fatLba + x * 2 / 512 ≠ fatSec g j c := by
        intro j _ _ eq
        have zero : g.fatLba + 0 * g.fatSizeSectors + x * 2 / 512 = fatSec g j c := by
          simpa using eq
        exact sector (copy_inj g hxs hs zero).2
      rw [copyPut_miss v g.numFats 0 d miss]
    · have other : x ≠ c := fun same => hx (same ▸ hc)
      rw [update_of_ne other, if_neg hx, if_neg hx]
  · funext l
    by_cases hl : g.rootDirLba ≤ l
    · simp only [if_pos hl]
      apply copyPut_miss
      intro j _ hj same
      have below := fat_copy_lt g (show j < g.numFats by omega) hs
      simp only [fatSec] at same
      omega
    · simp only [if_neg hl]

theorem fatSetEntry_cached (c v : Nat) :
    Does (Cached g) d (fatSetEntry g c v) 0 (copyPut g c v g.numFats 0 d) := by
  intro s hs
  obtain ⟨s', run, fs, ok, cache, disk⟩ := fatSetEntryFrom_run c v g.numFats 0 s hs.ok hs.cache
  exact ⟨s', run, fs.trans hs.fs, by rw [ok]; exact hs.ok, cache, by rw [disk, hs.disk]⟩

theorem fatSetEntry_does {v : Nat} (hc : c < g.fatEntries) (small : v < 65536) :
    Does (Holds g) V (fatSetEntry g c v) 0 (V.setFat c v) :=
  Holds.of_cached _ (fun _ _ => fatSetEntry_cached c v) (fun _ => mirrored_copyPut hc v)
    fun d viewed => by rw [view_copyPut hc small, viewed]

end

end Osnos.Fat
