import Osnos.Fat.Mount

/-! The sector cache under reads, updates and allocations in any order. -/
namespace Osnos.Fat
open Prog

inductive FatOp
  | read (c : Nat)
  | update (c v : Nat)
  | alloc

namespace FatOp

def exec (g : Geometry) : FatOp → Driver Unit
  | read c => fatGetEntry g c >>= fun _ => pure ()
  | update c v => fatSetEntry g c v >>= fun _ => pure ()
  | alloc => fatAllocCluster g >>= fun _ => pure ()

def Covered (g : Geometry) : FatOp → Prop
  | read c | update c _ => c < g.fatEntries
  | alloc => True

end FatOp

variable {g : Geometry} {d : Nat → Sector} {s s' : State} {ops : List FatOp}

theorem FatOp.exec_does {op : FatOp} (covered : op.Covered g) :
    ∃ d', Does (Cached g) d (op.exec g) () d' ∧ (Mirrored g d → Mirrored g d') := by
  cases op with
  | read c => exact ⟨d, (fatGetEntry_cached covered).bind (.pure ()), id⟩
  | update c v => exact ⟨_, (fatSetEntry_cached c v).bind (.pure ()), mirrored_copyPut covered v⟩
  | alloc => exact ⟨_, fatAllocCluster_cached.bind (.pure ()), (claimed_keeps first_free_covered).1⟩

theorem Cached.run (start : Cached g s.disk s)
    (runs : Runs (FatOp.exec g) (fun _ op => op.Covered g) s ops s') :
    Cached g s'.disk s' ∧ (Mirrored g s.disk → Mirrored g s'.disk) := by
  induction runs with
  | nil => exact ⟨start, id⟩
  | cons covered run _ ih =>
    obtain ⟨d', does, keeps⟩ := FatOp.exec_does covered
    obtain ⟨_, cached⟩ := does.result start run
    obtain rfl := cached.disk
    obtain ⟨cached, equal⟩ := ih cached
    exact ⟨cached, equal ∘ keeps⟩

/-- After any run a read gives the entry of the first copy, an update puts its value into
every copy, and copies that were equal are equal. -/
theorem fat_cache_coherent (start : Cached g s.disk s)
    (runs : Runs (FatOp.exec g) (fun _ op => op.Covered g) s ops s') :
    (Mirrored g s.disk → Mirrored g s'.disk) ∧ ∀ c < g.fatEntries,
      (∃ t, fatGetEntry g c s' = some
        (some (rd16 (s'.disk (g.fatLba + c * 2 / 512)) (c * 2 % 512)), t) ∧ t.disk = s'.disk) ∧
      ∀ v, ∃ t, fatSetEntry g c v s' = some (0, t) ∧
        (∀ k < g.numFats,
          t.disk (fatSec g k c) = put16 (s'.disk (fatSec g k c)) (c * 2 % 512) v) ∧
        ∀ l, (∀ k < g.numFats, l ≠ fatSec g k c) → t.disk l = s'.disk l := by
  have kept := start.run runs
  refine ⟨kept.2, fun c covered => ⟨?_, fun v => ?_⟩⟩
  · obtain ⟨t, run, cached⟩ := fatGetEntry_cached covered s' kept.1
    rw [view_fat covered] at run
    exact ⟨t, run, cached.disk⟩
  · obtain ⟨t, run, cached⟩ := fatSetEntry_cached c v s' kept.1
    refine ⟨t, run, fun k few => ?_, fun l other => ?_⟩
    · rw [cached.disk, copyPut_hit covered v _ _ _ k.zero_le (by omega)]
    · rw [cached.disk, copyPut_miss v _ _ _ fun k _ few => other k (by omega)]

/-- Two entries of one sector are changed after it has been read, and the first is read back. -/
theorem fat_cache_coherent_small : ∃ s' t,
    Runs (FatOp.exec smallGeometry) (fun _ op => op.Covered smallGeometry)
      (mount smallGeometry smallVol) [.read 2, .update 2 3, .update 3 0xFFFF] s' ∧
    fatGetEntry smallGeometry 2 s' = some (some 3, t) := by
  have holds := mount_holds small_normal
  have start : Cached smallGeometry _ _ := ⟨holds.fs, holds.ok, holds.cache, rfl⟩
  have value : ((FatOp.exec smallGeometry (.read 2) (mount smallGeometry smallVol)).bind fun a =>
      (FatOp.exec smallGeometry (.update 2 3) a.2).bind fun b =>
        (FatOp.exec smallGeometry (.update 3 0xFFFF) b.2).map fun c => rd16 (c.2.disk 1) 4) = some 3 := by
    decide +kernel
  simp only [Option.bind_eq_some_iff, Option.map_eq_some_iff] at value
  obtain ⟨a, read, b, first, c, second, now⟩ := value
  have runs : Runs (FatOp.exec smallGeometry) (fun _ op => op.Covered smallGeometry)
      (mount smallGeometry smallVol) [.read 2, .update 2 3, .update 3 0xFFFF] c.2 :=
    .cons (show 2 < _ by decide) read (.cons (show 2 < _ by decide) first
      (.cons (show 3 < _ by decide) second (.nil c.2)))
  obtain ⟨⟨t, got, _⟩, _⟩ := (fat_cache_coherent start runs).2 2 (by decide)
  exact ⟨c.2, t, runs, got.trans (congrArg (fun v => some (some v, t)) now)⟩

end Osnos.Fat
