import Osnos.Vfs.Mount

/-! `vfs_ops_t` of `fs/vfs.h`, as far as reading, writing, unlinking and renaming regular
files goes, with the behaviour the layer above counts on. -/
namespace Osnos.Vfs

abbrev Bytes := List UInt8

inductive Node
  | dir
  | file (data : Bytes)
deriving DecidableEq

inductive NodeType
  | reg
  | dir
  | chr
deriving DecidableEq

/-- `vfs_stat_t`, as far as the calls on an open file read it. -/
structure Stat where
  type : NodeType
  size : Nat

/-- The operations of the backends behind the mounts, and what a mount may rely on.
`same` relates two names of one file; `sole` says that a file's name is held by one entry;
`regular` that a write there makes a regular file, as it does not on a device. The FAT driver
does not give all of it: its rename can store a name that no lookup finds, and an unlink that
fails may have freed the clusters. -/
structure Backends (β σ : Type) where
  read : File β → Nat → Nat → σ → Except Status Bytes
  write : File β → Bytes → σ → Status × σ
  unlink : File β → σ → Status × σ
  rename : β → Path → Path → σ → Status × σ
  node : σ → File β → Option Node
  same : σ → File β → File β → Prop
  sole : σ → File β → Prop
  regular : σ → File β → Prop
  read_ok : ∀ {s f off size data c}, node s f = some (.file c) → read f off size s = .ok data →
    data = (c.drop off).take size
  read_fail : ∀ {s f off size e}, read f off size s = .error e → e ≠ .ok
  write_ok : ∀ {s s' f data}, write f data s = (.ok, s') → regular s f →
    node s' f = some (.file data)
  write_device : ∀ {s s' f data}, write f data s = (.ok, s') → ¬regular s f →
    ∀ c, node s' f ≠ some (.file c)
  write_other : ∀ {s f g c}, node s f = some (.file c) → ¬same s f g → ∀ data,
    node (write g data s).2 f = some (.file c)
  write_same : ∀ {s f g c}, node s f = some (.file c) → ∀ data,
    (same (write g data s).2 f g ↔ same s f g)
  write_sole : ∀ {s f g c}, node s f = some (.file c) → ¬same s f g → ∀ data,
    (sole (write g data s).2 f ↔ sole s f)
  unlink_ok : ∀ {s s' f}, unlink f s = (.ok, s') → (node s' f = none ↔ sole s f)
  unlink_same : ∀ {s s' f g}, unlink f s = (.ok, s') → sole s f → same s f g → node s' g = none
  unlink_other : ∀ {s f g}, ¬same s f g → node (unlink f s).2 g = node s g
  unlink_fail : ∀ {s s' f e}, unlink f s = (e, s') → e ≠ .ok → node s' f = node s f
  rename_ok : ∀ {s s' b src dst c}, rename b src dst s = (.ok, s') →
    node s ⟨b, src⟩ = some (.file c) → node s' ⟨b, dst⟩ = some (.file c) ∧
      (node s' ⟨b, src⟩ = none ↔ ¬same s ⟨b, src⟩ ⟨b, dst⟩ ∧ sole s ⟨b, src⟩)
  rename_fail : ∀ {s s' b src dst e}, rename b src dst s = (e, s') → e ≠ .ok →
    node s' ⟨b, src⟩ = node s ⟨b, src⟩

end Osnos.Vfs
