import Osnos.Vfs.Ramfs

/-! `vfs_copy` and `vfs_move` of `fs/vfs.c`, over any backends that keep what they are asked
to keep. Within one mount a move is the backend's rename; between two mounts it is one read,
one write and one unlink. -/
namespace Osnos.Vfs
open Mounts

abbrev VFS_COPY_BUF_SIZE : Nat := 1024

variable {β σ : Type} (B : Backends β σ) (t : Mounts β)

/-- `vfs_read_at`; `vfs_read` is the case `off = 0`. -/
def vfsReadAt (depth : Nat) (path : Path) (off size : Nat) (s : σ) : Option (Except Status Bytes) :=
  t.dispatch (fun f => B.read f off size s) .error depth path

def vfsWrite (depth : Nat) (path : Path) (data : Bytes) (s : σ) : Option (Status × σ) :=
  t.dispatch (fun f => B.write f data s) (fun e => (e, s)) depth path

def vfsUnlink (depth : Nat) (path : Path) (s : σ) : Option (Status × σ) :=
  t.dispatch (fun f => B.unlink f s) (fun e => (e, s)) depth path

/-- `vfs_copy`: one read into the static buffer, one write out of it. -/
def vfsCopy (depth : Nat) (src dst : Path) (s : σ) : Option (Status × σ) :=
  if checkPath src ≠ .ok then some (checkPath src, s)
  else if checkPath dst ≠ .ok then some (checkPath dst, s)
  else
    match vfsReadAt B t depth src 0 VFS_COPY_BUF_SIZE s with
    | none => none
    | some (.error e) => some (e, s)
    | some (.ok data) => vfsWrite B t depth dst data s

def copyUnlink (depth : Nat) (src dst : Path) (s : σ) : Option (Status × σ) :=
  match vfsCopy B t depth src dst s with
  | none => none
  | some (.ok, s₁) => vfsUnlink B t depth src s₁
  | some (e, s₁) => some (e, s₁)

/-- `vfs_move`. Every backend has a rename; that of an alias mount is a `vfs_move` again. -/
def vfsMove : Nat → Path → Path → σ → Option (Status × σ)
  | 0, _, _, _ => none
  | depth + 1, src, dst, s =>
    if checkPath src ≠ .ok then some (checkPath src, s)
    else if checkPath dst ≠ .ok then some (checkPath dst, s)
    else
      match t.findMount src, t.findMount dst with
      | some (i, m), some (j, _) =>
        if i = j then
          match m.ops with
          | .backend b => some (B.rename b src dst s)
          | .aliasfs a =>
            match a.translate src, a.translate dst with
            | some src', some dst' => vfsMove depth src' dst' s
            | _, _ => some (.enoent, s)
        else copyUnlink B t (depth + 1) src dst s
      | _, _ => some (.enoent, s)

def Holds (s : σ) (path : Path) (c : Bytes) : Prop :=
  ∃ f, t.Names path f ∧ B.node s f = some (.file c)

def Absent (s : σ) (path : Path) : Prop := ∀ f, t.Names path f → B.node s f = none

def SameFile (s : σ) (src dst : Path) : Prop :=
  ∃ f g, t.Names src f ∧ t.Names dst g ∧ B.same s f g

def Sole (s : σ) (path : Path) : Prop := ∃ f, t.Names path f ∧ B.sole s f
def Regular (s : σ) (path : Path) : Prop := ∃ f, t.Names path f ∧ B.regular s f
def Moved (s : σ) (src dst : Path) (c : Bytes) : Prop := Holds B t s dst c ∧ Absent B t s src

/-- The two paths name different files, the source once, and either one backend renames
or the file fits the copy buffer and is copied to a place that stores it. -/
def Movable (s : σ) (src dst : Path) (c : Bytes) : Prop :=
  ¬SameFile B t s src dst ∧ Sole B t s src ∧
    (t.Renames src dst ∨ c.length ≤ VFS_COPY_BUF_SIZE ∧ Regular B t s dst)

/-- The outcome of a call that had the file to move: a success has moved it exactly if it
was movable; a failure has left it alone, unless it was being copied onto itself. -/
structure Outcome (s : σ) (src dst : Path) (c : Bytes) (r : Status × σ) : Prop where
  done : r.1 = .ok → (Moved B t r.2 src dst c ↔ Movable B t s src dst c)
  kept : r.1 ≠ .ok → t.Renames src dst ∨ ¬SameFile B t s src dst → Holds B t r.2 src c

variable {B t} {s : σ} {src dst : Path} {c : Bytes}

section named

variable {f g : File β}

theorem holds_named (names : t.Names src f) : Holds B t s src c ↔ B.node s f = some (.file c) := by
  constructor
  · rintro ⟨f', names', held⟩
    rw [names.unique names']
    exact held
  · exact fun held => ⟨f, names, held⟩

theorem absent_named (names : t.Names src f) : Absent B t s src ↔ B.node s f = none := by
  constructor
  · exact fun absent => absent f names
  intro none f' names'
  rw [← names.unique names']
  exact none

theorem sole_named (names : t.Names src f) : Sole B t s src ↔ B.sole s f := by
  constructor
  · rintro ⟨f', names', sole⟩
    rw [names.unique names']
    exact sole
  · exact fun sole => ⟨f, names, sole⟩

theorem regular_named (names : t.Names src f) : Regular B t s src ↔ B.regular s f := by
  constructor
  · rintro ⟨f', names', regular⟩
    rw [names.unique names']
    exact regular
  · exact fun regular => ⟨f, names, regular⟩

theorem sameFile_named (source : t.Names src f) (target : t.Names dst g) :
    SameFile B t s src dst ↔ B.same s f g := by
  constructor
  · rintro ⟨f', g', source', target', same⟩
    rw [source.unique source', target.unique target']
    exact same
  · exact fun same => ⟨f, g, source, target, same⟩

end named

theorem Outcome.untouched (held : Holds B t s src c) {e : Status} (bad : e ≠ .ok) :
    Outcome B t s src dst c (e, s) :=
  ⟨fun ok => absurd ok bad, fun _ _ => held⟩

theorem Outcome.renamed {b : β} (source : t.Names src ⟨b, src⟩) (target : t.Names dst ⟨b, dst⟩)
    (renames : t.Renames src dst) (held : Holds B t s src c) :
    Outcome B t s src dst c (B.rename b src dst s) := by
  rw [holds_named source] at held
  constructor
  · intro ok
    obtain ⟨there, gone⟩ := B.rename_ok (Prod.ext ok rfl) held
    unfold Moved Movable
    rw [holds_named target, absent_named source, sameFile_named source target, sole_named source,
      gone]
    simp only [there, renames, true_or, and_true, true_and]
  · intro bad _
    rw [holds_named source, B.rename_fail (Prod.ext rfl rfl) bad]
    exact held

theorem Outcome.aliased {src' dst' : Path} {r : Status × σ}
    (source : ∀ f, t.Names src f ↔ t.Names src' f) (target : ∀ f, t.Names dst f ↔ t.Names dst' f)
    (renames : t.Renames src dst ↔ t.Renames src' dst') (inner : Outcome B t s src' dst' c r) :
    Outcome B t s src dst c r := by
  obtain ⟨done, kept⟩ := inner
  constructor
  · simpa only [Moved, Movable, Holds, Absent, SameFile, Sole, Regular, source, target, renames]
      using done
  · simpa only [Holds, SameFile, source, target, renames] using kept

/-- A copy that returns has failed before it wrote, or it has written the first part of
the file to where the target stands. -/
theorem vfsCopy_cases {depth : Nat} {f : File β} {r : Status × σ} (source : t.Names src f)
    (held : B.node s f = some (.file c)) (returned : vfsCopy B t depth src dst s = some r) :
    (∃ e, e ≠ .ok ∧ r = (e, s)) ∨
      ∃ g, t.Names dst g ∧ r = B.write g (c.take VFS_COPY_BUF_SIZE) s := by
  unfold vfsCopy at returned
  split at returned
  next bad =>
    exact absurd source.checked bad
  split at returned
  next bad =>
    cases returned
    exact .inl ⟨_, bad, rfl⟩
  split at returned
  · cases returned
  next e failed =>
    cases returned
    exact .inl ⟨e, B.read_fail (dispatch_named source failed).symm, rfl⟩
  rename_i data read
  have data_eq := B.read_ok held (dispatch_named source read).symm
  rw [List.drop_zero] at data_eq
  subst data_eq
  obtain ⟨g, target, eq⟩ | ⟨e, bad, eq, _⟩ := dispatch_cases returned
  · exact .inr ⟨g, target, eq⟩
  · exact .inl ⟨e, bad, eq⟩

/-- After the copy to another file, unlinking the source has moved the file if the copy is
all of it and the source had one entry. -/
theorem moved_copied {f g : File β} {s₁ s' : σ} (source : t.Names src f) (target : t.Names dst g)
    (held : B.node s f = some (.file c)) (other : ¬B.same s f g)
    (wrote : B.write g (c.take VFS_COPY_BUF_SIZE) s = (.ok, s₁))
    (unlinked : B.unlink f s₁ = (.ok, s')) :
    Moved B t s' src dst c ↔ B.sole s f ∧ c.length ≤ VFS_COPY_BUF_SIZE ∧ B.regular s g := by
  have other₁ : ¬B.same s₁ f g := by
    have same := B.write_same (g := g) held (c.take VFS_COPY_BUF_SIZE)
    rw [wrote] at same
    exact fun same₁ => other (same.1 same₁)
  have sole := B.write_sole held other (c.take VFS_COPY_BUF_SIZE)
  have there := B.unlink_other other₁
  rw [wrote] at sole
  rw [unlinked] at there
  unfold Moved
  rw [holds_named target, absent_named source, B.unlink_ok unlinked, sole, there, and_comm]
  refine and_congr_right fun _ => ?_
  by_cases regular : B.regular s g
  · rw [B.write_ok wrote regular]
    simp [regular]
  · simp [B.write_device wrote regular, regular]

theorem not_moved_onto_itself {f g : File β} {s₁ s' : σ} (source : t.Names src f)
    (target : t.Names dst g) (same : B.same s₁ f g) (unlinked : B.unlink f s₁ = (.ok, s')) :
    ¬Moved B t s' src dst c := by
  rintro ⟨there, gone⟩
  rw [holds_named target] at there
  rw [absent_named source, B.unlink_ok unlinked] at gone
  rw [B.unlink_same unlinked gone same] at there
  cases there

theorem Outcome.copied {depth : Nat} {r : Status × σ} (apart : ¬t.Renames src dst)
    (held : Holds B t s src c) (returned : copyUnlink B t depth src dst s = some r) :
    Outcome B t s src dst c r := by
  obtain ⟨f, source, node⟩ := held
  unfold copyUnlink at returned
  split at returned
  · cases returned
  next s₁ copied =>
    have unlinked := dispatch_named source returned
    obtain ⟨e, bad, eq⟩ | ⟨g, target, wrote⟩ := vfsCopy_cases source node copied
    · exact absurd (congrArg Prod.fst eq).symm bad
    have same := B.write_same (g := g) node (c.take VFS_COPY_BUF_SIZE)
    have kept := fun other => B.write_other (g := g) node other (c.take VFS_COPY_BUF_SIZE)
    rw [← wrote] at same kept
    constructor
    · intro ok
      have unlinked' : B.unlink f s₁ = (.ok, r.2) := unlinked.symm.trans (Prod.ext ok rfl)
      unfold Movable
      rw [sameFile_named source target, sole_named source, regular_named target]
      by_cases onto : B.same s f g
      · simp only [onto, not_true_eq_false, false_and, iff_false]
        exact not_moved_onto_itself source target (same.2 onto) unlinked'
      · rw [moved_copied source target node onto wrote.symm unlinked']
        simp only [onto, apart, not_false_eq_true, true_and, false_or]
    · intro bad other
      rw [sameFile_named source target] at other
      rw [holds_named source, B.unlink_fail unlinked.symm bad]
      exact kept (other.resolve_left apart)
  next e s₁ failed copied =>
    cases returned
    obtain ⟨e', bad, eq⟩ | ⟨g, target, wrote⟩ := vfsCopy_cases source node copied
    · rw [eq]
      exact .untouched ⟨f, source, node⟩ bad
    refine ⟨fun ok => absurd ok failed, fun _ other => ?_⟩
    rw [sameFile_named source target] at other
    rw [holds_named source, wrote]
    exact B.write_other node (other.resolve_left apart) _

theorem renames_aliased {i : Fin VFS_MAX_MOUNTS} {m : Mount β} {a : Alias} {src' dst' : Path}
    (source : t.findMount src = some (i, m)) (target : t.findMount dst = some (i, m))
    (ops : m.ops = .aliasfs a) (here : a.translate src = some src')
    (there : a.translate dst = some dst') : t.Renames src dst ↔ t.Renames src' dst' := by
  constructor
  · intro renames
    cases renames with
    | backend source' _ ops' =>
      rw [source] at source'
      cases source'
      rw [ops] at ops'
      cases ops'
    | aliased source' _ ops' here' there' rest =>
      rw [source] at source'
      cases source'
      rw [ops] at ops'
      cases ops'
      rw [here] at here'
      cases here'
      rw [there] at there'
      cases there'
      exact rest
  · exact fun rest => .aliased source target ops here there rest

theorem not_renames {i j : Fin VFS_MAX_MOUNTS} {m m' : Mount β}
    (source : t.findMount src = some (i, m)) (target : t.findMount dst = some (j, m'))
    (apart : i ≠ j) : ¬t.Renames src dst := by
  have slots : t.Renames src dst → i = j := by
    intro renames
    cases renames with
    | backend source' target' | aliased source' target' =>
      rw [source] at source'
      rw [target] at target'
      cases source'
      cases target'
      rfl
  exact fun renames => apart (slots renames)

/-- Every call of `vfs_move` on a regular file, whatever the mounts its two paths take. -/
theorem outcome_vfsMove {depth : Nat} {r : Status × σ} (held : Holds B t s src c)
    (returned : vfsMove B t depth src dst s = some r) : Outcome B t s src dst c r := by
  -- each round of the induction passes one alias mount shared by the two paths
  induction depth generalizing src dst with
  | zero => cases returned
  | succ depth ih =>
    obtain ⟨f, names, node⟩ := held
    have held : Holds B t s src c := ⟨f, names, node⟩
    unfold vfsMove at returned
    rw [if_neg (not_not.2 names.checked)] at returned
    split at returned
    next bad =>
      cases returned
      exact .untouched held bad
    rename_i good
    have checked := not_not.1 good
    obtain ⟨i, m, source⟩ := names.found
    rw [source] at returned
    cases target : t.findMount dst with
    | none =>
      rw [target] at returned
      cases returned
      exact .untouched held (by decide)
    | some found =>
      obtain ⟨j, m'⟩ := found
      rw [target] at returned
      dsimp only at returned
      split at returned
      next slot =>
        subst slot
        obtain rfl := findMount_slot source target
        split at returned
        next b ops =>
          cases returned
          exact .renamed (.backend names.checked source ops) (.backend checked target ops)
            (.backend source target ops) held
        next a ops =>
          obtain ⟨src', here, names'⟩ := names_aliased source ops names
          rw [here] at returned
          cases there : a.translate dst with
          | none =>
            rw [there] at returned
            cases returned
            exact .untouched held (by decide)
          | some =>
            rw [there] at returned
            exact .aliased (names_aliased_iff names.checked source ops here)
              (names_aliased_iff checked target ops there)
              (renames_aliased source target ops here there) (ih ⟨f, names', node⟩ returned)
      next apart =>
        exact .copied (not_renames source target apart) held returned

/-- `/` and `/tmp`, the two mounts of the RAM file system that the boot makes, and an alias
to a directory below `/`. -/
def ramMounts : Mounts Unit
  | 0 => some ⟨['/'], .backend ()⟩
  | 4 => some ⟨['/', 't', 'm', 'p'], .backend ()⟩
  | 5 => some ⟨['/', 'h', 'o'], .aliasfs ⟨['/', 'h', 'o'], ['/', 's', 'd', '/', 'h', 'o']⟩⟩
  | _ => none

def oneFile (path : Path) (c : Bytes) : Ramfs.Files
  | 0 => some ⟨path, .file c⟩
  | _ => none

def tmpF : Path := ['/', 't', 'm', 'p', '/', 'f']
def rootF : Path := ['/', 'f']
def aliasF : Path := ['/', 'h', 'o', '/', 'f']
def targetF : Path := ['/', 's', 'd', '/', 'h', 'o', '/', 'f']

theorem names_tmpF : ramMounts.Names tmpF ⟨(), tmpF⟩ := .backend rfl rfl rfl

theorem names_rootF : ramMounts.Names rootF ⟨(), rootF⟩ := .backend rfl rfl rfl

theorem names_targetF : ramMounts.Names targetF ⟨(), targetF⟩ := .backend rfl rfl rfl

theorem names_aliasF : ramMounts.Names aliasF ⟨(), targetF⟩ :=
  .aliased rfl rfl rfl rfl names_targetF

end Osnos.Vfs
