import Osnos.Vfs.Backend

/-! `fs/ramfs.c` behind `fs/ramfs_vfs.c`: a flat array of slots, each with a full path. The
names of two slots can agree: renaming a directory renames what is below it, and a file may
already stand under the new name. -/
namespace Osnos.Ramfs
open Osnos.Vfs Function List Option

abbrev RAMFS_MAX_FILES : Nat := 32
abbrev RAMFS_NAME_SIZE : Nat := OSNOS_PATH_MAX
abbrev RAMFS_DATA_SIZE : Nat := 128 * 1024

/-- `ramfs_file_t` with `used` set; a file's data is its first `size` bytes. -/
structure Slot where
  name : Path
  node : Node
deriving DecidableEq

/-- `files`; `none` is a slot with `used = false`. -/
abbrev Files := Fin RAMFS_MAX_FILES → Option Slot

variable {files' : Files} {data : Bytes} {slot : Option Slot}

namespace Files

variable (files : Files)

def named (name : Path) (i : Fin RAMFS_MAX_FILES) : Bool :=
  (files i).any fun slot => decide (slot.name = name)

def namedFile (name : Path) (i : Fin RAMFS_MAX_FILES) : Bool :=
  (files i).any fun slot => decide (slot.name = name) && decide (slot.node ≠ .dir)

def find (name : Path) : Option (Fin RAMFS_MAX_FILES) :=
  (List.finRange RAMFS_MAX_FILES).find? (files.named name)

def findFile (name : Path) : Option (Fin RAMFS_MAX_FILES) :=
  (List.finRange RAMFS_MAX_FILES).find? (files.namedFile name)

def findFreeSlot : Option (Fin RAMFS_MAX_FILES) :=
  (List.finRange RAMFS_MAX_FILES).find? fun i => (files i).isNone

/-- `ramfs_create_file` with no data; `none` is a refusal. -/
def createFile (name : Path) : Option Files :=
  if (files.find name).isSome then none
  else if RAMFS_NAME_SIZE < name.length + 1 then none
  else files.findFreeSlot.map fun i => update files i (some ⟨name, .file []⟩)

def overwrite (name : Path) (data : Bytes) : Option Files :=
  (files.findFile name).map fun i => update files i (some ⟨name, .file data⟩)

/-- `ramfs_write_file_bin`: a file that is not there is created first. -/
def writeFileBin (name : Path) (data : Bytes) : Option Files :=
  if RAMFS_DATA_SIZE < data.length + 1 then none
  else
    match files.overwrite name data with
    | some files' => some files'
    | none => (files.createFile name).bind fun files' => files'.overwrite name data

def extend (name : Path) (data : Bytes) : Option Files :=
  (files.findFile name).bind fun i =>
    match files i with
    | some ⟨_, .file old⟩ =>
      if RAMFS_DATA_SIZE < old.length + data.length + 1 then none
      else some (update files i (some ⟨name, .file (old ++ data)⟩))
    | _ => none

/-- `ramfs_append_file_bin`: a file that is not there is created first, and stays if the data
are too long. -/
def appendFileBin (name : Path) (data : Bytes) : Bool × Files :=
  let append (files : Files) := ((files.extend name data).map (true, ·)).getD (false, files)
  match files.findFile name with
  | some _ => append files
  | none => (files.createFile name).elim (false, files) append

def deleteFile (name : Path) : Option Files :=
  (files.findFile name).map fun i => update files i none

def pathIsChildOf (child parent : Path) : Bool :=
  parent.isPrefixOf child && (child.drop parent.length).head? == some '/'

def moveChildren (src dst : Path) : Option Files :=
  if ∃ i, (files i).any fun slot => pathIsChildOf slot.name src &&
      decide (RAMFS_NAME_SIZE < dst.length + (slot.name.length - src.length) + 1) then none
  else some fun i => (files i).map fun slot =>
    if pathIsChildOf slot.name src then { slot with name := dst ++ slot.name.drop src.length }
    else slot

def move (src dst : Path) : Option Files :=
  if src = dst then none
  else if (files.find dst).isSome then none
  else if RAMFS_NAME_SIZE < dst.length + 1 then none
  else
    match files.find src with
    | none => none
    | some i =>
      match files i with
      | none => none
      | some slot =>
        (if slot.node = .dir then files.moveChildren src dst else some files).map fun files' =>
          update files' i (some { slot with name := dst })

def node (name : Path) : Option Node := (files.find name).bind fun i => (files i).map Slot.node

def vfsStat (path : Path) : Except Status Stat :=
  if path = ['/'] then .ok ⟨.dir, 0⟩
  else
    match files.node path with
    | none => .error .enoent
    | some .dir => .ok ⟨.dir, 0⟩
    | some (.file data) => .ok ⟨.reg, data.length⟩

def vfsRead (path : Path) (off size : Nat) : Except Status Bytes :=
  match files.node path with
  | none => .error .enoent
  | some .dir => .error .eisdir
  | some (.file data) => if data.length ≤ off then .ok [] else .ok ((data.drop off).take size)

def vfsWrite (path : Path) (data : Bytes) : Status × Files :=
  match files.writeFileBin path data with
  | none => (.enospc, files)
  | some files' => (.ok, files')

def vfsAppend (path : Path) (data : Bytes) : Status × Files :=
  let (done, files') := files.appendFileBin path data
  (if done then .ok else .enospc, files')

def vfsUnlink (path : Path) : Status × Files :=
  match files.node path with
  | none => (.enoent, files)
  | some .dir => (.eisdir, files)
  | some (.file _) =>
    match files.deleteFile path with
    | none => (.eio, files)
    | some files' => (.ok, files')

def vfsRename (src dst : Path) : Status × Files :=
  if (files.find src).isNone then (.enoent, files)
  else if (files.find dst).isSome then (.eexist, files)
  else
    match files.move src dst with
    | none => (.enametoolong, files)
    | some files' => (.ok, files')

def Sole (name : Path) : Prop := ∀ i j, files.named name i = true → files.named name j = true → i = j

variable {files} {name other : Path} {i : Fin RAMFS_MAX_FILES}

theorem named_iff : files.named name i ↔ ∃ slot, files i = some slot ∧ slot.name = name := by
  unfold named
  cases files i <;> simp

theorem find_eq_none : files.find name = none ↔ ∀ i, files.named name i = false := by
  unfold find
  simp [find?_eq_none]

theorem find_some (found : files.find name = some i) :
    ∃ slot, files i = some slot ∧ slot.name = name :=
  named_iff.1 (find?_some found)

theorem node_of_find {slot : Slot} (found : files.find name = some i) (here : files i = some slot) :
    files.node name = some slot.node := by
  unfold node
  rw [found, bind_some, here]
  rfl

theorem node_eq_none : files.node name = none ↔ ∀ i, files.named name i = false := by
  rw [← find_eq_none]
  constructor
  · intro absent
    cases found : files.find name with
    | none => rfl
    | some =>
      obtain ⟨_, here, _⟩ := find_some found
      rw [node_of_find found here] at absent
      cases absent
  · intro absent
    unfold node
    rw [absent]
    rfl

theorem node_some {n : Node} (there : files.node name = some n) :
    ∃ i, files.find name = some i ∧ files i = some ⟨name, n⟩ := by
  cases found : files.find name with
  | none =>
    rw [node_eq_none.2 (find_eq_none.1 found)] at there
    cases there
  | some i =>
    obtain ⟨_, here, rfl⟩ := find_some found
    rw [node_of_find found here] at there
    cases there
    exact ⟨i, rfl, here⟩

theorem findFile_of_find (found : files.find name = some i)
    (here : files i = some ⟨name, .file data⟩) : files.findFile name = some i := by
  unfold find at found
  unfold findFile
  rw [find?_eq_some_iff_append] at found ⊢
  obtain ⟨_, before, after, split, first⟩ := found
  refine ⟨by simp [namedFile, here], before, after, split, fun j member => ?_⟩
  have unnamed := first j member
  unfold named at unnamed
  unfold namedFile
  cases used : files j with
  | none => rfl
  | some slot =>
    rw [used] at unnamed
    simp_all

theorem named_update (was : files.named other i = false)
    (becomes : slot.any (fun slot => decide (slot.name = other)) = false) :
    Files.named (update files i slot) other = files.named other := by
  funext j
  by_cases here : j = i
  · subst here
    rw [was]
    unfold named
    rw [update_self]
    exact becomes
  · unfold named
    rw [update_of_ne here]

theorem named_renew {n : Node} (was : files.named name i) (other : Path) :
    Files.named (update files i (some ⟨name, n⟩)) other = files.named other := by
  obtain ⟨_, here, rfl⟩ := named_iff.1 was
  funext j
  by_cases at_i : j = i
  · subst at_i
    simp [named, here]
  · unfold named
    rw [update_of_ne at_i]

theorem node_congr (names : files'.named other = files.named other)
    (slots : ∀ i, files.named other i → files' i = files i) :
    files'.node other = files.node other := by
  have scan : files'.find other = files.find other := by
    unfold find
    rw [names]
  unfold node
  rw [scan]
  cases found : files.find other with
  | none => rfl
  | some i => rw [bind_some, bind_some, slots i (find?_some found)]

theorem sole_congr (names : files'.named other = files.named other) :
    files'.Sole other ↔ files.Sole other := by
  unfold Sole
  rw [names]

theorem node_update (was : files.named other i = false)
    (becomes : slot.any (fun slot => decide (slot.name = other)) = false) :
    Files.node (update files i slot) other = files.node other := by
  refine node_congr (named_update was becomes) fun j here => update_of_ne ?_ _ _
  rintro rfl
  rw [was] at here
  cases here

theorem findFile_some (found : files.findFile name = some i) :
    ∃ data, files i = some ⟨name, .file data⟩ := by
  have here := find?_some found
  unfold namedFile at here
  cases used : files i with
  | none => rw [used] at here; cases here
  | some slot =>
    obtain ⟨name', node⟩ := slot
    cases node <;> simp_all

theorem findFile_unique (here : files.namedFile name i)
    (only : ∀ j, files.named name j → j = i) : files.findFile name = some i := by
  unfold findFile
  cases found : (finRange RAMFS_MAX_FILES).find? (files.namedFile name) with
  | none => simp [List.find?_eq_none.1 found i (mem_finRange i)] at here
  | some j =>
    obtain ⟨_, slot⟩ := findFile_some found
    rw [only j (named_iff.2 ⟨_, slot, rfl⟩)]

/-- A write that succeeds changes one slot: the first file of the name, or, where nothing
stands under the name, a free one. -/
theorem writeFileBin_some (wrote : files.writeFileBin name data = some files') :
    ∃ i, files' = update files i (some ⟨name, .file data⟩) ∧
      (files.findFile name = some i ∨ files i = none ∧ files.find name = none) := by
  unfold writeFileBin at wrote
  split at wrote
  · cases wrote
  split at wrote
  next done =>
    cases wrote
    obtain ⟨i, found, rfl⟩ := Option.map_eq_some_iff.1 done
    exact ⟨i, rfl, .inl found⟩
  obtain ⟨created, create, done⟩ := Option.bind_eq_some_iff.1 wrote
  unfold createFile at create
  split at create
  · cases create
  rename_i fresh
  have absent : files.find name = none := by simpa using fresh
  split at create
  · cases create
  obtain ⟨i, free, rfl⟩ := Option.map_eq_some_iff.1 create
  have unused : files i = none := by simpa using find?_some free
  -- the slot just created is the only one of its name, so the second scan stops there
  have again : Files.findFile (update files i (some ⟨name, .file []⟩)) name = some i := by
    refine findFile_unique (by simp [namedFile]) fun j here => ?_
    by_contra elsewhere
    unfold named at here
    rw [update_of_ne elsewhere] at here
    exact absurd here (by simpa [named] using find_eq_none.1 absent j)
  unfold overwrite at done
  rw [again] at done
  cases done
  exact ⟨i, by simp, .inr ⟨unused, absent⟩⟩

theorem node_fresh {n : Node} (absent : files.find name = none) :
    Files.node (update files i (some ⟨name, n⟩)) name = some n := by
  have only : ∀ j, Files.named (update files i (some ⟨name, n⟩)) name j ↔ j = i := by
    intro j
    by_cases here : j = i
    · subst here
      simp [named]
    have unnamed := find_eq_none.1 absent j
    unfold named at unnamed ⊢
    rw [update_of_ne here, unnamed]
    simp [here]
  cases found : Files.find (update files i (some ⟨name, n⟩)) name with
  | none =>
    have := find_eq_none.1 found i
    rw [(only i).2 rfl] at this
    cases this
  | some j =>
    obtain rfl := (only j).1 (find?_some found)
    rw [node_of_find found (update_self ..)]

theorem findFile_of_node {old : Bytes} (there : files.node name = some (.file old)) :
    ∃ i, files.findFile name = some i ∧ files i = some ⟨name, .file old⟩ := by
  obtain ⟨i, found, here⟩ := node_some there
  exact ⟨i, findFile_of_find found here, here⟩

theorem node_renew {old : Bytes} (there : files.node name = some (.file old))
    (found : files.findFile name = some i) :
    Files.node (update files i (some ⟨name, .file data⟩)) name = some (.file data) := by
  obtain ⟨j, first, slot⟩ := node_some there
  have same := findFile_of_find first slot
  rw [found] at same
  cases same
  have scan : Files.find (update files i (some ⟨name, .file data⟩)) name = files.find name := by
    unfold find
    rw [named_renew (named_iff.2 ⟨_, slot, rfl⟩)]
  exact node_of_find (scan.trans first) (update_self ..)

theorem node_write (wrote : files.writeFileBin name data = some files') :
    files'.node name = if files.node name = some .dir then some .dir else some (.file data) := by
  obtain ⟨i, rfl, found | ⟨_, absent⟩⟩ := writeFileBin_some wrote
  · obtain ⟨_, here⟩ := findFile_some found
    have was : files.named name i := named_iff.2 ⟨_, here, rfl⟩
    have scan : Files.find (update files i (some ⟨name, .file data⟩)) name = files.find name := by
      unfold find
      rw [named_renew was]
    cases there : files.node name with
    | none => simp [node_eq_none.1 there i] at was
    | some n =>
      obtain ⟨j, first, slot⟩ := node_some there
      cases n with
      | dir =>
        -- the name's first slot is a directory: a later file of the name took the data
        have apart : j ≠ i := by
          rintro rfl
          rw [here] at slot
          cases slot
        rw [node_of_find (scan.trans first) (by rw [update_of_ne apart, slot])]
        rfl
      | file =>
        rw [node_renew there found]
        rfl
  · rw [node_fresh absent, if_neg]
    simp [node_eq_none.2 (find_eq_none.1 absent)]

theorem node_append {old : Bytes} (there : files.node name = some (.file old)) :
    files.appendFileBin name data = (false, files) ∨
      ∃ files', files.appendFileBin name data = (true, files') ∧
        files'.node name = some (.file (old ++ data)) ∧ (old ++ data).length < RAMFS_DATA_SIZE := by
  obtain ⟨i, found, here⟩ := findFile_of_node there
  simp only [appendFileBin, extend, found, bind_some, here]
  split
  · exact .inl rfl
  next room =>
    exact .inr ⟨_, rfl, node_renew there found, by rw [length_append]; omega⟩

theorem named_write (apart : other ≠ name) (wrote : files.writeFileBin name data = some files') :
    files'.named other = files.named other ∧ files'.node other = files.node other := by
  obtain ⟨i, rfl, cause⟩ := writeFileBin_some wrote
  have was : files.named other i = false := by
    obtain found | ⟨unused, _⟩ := cause
    · obtain ⟨_, here⟩ := findFile_some found
      simp [named, here, apart.symm]
    · simp [named, unused]
  have becomes : (some (Slot.mk name (.file data))).any (fun slot => decide (slot.name = other))
      = false := by
    simp [apart.symm]
  exact ⟨named_update was becomes, node_update was becomes⟩

theorem node_released (was : files.named name i)
    (becomes : slot.any (fun slot => decide (slot.name = name)) = false) :
    Files.node (update files i slot) name = none ↔ files.Sole name := by
  rw [node_eq_none]
  constructor
  · intro absent j k first second
    have at_i : ∀ j, files.named name j → j = i := by
      intro j here
      by_contra elsewhere
      have unnamed := absent j
      unfold named at unnamed here
      rw [update_of_ne elsewhere, here] at unnamed
      cases unnamed
    rw [at_i j first, at_i k second]
  intro sole j
  by_cases here : j = i
  · subst here
    unfold named
    rw [update_self]
    exact becomes
  rw [← Bool.not_eq_true]
  intro named'
  unfold named at named'
  rw [update_of_ne here] at named'
  exact here (sole j i named' was)

theorem vfsUnlink_ok (unlinked : files.vfsUnlink name = (.ok, files')) :
    ∃ i, files.named name i ∧ files' = update files i none := by
  unfold vfsUnlink at unlinked
  split at unlinked
  · cases unlinked
  · cases unlinked
  rename_i data there
  obtain ⟨i, found, here⟩ := node_some there
  unfold deleteFile at unlinked
  rw [findFile_of_find found here] at unlinked
  cases unlinked
  exact ⟨i, find?_some found, rfl⟩

theorem vfsUnlink_fail {e : Status} (unlinked : files.vfsUnlink name = (e, files'))
    (failed : e ≠ .ok) : files' = files := by
  unfold vfsUnlink at unlinked
  split at unlinked
  · cases unlinked; rfl
  · cases unlinked; rfl
  split at unlinked
  · cases unlinked; rfl
  · cases unlinked
    exact absurd rfl failed

theorem node_unlink (apart : other ≠ name) :
    (files.vfsUnlink name).2.node other = files.node other := by
  cases result : files.vfsUnlink name with
  | mk e files' =>
    by_cases ok : e = .ok
    · subst ok
      obtain ⟨i, was, rfl⟩ := vfsUnlink_ok result
      obtain ⟨_, here, rfl⟩ := named_iff.1 was
      exact node_update (by simp [named, here, apart.symm]) rfl
    · rw [vfsUnlink_fail result ok]

theorem vfsRename_ok {src dst : Path} (renamed : files.vfsRename src dst = (.ok, files'))
    (held : files.node src = some (.file data)) :
    ∃ i, files.named src i ∧ files.find dst = none ∧ src ≠ dst ∧
      files' = update files i (some ⟨dst, .file data⟩) := by
  obtain ⟨i, found, here⟩ := node_some held
  unfold vfsRename move at renamed
  rw [found] at renamed
  rw [if_neg (by simp)] at renamed
  split at renamed
  · cases renamed
  rename_i fresh
  have absent : files.find dst = none := by simpa using fresh
  have apart : src ≠ dst := by
    rintro rfl
    rw [found] at absent
    cases absent
  rw [if_neg apart] at renamed
  split at renamed
  · cases renamed
  rename_i moved
  cases renamed
  split at moved
  · cases moved
  dsimp only at moved
  rw [here] at moved
  cases moved
  exact ⟨i, find?_some found, absent, apart, rfl⟩

theorem vfsRename_fail {src dst : Path} {e : Status}
    (renamed : files.vfsRename src dst = (e, files')) (failed : e ≠ .ok) : files' = files := by
  unfold vfsRename at renamed
  split at renamed
  · cases renamed; rfl
  split at renamed
  · cases renamed; rfl
  split at renamed
  · cases renamed; rfl
  · cases renamed
    exact absurd rfl failed

theorem vfsWrite_ok (wrote : files.vfsWrite name data = (.ok, files')) :
    files.writeFileBin name data = some files' := by
  unfold vfsWrite at wrote
  split at wrote
  · cases wrote
  rename_i done
  cases wrote
  exact done

theorem vfsWrite_other (apart : other ≠ name) (data : Bytes) :
    (files.vfsWrite name data).2.named other = files.named other ∧
      (files.vfsWrite name data).2.node other = files.node other := by
  unfold vfsWrite
  split
  · exact ⟨rfl, rfl⟩
  next wrote =>
    exact named_write apart wrote

end Files

/-- Every mount of the RAM file system shares the one array of slots. -/
def backends : Backends Unit Files where
  read f off size files := files.vfsRead f.path off size
  write f data files := files.vfsWrite f.path data
  unlink f files := files.vfsUnlink f.path
  rename _ src dst files := files.vfsRename src dst
  node files f := files.node f.path
  same _ f g := f.path = g.path
  sole files f := files.Sole f.path
  regular files f := files.node f.path ≠ some .dir
  read_ok := by
    intro files f off size data c held read
    unfold Files.vfsRead at read
    rw [held] at read
    dsimp only at read
    split at read
    · rename_i beyond
      cases read
      rw [List.drop_eq_nil_of_le beyond, List.take_nil]
    · cases read
      rfl
  read_fail := by
    intro files f off size e read
    unfold Files.vfsRead at read
    split at read
    · cases read; nofun
    · cases read; nofun
    · split at read <;> cases read
  write_ok := by
    intro files files' f data wrote regular
    rw [Files.node_write (Files.vfsWrite_ok wrote), if_neg regular]
  write_device := by
    intro files files' f data wrote device c
    rw [Files.node_write (Files.vfsWrite_ok wrote), if_pos (not_not.mp device)]
    nofun
  write_other := fun held apart data => (Files.vfsWrite_other apart data).2.trans held
  write_same := fun _ _ => Iff.rfl
  write_sole := fun _ apart data => Files.sole_congr (Files.vfsWrite_other apart data).1
  unlink_ok := by
    intro files files' f unlinked
    obtain ⟨i, was, rfl⟩ := Files.vfsUnlink_ok unlinked
    exact Files.node_released was rfl
  unlink_same := by
    intro files files' f g unlinked sole same
    obtain ⟨i, was, rfl⟩ := Files.vfsUnlink_ok unlinked
    rw [← same]
    exact (Files.node_released was rfl).mpr sole
  unlink_other := fun apart => Files.node_unlink (Ne.symm apart)
  unlink_fail := by
    intro files files' f e unlinked failed
    rw [Files.vfsUnlink_fail unlinked failed]
  rename_ok := by
    intro files files' b src dst c renamed held
    obtain ⟨i, was, absent, apart, rfl⟩ := Files.vfsRename_ok renamed held
    refine ⟨Files.node_fresh absent, ?_⟩
    rw [Files.node_released was (by simp [apart.symm])]
    exact ⟨fun sole => ⟨apart, sole⟩, fun both => both.2⟩
  rename_fail := by
    intro files files' b src dst e renamed failed
    rw [Files.vfsRename_fail renamed failed]

end Osnos.Ramfs
