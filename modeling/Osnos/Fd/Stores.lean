import Osnos.Fat.Adapter
import Osnos.Fd.Share
import Osnos.Vfs.Ramfs

/-! The RAM file system and the card behind one mount table, and the calls on a regular file
of either of them. -/
namespace Osnos.Fd
open Osnos.Vfs Fat

inductive Medium
  | ramfs
  | fat
deriving DecidableEq

structure Stores where
  ram : Ramfs.Files
  card : Fat.State

section
variable {α : Type}

def onRam (op : Ramfs.Files → α × Ramfs.Files) : Prog Stores α := fun s =>
  some ((op s.ram).1, { s with ram := (op s.ram).2 })

def onCard : Fat.Driver α → Prog Stores α := Prog.focus Stores.card fun card s => { s with card := card }

end

def storeOps : FileOps Medium Stores where
  stat f :=
    match f.backend with
    | .ramfs => onRam fun files => ((files.vfsStat f.path).mapError Status.code, files)
    | .fat => onCard (Fat.fatVfsStat f.path)
  read f off n :=
    match f.backend with
    | .ramfs => onRam fun files => ((files.vfsRead f.path off n).mapError Status.code, files)
    | .fat => onCard (Fat.fatVfsRead f.path off n)
  write f buf n :=
    match f.backend with
    | .ramfs => onRam fun files =>
      ((files.vfsWrite f.path (bytesOf buf n)).1.code, (files.vfsWrite f.path (bytesOf buf n)).2)
    | .fat => onCard (Fat.fatVfsWrite f.path buf n)
  append f buf n :=
    match f.backend with
    | .ramfs => onRam fun files =>
      ((files.vfsAppend f.path (bytesOf buf n)).1.code, (files.vfsAppend f.path (bytesOf buf n)).2)
    | .fat => onCard (Fat.fatVfsAppend f.path buf n)

structure RamHolds (path : Path) (s : Stores) (c : Bytes) : Prop where
  below : path ≠ ['/']
  node : s.ram.node path = some (.file c)
  fits : c.length < Ramfs.RAMFS_DATA_SIZE

theorem ram_write {path : Path} {s : Stores} {c : Bytes} (holds : RamHolds path s c)
    (buf : Nat → UInt8) (n : Nat) :
    ∃ e s', storeOps.write ⟨.ramfs, path⟩ buf n s = some (e, s') ∧
      RamHolds path s' (if e = 0 then bytesOf buf n else c) := by
  refine ⟨_, _, rfl, ?_⟩
  cases wrote : s.ram.writeFileBin path (bytesOf buf n) with
  | none =>
    simp only [Ramfs.Files.vfsWrite, wrote]
    exact holds
  | some files =>
    have node := Ramfs.Files.node_write wrote
    rw [holds.node, if_neg (by simp)] at node
    have room : (bytesOf buf n).length < Ramfs.RAMFS_DATA_SIZE := by
      unfold Ramfs.Files.writeFileBin at wrote
      split at wrote
      · cases wrote
      · omega
    simp only [Ramfs.Files.vfsWrite, wrote]
    exact ⟨holds.below, node, room⟩

theorem ram_append {path : Path} {s : Stores} {c : Bytes} (holds : RamHolds path s c)
    (buf : Nat → UInt8) (n : Nat) :
    ∃ e s', storeOps.append ⟨.ramfs, path⟩ buf n s = some (e, s') ∧
      RamHolds path s' (if e = 0 then c ++ bytesOf buf n else c) := by
  refine ⟨_, _, rfl, ?_⟩
  have outcome : s.ram.appendFileBin path (bytesOf buf n) = (false, s.ram) ∨ _ :=
    Ramfs.Files.node_append holds.node
  obtain refused | ⟨files, done, node, room⟩ := outcome
  · simp only [Ramfs.Files.vfsAppend, refused]
    exact holds
  · simp only [Ramfs.Files.vfsAppend, done]
    exact ⟨holds.below, node, room⟩

def ramFile (path : Path) : RegularFile storeOps ⟨.ramfs, path⟩ where
  holds := RamHolds path
  readFits _ _ _ := True
  appendFits _ _ _ := True
  bounded holds := holds.fits.trans (by decide)
  small _ := trivial
  stat_ok := by
    intro s c holds
    refine ⟨s, ?_, holds, fun _ _ => trivial⟩
    simp only [storeOps, onRam, Ramfs.Files.vfsStat, if_neg holds.below, holds.node]
    rfl
  read_ok := by
    intro s c off n holds _
    refine ⟨s, ?_, holds⟩
    simp only [storeOps, onRam, Ramfs.Files.vfsRead, holds.node]
    split
    · rw [List.drop_of_length_le ‹_›, List.take_nil]
      rfl
    · rfl
  write_ok buf n holds := ram_write holds buf n
  append_ok buf n holds _ := ram_append holds buf n

theorem onCard_some {α : Type} {x : Driver α} {s : Stores} {a : α} {card : State}
    (run : x s.card = some (a, card)) : onCard x s = some (a, { s with card := card }) :=
  Prog.focus_some run

def cardFile (g : Fat.Geometry) (path : Path) : RegularFile storeOps ⟨.fat, path⟩ where
  holds s := Fat.Contains g path s.card
  readFits c off n := min n (c.length - off) < 2 ^ 31
  appendFits s := Fat.AppendRoom g s.card
  bounded contains := contains.length_lt.trans (by decide)
  small fits := (min_le_left _ _).trans_lt fits
  stat_ok := by
    intro s c contains
    obtain ⟨card, run, contains, room⟩ := contains.fatVfsStat_ok
    exact ⟨{ s with card := card }, onCard_some run, contains, room⟩
  read_ok := by
    intro s c off n contains fits
    obtain ⟨card, run, contains⟩ := contains.fatVfsRead_ok fits
    exact ⟨{ s with card := card }, onCard_some run, contains⟩
  write_ok := by
    intro s c buf n contains
    obtain ⟨e, card, run, contains⟩ := contains.fatVfsWrite_ok buf n
    exact ⟨e, { s with card := card }, onCard_some run, contains⟩
  append_ok := by
    intro s c buf n contains room
    obtain ⟨e, card, run, contains⟩ := contains.fatVfsAppend_ok buf room
    exact ⟨e, { s with card := card }, onCard_some run, contains⟩

def regularFile (g : Fat.Geometry) : (f : File Medium) → RegularFile storeOps f
  | ⟨.ramfs, path⟩ => ramFile path
  | ⟨.fat, path⟩ => cardFile g path

def tree (mounts : Mounts Medium) (depth : Nat) : Tree Medium Stores := ⟨storeOps, mounts, depth⟩

def Sharing.describe {mounts : Mounts Medium} {depth : Nat} (p : Sharing (tree mounts depth))
    (g : Fat.Geometry) : Description (tree mounts depth) :=
  { p with regular := regularFile g p.file }

theorem Sharing.fits_ram {mounts : Mounts Medium} {depth : Nat} (p : Sharing (tree mounts depth))
    (g : Geometry) (ram : p.file.backend = .ramfs) (m : Machine Stores) (c : Cursor UInt8)
    (k : FileCall) : (p.describe g).Fits m c k := by
  obtain ⟨⟨backend, path⟩, fds, ofd, mode, served, notDir, notChr⟩ := p
  cases ram
  cases k with
  | read | lseek => trivial
  | write => exact fun _ => trivial

/-- The descriptors that share an open file description of a regular file behave like one
cursor in one byte string, whatever others do meanwhile to other files, and the two ways
to write at the end agree. On the card this takes a drive without errors, reads of less
than 2 GiB and appends within the driver's arithmetic; in RAM it takes nothing. -/
theorem shared_description_is_a_cursor {mounts : Mounts Medium} {depth : Nat}
    (p : Sharing (tree mounts depth)) (g : Fat.Geometry) {m : Machine Stores} {c : Cursor UInt8}
    (shows : (p.describe g).Shows m c) :
    (∀ es, (p.describe g).Follows (p.describe g).Shows
      (fun m c k => k.InRange c ∧ (p.describe g).Fits m c k) m c es) ∧
    (p.file.backend = .ramfs → ∀ es, (p.describe g).Follows (p.describe g).Shows
      (fun _ c k => k.InRange c) m c es) ∧
    ∀ buf n memory k k' m₁ m₂, c.text.length + n < 2 ^ 63 →
      (p.describe g).regular.appendFits m.store c.text n →
      appendAt (tree mounts depth) p.ofd p.mode.path buf c.text.length n m = some (.count k, m₁) →
      rewriteAt (tree mounts depth) p.ofd p.mode.path buf c.text.length c.text.length n memory m =
        some (.count k', m₂) →
      k = n ∧ k' = n ∧
        (p.describe g).Shows m₁ ⟨c.text ++ bytesOf buf n, c.text.length + n⟩ ∧
        (p.describe g).Shows m₂ ⟨c.text ++ bytesOf buf n, c.text.length + n⟩ := by
  refine ⟨Description.follows shows, fun ram es => ?_, ?_⟩
  · refine (Description.follows shows es).weaken fun m c k range => ⟨range, ?_⟩
    exact p.fits_ram g ram m c k
  · intro buf n memory k k' m₁ m₂ range fits fast slow
    exact Description.shortcut_same shows range fits fast slow

def cardMounts : Mounts Medium := fun i =>
  if i = 0 then some ⟨['/', 's', 'd'], .backend .fat⟩ else none

def readWrite : OpenFile := ⟨2, false, false, 0, ['/', 's', 'd', '/', 'A']⟩

def pairOnCard : Sharing (tree cardMounts 1) where
  file := ⟨.fat, ['/', 's', 'd', '/', 'A']⟩
  fds := { fd | fd.val = 3 ∨ fd.val = 4 }
  ofd := 0
  mode := readWrite
  served := by decide
  notDir := rfl
  notChr := rfl

def cardMachine : Machine Stores where
  fds fd := if fd.val = 3 ∨ fd.val = 4 then some 0 else none
  pool o := if o = 0 then some ⟨2, some readWrite⟩ else none
  store := ⟨fun _ => none, Fat.mount Fat.smallGeometry Fat.smallVol⟩

/-- The same with a drive that fails its first request. -/
def flakyMachine : Machine Stores :=
  { cardMachine with store :=
    { cardMachine.store with card :=
      { cardMachine.store.card with blockOk := fun n _ => n != 0 } } }

def cardCursor : Cursor UInt8 := ⟨List.replicate 512 0, 0⟩

theorem pairOnCard_shows : (pairOnCard.describe smallGeometry).Shows cardMachine cardCursor := by
  refine ⟨fun fd mem => if_pos mem, rfl, ?_, by decide⟩
  have look : lookup smallGeometry smallVol [47, 65] =
      some ⟨[65], [65], false, 512, 2, 17, 0⟩ := rfl
  obtain ⟨pos, slot, old, f⟩ := fileAt_of_lookup small_wellFormed look rfl
  refine ⟨smallVol, mount_holds small_normal, small_wellFormed, [47, 65], _, pos,
    slot, old, by decide, f, ?_⟩
  obtain rfl : (17, 0) = pos := f.of.pos
  rw [f.node.slotAt]
  decide +kernel

def third : FileFd := ⟨3, by decide⟩
def fourth : FileFd := ⟨4, by decide⟩
def scratchMemory : Option (Nat → UInt8) := some fun _ => 1

/-- The calls after an append whose cluster count wraps: the write behind the end is
answered as if it had been done. -/
def wrappingCalls : List (FileFd × FileCall) :=
  [(third, .lseek 0 2), (fourth, .write (some fun _ => 7) (2 ^ 32 - 1) scratchMemory),
    (third, .lseek 600 0), (fourth, .write (some fun _ => 9) 1 scratchMemory),
    (third, .lseek 510 0), (fourth, .read true 91)]

def patchingCalls : List (FileFd × FileCall) :=
  [(third, .lseek 1 0), (fourth, .write (some fun _ => 9) 1 scratchMemory), (third, .lseek 0 0),
    (fourth, .read true 3)]

theorem pairOnCard_members {calls : List (FileFd × FileCall)}
    (all : ∀ i ∈ calls, i.1 = third ∨ i.1 = fourth) : ∀ i ∈ calls, i.1 ∈ pairOnCard.fds := by
  intro i mem
  obtain eq | eq := all i mem
  · exact eq ▸ .inl rfl
  · exact eq ▸ .inr rfl

/-- A byte put into the file through one descriptor is read back through the other. -/
theorem shared_description_is_a_cursor_pair :
    (pairOnCard.describe Fat.smallGeometry).Shows cardMachine cardCursor ∧
      (pairOnCard.describe Fat.smallGeometry).Follows
        (pairOnCard.describe Fat.smallGeometry).Shows
        (fun m c k => k.InRange c ∧ (pairOnCard.describe Fat.smallGeometry).Fits m c k)
        cardMachine cardCursor (patchingCalls.map fun i => .call i.1 i.2) :=
  ⟨pairOnCard_shows,
    (shared_description_is_a_cursor pairOnCard Fat.smallGeometry pairOnCard_shows).1 _⟩

/-- Without the conditions the cursor is lost. An append of 2³² - 1 bytes fails, but leaves the
chain without its end, so that the next write gives the file clusters that it then frees; and
where the drive fails the request that looks up the file's size, a write replaces the file. -/
theorem cursor_lost :
    (pairOnCard.describe Fat.smallGeometry).Shows cardMachine cardCursor ∧
      ¬ (pairOnCard.describe Fat.smallGeometry).Follows (fun _ _ => True)
        (fun _ c k => k.InRange c) cardMachine cardCursor
        (wrappingCalls.map fun i => .call i.1 i.2) ∧
      ¬ (pairOnCard.describe Fat.smallGeometry).Follows (fun _ _ => True)
        (fun _ c k => k.InRange c) flakyMachine cardCursor
        (patchingCalls.map fun i => .call i.1 i.2) := by
  refine ⟨pairOnCard_shows, fun follows => ?_, fun follows => ?_⟩
  all_goals
    have judged := follows.judged (pairOnCard_members (by decide))
    exact absurd judged (by decide +kernel)

end Osnos.Fd
