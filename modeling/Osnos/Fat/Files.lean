import Osnos.Fat.Extend
import Osnos.Fat.Mount
import Osnos.Fat.Remove

/-! The volume as a map from files to byte strings, and what the operations on
existing files do to it. -/
namespace Osnos.Fat
open Prog Dirent Nat

structure Buffer where
  bytes : Nat → UInt8
  len : Nat
  small : len < 2 ^ 32

def Buffer.data (b : Buffer) : List UInt8 := (List.range b.len).map b.bytes

inductive FileOp where
  | write (b : Buffer)
  | append (b : Buffer)
  | unlink

namespace FileOp

def run (path : List UInt8) : FileOp → Driver Int
  | write b => fatWritePath path b.bytes b.len
  | append b => fatAppendPath path b.bytes b.len
  | unlink => fatUnlinkPath path

def result (contents : List UInt8) : FileOp → Option (List UInt8)
  | write b => some b.data
  | append b => some (contents ++ b.data)
  | unlink => none

end FileOp

def tailRoom (g : Geometry) (size : Nat) : Nat := (g.clusterSize - size % g.clusterSize) % g.clusterSize

def clustersNeeded (g : Geometry) (size len : Nat) : Nat :=
  (len - tailRoom g size + g.clusterSize - 1) / g.clusterSize

def CountFits (g : Geometry) (size len : Nat) : Prop :=
  size = 0 ∨ len + g.clusterSize ≤ 2 ^ 32 + min len (tailRoom g size)

def AppendFits (g : Geometry) (V : Vol) (size len : Nat) : Prop :=
  CountFits g size len ∧
    (size + len < 2 ^ 32 ∨ (V.freeList g).length < clustersNeeded g size len)

def FileOp.Fits (g : Geometry) (V : Vol) (size : Nat) : FileOp → Prop
  | append b => AppendFits g V size b.len
  | _ => True

section
variable {g : Geometry} {V V' : Vol} {path : List UInt8} {de : Dirent} {pos : Pos} {slot : Slot}
  {old : List Nat}

theorem whenMounted_does {op : Geometry → Driver Int} {rc : Int}
    (does : Does (Holds g) V (op g) rc V') : Does (Holds g) V (whenMounted op) rc V' := by
  intro s hs
  obtain ⟨s', run, hs'⟩ := does s hs
  refine ⟨s', ?_, hs'⟩
  simp only [whenMounted, mounted, bind_apply, get_apply, Option.bind_some, pure_apply, hs.fs]
  exact run

theorem spare_eq {n : Nat} (low : (n - 1) * g.clusterSize < sizeOf slot)
    (fits : sizeOf slot ≤ n * g.clusterSize) : n * g.clusterSize - sizeOf slot = tailRoom g
    (sizeOf slot) := by
  have pos := g.clusterSize_pos
  obtain ⟨m, rfl⟩ : ∃ m, n = m + 1 := ⟨n - 1, by
    rcases Nat.eq_zero_or_pos n with rfl | h
    · omega
    · omega⟩
  rw [Nat.add_sub_cancel] at low
  rw [succ_mul] at fits ⊢
  rw [tailRoom]
  obtain ⟨r, size⟩ : ∃ r, sizeOf slot = m * g.clusterSize + r := ⟨_, (add_sub_of_le low.le).symm⟩
  rw [size] at low fits ⊢
  by_cases whole : r = g.clusterSize
  · subst whole
    simp
  have rest : (m * g.clusterSize + r) % g.clusterSize = r := by
    rw [Nat.add_comm, add_mul_mod_self_right, mod_eq_of_lt (by omega)]
  rw [rest, mod_eq_of_lt (by omega)]
  omega

theorem fatLookup_does (wf : WellFormed g V) (path : List UInt8) :
    Does (Holds g) V (fatLookup path) (lookup g V path) V := by
  intro s hs
  obtain ⟨s', run, hs'⟩ := lookupFrom_does wf.closed path s hs
  refine ⟨s', ?_, hs'⟩
  simp only [fatLookup, mounted, bind_apply, get_apply, Option.bind_some, pure_apply, hs.fs]
  exact run

structure Outcome (g : Geometry) (V V' : Vol) (pos : Pos) (slot : Slot) (old : List Nat) (op : FileOp)
    (rc : Int) (entry : Option Slot) (new : List Nat) : Prop where
  code : rc ≤ 0
  step : EntryStep g V V' pos slot entry old new
  done : rc = 0 → entry.map (fileBytes g V') = op.result (fileBytes g V slot)
  failed : rc ≠ 0 → V'.fat = V.fat ∧ entry = some slot ∧ fileBytes g V' slot = fileBytes g V slot

variable (f : FileAt g V path de pos slot old)
include f

theorem FileAt.shape : old = [] ∧ firstOf slot = 0 ∧ sizeOf slot = 0 ∨
      Chain g V (firstOf slot) old ∧ (old.length - 1) * g.clusterSize < sizeOf slot ∧
        sizeOf slot ≤ old.length * g.clusterSize := by
  have h := f.chain
  rw [EntryChain, f.is_file] at h
  simpa using h

variable (wf : WellFormed g V)
include wf

theorem FileAt.no_change : EntryStep g V V pos slot (some slot) old old := f.slack_step wf (.refl _)

theorem FileAt.write_outcome (b : Buffer) :
    ∃ rc V' entry new, Does (Holds g) V (writePath g path b.bytes b.len) rc V' ∧
      Outcome g V V' pos slot old (.write b) rc entry new := by
  obtain ⟨rc, V', does, ⟨failed, rfl⟩ | ⟨rfl, first, new, step, bytes⟩⟩ :=
    f.writePath_does wf b.bytes b.small
  · exact ⟨rc, V', some slot, old, does, failed.le, f.no_change wf, fun ok => absurd ok failed.ne,
      fun _ => ⟨rfl, rfl, rfl⟩⟩
  · exact ⟨0, V', _, new, does, le_rfl, step, fun _ => by simp [FileOp.result, bytes, Buffer.data],
      fun h => absurd rfl h⟩

theorem FileAt.unlink_outcome : ∃ rc V' entry new, Does (Holds g) V (unlinkPath g path) rc V' ∧
      Outcome g V V' pos slot old .unlink rc entry new := by
  obtain ⟨rc, V', does, ⟨failed, rfl⟩ | ⟨rfl, step⟩⟩ := f.unlinkPath_does wf
  · exact ⟨rc, V', some slot, old, does, failed.le, f.no_change wf, fun ok => absurd ok failed.ne,
      fun _ => ⟨rfl, rfl, rfl⟩⟩
  · exact ⟨0, V', none, [], does, le_rfl, step, fun _ => rfl, fun h => absurd rfl h⟩

variable (b : Buffer)

theorem FileAt.append_extend (chain : Chain g V (firstOf slot) old)
    (low : (old.length - 1) * g.clusterSize < sizeOf slot) (some_data : 0 < b.len) {rc : Int}
    (does : Does (Holds g) V (fatExtendExisting g de b.bytes b.len) rc V') :
    Does (Holds g) V (appendPath g path b.bytes b.len) rc V' := by
  have look := lookupFrom_does wf.closed path
  rw [f.look] at look
  have first := chain.first.1
  have full : ¬ (sizeOf slot = 0 ∨ firstOf slot < 2) := by omega
  rw [appendPath, if_neg (by omega)]
  refine .bind look ?_
  simp only [f.isDir, Bool.false_eq_true, if_false, f.of.size, f.of.firstCluster, full]
  exact does

theorem FileAt.append_wrap (chain : Chain g V (firstOf slot) old)
    (low : (old.length - 1) * g.clusterSize < sizeOf slot)
    (fits : sizeOf slot ≤ old.length * g.clusterSize)
    (wrap : ¬ CountFits g (sizeOf slot) b.len) :
    ∃ V', Does (Holds g) V (appendPath g path b.bytes b.len) (-5) V' ∧
      V'.fat = Function.update V.fat (old.getLast chain.path.ne_nil) 0 := by
  have cap := g.ranged.spc
  have small := b.small
  have room := spare_eq low fits
  rw [← spare] at room
  simp only [CountFits, not_or, ← room] at wrap
  have some_data : 0 < b.len := by
    simp only [Bpb.clusterSize] at wrap
    omega
  obtain ⟨V', does, fat⟩ := f.extend_wrap chain low fits b.bytes some_data small (by omega)
  exact ⟨V', f.append_extend wf b chain low some_data does, fat⟩

theorem FileAt.append_does (count : CountFits g (sizeOf slot) b.len) :
    ∃ rc V', Does (Holds g) V (appendPath g path b.bytes b.len) rc V' ∧
      (sizeOf slot + b.len < 2 ^ 32 ∨ (V.freeList g).length < clustersNeeded g (sizeOf slot) b.len →
        ∃ entry new, Outcome g V V' pos slot old (.append b) rc entry new) := by
  have look := lookupFrom_does wf.closed path
  rw [f.look] at look
  by_cases some_data : 0 < b.len
  · rcases f.shape with ⟨rfl, first, size⟩ | ⟨chain, low, fits⟩
    · obtain ⟨rc, V', entry, new, does, out⟩ := f.write_outcome wf b
      refine ⟨rc, V', ?_, fun _ => ⟨entry, new, out.code, out.step, fun ok => ?_, out.failed⟩⟩
      · rw [appendPath, if_neg (by omega)]
        refine .bind look ?_
        simp only [f.isDir, Bool.false_eq_true, if_false, f.of.size, size, true_or, if_true]
        exact does
      · have none : fileBytes g V slot = [] := by simp [fileBytes, slice, size]
        rw [out.done ok, none]
        rfl
    · have room := spare_eq low fits
      rw [← spare] at room
      have size_pos : sizeOf slot ≠ 0 := by omega
      simp only [CountFits, size_pos, false_or, ← room] at count
      have range : b.len - min b.len (spare g slot old) + g.clusterSize ≤ 2 ^ 32 := by omega
      have need : clustersNeeded g (sizeOf slot) b.len =
          (b.len - min b.len (spare g slot old) + g.clusterSize - 1) / g.clusterSize := by
        rw [clustersNeeded, ← room]
        congr 2
        omega
      by_cases enough : (b.len - min b.len (spare g slot old) + g.clusterSize - 1) / g.clusterSize ≤
          (V.freeList g).length
      · obtain ⟨V', does, after⟩ := f.extend_ok chain low fits b.bytes some_data wf range enough
        refine ⟨0, V', f.append_extend wf b chain low some_data does, fun total => ?_⟩
        obtain ⟨new, step, bytes⟩ := after (total.resolve_right (by omega))
        exact ⟨_, new, le_rfl, step, fun _ => by simp [FileOp.result, bytes, Buffer.data],
          fun h => absurd rfl h⟩
      · obtain ⟨V', does, fat, step, bytes⟩ := f.extend_full chain low fits b.bytes some_data wf range (by omega)
        exact ⟨-28, V', f.append_extend wf b chain low some_data does, fun _ => ⟨_, old, by decide, step,
          fun ok => absurd ok (by decide), fun _ => ⟨fat, rfl, bytes⟩⟩⟩
  · have zero : b.len = 0 := by omega
    refine ⟨0, V, ?_, fun _ => ⟨some slot, old, le_rfl, f.no_change wf, fun _ => ?_,
      fun h => absurd rfl h⟩⟩
    · rw [appendPath, if_pos zero]
      exact .pure _
    · simp [FileOp.result, Buffer.data, zero]

theorem FileAt.op_outcome (op : FileOp) (fits : op.Fits g V (sizeOf slot)) :
    ∃ rc V' entry new, Does (Holds g) V (op.run path) rc V' ∧
      Outcome g V V' pos slot old op rc entry new := by
  cases op with
  | write b =>
    obtain ⟨rc, V', entry, new, does, out⟩ := f.write_outcome wf b
    exact ⟨rc, V', entry, new, whenMounted_does does, out⟩
  | append b =>
    obtain ⟨rc, V', does, out⟩ := f.append_does wf b fits.1
    obtain ⟨entry, new, out⟩ := out fits.2
    exact ⟨rc, V', entry, new, whenMounted_does does, out⟩
  | unlink =>
    obtain ⟨rc, V', entry, new, does, out⟩ := f.unlink_outcome wf
    exact ⟨rc, V', entry, new, whenMounted_does does, out⟩

end

def Dirent.pos (de : Dirent) : Pos := (de.direntLba, de.direntOffset)

def Dirent.retarget (pos : Pos) (slot' : Slot) (de : Dirent) : Dirent :=
  if de.pos = pos then { de with size := sizeOf slot', firstCluster := firstOf slot' } else de

section
variable {g : Geometry} {V V' : Vol} {pos : Pos} {slot slot' : Slot} {entry : Option Slot}
  {old new : List Nat}

theorem SameHead.decodeEntry (head : SameHead slot slot') (accum : LfnAccum) (pos : Pos) :
    decodeEntry accum slot' pos.1 pos.2 =
    (decodeEntry accum slot pos.1 pos.2).retarget pos slot' := by
  have bytes : ∀ start n, start + n ≤ 26 → bytesAt slot' start n = bytesAt slot start n := by
    intro start n le
    apply List.map_congr_left
    intro i hi
    have := List.mem_range.1 hi
    exact head _ (by omega)
  have ext : ∀ flags, nameFrom83Ext slot' flags = nameFrom83Ext slot flags := by
    intro flags
    simp only [nameFrom83Ext, bytes 0 8 (by decide), bytes 8 3 (by decide)]
  have parsed : parseDirent slot' pos.1 pos.2 =
      { parseDirent slot pos.1 pos.2 with size := sizeOf slot', firstCluster := firstOf slot' } := by
    simp only [parseDirent, nameFrom83, ext, head 0x0C (by decide), head.isDirSlot, sizeOf, firstOf]
  rw [Fat.decodeEntry, Fat.decodeEntry, head.name11, parsed, retarget]
  cases accum.finalize (Fat.name11 slot) with
  | none | some => simp [Dirent.pos, parseDirent]

theorem retarget_of_ne (accum : LfnAccum) (slot slot' : Slot) {q : Pos} (other : q ≠ pos) :
    (decodeEntry accum slot q.1 q.2).retarget pos slot' = decodeEntry accum slot q.1 q.2 := by
  have same : (decodeEntry accum slot q.1 q.2).pos = q := (decodeEntry_entryOf accum q slot).pos
  rw [retarget, same, if_neg other]

theorem entriesFrom_put (accum : LfnAccum) (S : List (Pos × Slot))
    (entry : ∀ e ∈ S, e.1 = pos → direntIsValid e.2 ∧ SameHead e.2 slot') :
    entriesFrom accum (S.map fun e => (e.1, if e.1 = pos then slot' else e.2)) =
      (entriesFrom accum S).map (·.retarget pos slot') := by
  induction S generalizing accum with
  | nil => rfl
  | cons e rest ih =>
    obtain ⟨q, s⟩ := e
    have first := entry (q, s) (by simp)
    have tail := fun accum => ih accum fun e he => entry e (by simp [he])
    have ⟨head, decoded⟩ : SameHead s (if q = pos then slot' else s) ∧
        decodeEntry accum (if q = pos then slot' else s) q.1 q.2 =
          (decodeEntry accum s q.1 q.2).retarget pos slot' := by
      split
      next here =>
        exact ⟨(first here).2, here ▸ (first here).2.decodeEntry accum q⟩
      next other =>
        exact ⟨.refl s, (retarget_of_ne accum s slot' other).symm⟩
    simp only [List.map_cons, entriesFrom, head 0 (by decide), head.isLfnSlot, head.isVolSlot, tail,
      decoded]
    split_ifs <;> simp_all [direntIsValid]

namespace EntryStep

theorem retarget_isDir (e : Dirent) : (e.retarget pos slot').isDir = e.isDir := by
  rw [retarget]
  split <;> rfl

variable (h : EntryStep g V V' pos slot (some slot') old new)
include h

theorem entries_put {dir : Nat} (at_dir : IsDirectory g V dir) :
    entries g V' dir = (entries g V dir).map (·.retarget pos slot') := by
  obtain ⟨head, rewritten⟩ := h.kept slot' rfl
  obtain ⟨_, _, mem, _⟩ := id h.node
  rw [entries, entries, rewritten dir at_dir]
  refine entriesFrom_put _ _ ?_
  rintro ⟨q, s⟩ he rfl
  obtain rfl : s = slot := (slots_slotAt he).trans h.node.slotAt.symm
  exact ⟨live_valid mem, head⟩

theorem find_put {dir : Nat} (at_dir : IsDirectory g V dir) (want : List UInt8) :
    find g V' dir want = (find g V dir want).map (·.retarget pos slot') := by
  have names : ∀ e : Dirent, (e.retarget pos slot').matches want = e.matches want := by
    intro e
    rw [retarget]
    split <;> rfl
  rw [find, find, h.entries_put at_dir, List.find?_map]
  congr 2
  funext e
  exact names e

theorem retarget_dir {dir : Nat}
    {e : Dirent} (mem : e ∈ entries g V dir) (is_dir : e.isDir) : e.retarget pos slot' = e := by
  rw [retarget, if_neg]
  intro here
  obtain ⟨⟨q, s⟩, live, of⟩ := entries_live mem
  obtain rfl : q = pos := of.pos.symm.trans here
  obtain rfl : s = slot := (live_slotAt live).trans h.node.slotAt.symm
  rw [of.isDir, (h.put slot' rfl).1] at is_dir
  cases is_dir

theorem resolve_put (wf : WellFormed g V) (comps : List (List UInt8)) (cur : Dirent)
    (start : cur.isDir → IsDirectory g V cur.firstCluster)
    (same : cur.isDir → cur.retarget pos slot' = cur) :
    resolve g V' (cur.retarget pos slot') comps =
      (resolve g V cur comps).map (·.retarget pos slot') := by
  induction comps generalizing cur with
  | nil => rfl
  | cons comp rest ih =>
    rw [resolve, resolve, retarget_isDir]
    by_cases is_dir : cur.isDir
    · simp only [is_dir, if_true, same is_dir]
      rw [h.find_put (start is_dir)]
      cases hit : find g V cur.firstCluster comp with
      | none => rfl
      | some next =>
        exact ih next (fun down => wf.closed.step _ (start is_dir) next (find_mem hit) down)
          fun down => h.retarget_dir (find_mem hit) down
    · simp [is_dir]

theorem lookup_put (wf : WellFormed g V)
    (path : List UInt8) : lookup g V' path = (lookup g V path).map (·.retarget pos slot') := by
  have root : rootSentinel.retarget pos slot' = rootSentinel := by
    rw [retarget, if_neg]
    intro here
    have area := h.node.area wf
    have := rootDirLba_pos (g := g)
    rw [← here] at area
    simp only [rootSentinel, Dirent.pos] at area
    omega
  have all := h.resolve_put wf (components path) rootSentinel (fun _ => ⟨0, .root⟩) (fun _ => root)
  rw [root] at all
  exact all

end EntryStep

end

def Intact (g : Geometry) (s : State) : Prop := ∃ V, Holds g V s ∧ WellFormed g V
def Sound (g : Geometry) (s : State) : Prop := ∃ V, Holds g V s ∧ WellFormed g V ∧ NoLost g V

def Resolves (s : State) (path : List UInt8) (de : Dirent) : Prop :=
  (∃ s₁, fatLookup path s = some (some de, s₁)) ∧ de.isDir = false

structure Call where
  path : List UInt8
  op : FileOp

def Call.exec (c : Call) : Driver Int := c.op.run c.path

/-- A call on an existing regular file whose append, if it is one, stays in range. -/
def Call.Legal (g : Geometry) (s : State) (c : Call) : Prop :=
  ∃ de, Resolves s c.path de ∧ c.op.Fits g (view g s.disk) de.size

variable {de : Dirent} {path : List UInt8}

section
variable {g : Geometry} {s s' : State}

theorem Intact.fileAt {V : Vol} (hs : Holds g V s) (wf : WellFormed g V) (h : Resolves s path de) :
    ∃ pos slot old, FileAt g V path de pos slot old := by
  obtain ⟨⟨s₁, look⟩, is_file⟩ := h
  exact fileAt_of_lookup wf ((fatLookup_does wf path).result hs look).1.symm is_file

theorem Sound.call (sound : Sound g s) {c : Call} (legal : c.Legal g s) {rc : Int}
    (run : c.exec s = some (rc, s')) : Sound g s' := by
  obtain ⟨V, hs, wf, whole⟩ := sound
  obtain ⟨_, resolves, fits⟩ := legal
  obtain ⟨_, _, _, f⟩ := Intact.fileAt hs wf resolves
  rw [hs.view, f.of.size] at fits
  obtain ⟨_, V', _, _, does, out⟩ := f.op_outcome wf c.op fits
  exact ⟨V', (does.result hs run).2, out.step.wellFormed wf, out.step.noLost wf whole⟩

/-- Every sequence of calls on existing files keeps the volume well formed, as long
as each append stays in the range of the driver's arithmetic, and no call gets stuck. -/
theorem runs_sound {calls : List Call} (sound : Sound g s)
    (runs : Prog.Runs Call.exec (Call.Legal g) s calls s') :
    Sound g s' ∧ ∀ c : Call, c.Legal g s' → (c.exec s').isSome := by
  have after : Sound g s' := runs.invariant (fun s c rc s' h legal run => h.call legal run) sound
  refine ⟨after, fun c legal => ?_⟩
  obtain ⟨V, hs, wf, _⟩ := after
  obtain ⟨_, resolves, fits⟩ := legal
  obtain ⟨_, _, _, f⟩ := Intact.fileAt hs wf resolves
  rw [hs.view, f.of.size] at fits
  obtain ⟨_, V', _, _, does, _⟩ := f.op_outcome wf c.op fits
  obtain ⟨_, run, _⟩ := does s' hs
  rw [Call.exec, run]
  rfl

end

def threeBytes : Buffer := ⟨fun _ => 7, 3, by decide⟩
def longBytes : Buffer := ⟨fun _ => 7, 2 ^ 32 - 1, by decide⟩

theorem small_sound : Sound smallGeometry (mount smallGeometry smallVol) :=
  ⟨smallVol, mount_holds small_normal, small_whole⟩

theorem small_resolves :
    Resolves (mount smallGeometry smallVol) [65] ⟨[65], [65], false, 512, 2, 17, 0⟩ := by
  obtain ⟨s₁, run, _⟩ := fatLookup_does small_wellFormed [65] _ (mount_holds small_normal)
  exact ⟨⟨s₁, run⟩, rfl⟩

theorem small_run_sound :
    ∃ s', Prog.Runs Call.exec (Call.Legal smallGeometry) (mount smallGeometry smallVol)
      [⟨[65], .append threeBytes⟩] s' ∧ Sound smallGeometry s' := by
  have code : (Call.exec ⟨[65], .append threeBytes⟩ (mount smallGeometry smallVol)).map (·.1) = some 0 := by
    decide +kernel
  obtain ⟨⟨rc, s'⟩, ok, rfl⟩ := Option.map_eq_some_iff.1 code
  have legal : Call.Legal smallGeometry (mount smallGeometry smallVol) ⟨[65], .append threeBytes⟩ :=
    ⟨_, small_resolves, .inr (by decide), .inl (by decide)⟩
  have runs := Prog.Runs.cons legal ok (.nil s')
  exact ⟨s', runs, (runs_sound small_sound runs).1⟩

/-- The cluster count of an append of 2³² - 1 bytes wraps to 0. The call fails, but
not before the file's last cluster has been pointed at 0: the volume was well formed
and is not any more. -/
theorem small_append_breaks :
    ∃ s', Sound smallGeometry (mount smallGeometry smallVol) ∧
      Resolves (mount smallGeometry smallVol) [65] ⟨[65], [65], false, 512, 2, 17, 0⟩ ∧
      Call.exec ⟨[65], .append longBytes⟩ (mount smallGeometry smallVol) = some (-5, s') ∧
      ¬ Sound smallGeometry s' := by
  have after : (Call.exec ⟨[65], .append longBytes⟩ (mount smallGeometry smallVol)).map (fun r =>
      (r.1, (live smallGeometry (view smallGeometry r.2.disk) 0).map (·.1),
        (view smallGeometry r.2.disk).fat 2,
        (fun slot => (isDots slot, isDirSlot slot, firstOf slot))
          (slotAt (view smallGeometry r.2.disk) (17, 0)))) =
      some (-5, [(17, 0)], 0, false, false, 2) := by decide +kernel
  obtain ⟨⟨rc, s'⟩, run, facts⟩ := Option.map_eq_some_iff.1 after
  simp only [Prod.mk.injEq] at facts
  obtain ⟨rfl, positions, freed, real, is_file, first⟩ := facts
  refine ⟨s', small_sound, small_resolves, run, ?_⟩
  rintro ⟨V, hs, wf, _⟩
  rw [hs.view] at positions freed real is_file first
  have mem : ((17, 0), slotAt V (17, 0)) ∈ live smallGeometry V 0 := by
    obtain ⟨e, he, eq⟩ := List.mem_map.1 (positions ▸ List.mem_singleton.2 rfl :
      ((17, 0) : Pos) ∈ (live smallGeometry V 0).map (·.1))
    obtain ⟨q, t⟩ := e
    obtain rfl : q = (17, 0) := eq
    exact live_slotAt he ▸ he
  obtain ⟨l, chain⟩ := wf.chains ⟨0, ⟨0, .root⟩, mem, by simp [real]⟩
  rcases (chain.file is_file).2 with ⟨_, zero, _⟩ | chain
  · omega
  · rw [first] at chain
    exact (chain.allocated chain.path.first_mem).2.1 freed

section
variable {g : Geometry} {s s' : State}

def ReadsAs (s : State) (de : Dirent) (data : List UInt8) : Prop :=
  ∀ off n, ∃ s₁, fatReadFile de off n s =
    some ((asInt ((data.drop off).take n).length, (data.drop off).take n), s₁)

def FileOp.SizeFits (size : Nat) : FileOp → Prop
  | append b => size + b.len < 2 ^ 32
  | _ => True

theorem slice_window (V : Vol) (l : List Nat) (size off n : Nat) :
    slice g V l off (min n (size - off)) = ((slice g V l 0 size).drop off).take n := by
  apply List.ext_getElem
  · simp [slice]
  · intro i h₁ h₂
    simp [slice]

theorem FileAt.fatReadFile_does {V : Vol} {pos : Pos} {slot : Slot}
    {old : List Nat} (f : FileAt g V path de pos slot old) (off n : Nat) :
    Does (Holds g) V (fatReadFile de off n)
      (asInt (((fileBytes g V slot).drop off).take n).length, ((fileBytes g V slot).drop off).take n)
      V := by
  have chain : old = [] ∧ de.size = 0 ∨ Chain g V de.firstCluster old := by
    rw [f.of.size, f.of.firstCluster]
    exact f.shape.imp (fun h => ⟨h.1, h.2.2⟩) fun h => h.1
  have fits : de.size ≤ old.length * g.clusterSize := f.of.size ▸ (f.chain.file f.is_file).1
  have range := readRange_does off n f.isDir chain fits
  rw [f.of.size, slice_window, ← fileBytes_eq f.chain f.is_file] at range
  intro s hs
  obtain ⟨s₁, run, hs₁⟩ := range s hs
  refine ⟨s₁, ?_, hs₁⟩
  simp only [fatReadFile, mounted, bind_apply, get_apply, Option.bind_some, pure_apply, hs.fs, run]

theorem reads_fileMap {V : Vol} (hs : Holds g V s) (wf : WellFormed g V)
    (resolves : Resolves s path de) :
    ∃ data, fileMap g V de.pos = some data ∧ ReadsAs s de data := by
  obtain ⟨pos, slot, _, f⟩ := Intact.fileAt hs wf resolves
  have at_pos : de.pos = pos := f.of.pos
  refine ⟨fileBytes g V slot, at_pos ▸ fileMap_some f.node f.is_file, fun off n => ?_⟩
  obtain ⟨s₁, run, _⟩ := f.fatReadFile_does off n s hs
  exact ⟨s₁, run⟩

theorem amend_others (pos : Pos) (entry : Option Slot) (G : List Group) :
    (amend pos entry G).filter (fun x => decide (x.pos ≠ pos)) =
      G.filter fun x => decide (x.pos ≠ pos) := by
  induction G with
  | nil => rfl
  | cons x rest ih =>
    rw [amend] at ih ⊢
    by_cases here : x.pos = pos
    · cases entry with
      | none | some slot => simpa [here] using ih
    · simpa [here] using ih

theorem amend_none_absent (pos : Pos) (G : List Group) : ∀ x ∈ amend pos none G, x.pos ≠ pos := by
  intro x hx
  obtain ⟨y, _, eq⟩ := List.mem_filterMap.1 hx
  by_cases here : y.pos = pos
  · simp [here] at eq
  · simp only [here, if_false, Option.some.injEq] at eq
    exact eq ▸ here

theorem FileAt.fits_of_ok {V : Vol} {pos : Pos} {slot : Slot}
    {old : List Nat} (f : FileAt g V path de pos slot old) (hs : Holds g V s) (wf : WellFormed g V)
    {op : FileOp} (size : op.SizeFits (sizeOf slot)) (ok : op.run path s = some (0, s')) :
    op.Fits g V (sizeOf slot) := by
  cases op with
  | write | unlink => trivial
  | append b =>
    refine ⟨?_, .inl size⟩
    by_contra wrap
    rcases f.shape with ⟨_, _, zero⟩ | ⟨chain, low, fits⟩
    · exact wrap (.inl zero)
    obtain ⟨V', does, _⟩ := f.append_wrap wf b chain low fits wrap
    have rc := ((whenMounted_does does).result hs ok).1
    exact absurd rc (by decide)

/-- The operations on existing files refine a map from files to byte strings. A file
is named by the position of its entry; the file operated on is the only one whose
contents change, and its entry the only one that changes or goes. -/
theorem file_op_refines {path : List UInt8} {de : Dirent} {op : FileOp} (intact : Intact g s)
    (resolves : Resolves s path de) (size : op.SizeFits de.size)
    (ok : op.run path s = some (0, s')) :
    Intact g s' ∧
    (∃ before, fileMap g (view g s.disk) de.pos = some before ∧
      fileMap g (view g s'.disk) =
        Function.update (fileMap g (view g s.disk)) de.pos (op.result before) ∧
      ∀ after, op.result before = some after →
        ∃ de', Resolves s' path de' ∧ de'.pos = de.pos ∧ ReadsAs s' de' after) ∧
    (∀ path' de', Resolves s' path' de' →
      ∃ data, fileMap g (view g s'.disk) de'.pos = some data ∧ ReadsAs s' de' data) ∧
    ∀ dir, (IsDirectory g (view g s'.disk) dir ↔ IsDirectory g (view g s.disk) dir) ∧
      (IsDirectory g (view g s.disk) dir →
        (groups g (view g s'.disk) dir).filter (fun x => x.pos ≠ de.pos) =
          (groups g (view g s.disk) dir).filter (fun x => x.pos ≠ de.pos) ∧
        (op = .unlink → ∀ x ∈ groups g (view g s'.disk) dir, x.pos ≠ de.pos)) := by
  obtain ⟨V, hs, wf⟩ := intact
  obtain ⟨pos, slot, _, f⟩ := Intact.fileAt hs wf resolves
  have at_pos : de.pos = pos := f.of.pos
  rw [f.of.size] at size
  obtain ⟨_, V', entry, _, does, out⟩ := f.op_outcome wf op (f.fits_of_ok hs wf size ok)
  obtain ⟨rfl, hs'⟩ := does.result hs ok
  have wf' := out.step.wellFormed wf
  have done := out.done rfl
  rw [hs.view, hs'.view, at_pos]
  have stays : ∀ dir, ¬ out.step.Gone dir := fun dir gone => by simpa [f.is_file] using gone.2.1
  refine ⟨⟨V', hs', wf'⟩, ⟨fileBytes g V slot, fileMap_some f.node f.is_file, ?_, ?_⟩, ?_, fun dir => ⟨?_, ?_⟩⟩
  · rw [out.step.fileMap_eq wf, done]
  · intro after result
    rw [result] at done
    obtain ⟨slot', rfl, bytes⟩ := Option.map_eq_some_iff.1 done
    -- the path resolves to the rewritten entry, which reads as the map says
    have look := out.step.lookup_put wf path
    rw [f.look] at look
    obtain ⟨s₁, run, _⟩ := fatLookup_does wf' path s' hs'
    rw [look] at run
    have now : Resolves s' path (de.retarget pos slot') :=
      ⟨⟨s₁, run⟩, (EntryStep.retarget_isDir de).trans f.isDir⟩
    have same : (de.retarget pos slot').pos = pos := by
      rw [Dirent.retarget, if_pos at_pos]
      exact at_pos
    obtain ⟨_, entry_data, reads⟩ := reads_fileMap hs' wf' now
    rw [same, fileMap_some ((out.step.node_iff wf).2 (.inr ⟨rfl, rfl⟩)) (out.step.put _ rfl).2.1,
      bytes] at entry_data
    exact ⟨_, now, same, Option.some.inj entry_data ▸ reads⟩
  · exact fun path' de' h => reads_fileMap hs' wf' h
  · exact ⟨fun ⟨parent, h⟩ => ⟨parent, (out.step.dirAt_of wf h).1⟩,
      fun ⟨parent, h⟩ => ⟨parent, out.step.dirAt_keep h (stays dir)⟩⟩
  intro at_dir
  rw [out.step.groups dir at_dir (by simp [f.is_file])]
  refine ⟨amend_others _ _ _, fun unlinked => ?_⟩
  subst unlinked
  rw [Option.map_eq_none_iff.1 done]
  exact amend_none_absent _ _

end

/-- Three bytes appended to the file `A` reach a second cluster. -/
theorem small_append_refines :
    ∃ s', (FileOp.append threeBytes).run [65] (mount smallGeometry smallVol) = some (0, s') ∧
      Intact smallGeometry s' := by
  have code : ((FileOp.append threeBytes).run [65] (mount smallGeometry smallVol)).map (·.1) = some 0 := by
    decide +kernel
  obtain ⟨⟨rc, s'⟩, ok, rfl⟩ := Option.map_eq_some_iff.1 code
  have size : (FileOp.append threeBytes).SizeFits 512 := by
    show 512 + 3 < 2 ^ 32
    decide
  have intact : Intact smallGeometry (mount smallGeometry smallVol) :=
    ⟨smallVol, mount_holds small_normal, small_wellFormed⟩
  exact ⟨s', ok, (file_op_refines intact small_resolves size ok).1⟩

end Osnos.Fat
