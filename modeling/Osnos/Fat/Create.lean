import Osnos.Fat.Insert

/-! New files and directories: what is written before the entry, the entry itself,
and the way back when there is no room for it. -/
namespace Osnos.Fat
open Prog Bool List

/-- A new entry stands in a directory: `W` has the storage it points to, which was
free before, and from there its slots were written. -/
structure Creation (g : Geometry) (V W U V' : Vol) (dir : Nat) (name : List UInt8) (naming : EntryNaming)
    (raw : Slot) (X F Y N : List (Pos × Slot)) : Prop where
  fresh : Fresh g V W
  named : NamingOf g V dir name naming
  inst : Installed g W U V' dir X F Y N
  written : N.map (·.2) = (entrySlots naming raw).map cut
  head : ∀ i < 11, raw i = naming.alias11.getD i 0
  kind : isLfnSlot raw = false ∧ isVolSlot raw = false
  flags : raw 12 = 0

variable {path : List UInt8} {buf : Nat → UInt8}

section
variable {g : Geometry} {V W U V' : Vol} {dir d : Nat} {name : List UInt8} {naming : EntryNaming}
  {raw : Slot} {X F Y N : List (Pos × Slot)}

theorem Fresh.live (fresh : Fresh g V W) (ok : DirOk g V d) : live g W d = live g V d := by
  rw [Fat.live, Fat.live, (fresh.keeps ok).2.2]

theorem Fresh.entries (fresh : Fresh g V W) (ok : DirOk g V d) : entries g W d = entries g V d :=
  entries_congr (fresh.keeps ok).2.2

theorem Fresh.orderly (fresh : Fresh g V W) (ok : DirOk g V d) (h : Orderly g V d) :
    Orderly g W d := by
  refine ⟨by rw [(fresh.keeps ok).2.2]; exact h.tidy, ?_, by rw [fresh.entries ok]; exact h.apart⟩
  intro de mem p blank packs
  have mem' := mem
  rw [fresh.entries ok] at mem
  have slot := live_slotAt (fresh.live ok ▸ entries_slotAt mem')
  have slot' := live_slotAt (entries_slotAt mem)
  have same : slotAt W de.pos = slotAt V de.pos := slot.trans slot'.symm |>.symm ▸ rfl
  rw [same]
  exact h.honest de mem p blank packs

theorem Fresh.namingOf (fresh : Fresh g V W) (ok : DirOk g V dir)
    (h : NamingOf g V dir name naming) :
    NamingOf g W dir name naming := by
  cases h with
  | short fits => exact .short fits
  | long none tried unused slots => exact .long none tried (by rw [fresh.live ok]; exact unused) slots

theorem Filled.fresh {len first : Nat} {new : List Nat}
    (h : Filled g V W buf len first new) : Fresh g V W := by
  have out : ∀ c, Allocated g V c → c ∉ new := fun c used hc => used.2.1 (h.free c hc).2
  refine ⟨fun c used => ?_, fun lba inside => h.only.sec lba fun c hc here => ?_⟩
  · rw [h.only.fat]
    exact Links.link_of_not_mem _ (out c used)
  rcases inside with root | ⟨x, used, at_x⟩
  · have := dataLba_le_cluster (g := g) c
    have := here.1
    omega
  · exact out x used (cluster_inj (h.free c hc).1.1 used.1.1 here at_x ▸ hc)

theorem Filled.undo_does {len first : Nat} {new : List Nat} (h : Filled g V W buf len first new) :
    ∃ V', Does (Holds g) W (fatFreeChain g first) 0 V' ∧ V'.fat = V.fat ∧ V'.sec = W.sec := by
  have fat : ∀ W' : Vol, W'.fat = (V.linked new).fat → (W'.free new).fat = V.fat := by
    intro W' same
    rw [← congrArg Vol.fat (linked_free fun c hc => (h.free c hc).2)]
    simp only [Vol.free, same]
  rcases h.entry with ⟨rfl, rfl, _⟩ | ⟨chain, _⟩
  · have same := fat W h.only.fat
    exact ⟨W, fatFreeChain_zero_does, same, rfl⟩
  · have chain' : Chain g W first new := chain.congr fun x _ => by rw [h.only.fat]
    exact ⟨W.free new, fatFreeChain_does chain', fat W h.only.fat, rfl⟩

theorem buildDirentRaw_head (alias11 : List UInt8) (attr : UInt8) (first size : Nat) {i : Nat}
    (h : i < 26) :
    buildDirentRaw alias11 attr first size i =
      if i < 11 then alias11.getD i 0 else if i = 11 then attr else 0 := by
  rw [buildDirentRaw, put32_of_lt _ _ (by omega), put16_of_ne _ _ _ _ (by omega) (by omega)]

theorem finish_does {len first : Nat} {new : List Nat} (attr : UInt8) (size : Nat)
    (file_or_dir : attr = 0x20 ∨ attr = 0x10) (filled : Filled g V W buf len first new)
    (ok : DirOk g V dir) (h : NamingOf g V dir name naming) :
    ∃ rc V', Does (Holds g) W (do
        let rc ← writeEntryWithNaming g dir naming (buildDirentRaw naming.alias11 attr first size)
        if rc ≠ 0 then
          let _ ← fatFreeChain g first
        return rc) rc V' ∧
      (rc ≠ 0 ∧ V'.fat = V.fat ∧ Fresh g V V' ∨ rc = 0 ∧ ∃ U X F Y N,
        Creation g V W U V' dir name naming
    (buildDirentRaw naming.alias11 attr first size) X F Y N) := by
  have fresh := filled.fresh
  rcases writeEntryWithNaming_does (fresh.keeps ok).1 naming h.slots_le
      (buildDirentRaw naming.alias11 attr first size) with full | ⟨U, V', X, F, Y, N, does, inst, written⟩
  · obtain ⟨V', frees, fat, sec⟩ := filled.undo_does
    refine ⟨-28, V', .bind full ?_, .inl ⟨by decide, fat, fun _ _ => by rw [fat], fun lba inside => by
      rw [sec]; exact fresh.sec lba inside⟩⟩
    exact .bind frees (.pure _)
  refine ⟨0, V', .bind does ?_, .inr ⟨rfl, U, X, F, Y, N, fresh, h, inst, written, ?_, ?_, ?_⟩⟩
  · simp only [ne_eq, not_true_eq_false, if_false]
    exact .pure _
  · intro i hi
    rw [buildDirentRaw_head _ _ _ _ (by omega), if_pos hi]
  · have at_attr : buildDirentRaw naming.alias11 attr first size 11 = attr := by
      rfl
    rw [isLfnSlot, isVolSlot, at_attr]
    rcases file_or_dir with rfl | rfl <;> decide
  · rw [buildDirentRaw_head _ _ _ _ (by omega)]
    rfl

structure NewAt (g : Geometry) (V : Vol) (path parentPath name : List UInt8) (parent : Dirent) : Prop where
  split : splitParentBase path = some (parentPath, name)
  up : lookup g V parentPath = some parent
  is_dir : parent.isDir = true
  at_dir : IsDirectory g V parent.firstCluster

theorem lookup_directory (wf : WellFormed g V) {de : Dirent}
    (look : lookup g V path = some de) (is_dir : de.isDir) : IsDirectory g V de.firstCluster := by
  rcases lookup_mem wf look with rfl | ⟨dir, at_dir, mem⟩
  · exact ⟨0, .root⟩
  · exact wf.closed.step dir at_dir de mem is_dir

theorem target_cases (wf : WellFormed g V) (path : List UInt8) :
    splitParentBase path = none ∨ ∃ parentPath name, splitParentBase path = some
    (parentPath, name) ∧
      (lookup g V parentPath = none ∨ ∃ parent, lookup g V parentPath = some parent ∧
        (parent.isDir = false ∨ NewAt g V path parentPath name parent ∧ ((∃ rc, rc ≠ 0 ∧
              Does (Holds g) V (computeEntryNaming g parent.firstCluster name) (.error rc) V) ∨
            ∃ naming,
              Does (Holds g) V (computeEntryNaming g parent.firstCluster name) (.ok naming) V ∧
              NamingOf g V parent.firstCluster name naming))) := by
  cases split : splitParentBase path with
  | none => exact .inl rfl
  | some parts =>
    refine .inr ⟨parts.1, parts.2, rfl, ?_⟩
    cases up : lookup g V parts.1 with
    | none => exact .inl rfl
    | some parent =>
      refine .inr ⟨parent, rfl, ?_⟩
      cases is_dir : parent.isDir with
      | false => exact .inl rfl
      | true =>
        have at_dir := lookup_directory wf up is_dir
        exact .inr ⟨⟨split, up, is_dir, at_dir⟩, computeEntryNaming_does (at_dir.ok wf) parts.2⟩

/-- An error, and the volume differs in free clusters at most; or the new entry,
with attribute byte `attr` and size `size`. -/
def NewOutcome (g : Geometry) (V : Vol) (path : List UInt8) (attr : UInt8) (size : Nat) (rc : Int)
    (V' : Vol) : Prop :=
  rc ≠ 0 ∧ V'.fat = V.fat ∧ Fresh g V V' ∨
    rc = 0 ∧ ∃ parentPath name parent naming first W U X F Y N,
      NewAt g V path parentPath name parent ∧ Creation g V W U V' parent.firstCluster name naming
        (buildDirentRaw naming.alias11 attr first size) X F Y N

theorem NewOutcome.error {attr : UInt8} {size : Nat} {rc : Int} (fails : rc ≠ 0) :
    NewOutcome g V path attr size rc V := .inl ⟨fails, rfl, .refl V⟩

theorem resolveWriteTarget_new_does (wf : WellFormed g V) (unresolved : lookup g V path = none) :
    (∃ rc, rc ≠ 0 ∧ Does (Holds g) V (resolveWriteTarget g path) (.error rc) V) ∨
      ∃ parentPath name parent naming, NewAt g V path parentPath name parent ∧
        NamingOf g V parent.firstCluster name naming ∧ Does (Holds g) V
    (resolveWriteTarget g path)
          (.ok (.fresh parent.firstCluster naming)) V := by
  have look := lookupFrom_does wf.closed path
  rw [unresolved] at look
  rw [resolveWriteTarget]
  rcases target_cases wf path with split | ⟨parentPath, name, split, rest⟩
  · rw [split]
    exact .inl ⟨-22, by decide, .bind look (.pure _)⟩
  have up := lookupFrom_does wf.closed parentPath
  rw [split]
  rcases rest with none | ⟨parent, some_parent, no_dir | ⟨at_new, rest⟩⟩
  · rw [none] at up
    exact .inl ⟨-2, by decide, .bind look (.bind up (.pure _))⟩
  · rw [some_parent] at up
    refine .inl ⟨-20, by decide, .bind look (.bind up ?_)⟩
    simp only [no_dir, Bool.not_false, if_true]
    exact .pure _
  rw [some_parent] at up
  rcases rest with ⟨rc, fails, does⟩ | ⟨naming, does, named⟩
  · refine .inl ⟨rc, fails, .bind look (.bind up ?_)⟩
    simp only [at_new.is_dir, Bool.not_true, false_eq_true, if_false]
    exact .bind does (.pure _)
  refine .inr ⟨parentPath, name, parent, naming, at_new, named, .bind look (.bind up ?_)⟩
  simp only [at_new.is_dir, Bool.not_true, false_eq_true, if_false]
  exact .bind does (.pure _)

theorem writePath_new_does (wf : WellFormed g V) (unresolved : lookup g V path = none)
    (buf : Nat → UInt8) {len : Nat} (small : len < 2 ^ 32) :
    ∃ rc V', Does (Holds g) V
    (writePath g path buf len) rc V' ∧ NewOutcome g V path 0x20 len rc V' := by
  rcases resolveWriteTarget_new_does wf unresolved with
    ⟨rc, fails, does⟩ | ⟨parentPath, name, parent, naming, at_new, named, resolved⟩
  · exact ⟨rc, V, .bind does (.pure _), .error fails⟩
  rcases dataPhase_does buf small fun newChain => do
      let rc ← writeEntryWithNaming g parent.firstCluster naming
        (buildDirentRaw naming.alias11 0x20 newChain len)
      if rc ≠ 0 then
        let _ ← fatFreeChain g newChain
      return rc with ⟨rc, fails, does⟩ | ⟨W, first, new, filled, does⟩
  · exact ⟨rc, V, .bind resolved does, .error fails.ne⟩
  obtain ⟨rc, V', finish, outcome⟩ := finish_does 0x20 len (.inl rfl) filled
    (at_new.at_dir.ok wf) named
  refine ⟨rc, V', .bind resolved (does _ _ finish), outcome.imp_right ?_⟩
  rintro ⟨ok, U, X, F, Y, N, creation⟩
  exact ⟨ok, parentPath, name, parent, naming, first, W, U, X, F, Y, N, at_new, creation⟩

def dotVol (g : Geometry) (V : Vol) (c parent : Nat) : Vol :=
  ((V.setFat c 0xFFFF).setSec (g.clusterToLba c) (dotSector c parent)).zeroed (g.clusterToLba c + 1)
    (g.sectorsPerCluster - 1)

theorem dotVol_filled {c : Nat} (free : c ∈ V.freeList g) (parent : Nat) :
    Filled g V (dotVol g V c parent) (byteAt g (dotVol g V c parent) [c]) g.clusterSize c [c] := by
  have cluster := freeList_cluster free
  have positive := g.spc_pos
  have chain : Chain g (V.linked [c]) c [c] := linked_chain (by simp) (by simpa using cluster)
  refine ⟨by simpa using ⟨cluster, (mem_freeList.1 free).2.2⟩, ⟨rfl, fun lba out => ?_⟩,
    .inr ⟨chain, ?_, ?_⟩, fun _ _ => rfl⟩
  · have outside := out c (by simp)
    simp only [InCluster] at outside
    have first : lba ≠ g.clusterToLba c := by omega
    have later : ¬ (g.clusterToLba c + 1 ≤ lba ∧ lba < g.clusterToLba c + 1 + (g.sectorsPerCluster - 1)) := by
      omega
    simp only [dotVol, Vol.zeroed, if_neg later, Vol.setSec_sec, Function.update_of_ne first]
    rfl
  · simp only [length_singleton, Bpb.clusterSize]
    omega
  · simp

theorem mkdirPath_does (wf : WellFormed g V) (unresolved : lookup g V path = none) :
    ∃ rc V', Does (Holds g) V (mkdirPath g path) rc V' ∧ NewOutcome g V path 0x10 0 rc V' := by
  have look := lookupFrom_does wf.closed path
  rw [unresolved] at look
  rw [mkdirPath]
  rcases target_cases wf path with split | ⟨parentPath, name, split, rest⟩
  · rw [split]
    exact ⟨-22, V, .bind look (.pure _), .error (by decide)⟩
  have up := lookupFrom_does wf.closed parentPath
  rw [split]
  rcases rest with none | ⟨parent, some_parent, no_dir | ⟨at_new, rest⟩⟩
  · rw [none] at up
    exact ⟨-2, V, .bind look (.bind up (.pure _)), .error (by decide)⟩
  · rw [some_parent] at up
    refine ⟨-20, V, .bind look (.bind up ?_), .error (by decide)⟩
    simp only [no_dir, Bool.not_false, if_true]
    exact .pure _
  rw [some_parent] at up
  -- past the checks
  have begins : ∀ {rc V'} {rest : Except Int EntryNaming → Driver Int} {r : Except Int EntryNaming},
      Does (Holds g) V (computeEntryNaming g parent.firstCluster name) r V →
      Does (Holds g) V (rest r) rc V' →
      Does (Holds g) V (if (!parent.isDir) = true then pure (-20)
        else computeEntryNaming g parent.firstCluster name >>= rest) rc V' := by
    intro rc V' rest r does next
    simp only [at_new.is_dir, Bool.not_true, false_eq_true, if_false]
    exact .bind does next
  rcases rest with ⟨rc, fails, does⟩ | ⟨naming, does, named⟩
  · exact ⟨rc, V, .bind look (.bind up (begins does (.pure _))), .error fails⟩
  have alloc := fatAllocCluster_does (g := g) (V := V)
  cases h : V.freeList g with
  | nil =>
    rw [h] at alloc
    exact ⟨-28, V, .bind look (.bind up (begins does (.bind alloc (.pure _)))), .error (by decide)⟩
  | cons c rest =>
    have free : c ∈ V.freeList g := by simp [h]
    have nonzero : c ≠ 0 := by have := (freeList_cluster free).1; omega
    rw [h] at alloc
    simp only [head?_cons, Option.getD_some, Vol.claim] at alloc
    obtain ⟨rc, V', finish, outcome⟩ := finish_does 0x10 0 (.inr rfl)
      (dotVol_filled free parent.firstCluster) (at_new.at_dir.ok wf) named
    refine ⟨rc, V', .bind look (.bind up (begins does (.bind alloc ?_))), outcome.imp_right ?_⟩
    · have area := rootDirLba_le_cluster (g := g) c
      simp only [nonzero, if_false]
      refine .bind (write_does _ _ area) ?_
      refine .bind (zeroSectors_does _ _ _ (by omega)) ?_
      exact finish
    · rintro ⟨ok, U, X, F, Y, N, creation⟩
      exact ⟨ok, parentPath, name, parent, naming, c, _, U, X, F, Y, N, at_new, creation⟩

/-- The directory lists one entry more, and every name that was answered is
answered as before. -/
structure Listed (g : Geometry) (V V' : Vol) (dir : Nat) (name : List UInt8) (raw : Slot) (new : Dirent) :
    Prop where
  added : ∃ A B, entries g V dir = A ++ B ∧ entries g V' dir = A ++ new :: B
  stored : new.name = storedName name
  raw : ∃ pos, EntryOf new (pos, cut raw)
  orderly : Orderly g V' dir
  ok : ∀ d, IsDirectory g V d → DirOk g V' d
  keeps : ∀ d, IsDirectory g V d → ∀ want de, find g V d want = some de → find g V' d want = some de
  found : find g V' dir name = some new

theorem Creation.listed (c : Creation g V W U V' dir name naming raw X F Y N) (wf : WellFormed g V)
    (at_dir : IsDirectory g V dir) (orderly : Orderly g V dir) (plain : 0 ∉ name)
    (some_name : name ≠ [])
    (good : GoodName name) (absent : find g V dir name = none) :
    ∃ new, Listed g V V' dir name raw new := by
  have ok := at_dir.ok wf
  have orderlyW := c.fresh.orderly ok orderly
  have namedW := c.fresh.namingOf ok c.named
  have absentW : find g W dir name = none := by rw [find, c.fresh.entries ok]; exact absent
  obtain ⟨L, pos, rfl, headed, entry⟩ := c.named.headed plain some_name good c.head c.kind c.written
  obtain ⟨tidy, A, B, was, now⟩ := c.inst.listing orderlyW.tidy headed
  have at_pos : (pos, cut raw) ∈ slots g V' dir := by simp [c.inst.now]
  have insert := fun want => find_insert want was now
  have was' : entries g V dir = A ++ B := by rw [← c.fresh.entries ok, was]
  refine ⟨_, ⟨A, B, was', now⟩, entry.stored c.flags, ⟨pos, entry.of⟩,
    orderlyW.insert namedW plain good entry absentW c.inst at_pos tidy was now, ?_, ?_, ?_⟩
  · intro d at_d
    by_cases here : d = dir
    · subst here
      exact c.inst.ok.congr c.inst.fat
    obtain ⟨okW, same, _⟩ := c.fresh.keeps (at_d.ok wf)
    refine (c.inst.other okW fun lba mem mem' => here ?_).1
    rw [same] at mem
    rw [(c.fresh.keeps ok).2.1] at mem'
    exact dir_of_lba wf at_d at_dir mem mem'
  · intro d at_d want de hit
    have okD := at_d.ok wf
    rw [find, ← c.fresh.entries okD, ← find] at hit
    by_cases here : d = dir
    · subst here
      rw [(insert want).1, hit]
      intro answers
      have none := find_none_iff.2 (namedW.unknown plain good entry orderlyW absentW answers)
      rw [none] at hit
      cases hit
    · obtain ⟨okW, same, _⟩ := c.fresh.keeps okD
      have kept := (c.inst.other okW fun lba mem mem' => here ?_).2
      · rw [find, entries_congr kept]
        exact hit
      · rw [same] at mem
        rw [(c.fresh.keeps ok).2.1] at mem'
        exact dir_of_lba wf at_d at_dir mem mem'
  · exact (insert name).2 (matches_iff.2 (.inl entry.caps)) absentW

theorem Listed.lookup {parentPath : List UInt8} {parent new : Dirent} (wf : WellFormed g V)
    (at_new : NewAt g V path parentPath name parent)
    (listed : Listed g V V' parent.firstCluster name raw new)
    (comps : components path = components parentPath ++ [name]) :
    lookup g V' path = some new ∧ Does (Holds g) V' (lookupFrom g path) (some new) V' := by
  have up : resolve g V rootSentinel (components parentPath) = some parent := at_new.up
  obtain ⟨up', walk⟩ := resolve_keep wf.closed listed.ok listed.keeps (components parentPath)
    (fun _ => ⟨0, .root⟩) up
  have look : Fat.lookup g V' path = some new := by
    rw [Fat.lookup, comps, resolve_append, up']
    simp [resolve, at_new.is_dir, listed.found]
  have walk' := walkable_snoc name walk up' fun _ => listed.ok _ at_new.at_dir
  rw [← comps] at walk'
  have does := lookupFrom_walk walk'
  rw [look] at does
  exact ⟨look, does⟩

theorem isDirSlot_build (alias11 : List UInt8) (attr : UInt8) (first size : Nat) :
    isDirSlot (cut (buildDirentRaw alias11 attr first size)) = decide (attr &&& 0x10 ≠ 0) := by
  rfl

theorem sizeOf_build (alias11 : List UInt8) (attr : UInt8) (first : Nat) {size : Nat}
    (small : size < 2 ^ 32) :
    sizeOf (cut (buildDirentRaw alias11 attr first size)) = size := by
  have same : sizeOf (cut (buildDirentRaw alias11 attr first size)) =
      sizeOf (buildDirentRaw alias11 attr first size) := by
    simp only [sizeOf, rd32]
    repeat rw [cut_apply _ (by decide)]
  rw [same, sizeOf, buildDirentRaw, rd32_put32, Nat.mod_eq_of_lt small]

end

inductive CreateOp where
  | write (b : Buffer)
  | mkdir

namespace CreateOp

def run (path : List UInt8) : CreateOp → Driver Int
  | write b => fatWritePath path b.bytes b.len
  | mkdir => fatMkdirPath path

def attr : CreateOp → UInt8
  | write _ => 0x20
  | mkdir => 0x10

def size : CreateOp → Nat
  | write b => b.len
  | mkdir => 0

end CreateOp

section
variable {g : Geometry} {V : Vol} {s s₁ s' : State}

theorem CreateOp.does (op : CreateOp) (wf : WellFormed g V) (unresolved : lookup g V path = none) :
    ∃ rc V', Does (Holds g) V
    (op.run path) rc V' ∧ NewOutcome g V path op.attr op.size rc V' := by
  cases op with
  | write b =>
    obtain ⟨rc, V', does, outcome⟩ := writePath_new_does wf unresolved b.bytes b.small
    exact ⟨rc, V', whenMounted_does does, outcome⟩
  | mkdir =>
    obtain ⟨rc, V', does, outcome⟩ := mkdirPath_does wf unresolved
    exact ⟨rc, V', whenMounted_does does, outcome⟩

theorem CreateOp.size_lt (op : CreateOp) : op.size < 2 ^ 32 := by
  cases op with
  | write b => exact b.small
  | mkdir => decide

/-- A path that does not resolve and whose last component is a good name: once it has
been created lookup finds it, its directory lists the new entry and the old ones,
short names still differ, and the directory is still in order. -/
theorem create_listed {path : List UInt8} {op : CreateOp} (sound : Sound g s)
    (orderly : ∀ dir, IsDirectory g (view g s.disk) dir → Orderly g (view g s.disk) dir)
    (string : 0 ∉ path) (good : GoodName (lastSegment path))
    (unresolved : fatLookup path s = some (none, s₁)) (done : op.run path s = some (0, s')) :
    ∃ parentPath parent new s₂, splitParentBase path = some (parentPath, lastSegment path) ∧
      lookup g (view g s.disk) parentPath = some parent ∧
      fatLookup path s' = some (some new, s₂) ∧ new.name = storedName (lastSegment path) ∧
      new.isDir = decide (op.attr &&& 0x10 ≠ 0) ∧ new.size = op.size ∧
      (∃ A B, entries g (view g s.disk) parent.firstCluster = A ++ B ∧
        entries g (view g s'.disk) parent.firstCluster = A ++ new :: B) ∧
      (live g (view g s'.disk) parent.firstCluster).Pairwise (fun a b => name11 a.2 ≠ name11 b.2) ∧
      Orderly g (view g s'.disk) parent.firstCluster := by
  obtain ⟨V, hs, wf, _⟩ := sound
  have look := ((fatLookup_does wf path).result hs unresolved).1.symm
  obtain ⟨rc, V', does, outcome⟩ := op.does wf look
  obtain ⟨rfl, hs'⟩ := does.result hs done
  rw [hs.view] at orderly ⊢
  rw [hs'.view]
  rcases outcome with ⟨failed, _⟩ | ⟨_, parentPath, name, parent, naming, first, W, U, X, F, Y, N, at_new, creation⟩
  · exact absurd rfl failed
  obtain ⟨some_name, base, comps⟩ := splitParentBase_components at_new.split
  obtain rfl : name = lastSegment path := by rw [base, take_of_length_le good.1]
  rw [components_segment some_name (lastSegment_plain path) (by have := good.1; omega)] at comps
  have plain : 0 ∉ lastSegment path := fun mem =>
    string ((dropWhile_sublist _).subset ((rtakeWhile_suffix _ _).subset mem))
  have absent : find g V parent.firstCluster (lastSegment path) = none := by
    have up : resolve g V rootSentinel (components parentPath) = some parent := at_new.up
    rw [lookup, comps, resolve_append, up] at look
    simpa [resolve, at_new.is_dir] using look
  obtain ⟨new, listed⟩ := creation.listed wf at_new.at_dir (orderly _ at_new.at_dir) plain some_name good absent
  obtain ⟨_, found⟩ := listed.lookup wf at_new comps
  obtain ⟨s₂, run, _⟩ := found s' hs'
  obtain ⟨pos, of⟩ := listed.raw
  refine ⟨parentPath, parent, new, s₂, at_new.split, at_new.up, ?_, listed.stored, ?_, ?_, listed.added,
    listed.orderly.short_unique, listed.orderly⟩
  · simp only [fatLookup, mounted, bind_apply, get_apply, Option.bind_some,
      pure_apply, hs'.fs]
    exact run
  · rw [of.isDir, isDirSlot_build]
  · rw [of.size, sizeOf_build _ _ _ op.size_lt]

/-- A caller that follows the cursors of `fat_readdir` to the end. -/
def readdirAll (dir : Dirent) : Nat → Nat → Driver (List Dirent)
  | 0, _ => Prog.diverge
  | n + 1, cursor => do
    match ← fatReaddir dir cursor with
    | none => return []
    | some (ent, next) => return ent :: (← readdirAll dir n next)

theorem readdirAll_does {dir : Dirent} {c : Nat} (ok : DirOk g V c)
    (here : dir.isDir ∧ dir.firstCluster = c) (n cursor : Nat)
    (rounds : (slots g V c).length - cursor < n) : Does (Holds g) V (readdirAll dir n cursor)
      (entriesFrom .empty ((slots g V c).drop cursor)) V := by
  induction n generalizing cursor with
  | zero => omega
  | succ n ih =>
    have read : Does (Holds g) V (fatReaddir dir cursor)
        (scanFrom .empty cursor ((slots g V c).drop cursor)) V := by
      intro s holds
      obtain ⟨s', run, after⟩ := readdirFrom_does ok cursor s holds
      simp only [fatReaddir, mounted, bind_apply, get_apply, Option.bind_some, pure_apply, holds.fs, here]
      exact ⟨s', run, after⟩
    refine .bind read ?_
    have h := entriesFrom_scan .empty cursor ((slots g V c).drop cursor)
    cases scan : scanFrom .empty cursor ((slots g V c).drop cursor) with
    | none =>
      simp only [scan] at h
      rw [h]
      exact .pure _
    | some r =>
      simp only [scan, length_drop] at h
      obtain ⟨lo, hi, eq⟩ := h
      rw [eq, drop_drop, Nat.add_sub_cancel' (Nat.le_of_lt lo)]
      exact .bind (ih r.2 (by omega)) (.pure _)

/-- A name is looked up in what the directory lists: the first entry with that name or alias. -/
theorem lookup_searches_listing {dir : Dirent} (sound : Sound g s)
    (found : fatLookup path s = some (some dir, s₁)) (is_dir : dir.isDir) :
    ∃ l s', readdirAll dir scanRounds 0 s = some (l, s') ∧ ∀ want, ∃ s₂,
      dirFindByName g dir.firstCluster want s = some (l.find? (·.matches want), s₂) := by
  obtain ⟨V, holds, wf, _⟩ := sound
  have look := ((fatLookup_does wf path).result holds found).1.symm
  have ok := (lookup_directory wf look is_dir).ok wf
  have short := slots_length_lt ok
  obtain ⟨s', listed, -⟩ := readdirAll_does ok ⟨is_dir, rfl⟩ scanRounds 0
    (by simp only [scanRounds]; omega) s holds
  refine ⟨_, s', listed, fun want => ?_⟩
  obtain ⟨s₂, search, -⟩ := dirFindByName_does ok want s holds
  exact ⟨s₂, search⟩

theorem small_listing_searched : ∃ r,
    readdirAll rootSentinel scanRounds 0 (mount smallGeometry smallVol) = some r := by
  have root : fatLookup [] (mount smallGeometry smallVol) = some (some rootSentinel, _) := rfl
  obtain ⟨l, s', listed, -⟩ := lookup_searches_listing small_sound root rfl
  exact ⟨_, listed⟩

end

theorem small_orderly {dir : Nat} (at_dir : IsDirectory smallGeometry smallVol dir) :
    Orderly smallGeometry smallVol dir := by
  obtain ⟨_, h⟩ := at_dir
  obtain rfl := root_only small_live (by decide) h
  have listing : entries smallGeometry smallVol 0 = [⟨[65], [65], false, 512, 2, 17, 0⟩] := by
    decide +kernel
  have shape : slots smallGeometry smallVol 0 =
      [] ++ ((17, 0), slotAt smallVol (17, 0)) :: (sectorSlots smallVol 17).drop 1 := rfl
  refine ⟨?_, ?_, by rw [listing]; exact pairwise_singleton _ _⟩
  · rw [shape]
    refine .entry (headed_short (by decide) (by decide)) (.fin ?_)
    decide +kernel
  intro de mem p _ packs
  rw [listing, mem_singleton] at mem
  subst mem
  have packed : nameTo83 [65] = some (name11 (slotAt smallVol (17, 0))) := by decide +kernel
  exact Option.some.inj (packed.symm.trans (packs.elim id id))

/-- The file `ab c` needs a long name and is found under it. -/
theorem small_create_listed :
    ∃ s' new s₂, (CreateOp.write threeBytes).run [97, 98, 32, 99]
    (mount smallGeometry smallVol) = some (0, s') ∧
      fatLookup [97, 98, 32, 99] s' = some (some new, s₂) ∧ new.name = [97, 98, 32, 99] := by
  have code : ((CreateOp.write threeBytes).run [97, 98, 32, 99] (mount smallGeometry smallVol)).map (·.1) =
      some 0 := by decide +kernel
  have absent : (fatLookup [97, 98, 32, 99] (mount smallGeometry smallVol)).map (·.1) = some none := by
    decide +kernel
  obtain ⟨⟨rc, s'⟩, done, rfl⟩ := Option.map_eq_some_iff.1 code
  obtain ⟨⟨r, s₁⟩, look, rfl⟩ := Option.map_eq_some_iff.1 absent
  have shown := (mount_holds small_normal).view
  obtain ⟨_, _, new, s₂, _, _, found, name, _⟩ := create_listed small_sound
    (fun dir at_dir => by rw [shown] at at_dir ⊢; exact small_orderly at_dir)
    (by decide) (by decide) look done
  exact ⟨s', new, s₂, done, found, name⟩

/-- The file `b` is listed as `B`, and nothing is listed as `b`. -/
theorem small_create_upper :
    ∃ s₁ s', fatLookup [98] (mount smallGeometry smallVol) = some (none, s₁) ∧
      (CreateOp.write threeBytes).run [98] (mount smallGeometry smallVol) = some (0, s') ∧
      ∀ de ∈ entries smallGeometry (view smallGeometry s'.disk) 0, de.name ≠ [98] := by
  have absent : (fatLookup [98] (mount smallGeometry smallVol)).map (·.1) = some none := by decide +kernel
  have run : ((CreateOp.write threeBytes).run [98] (mount smallGeometry smallVol)).map (fun r =>
      (r.1, (entries smallGeometry (view smallGeometry r.2.disk) 0).map (·.name))) = some (0, [[65], [66]]) := by
    decide +kernel
  obtain ⟨⟨r, s₁⟩, look, rfl⟩ := Option.map_eq_some_iff.1 absent
  obtain ⟨⟨rc, s'⟩, done, both⟩ := Option.map_eq_some_iff.1 run
  obtain ⟨rfl, names⟩ := Prod.mk.inj both
  refine ⟨s₁, s', look, done, fun de mem same => ?_⟩
  have listed := mem_map_of_mem (f := Dirent.name) mem
  rw [names, same] at listed
  exact absurd listed (by decide)

end Osnos.Fat
