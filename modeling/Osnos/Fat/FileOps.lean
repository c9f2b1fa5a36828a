import Osnos.Fat.Edits
import Osnos.Fat.Ops

/-! Write, append and unlink on a path that resolves to an existing regular file.
Each ends in a step that changes this one entry, or leaves the volume as it was. -/
namespace Osnos.Fat
open Nat Prog Vol List

structure FileAt (g : Geometry) (V : Vol) (path : List UInt8) (de : Dirent) (pos : Pos) (slot : Slot)
    (old : List Nat) : Prop where
  look : lookup g V path = some de
  node : Node g V pos slot
  is_file : isDirSlot slot = false
  of : EntryOf de (pos, slot)
  chain : EntryChain g V slot old

variable {de : Dirent} {len : Nat}

section
variable {g : Geometry} {V V' : Vol}

theorem resolve_mem (wf : WellFormed g V) {cur : Dirent} {comps : List (List UInt8)}
    (start : cur.isDir → IsDirectory g V cur.firstCluster) (h : resolve g V cur comps = some de) :
    de = cur ∨ ∃ dir, IsDirectory g V dir ∧ de ∈ entries g V dir := by
  induction comps generalizing cur with
  | nil => exact .inl (Option.some.inj h).symm
  | cons comp rest ih =>
    rw [resolve] at h
    by_cases is_dir : cur.isDir
    · simp only [is_dir, if_true, Option.bind_eq_some_iff] at h
      obtain ⟨next, hit, h⟩ := h
      have mem := find_mem hit
      rcases ih (fun down => wf.closed.step _ (start is_dir) next mem down) h with rfl | found
      · exact .inr ⟨_, start is_dir, mem⟩
      · exact .inr found
    · simp [is_dir] at h

theorem lookup_mem (wf : WellFormed g V) {path : List UInt8} (h : lookup g V path = some de) :
    de = rootSentinel ∨ ∃ dir, IsDirectory g V dir ∧ de ∈ entries g V dir :=
  resolve_mem wf (fun _ => ⟨0, .root⟩) h

theorem fileAt_of_lookup (wf : WellFormed g V) {path : List UInt8}
    (look : lookup g V path = some de) (is_file : de.isDir = false) :
    ∃ pos slot old, FileAt g V path de pos slot old := by
  rcases lookup_mem wf look with rfl | ⟨dir, at_dir, mem⟩
  · cases is_file
  obtain ⟨⟨pos, slot⟩, mem, of⟩ := entries_live mem
  have file : isDirSlot slot = false := of.isDir.symm.trans is_file
  have real : ¬ isDots slot := by
    obtain ⟨_, at_dir⟩ := at_dir
    intro dots
    rcases Bool.or_eq_true_iff.1 dots with dot | dotDot
    · simp [(wf.dot at_dir _ mem dot).1] at file
    · simp [(wf.dotDot at_dir _ mem dotDot).1] at file
  have node : Node g V pos slot := ⟨dir, at_dir, mem, real⟩
  obtain ⟨old, chain⟩ := wf.chains node
  exact ⟨pos, slot, old, look, node, file, of, chain⟩

theorem dirLbas_area (ok : DirOk g V dir) {lba : Nat} (mem : lba ∈ dirLbas g V dir) :
    g.rootDirLba ≤ lba := by
  rcases ok with rfl | ⟨l, chain⟩
  · exact (mem_rootLbas.1 mem).1
  · obtain ⟨c, _, inside⟩ := (mem_dirLbas_chain chain).1 mem
    exact (rootDirLba_le_cluster c).trans inside.1

theorem Node.area (wf : WellFormed g V) {pos : Pos} {slot : Slot} (node : Node g V pos slot) :
    g.rootDirLba ≤ pos.1 := by
  obtain ⟨_, at_dir, mem, _⟩ := node
  exact dirLbas_area (at_dir.ok wf) (slots_lba (live_slots mem))

theorem rootDirLba_pos : 0 < g.rootDirLba := by
  have := fatLba_pos g
  simp only [Bpb.rootDirLba]
  omega

namespace FileAt
variable {path : List UInt8} {de : Dirent} {pos : Pos} {slot : Slot} {old : List Nat}
  (f : FileAt g V path de pos slot old)
include f

theorem lba : de.direntLba = pos.1 := (Prod.mk.inj f.of.pos).1

theorem isDir : de.isDir = false := f.of.isDir.trans f.is_file

theorem lba_ne_zero (wf : WellFormed g V) : de.direntLba ≠ 0 := by
  have area := f.node.area wf
  have := rootDirLba_pos (g := g)
  rw [f.lba]
  omega

theorem resolveWriteTarget_does (wf : WellFormed g V) :
    Does (Holds g) V (resolveWriteTarget g path) (.ok (.existing de)) V := by
  have look := lookupFrom_does wf.closed path
  rw [f.look] at look
  refine .bind look ?_
  simp only [f.isDir, Bool.false_eq_true, if_false, f.lba_ne_zero wf]
  exact .pure _

theorem apart (wf : WellFormed g V) {new : List Nat} (fresh : ∀ c ∈ new, 2 ≤ c ∧ V.fat c = 0) :
    (∀ c ∈ old, ¬ InCluster g c pos.1) ∧ ∀ c ∈ new, ¬ InCluster g c pos.1 := by
  obtain ⟨_, at_dir, mem, _⟩ := id f.node
  have same : ∀ c, c ∉ old → c ∉ new → V.fat c = V.fat c := fun _ _ _ => rfl
  refine (dir_keep wf new f.node f.chain same (fun c hc _ => fresh c hc) at_dir
    (by simp [f.is_file])).2.2 pos.1 ?_
  exact slots_lba (live_slots mem)

end FileAt

theorem clustersFor_eq (small : len < 2 ^ 32) :
    clustersFor g len = if len + g.clusterSize ≤ 2 ^ 32 then
    (len + g.clusterSize - 1) / g.clusterSize
      else 0 := by
  have pos := g.clusterSize_pos
  have cap : g.clusterSize < 2 ^ 17 := by
    have := g.ranged.spc
    simp only [Bpb.clusterSize]
    omega
  rw [clustersFor]
  by_cases fits : len + g.clusterSize ≤ 2 ^ 32
  · rw [if_pos fits, mod_eq_of_lt (by omega)]
  rw [if_neg fits]
  have wrapped : (len + g.clusterSize - 1) % 2 ^ 32 = len + g.clusterSize - 1 - 2 ^ 32 := by
    rw [mod_eq_sub_mod (by omega), mod_eq_of_lt (by omega)]
  exact div_eq_of_lt (by omega)

theorem ceil_spec (len : Nat) : len ≤ (len + g.clusterSize - 1) / g.clusterSize * g.clusterSize ∧
      (0 < len → 0 < (len + g.clusterSize - 1) / g.clusterSize ∧
        ((len + g.clusterSize - 1) / g.clusterSize - 1) * g.clusterSize < len) ∧
      (len = 0 → (len + g.clusterSize - 1) / g.clusterSize = 0) := by
  have pos := g.clusterSize_pos
  generalize hq : (len + g.clusterSize - 1) / g.clusterSize = q
  have low : q * g.clusterSize ≤ len + g.clusterSize - 1 := by
    rw [← hq]
    exact div_mul_le_self _ _
  have high : len + g.clusterSize - 1 < (q + 1) * g.clusterSize := by
    rw [← hq, ← succ_eq_add_one, succ_mul, Nat.mul_comm]
    exact lt_mul_div_succ _ pos
  rw [succ_mul] at high
  refine ⟨by omega, fun some_len => ?_, fun none => ?_⟩
  · have qpos : 0 < q := by
      rw [← hq]
      exact Nat.div_pos (by omega) pos
    rw [Nat.sub_mul]
    exact ⟨qpos, by omega⟩
  · rw [← hq, none]
    exact div_eq_of_lt (by omega)

theorem readModifyWriteDirent_does {lba : Nat} (off : Nat) (raw : Slot)
    (area : g.rootDirLba ≤ lba) :
    Does (Holds g) V (readModifyWriteDirent lba off raw) 0
      (V.setSec lba (putSlot (V.sec lba) off raw)) := by
  exact .bind (read_does area) (.bind (write_does _ _ area) (.pure _))

def replacedSector (buf : Sector) (off newChain len : Nat) : Sector :=
  putSlot buf off (put32 (put16 (fun i => buf (off + i)) 26 newChain) 28 len)

theorem replaceChain_does {pos : Pos} {slot : Slot} {old : List Nat} (newChain len : Nat)
    (of : EntryOf de (pos, slot)) (area : g.rootDirLba ≤ pos.1)
    (chain : old = [] ∧ firstOf slot = 0 ∨ Chain g V (firstOf slot) old) :
    Does (Holds g) V (replaceChain g de newChain len) 0
      ((V.setSec pos.1 (replacedSector (V.sec pos.1) pos.2 newChain len)).free old) := by
  have at_lba : de.direntLba = pos.1 := (Prod.mk.inj of.pos).1
  have at_off : de.direntOffset = pos.2 := (Prod.mk.inj of.pos).2
  rw [replaceChain, at_lba, at_off, of.firstCluster]
  refine .bind (read_does area) (.bind (readModifyWriteDirent_does _ _ area) ?_)
  rcases chain with ⟨rfl, zero⟩ | chain
  · simp only [zero, free_nil]
    exact .pure _
  have first := chain.first
  have live : firstOf slot ≥ 2 ∧ firstOf slot < 0xFFF8 := ⟨first.1, by have := first.2.1; omega⟩
  simp only [live, and_self, if_true]
  exact .bind (fatFreeChain_does (chain.congr fun _ _ => rfl)) (.pure _)

/-- `new` is a chain of formerly free clusters, linked from `first` and filled with
`len` bytes; it is not yet any entry's. -/
structure Filled (g : Geometry) (V W : Vol) (buf : Nat → UInt8) (len first : Nat) (new : List Nat) :
    Prop where
  free : ∀ c ∈ new, IsCluster g c ∧ V.fat c = 0
  only : OnlyClusters g new (V.linked new) W
  entry : new = [] ∧ first = 0 ∧ len = 0 ∨ Chain g (V.linked new) first new ∧
    (new.length - 1) * g.clusterSize < len ∧ len ≤ new.length * g.clusterSize
  bytes : ∀ i < len, byteAt g W new i = buf i

theorem Filled.first_lt {W : Vol} {buf : Nat → UInt8} {first : Nat} {new : List Nat}
    (h : Filled g V W buf len first new) : first < 65536 := by
  rcases h.entry with ⟨_, zero, _⟩ | ⟨chain, _⟩
  · omega
  · have := chain.first.2.1
    omega

theorem filled_take (buf : Nat → UInt8) {n : Nat}
    (count : (len + g.clusterSize - 1) / g.clusterSize = n)
    (room : n ≤ (V.freeList g).length) :
    ∃ W new, (V.freeList g).take n = new ∧ Filled g V W buf len (new.head?.getD 0) new ∧
      if 0 < len then Does (Holds g) (V.linked new)
        (writeDataIntoChain g (new.head?.getD 0) buf len) 0 W else W = V.linked new := by
  obtain ⟨enough, tight, none⟩ := ceil_spec len
  rw [count] at enough tight none
  have free : ∀ c ∈ (V.freeList g).take n, IsCluster g c ∧ V.fat c = 0 := fun c hc =>
    ⟨freeList_cluster (mem_of_mem_take hc), (mem_freeList.1 (mem_of_mem_take hc)).2.2⟩
  have len_new : ((V.freeList g).take n).length = n := length_take_of_le room
  have nodup : ((V.freeList g).take n).Nodup := freeList_nodup.sublist (take_sublist _ _)
  generalize (V.freeList g).take n = new at *
  by_cases some_data : 0 < len
  · cases new with
    | nil =>
      simp only [length_nil] at len_new
      omega
    | cons c l =>
      have chain := linked_chain (V := V) nodup fun x hx => (free x hx).1
      obtain ⟨W, does, only, bytes⟩ := writeDataIntoChain_does c len buf (c :: l) chain
        (by rw [len_new]; exact enough)
      refine ⟨W, c :: l, rfl, ⟨free, only, .inr ⟨chain, ?_⟩, bytes⟩, by rw [if_pos some_data]; exact does⟩
      rw [len_new]
      exact ⟨(tight some_data).2, enough⟩
  · have zero : len = 0 := by omega
    have nil : new = [] := List.length_eq_zero_iff.1 (len_new.trans (none zero))
    subst nil
    exact ⟨V.linked [], [], rfl, ⟨by simp, .refl _, .inl ⟨rfl, rfl, zero⟩, fun i hi => by omega⟩, by
      rw [if_neg some_data]⟩

/-- The data phase of `fat_write_path`, before the entry is touched: it fails and
nothing has changed, or the new chain is handed on. -/
theorem dataPhase_does (buf : Nat → UInt8) (small : len < 2 ^ 32) (finish : Nat → Driver Int) :
    let prog : Driver Int := do
      let (rc, newChain) ← fatAllocChain g (clustersFor g len)
      if rc ≠ 0 then return rc
      let rc ← if len > 0 then writeDataIntoChain g newChain buf len else pure 0
      if rc ≠ 0 then
        let _ ← fatFreeChain g newChain
        return rc
      finish newChain
    (∃ rc < 0, Does (Holds g) V prog rc V) ∨ ∃ W first new, Filled g V W buf len first new ∧
        ∀ rc V', Does (Holds g) W (finish first) rc V' → Does (Holds g) V prog rc V' := by
  intro prog
  have alloc := fatAllocChain_does (g := g) (V := V) (clustersFor g len)
  rw [clustersFor_eq small] at alloc
  by_cases fits : len + g.clusterSize ≤ 2 ^ 32
  · rw [if_pos fits] at alloc
    generalize hn : (len + g.clusterSize - 1) / g.clusterSize = n at *
    by_cases room : n ≤ (V.freeList g).length
    · obtain ⟨W, new, taken, filled, data⟩ := filled_take buf hn room
      rw [if_pos room, if_pos room, taken] at alloc
      refine .inr ⟨W, _, new, filled, fun rc V' last => ?_⟩
      simp only [prog, clustersFor_eq small, if_pos fits, hn]
      refine .bind alloc ?_
      by_cases some_data : 0 < len
      · rw [if_pos some_data] at data ⊢
        exact .bind data last
      · rw [if_neg some_data] at data ⊢
        subst data
        exact .bind (.pure 0) last
    · refine .inl ⟨-28, by decide, ?_⟩
      rw [if_neg room, if_neg room] at alloc
      simp only [prog, clustersFor_eq small, if_pos fits, hn]
      refine .bind alloc ?_
      exact .pure _
  · -- the cluster count wraps to none at all, and the first data write finds no chain
    have some_data : 0 < len := by
      have := g.ranged.spc
      simp only [Bpb.clusterSize] at fits
      omega
    refine .inl ⟨-5, by decide, ?_⟩
    rw [if_neg fits] at alloc
    simp only [prog, clustersFor_eq small, if_neg fits]
    refine .bind alloc ?_
    simp only [ne_eq, gt_iff_lt, some_data, if_true]
    refine .bind (writeDataIntoChain_zero_does len buf some_data) ?_
    exact .bind fatFreeChain_zero_does (.pure _)

theorem chain_after_fill {slot : Slot} {old new : List Nat} {W : Vol} {buf : Nat → UInt8}
    {first : Nat}
    (chain : EntryChain g V slot old) (is_file : isDirSlot slot = false)
    (filled : Filled g V W buf len first new) :
    old = [] ∧ firstOf slot = 0 ∨ Chain g W (firstOf slot) old := by
  rcases (chain.file is_file).2 with ⟨nil, first, _⟩ | chain
  · exact .inl ⟨nil, first⟩
  refine .inr (chain.congr fun x hx => ?_)
  have out : x ∉ new := fun hx' => (chain.allocated hx).2.1 (filled.free x hx').2
  rw [filled.only.fat]
  exact Links.link_of_not_mem _ out

namespace FileAt
variable {path : List UInt8} {de : Dirent} {pos : Pos} {slot : Slot} {old new : List Nat} {W : Vol}
  {buf : Nat → UInt8} {first len : Nat} (f : FileAt g V path de pos slot old) (wf : WellFormed g V)
include f wf

theorem write_step (small : len < 2 ^ 32) (filled : Filled g V W buf len first new) : EntryStep g V
    ((W.setSec pos.1 (replacedSector (W.sec pos.1) pos.2 first len)).free old) pos slot
      (some (withChain slot first len)) old new := by
  obtain ⟨free, only, entry, _⟩ := id filled
  have apart := f.apart wf fun c hc => ⟨(free c hc).1.1, (free c hc).2⟩
  have home : W.sec pos.1 = V.sec pos.1 := only.sec _ apart.2
  have disjoint : ∀ c ∈ new, c ∉ old := fun c hc hc' =>
    (Owns.allocated ⟨slot, f.node, f.chain⟩ hc').2.1 (free c hc).2
  have head := withChain_head slot first len
  obtain ⟨i, _, offset⟩ : ∃ i < 16, pos.2 = i * 32 := by
    obtain ⟨_, _, mem, _⟩ := f.node
    exact slots_offset (live_slots mem)
  refine .of_put wf _ f.node f.is_file f.chain head ?_ ?_ ?_ ?_
    (put16_put32_slotIn (V.sec pos.1) i first len |>.trans ?_) ?_
  · intro c hc hc'
    simp only [Vol.free, hc, if_false, setSec_fat, only.fat, linked,
      Links.link_of_not_mem _ hc']
  · intro c hc _
    simp only [Vol.free, hc, if_true]
  · intro c hc _
    exact ⟨(free c hc).1.1, (free c hc).2⟩
  · rw [EntryChain, head.isDirSlot, f.is_file, firstOf_withChain _ _ filled.first_lt,
      sizeOf_withChain _ _ small]
    refine entry.imp_right fun file => ⟨file.1.congr fun x hx => ?_, file.2⟩
    simp only [Vol.free, disjoint x hx, if_false, setSec_fat, only.fat]
  · rw [withChain, f.node.slotAt, slotAt, offset, Nat.mul_div_cancel i (by decide)]
  intro lba _ notNew
  simp only [Vol.free, setSec_sec]
  by_cases here : lba = pos.1
  · subst here
    rw [Function.update_self, if_pos rfl, replacedSector, home, offset]
  · rw [Function.update_of_ne here, if_neg here, only.sec lba notNew]
    rfl

theorem write_bytes (small : len < 2 ^ 32) (filled : Filled g V W buf len first new) :
    fileBytes g ((W.setSec pos.1 (replacedSector (W.sec pos.1) pos.2 first len)).free old)
      (withChain slot first len) = (range len).map buf := by
  have step := f.write_step wf small filled
  have put := (step.put _ rfl).2
  obtain ⟨free, only, entry, bytes⟩ := filled
  have apart := f.apart wf fun c hc => ⟨(free c hc).1.1, (free c hc).2⟩
  rw [fileBytes_eq put.2.2 put.1, sizeOf_withChain _ _ small, slice]
  apply map_congr_left
  intro i hi
  have inside := List.mem_range.1 hi
  have fits : len ≤ new.length * g.clusterSize := by
    rcases entry with ⟨_, _, zero⟩ | ⟨_, _, fits⟩
    · omega
    · exact fits
  rw [Nat.zero_add, ← bytes i inside]
  refine byteAt_congr new (by omega) fun c hc lba hl => ?_
  have differ : lba ≠ pos.1 := fun eq => apart.2 c hc (eq ▸ hl)
  simp only [Vol.free, setSec_sec, Function.update_of_ne differ]

theorem writePath_does (buf : Nat → UInt8) (small : len < 2 ^ 32) :
    ∃ rc V', Does (Holds g) V (writePath g path buf len) rc V' ∧
      (rc < 0 ∧ V' = V ∨ rc = 0 ∧ ∃ first new,
        EntryStep g V V' pos slot (some (withChain slot first len)) old new ∧
        fileBytes g V' (withChain slot first len) = (range len).map buf) := by
  have resolved := f.resolveWriteTarget_does wf
  rcases dataPhase_does buf small fun newChain => replaceChain g de newChain len with
    ⟨rc, fails, does⟩ | ⟨W, first, new, filled, does⟩
  · exact ⟨rc, V, .bind resolved does, .inl ⟨fails, rfl⟩⟩
  have kept := chain_after_fill f.chain f.is_file filled
  exact ⟨0, _, .bind resolved (does _ _ (replaceChain_does first len f.of (f.node.area wf) kept)),
    .inr ⟨rfl, first, new, f.write_step wf small filled, f.write_bytes wf small filled⟩⟩

end FileAt

end

end Osnos.Fat
