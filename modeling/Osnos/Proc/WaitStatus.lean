import Osnos.Mem.Vmm

/-! A parent that finds its child gone copies the status to its own memory with
`copy_to_user`. For a parent that waits, the child stores it: it looks the page up in the
parent's tables and writes through the kernel's map of physical memory. Both are given here
as the stores to physical memory they make. -/
namespace Osnos.Wait
open Osnos.Mem

abbrev OSNOS_USER_VIRT_MAX : Nat := 0x800000000000
abbrev Stores := List (Nat × Byte)

inductive Change
  | exited (code : Int)
  | stopped
  | continued

/-- `encode_wait_status`, which `proc_exit_current_user` repeats, `encode_stopped_status` for
`SIGSTOP`, and `WCONTINUED_STATUS`. -/
def Change.status : Change → BitVec 32
  | .exited code =>
    if 128 ≤ code ∧ code ≤ 128 + 31 then BitVec.ofInt 32 (code - 128) &&& 0x7f
    else (BitVec.ofInt 32 code &&& 0xff) <<< 8
  | .stopped => (19 &&& 0xff) <<< 8 ||| 0x7f
  | .continued => 0xffff

def bytes (s : BitVec 32) : List Byte := (List.range 4).map fun k => s.extractLsb' (8 * k) 8

def storesTo (addr : Nat → Nat) (s : BitVec 32) : Stores :=
  (List.range 4).map fun k => (addr k, s.extractLsb' (8 * k) 8)

section paths

variable (wp : Bool) (r : Ram) (pml4 : Nat)

def lets (e : Word) : Bool := present e && (!wp || e &&& pteW != 0)

def pageWritable (va : Nat) : Bool :=
  let pdpt := frameOf (r.entry pml4 (idx va 4))
  let pd := frameOf (r.entry pdpt (idx va 3))
  let pt := frameOf (r.entry pd (idx va 2))
  lets wp (r.entry pml4 (idx va 4)) && lets wp (r.entry pdpt (idx va 3)) &&
    lets wp (r.entry pd (idx va 2)) && lets wp (r.entry pt (idx va 1))

def storeAt (va : Nat) : Option Nat :=
  if pageWritable wp r pml4 va then some (frameOf (leafEntry r pml4 va) * 4096 + va % 4096)
  else none

def userRangeOk (addr n : Nat) : Bool :=
  n == 0 || (decide (addr + n < 2 ^ 64) && decide (addr + n ≤ OSNOS_USER_VIRT_MAX))

/-- `__uaccess_copy_bytes`: byte by byte up to the first fault. -/
def uaccessCopyBytes : Nat → List Byte → Stores
  | _, [] => []
  | va, b :: bs =>
    match storeAt wp r pml4 va with
    | none => []
    | some p => (p, b) :: uaccessCopyBytes (va + 1) bs

def copyToUser (va : Nat) (bs : List Byte) : Stores :=
  if va = 0 then []
  else if !userRangeOk va bs.length then []
  else uaccessCopyBytes wp r pml4 va bs

def immediate (uStatus : Nat) (s : BitVec 32) : Stores :=
  if uStatus = 0 then [] else copyToUser wp r pml4 uStatus (bytes s)

/-- The status store of `proc_exit_current_user` and `notify_parent_stop_continue` for a
parent that waits. -/
def blocked (uStatus : Nat) (s : BitVec 32) : Stores :=
  if uStatus = 0 then []
  else
    let phys := vmmLookup r pml4 (uStatus / 4096 * 4096)
    if phys = 0 then [] else storesTo (fun k => phys + uStatus % 4096 + k) s

def Writable (va : Nat) : Prop :=
  va ≠ 0 ∧ userRangeOk va 4 ∧ ∀ k < 4, pageWritable wp r pml4 (va + k) = true

structure Faithful (va : Nat) (s : BitVec 32) (stores : Stores) : Prop where
  written : Writable wp r pml4 va →
    stores = storesTo (fun k => frameOf (leafEntry r pml4 (va + k)) * 4096 + (va + k) % 4096) s
  refused : ¬Writable wp r pml4 va → stores = []

inductive Plain (va : Nat) : Prop
  | null (null : va = 0)
  | unmapped (missing : vmmLookup r pml4 (va / 4096 * 4096) = 0)
      (closed : userRangeOk va 4 = false ∨ pageWritable wp r pml4 va = false)
  | page (mapped : vmmLookup r pml4 (va / 4096 * 4096) ≠ 0) (range : userRangeOk va 4)
      (writable : pageWritable wp r pml4 va) (inside : va % 4096 + 4 ≤ 4096)
  | adjacent (mapped : vmmLookup r pml4 (va / 4096 * 4096) ≠ 0) (range : userRangeOk va 4)
      (writable : pageWritable wp r pml4 va) (next : pageWritable wp r pml4 (va + 3))
      (frames : frameOf (leafEntry r pml4 (va + 3)) = frameOf (leafEntry r pml4 va) + 1)

end paths

variable {wp : Bool} {r : Ram} {pml4 va va' : Nat} {s : BitVec 32}

theorem idx_page (same : va / 4096 = va' / 4096) (level : Nat) : idx va level = idx va' level := by
  have split : ∀ v, v / 2 ^ (12 + 9 * (level - 1)) = v / 4096 / 2 ^ (9 * (level - 1)) := by
    intro v
    rw [pow_add, Nat.div_div_eq_div_mul]
    norm_num
  rw [idx, idx, split, split, same]

theorem pageWritable_page (same : va / 4096 = va' / 4096) :
    pageWritable wp r pml4 va = pageWritable wp r pml4 va' := by
  unfold pageWritable
  simp only [idx_page same]

theorem leafEntry_page (same : va / 4096 = va' / 4096) :
    leafEntry r pml4 va = leafEntry r pml4 va' := by
  unfold leafEntry
  simp only [idx_page same]

theorem lookup_writable (writable : pageWritable wp r pml4 va) :
    vmmLookup r pml4 (va / 4096 * 4096) = frameOf (leafEntry r pml4 va) * 4096 := by
  have page : va / 4096 * 4096 / 4096 = va / 4096 := Nat.mul_div_cancel _ (by norm_num)
  have leaf : present (leafEntry r pml4 va) := by
    simp only [pageWritable, lets, Bool.and_eq_true] at writable
    obtain ⟨⟨⟨⟨p4, _⟩, p3, _⟩, p2, _⟩, p1, _⟩ := writable
    simp [leafEntry, p4, p3, p2, p1]
  rw [vmmLookup, leafEntry_page page]
  simp [leaf]

theorem storesTo_inj {f g : Nat → Nat} : storesTo f s = storesTo g s ↔ ∀ k < 4, f k = g k := by
  simp only [storesTo, List.map_inj_left, List.mem_range, Prod.mk.injEq, and_true]

theorem storesTo_ne_nil (f : Nat → Nat) : storesTo f s ≠ [] := nofun

theorem copyBytes_writable (writable : ∀ k < 4, pageWritable wp r pml4 (va + k)) :
    uaccessCopyBytes wp r pml4 va (bytes s) =
      storesTo (fun k => frameOf (leafEntry r pml4 (va + k)) * 4096 + (va + k) % 4096) s := by
  have step : ∀ k < 4, ∀ b bs, uaccessCopyBytes wp r pml4 (va + k) (b :: bs) =
      (frameOf (leafEntry r pml4 (va + k)) * 4096 + (va + k) % 4096, b) ::
        uaccessCopyBytes wp r pml4 (va + (k + 1)) bs := by
    intro k small b bs
    rw [uaccessCopyBytes, storeAt, if_pos (writable k small)]
    rfl
  change uaccessCopyBytes wp r pml4 (va + 0) [_, _, _, _] = _
  rw [step 0 (by omega), step 1 (by omega), step 2 (by omega), step 3 (by omega)]
  rfl

theorem immediate_of_range (some : va ≠ 0) (range : userRangeOk va 4) :
    immediate wp r pml4 va s = uaccessCopyBytes wp r pml4 va (bytes s) := by
  have length : (bytes s).length = 4 := rfl
  rw [immediate, if_neg some, copyToUser, if_neg some, length, range]
  rfl

theorem immediate_outside (outside : userRangeOk va 4 = false) : immediate wp r pml4 va s = [] := by
  have length : (bytes s).length = 4 := rfl
  rw [immediate, copyToUser, length, outside]
  split <;> rfl

theorem immediate_closed (closed : pageWritable wp r pml4 va = false) :
    immediate wp r pml4 va s = [] := by
  have first : uaccessCopyBytes wp r pml4 va (bytes s) = [] := by
    change uaccessCopyBytes wp r pml4 va [_, _, _, _] = _
    rw [uaccessCopyBytes, storeAt, if_neg (by rw [closed]; decide)]
  unfold immediate copyToUser
  rw [first]
  split
  · rfl
  · split <;> rfl

theorem faithful_immediate (writable : Writable wp r pml4 va) :
    Faithful wp r pml4 va s (immediate wp r pml4 va s) := by
  refine ⟨fun _ => ?_, fun not => absurd writable not⟩
  rw [immediate_of_range writable.1 writable.2.1, copyBytes_writable writable.2.2]

theorem blocked_mapped (some : va ≠ 0) (mapped : vmmLookup r pml4 (va / 4096 * 4096) ≠ 0) :
    blocked r pml4 va s =
      storesTo (fun k => vmmLookup r pml4 (va / 4096 * 4096) + va % 4096 + k) s := by
  unfold blocked
  rw [if_neg some]
  exact if_neg mapped

theorem blocked_unmapped (missing : vmmLookup r pml4 (va / 4096 * 4096) = 0) :
    blocked r pml4 va s = [] := by
  unfold blocked
  split
  · rfl
  · exact if_pos missing

theorem not_writable (closed : userRangeOk va 4 = false ∨ pageWritable wp r pml4 va = false) :
    ¬Writable wp r pml4 va := by
  rintro ⟨_, range, all⟩
  rcases closed with outside | closed
  · rw [outside] at range
    cases range
  have first := all 0 (by norm_num)
  rw [Nat.add_zero, closed] at first
  cases first

/-- Where the four bytes can be written and the lookup finds the page, the two ways store to
the same places exactly if the physical places follow each other. -/
theorem faithful_blocked_iff (writable : Writable wp r pml4 va)
    (mapped : vmmLookup r pml4 (va / 4096 * 4096) ≠ 0) :
    Faithful wp r pml4 va s (blocked r pml4 va s) ↔ va % 4096 + 4 ≤ 4096 ∨
        frameOf (leafEntry r pml4 (va + 3)) = frameOf (leafEntry r pml4 va) + 1 := by
  have first := writable.2.2 0 (by norm_num)
  rw [Nat.add_zero] at first
  have places : Faithful wp r pml4 va s (blocked r pml4 va s) ↔
      ∀ k < 4, frameOf (leafEntry r pml4 va) * 4096 + va % 4096 + k =
        frameOf (leafEntry r pml4 (va + k)) * 4096 + (va + k) % 4096 := by
    rw [← storesTo_inj (s := s), ← lookup_writable first, ← blocked_mapped writable.1 mapped]
    exact ⟨fun faithful => faithful.written writable, fun eq =>
      ⟨fun _ => eq, fun not => absurd writable not⟩⟩
  rw [places]
  constructor
  · intro all
    have last := all 3 (by norm_num)
    omega
  intro cause k small
  -- a byte is in the page of the first one or in the page of the last one
  by_cases here : (va + k) / 4096 = va / 4096
  · rw [leafEntry_page here]
    omega
  have there : (va + k) / 4096 = (va + 3) / 4096 := by omega
  rw [leafEntry_page there]
  omega

/-- The waiting parent finds the same bytes changed as the one that does not wait, and those are
the four bytes at its pointer or none, exactly for the plain addresses. -/
theorem status_faithful_iff (wp : Bool) (r : Ram) (pml4 va : Nat) (c : Change) :
    Faithful wp r pml4 va c.status (immediate wp r pml4 va c.status) ∧
      Faithful wp r pml4 va c.status (blocked r pml4 va c.status) ↔ Plain wp r pml4 va := by
  generalize c.status = s
  constructor
  · rintro ⟨now, later⟩
    by_cases null : va = 0
    · exact .null null
    by_cases writable : Writable wp r pml4 va
    · have first := writable.2.2 0 (by norm_num)
      rw [Nat.add_zero] at first
      have mapped : vmmLookup r pml4 (va / 4096 * 4096) ≠ 0 := by
        intro missing
        have stores := later.written writable
        rw [blocked_unmapped missing] at stores
        exact storesTo_ne_nil _ stores.symm
      rcases (faithful_blocked_iff writable mapped).1 later with inside | frames
      · exact .page mapped writable.2.1 first inside
      · exact .adjacent mapped writable.2.1 first (writable.2.2 3 (by norm_num)) frames
    · have missing : vmmLookup r pml4 (va / 4096 * 4096) = 0 := by
        by_contra mapped
        have stores := later.refused writable
        rw [blocked_mapped null mapped] at stores
        exact storesTo_ne_nil _ stores
      refine .unmapped missing ?_
      by_contra opened
      rw [not_or, Bool.not_eq_false, Bool.not_eq_false] at opened
      have stores := now.refused writable
      rw [immediate_of_range null opened.1] at stores
      change uaccessCopyBytes wp r pml4 va [_, _, _, _] = _ at stores
      rw [uaccessCopyBytes, storeAt, if_pos opened.2] at stores
      cases stores
  intro plain
  have nothing {stores : Stores} (refused : ¬Writable wp r pml4 va) (none : stores = []) :
      Faithful wp r pml4 va s stores := ⟨fun writable => absurd writable refused, fun _ => none⟩
  by_cases null : va = 0
  · have refused : ¬Writable wp r pml4 va := fun writable => writable.1 null
    exact ⟨nothing refused (if_pos null), nothing refused (if_pos null)⟩
  cases plain with
  | null is => exact absurd is null
  | unmapped missing closed =>
    have refused := not_writable closed
    refine ⟨nothing refused ?_, nothing refused (blocked_unmapped missing)⟩
    rcases closed with outside | closed
    · exact immediate_outside outside
    · exact immediate_closed closed
  | page mapped range writable inside =>
    have all : Writable wp r pml4 va := by
      refine ⟨null, range, fun k small => ?_⟩
      have here : (va + k) / 4096 = va / 4096 := by omega
      rw [pageWritable_page here]
      exact writable
    exact ⟨faithful_immediate all, (faithful_blocked_iff all mapped).2 (.inl inside)⟩
  | adjacent mapped range writable next frames =>
    have all : Writable wp r pml4 va := by
      refine ⟨null, range, fun k small => ?_⟩
      by_cases here : (va + k) / 4096 = va / 4096
      · rw [pageWritable_page here]
        exact writable
      have there : (va + k) / 4096 = (va + 3) / 4096 := by omega
      rw [pageWritable_page there]
      exact next
    exact ⟨faithful_immediate all, (faithful_blocked_iff all mapped).2 (.inr frames)⟩

/-- Page tables in frames 1 to 4 that map the second page of the upper half to frame 5. -/
def kernelPage : Ram :=
  let zero : Ram := fun _ => 0
  let r := zero.setEntry 1 256 (0x2000 ||| pteP ||| pteW)
  let r := Ram.setEntry r 2 0 (0x3000 ||| pteP ||| pteW)
  let r := Ram.setEntry r 3 0 (0x4000 ||| pteP ||| pteW)
  Ram.setEntry r 4 1 (0x5000 ||| pteP ||| pteW)

/-- The status of a child that exits with 1 is stored into a page of the kernel. -/
theorem status_stored_in_kernel :
    immediate true kernelPage 1 0xffff800000001000 (Change.exited 1).status = [] ∧
      blocked kernelPage 1 0xffff800000001000 (Change.exited 1).status =
        [(0x5000, 0), (0x5001, 1), (0x5002, 0), (0x5003, 0)] := by
  decide +kernel

end Osnos.Wait
