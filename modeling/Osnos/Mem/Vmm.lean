import Osnos.Mem.Pmm
import Osnos.Mem.Ram

/-! `micro/vmm.c`: walking, mapping and unmapping in physical memory, and whole address
spaces. Tables are named by their frames. -/
namespace Osnos.Mem

structure Phys where
  ram : Ram
  pmm : Pmm
  kernelPml4 : Nat
  -- physical addresses have 52 bits
  low : pmm.totalPages ≤ 2 ^ 40

namespace Phys
variable (s : Phys)

def allocPage : Nat × Phys :=
  (s.pmm.allocPage.1, { s with pmm := s.pmm.allocPage.2, low := by simpa using s.low })

def freePage (page : Nat) : Phys :=
  { s with pmm := s.pmm.freePage page, low := by simpa using s.low }

def edit (f : Ram → Ram) : Phys := { s with ram := f s.ram }

end Phys

/-- Index into the level-N table (level 4 = PML4, level 1 = PT). -/
def idx (virt level : Nat) : Nat := virt / 2 ^ (12 + 9 * (level - 1)) % 512

def walkOrAlloc (s : Phys) (table slot : Nat) : Option Nat × Phys :=
  if !present (s.ram.entry table slot) then
    let a := s.allocPage
    if a.1 = 0 then (none, a.2)
    else (some a.1, a.2.edit fun r =>
      (r.zeroPage a.1).setEntry table slot
        (BitVec.ofNat 64 (a.1 * 4096) ||| pteP ||| pteW ||| pteU))
  else (some (frameOf (s.ram.entry table slot)), s)

/-- The flags of a leaf entry: none of the address bits. -/
abbrev Flags := { w : Word // w &&& pteAddrMask = 0 }

def vmmMap (s : Phys) (pml4 virt phys : Nat) (flags : Flags) : Bool × Phys :=
  if virt % 4096 ≠ 0 then (false, s) else
  if phys % 4096 ≠ 0 then (false, s) else
    match walkOrAlloc s pml4 (idx virt 4) with
    | (none, s) => (false, s)
    | (some pdpt, s) =>
      match walkOrAlloc s pdpt (idx virt 3) with
      | (none, s) => (false, s)
      | (some pd, s) =>
        match walkOrAlloc s pd (idx virt 2) with
        | (none, s) => (false, s)
        | (some pt, s) =>
          (true, s.edit fun r => r.setEntry pt (idx virt 1)
            ((BitVec.ofNat 64 phys &&& pteAddrMask) ||| flags.1 ||| pteP))

def tableEmpty (r : Ram) (t : Nat) : Bool := (List.range 512).all fun i => !present (r.entry t i)

def reclaim (s : Phys) (parent slot : Nat) : Phys :=
  (s.edit fun r => r.setEntry parent slot 0).freePage (frameOf (s.ram.entry parent slot))

def vmmUnmap (s : Phys) (pml4 virt : Nat) : Phys :=
  if !present (s.ram.entry pml4 (idx virt 4)) then s else
  let pdpt := frameOf (s.ram.entry pml4 (idx virt 4))
  if !present (s.ram.entry pdpt (idx virt 3)) then s else
  let pd := frameOf (s.ram.entry pdpt (idx virt 3))
  if !present (s.ram.entry pd (idx virt 2)) then s else
  let pt := frameOf (s.ram.entry pd (idx virt 2))
  let s := s.edit fun r => r.setEntry pt (idx virt 1) 0
  if !tableEmpty s.ram pt then s else
  let s := reclaim s pd (idx virt 2)
  if !tableEmpty s.ram pd then s else
  let s := reclaim s pdpt (idx virt 3)
  if !tableEmpty s.ram pdpt then s else
  reclaim s pml4 (idx virt 4)

/-- The leaf entry that a walk for `virt` ends at, 0 where a table is missing. -/
def leafEntry (r : Ram) (pml4 virt : Nat) : Word :=
  if !present (r.entry pml4 (idx virt 4)) then 0 else
  let pdpt := frameOf (r.entry pml4 (idx virt 4))
  if !present (r.entry pdpt (idx virt 3)) then 0 else
  let pd := frameOf (r.entry pdpt (idx virt 3))
  if !present (r.entry pd (idx virt 2)) then 0 else
  let pt := frameOf (r.entry pd (idx virt 2))
  r.entry pt (idx virt 1)

/-- `vmm_lookup`: a physical address, 0 if the page is not mapped. -/
def vmmLookup (r : Ram) (pml4 virt : Nat) : Nat :=
  let pte := leafEntry r pml4 virt
  if !present pte then 0 else frameOf pte * 4096 + virt % 4096

def Ram.copyUpperHalf (r : Ram) (src dst : Nat) : Ram := fun a =>
  if a / 4096 = dst ∧ 2048 ≤ a % 4096 then r (src * 4096 + a % 4096) else r a

def addressSpaceCreate (s : Phys) : Option Nat × Phys :=
  let a := s.allocPage
  if a.1 = 0 then (none, a.2)
  else (some a.1, a.2.edit fun r => (r.zeroPage a.1).copyUpperHalf s.kernelPml4 a.1)

/-- A loop over the present slots of a table, from `lo` to `hi`. -/
def forPresent (r : Ram) (table lo hi : Nat) (body : Phys → Nat → Word → Phys) (s : Phys) : Phys :=
  (List.range' lo (hi - lo)).foldl
    (fun s i => if present (r.entry table i) then body s i (r.entry table i) else s) s

-- freeing a page changes no table, so the walk reads the memory it started with
def addressSpaceDestroy (s : Phys) (pml4 : Nat) : Phys :=
  if pml4 = s.kernelPml4 then s else
  let r := s.ram
  (forPresent r pml4 0 256 (fun s _ e₄ =>
    (forPresent r (frameOf e₄) 0 512 (fun s _ e₃ =>
      (forPresent r (frameOf e₃) 0 512 (fun s _ e₂ =>
        (forPresent r (frameOf e₂) 0 512 (fun s _ e₁ =>
          -- a borrowed page belongs to its shared-memory object
          if e₁ &&& pteShm != 0 then s else s.freePage (frameOf e₁)) s).freePage (frameOf e₂)) s
        ).freePage (frameOf e₃)) s).freePage (frameOf e₄)) s).freePage pml4

end Osnos.Mem
