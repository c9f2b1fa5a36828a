import Osnos.Mem.Vmm

/-! `elf_load` and `elf_load_dyn`: a blob becomes a fresh address space. Addresses, sizes
and offsets are 64-bit numbers, and their sums wrap. -/
namespace Osnos.Proc
open Osnos.Mem

/-- Bytes in kernel memory. The loader is told their number; `byte` also gives what lies
around them, by 64-bit offset. -/
structure Blob where
  byte : Nat → Byte
  size : Nat
  small : size < 2 ^ 47

def Blob.field (b : Blob) (off : Nat) : Nat → Nat
  | 0 => 0
  | n + 1 => (b.byte (off % 2 ^ 64)).toNat + 256 * b.field (off + 1) n

structure Read where
  blob : Blob
  off : Nat
  len : Nat

def Read.Inside (r : Read) : Prop := ∀ k, k < r.len → (r.off + k) % 2 ^ 64 < r.blob.size

/-- The memory, with a record of what was read and of the pages that were mapped. -/
structure Loader where
  phys : Phys
  reads : List Read := []
  pages : List Nat := []

inductive Status
  | einval | enomem
  deriving DecidableEq, Repr

abbrev Load (α : Type) : Type := EStateM Status Loader α

def Blob.read (b : Blob) (off n : Nat) : Load Nat := fun s =>
  .ok (b.field off n) { s with reads := ⟨b, off, n⟩ :: s.reads }

def allocPage : Load Nat := fun s =>
  if s.phys.allocPage.1 = 0 then .error .enomem { s with phys := s.phys.allocPage.2 }
  else .ok s.phys.allocPage.1 { s with phys := s.phys.allocPage.2 }

/-- `vmm_map`, with the page given back where it fails. -/
def mapPage (pml4 va page : Nat) (flags : Flags) : Load PUnit := fun s =>
  let m := vmmMap s.phys pml4 va (page * 4096) flags
  if m.1 then .ok ⟨⟩ { s with phys := m.2, pages := va :: s.pages }
  else .error .enomem { s with phys := m.2.freePage page }

def create : Load Nat := fun s =>
  match addressSpaceCreate s.phys with
  | (some pml4, phys) => .ok pml4 { s with phys := phys }
  | (none, phys) => .error .enomem { s with phys := phys }

def orDestroy {α : Type} (pml4 : Nat) (x : Load α) : Load α := fun s =>
  match x s with
  | .ok a s' => .ok a s'
  | .error e s' => .error e { s' with phys := addressSpaceDestroy s'.phys pml4 }

def require (ok : Prop) [Decidable ok] : Load PUnit := if ok then pure ⟨⟩ else throw .einval
def EHDR_SIZE : Nat := 64
def PHDR_SIZE : Nat := 56
def ET_EXEC : Nat := 2
def ET_DYN : Nat := 3
def PT_LOAD : Nat := 1
def PT_PHDR : Nat := 6
def USER_VIRT_MAX : Nat := 2 ^ 47

namespace Blob
variable (b : Blob)

def eType : Nat := b.field 16 2
def eEntry : Nat := b.field 24 8
def ePhoff : Nat := b.field 32 8
def ePhentsize : Nat := b.field 54 2
def ePhnum : Nat := b.field 56 2
def phdrAt (i : Nat) : Nat := (b.ePhoff + i * PHDR_SIZE) % 2 ^ 64
def pType (i : Nat) : Nat := b.field (b.phdrAt i) 4
def pFlags (i : Nat) : Nat := b.field (b.phdrAt i + 4) 4
def pOffset (i : Nat) : Nat := b.field (b.phdrAt i + 8) 8
def pVaddr (i : Nat) : Nat := b.field (b.phdrAt i + 16) 8
def pFilesz (i : Nat) : Nat := b.field (b.phdrAt i + 32) 8
def pMemsz (i : Nat) : Nat := b.field (b.phdrAt i + 40) 8

/-- The bytes of `e_ident` that are checked, with `ELFCLASS64` and `ELFDATA2LSB`. -/
def ident : List (Nat × Nat) := [(0, 0x7f), (1, 0x45), (2, 0x4c), (3, 0x46), (4, 2), (5, 1)]

def expect (off n : Nat) (ok : Nat → Bool) : Load PUnit := do
  let v ← b.read off n
  require (ok v)

/-- What `validate_ehdr` and `validate_ehdr_loose` share. -/
def validate (type : Nat → Bool) : Load PUnit := do
  require (EHDR_SIZE ≤ b.size)
  ident.forM fun p => b.expect p.1 1 (· == p.2)
  b.expect 16 2 type
  b.expect 18 2 (· == 62)
  b.expect 54 2 (· == PHDR_SIZE)
  let phoff ← b.read 32 8
  let phnum ← b.read 56 2
  require ((phoff + phnum * PHDR_SIZE) % 2 ^ 64 ≤ b.size)

def validateEhdr : Load PUnit := b.validate (· == ET_EXEC)
def validateEhdrLoose : Load PUnit := b.validate fun type => type == ET_EXEC || type == ET_DYN

end Blob

def flagsToPte (pflags : Nat) : Flags :=
  if pflags / 2 % 2 = 1 then ⟨pteU ||| pteW, by decide⟩ else ⟨pteU, by decide⟩

def add64 (a b : Nat) : Nat := (a + b) % 2 ^ 64
def sub64 (a b : Nat) : Nat := (a + 2 ^ 64 - b) % 2 ^ 64
def pageDown (a : Nat) : Nat := a / 4096 * 4096

def pageRange (start stop : Nat) : List Nat :=
  (List.range ((stop - start) / 4096)).map fun i => start + i * 4096

def storeBytes (r : Ram) (dst n : Nat) (f : Nat → Byte) : Ram := fun a =>
  if dst ≤ a ∧ a < dst + n then f (a - dst) else r a

/-- How many bytes are copied: at most `n`, and no more than the blob has from `off` on. -/
def clipMin (size n off : Nat) : Nat := min n (sub64 size off)
def clipIf (size n off : Nat) : Nat := if add64 off n > size then sub64 size off else n

structure Segment where
  vaddr : Nat
  memsz : Nat
  offset : Nat
  filesz : Nat
  flags : Nat

namespace Segment
variable (g : Segment)

def start : Nat := pageDown g.vaddr
def stop : Nat := pageDown (add64 (add64 g.vaddr g.memsz) 4095)
def fileHi : Nat := add64 g.vaddr g.filesz
def Overlaps (va : Nat) : Prop := g.fileHi > va ∧ g.vaddr < add64 va 4096
instance (va : Nat) : Decidable (g.Overlaps va) := inferInstanceAs (Decidable (_ ∧ _))
def copyLo (va : Nat) : Nat := if va > g.vaddr then va else g.vaddr
def copyHi (va : Nat) : Nat := if add64 va 4096 < g.fileHi then add64 va 4096 else g.fileHi
def srcOff (va : Nat) : Nat := add64 g.offset (sub64 (g.copyLo va) g.vaddr)

def fill (b : Blob) (clip : Nat → Nat → Nat → Nat) (va page : Nat) : Load PUnit := fun s =>
  let r := s.phys.ram.zeroPage page
  if g.Overlaps va then
    let n := clip b.size (sub64 (g.copyHi va) (g.copyLo va)) (g.srcOff va)
    let r' := storeBytes r (page * 4096 + (g.copyLo va - va)) n
      fun k => b.byte (add64 (g.srcOff va) k)
    .ok ⟨⟩ { s with phys := { s.phys with ram := r' }, reads := ⟨b, g.srcOff va, n⟩ :: s.reads }
  else .ok ⟨⟩ { s with phys := { s.phys with ram := r } }

def loadPage (b : Blob) (clip : Nat → Nat → Nat → Nat) (pml4 va : Nat) : Load PUnit := do
  let page ← allocPage
  g.fill b clip va page
  mapPage pml4 va page (flagsToPte g.flags)

end Segment

/-- One round of the loop over the program headers that both loaders have. A segment is
placed `base` higher than its header says. -/
def Blob.loadPhdr (b : Blob) (base : Nat) (page : Segment → Nat → Load PUnit) (i : Nat) :
    Load PUnit := do
  let type ← b.read (b.phdrAt i) 4
  if type ≠ PT_LOAD then pure ⟨⟩ else do
    let memsz ← b.read (b.phdrAt i + 40) 8
    if memsz = 0 then pure ⟨⟩ else do
      let vaddr ← b.read (b.phdrAt i + 16) 8
      require (add64 (add64 vaddr base) memsz < USER_VIRT_MAX)
      let offset ← b.read (b.phdrAt i + 8) 8
      let filesz ← b.read (b.phdrAt i + 32) 8
      require (add64 offset filesz ≤ b.size)
      let flags ← b.read (b.phdrAt i + 4) 4
      let g : Segment := ⟨add64 vaddr base, memsz, offset, filesz, flags⟩
      (pageRange g.start g.stop).forM (page g)

def Blob.loadPhdrs (b : Blob) (base : Nat) (page : Segment → Nat → Load PUnit) : Load PUnit := do
  let phnum ← b.read 56 2
  (List.range phnum).forM (b.loadPhdr base page)

def Blob.loadSegments (b : Blob) (pml4 : Nat) : Load PUnit :=
  b.loadPhdrs 0 fun g va => g.loadPage b clipMin pml4 va

/-- `load_phdrs_into`: a page that is mapped already is left alone. -/
def Blob.loadPhdrsInto (b : Blob) (pml4 base : Nat) : Load PUnit :=
  b.loadPhdrs base fun g va s =>
    if vmmLookup s.phys.ram pml4 va ≠ 0 then .ok ⟨⟩ s else g.loadPage b clipIf pml4 va s

def USER_STACK_TOP : Nat := 0x80000000
def USER_STACK_VIRT : Nat := USER_STACK_TOP - 16 * 4096
def INTERP_LOAD_BASE : Nat := 0x40000000

def loadStack (pml4 : Nat) : Load PUnit :=
  (pageRange USER_STACK_VIRT USER_STACK_TOP).forM fun va => do
    let page ← allocPage
    mapPage pml4 va page ⟨pteW ||| pteU, by decide⟩

structure Loaded where
  pml4 : Nat
  entry : Nat
  startEntry : Nat
  stackTop : Nat
  phdrUserVa : Nat
  phnum : Nat
  phentsize : Nat
  interpBase : Nat

def elfLoad (b : Blob) : Load Loaded := do
  b.validateEhdr
  let pml4 ← create
  orDestroy pml4 do
    b.loadSegments pml4
    loadStack pml4
    let entry ← b.read 24 8
    pure { pml4, entry, startEntry := entry, stackTop := USER_STACK_TOP, phdrUserVa := 0,
           phnum := 0, phentsize := 0, interpBase := 0 }

def Blob.phdrSegment (b : Blob) : List Nat → Load Nat
  | [] => pure 0
  | i :: rest => do
    let type ← b.read (b.phdrAt i) 4
    if type = PT_PHDR then b.read (b.phdrAt i + 16) 8 else b.phdrSegment rest

def Blob.phdrInLoad (b : Blob) : List Nat → Load Nat
  | [] => pure 0
  | i :: rest => do
    let type ← b.read (b.phdrAt i) 4
    if type ≠ PT_LOAD then b.phdrInLoad rest else do
      let offset ← b.read (b.phdrAt i + 8) 8
      let filesz ← b.read (b.phdrAt i + 32) 8
      if b.ePhoff ≥ offset ∧ b.ePhoff < add64 offset filesz then do
        let vaddr ← b.read (b.phdrAt i + 16) 8
        pure (add64 vaddr (sub64 b.ePhoff offset))
      else b.phdrInLoad rest

def Blob.phdrUserVa (b : Blob) : Load Nat := do
  let va ← b.phdrSegment (List.range b.ePhnum)
  if va = 0 then b.phdrInLoad (List.range b.ePhnum) else pure va

/-- The interpreter's part of `elf_load_dyn`: its base and its entry. -/
def loadInterp (pml4 : Nat) : Option Blob → Load (Nat × Nat)
  | none => pure (0, 0)
  | some b =>
    if b.size = 0 then pure (0, 0) else do
      b.validateEhdrLoose
      b.expect 16 2 (· == ET_DYN)
      b.loadPhdrsInto pml4 INTERP_LOAD_BASE
      let entry ← b.read 24 8
      pure (INTERP_LOAD_BASE, add64 INTERP_LOAD_BASE entry)

def elfLoadDyn (b : Blob) (interp : Option Blob) : Load Loaded := do
  b.validateEhdrLoose
  b.expect 16 2 (· == ET_EXEC)
  let pml4 ← create
  orDestroy pml4 do
    b.loadPhdrsInto pml4 0
    let (interpBase, interpEntry) ← loadInterp pml4 interp
    loadStack pml4
    let phdrUserVa ← b.phdrUserVa
    let entry ← b.read 24 8
    pure { pml4, entry, startEntry := if interpEntry ≠ 0 then interpEntry else entry,
           stackTop := USER_STACK_TOP, phdrUserVa, phnum := b.ePhnum,
           phentsize := b.ePhentsize, interpBase }

end Osnos.Proc
