import Osnos.Base.Fallible
import Osnos.Proc.Elf

/-! The pages it maps always lie in the user half. It stays inside the blob as long as no
sum of an offset and a size wraps; nothing is known of the entry point. -/
namespace Osnos.Proc
open Osnos.Mem Loader Segment List Nat Blob Read

structure Loader.Tame (s : Loader) : Prop where
  inside : ∀ r ∈ s.reads, r.Inside
  user : ∀ va ∈ s.pages, va < USER_VIRT_MAX

theorem Loader.Tame.start (phys : Phys) : Tame { phys } := ⟨nofun, nofun⟩

theorem Loader.Tame.look {s : Loader} (tame : s.Tame) {r : Read} (inside : r.Inside) :
    Tame { s with reads := r :: s.reads } := by
  refine ⟨fun r' mem => ?_, tame.user⟩
  rcases mem_cons.1 mem with rfl | mem
  · exact inside
  · exact tame.inside r' mem

theorem Read.inside_of_le {b : Blob} {off len : Nat} (fits : off + len ≤ b.size) :
    Inside ⟨b, off, len⟩ := by
  intro k small
  change k < len at small
  change (off + k) % 2 ^ 64 < b.size
  have := b.small
  rw [mod_eq_of_lt (by omega)]
  omega

theorem Blob.field_lt (b : Blob) (off n : Nat) : b.field off n < 256 ^ n := by
  induction n generalizing off with
  | zero => exact Nat.one_pos
  | succ n ih =>
    have low := (b.byte (off % 2 ^ 64)).isLt
    have high := ih (off + 1)
    rw [field, pow_succ]
    omega

variable {i pml4 va : Nat} {clip : Nat → Nat → Nat → Nat} {g : Segment}

section Rules

variable {α : Type} {P : Loader → Prop} {Q : α → Loader → Prop} {E : Loader → Prop} {b : Blob}

theorem read_then {off n : Nat} {f : Nat → Load α} {H : Loader → Prop}
    (keep : ∀ s : Loader, P s → H { s with reads := ⟨b, off, n⟩ :: s.reads })
    (next : Spec H (f (b.field off n)) Q E) : Spec P (b.read off n >>= f) Q E := by
  have reads : Spec P (b.read off n) (fun v s => H s ∧ v = b.field off n) E :=
    ⟨fun s before => ⟨keep s before, rfl⟩⟩
  exact reads.bind fun v => .assuming fun same => same ▸ next

theorem require_spec {ok : Prop} [Decidable ok] (fails : ∀ s, P s → E s) :
    Spec P (require ok) (fun _ s => P s ∧ ok) E :=
  .ite (fun accepted => .pure fun _ holds => ⟨holds, accepted⟩) fun _ => .throw fails

section
variable (keep : ∀ s phys, P s → P { s with phys := phys })

include keep

theorem allocPage_spec : Keeps P allocPage := by
  refine ⟨fun s before => ?_⟩
  unfold allocPage
  split <;> exact keep s _ before

theorem mapPage_spec {page : Nat} {flags : Flags}
    (add : ∀ s phys, P s → P { s with phys := phys, pages := va :: s.pages }) :
    Keeps P (mapPage pml4 va page flags) := by
  refine ⟨fun s before => ?_⟩
  unfold mapPage
  dsimp only
  cases mapped : (vmmMap s.phys pml4 va (page * 4096) flags).1 with
  | true => exact add s _ before
  | false => exact keep s _ before

theorem create_spec : Keeps P create := by
  refine ⟨fun s before => ?_⟩
  unfold create
  rcases addressSpaceCreate s.phys with ⟨_ | pml4, phys⟩ <;> exact keep s phys before

end

theorem orDestroy_spec {x : Load α} (keep : ∀ s phys, E s → E { s with phys := phys })
    (spec : Spec P x Q E) : Spec P (orDestroy pml4 x) Q E := by
  refine ⟨fun s before => ?_⟩
  have after := spec.run s before
  unfold orDestroy
  cases run : x s with
  | ok =>
    rw [run] at after
    exact after
  | error e s' =>
    rw [run] at after
    exact keep s' _ after

end Rules

/-- No offset plus size wraps, in the header or in a segment that passes the checks. -/
structure Blob.InFile (b : Blob) (base : Nat) : Prop where
  table : b.ePhoff + b.ePhnum * PHDR_SIZE < 2 ^ 64
  segments : ∀ i < b.ePhnum, b.pType i = PT_LOAD → b.pMemsz i ≠ 0 →
    add64 (add64 (b.pVaddr i) base) (b.pMemsz i) < USER_VIRT_MAX →
    add64 (b.pOffset i) (b.pFilesz i) ≤ b.size → b.pOffset i + b.pFilesz i < 2 ^ 64

/-- What a header that passed the checks says of its table of program headers. -/
structure Blob.Valid (b : Blob) : Prop where
  header : EHDR_SIZE ≤ b.size
  table : (b.ePhoff + b.ePhnum * PHDR_SIZE) % 2 ^ 64 ≤ b.size

/-- The header passes the checks, with a type that is accepted. -/
structure Blob.Accepted (b : Blob) (type : Nat → Bool) : Prop extends b.Valid where
  ident : ∀ p ∈ Blob.ident, b.field p.1 1 = p.2
  type : type b.eType = true
  machine : b.field 18 2 = 62
  phentsize : b.ePhentsize = PHDR_SIZE

section Inside

variable {b : Blob}

theorem keep_phys (s : Loader) (phys : Phys) (tame : s.Tame) :
    Tame { s with phys := phys } := ⟨tame.inside, tame.user⟩

theorem tame_read {α : Type} {off n : Nat} {f : Nat → Load α} {Q : α → Loader → Prop}
    (fits : off + n ≤ b.size) (next : Spec Tame (f (b.field off n)) Q Tame) :
    Spec Tame (b.read off n >>= f) Q Tame :=
  read_then (fun _ tame => tame.look (inside_of_le fits)) next

theorem require_tame {ok : Prop} [Decidable ok] :
    Spec Tame (require ok) (fun _ s => s.Tame ∧ ok) Tame :=
  require_spec fun _ => id

theorem expect_tame {off n : Nat} {ok : Nat → Bool} (fits : off + n ≤ b.size) :
    Spec Tame (b.expect off n ok)
      (fun _ s => s.Tame ∧ ok (b.field off n)) Tame := by
  exact tame_read fits require_tame

theorem validate_tame (type : Nat → Bool) :
    Spec Tame (b.validate type) (fun _ s => s.Tame ∧ b.Accepted type) Tame := by
  refine .bind require_tame fun _ => .assuming fun header => ?_
  have fits : ∀ {off n}, off + n ≤ 64 → off + n ≤ b.size := fun h => h.trans header
  have each : Spec Tame (ident.forM fun p => b.expect p.1 1 (· == p.2))
      (fun _ s => s.Tame ∧ ∀ p ∈ ident, b.field p.1 1 == p.2) Tame := by
    refine .forM_each (fun p mem => expect_tame (fits ?_)) fun p _ q => ⟨fun s fact => ?_⟩
    · simp only [ident, mem_cons, not_mem_nil, or_false] at mem
      rcases mem with rfl | rfl | rfl | rfl | rfl | rfl <;> decide
    · cases b.expect p.1 1 (· == p.2) s with
      | ok => exact fact
      | error => trivial
  refine each.bind fun _ => .assuming fun idents => ?_
  refine .bind (expect_tame (fits (by decide))) fun _ => .assuming fun typed => ?_
  refine .bind (expect_tame (fits (by decide))) fun _ => .assuming fun machine => ?_
  refine .bind (expect_tame (fits (by decide))) fun _ => .assuming fun entsize => ?_
  refine tame_read (fits (by decide)) (tame_read (fits (by decide)) ?_)
  refine require_tame.mono (fun _ => id) (fun _ _ result => ⟨result.1, ?_⟩) fun _ => id
  exact ⟨⟨header, result.2⟩, fun p mem => beq_iff_eq.1 (idents p mem), typed, beq_iff_eq.1 machine,
    beq_iff_eq.1 entsize⟩

theorem add64_lt (x y : Nat) : add64 x y < 2 ^ 64 := mod_lt _ (by norm_num)

theorem Blob.InFile.phdr {base : Nat} (inFile : b.InFile base) (valid : b.Valid) (small : i < b.ePhnum) :
    b.phdrAt i + PHDR_SIZE ≤ b.size := by
  have table := inFile.table
  have fits := valid.table
  rw [mod_eq_of_lt table] at fits
  unfold phdrAt
  unfold PHDR_SIZE at *
  rw [mod_eq_of_lt (by omega)]
  omega

theorem mem_pageRange {start stop : Nat} (mem : va ∈ pageRange start stop) :
    start ≤ va ∧ va + 4096 ≤ stop := by
  obtain ⟨i, small, rfl⟩ := mem_map.1 mem
  have small := mem_range.1 small
  have whole := div_mul_le_self (stop - start) 4096
  have below : (i + 1) * 4096 ≤ (stop - start) / 4096 * 4096 := Nat.mul_le_mul_right _ small
  omega

structure Segment.Fits (g : Segment) (b : Blob) : Prop where
  vaddr : g.vaddr < 2 ^ 64
  user : add64 g.vaddr g.memsz < USER_VIRT_MAX
  file : g.offset + g.filesz ≤ b.size

theorem Segment.Fits.page_user (fits : g.Fits b) (mem : va ∈ pageRange g.start g.stop) :
    g.start ≤ va ∧ va + 4096 ≤ USER_VIRT_MAX ∧ g.vaddr < USER_VIRT_MAX + 4096 := by
  obtain ⟨above, below⟩ := mem_pageRange mem
  have user := fits.user
  have top : g.stop ≤ USER_VIRT_MAX := by
    unfold stop pageDown
    generalize add64 g.vaddr g.memsz = top at user
    unfold add64
    unfold USER_VIRT_MAX at *
    omega
  have low : g.vaddr < g.start + 4096 := by
    unfold start pageDown
    omega
  omega

theorem Segment.Fits.slice (fits : g.Fits b) (mem : va ∈ pageRange g.start g.stop)
    (overlaps : g.Overlaps va) :
    g.srcOff va + sub64 (g.copyHi va) (g.copyLo va) ≤ b.size := by
  obtain ⟨above, below, low⟩ := fits.page_user mem
  have small := b.small
  have file := fits.file
  unfold USER_VIRT_MAX at *
  have hi : g.fileHi = g.vaddr + g.filesz := by
    unfold fileHi add64
    omega
  have next : add64 va 4096 = va + 4096 := by
    unfold add64
    omega
  unfold Overlaps at overlaps
  rw [hi, next] at overlaps
  unfold srcOff copyHi copyLo
  rw [hi, next]
  unfold sub64 add64
  split <;> split <;> omega

theorem loadPage_tame (fits : g.Fits b) (clips : ∀ n off, off + n ≤ b.size → clip b.size n off ≤ n)
    (mem : va ∈ pageRange g.start g.stop) :
    Keeps Tame (g.loadPage b clip pml4 va) := by
  refine .bind (allocPage_spec keep_phys) fun page => .bind ?_ fun _ => mapPage_spec keep_phys ?_
  · refine ⟨fun s tame => ?_⟩
    unfold fill
    dsimp only
    by_cases overlaps : g.Overlaps va
    · rw [if_pos overlaps]
      refine (keep_phys s _ tame).look (inside_of_le ?_)
      have slice := fits.slice mem overlaps
      have shorter := clips _ _ slice
      omega
    · rw [if_neg overlaps]
      exact keep_phys s _ tame
  · intro s phys tame
    refine ⟨tame.inside, fun va' mem' => ?_⟩
    rcases mem_cons.1 mem' with rfl | mem'
    · have := (fits.page_user mem).2.1
      omega
    · exact tame.user va' mem'

theorem clipMin_le (n off : Nat) (_ : off + n ≤ b.size) : clipMin b.size n off ≤ n :=
  Nat.min_le_left n _

theorem clipIf_le (n off : Nat) (fits : off + n ≤ b.size) : clipIf b.size n off ≤ n := by
  have small := b.small
  unfold clipIf
  rw [if_neg]
  unfold add64
  omega

/-- The type of a program header is read first; its other fields lie in the same header. -/
theorem loadPhdr_spec {P H Q E : Loader → Prop} {base : Nat} {page : Segment → Nat → Load PUnit}
    (first : ∀ s, P s → H { s with reads := ⟨b, b.phdrAt i, 4⟩ :: s.reads })
    (read : ∀ s off n, off + n ≤ b.phdrAt i + PHDR_SIZE → H s →
      H { s with reads := ⟨b, off, n⟩ :: s.reads })
    (fails : ∀ s, H s → E s) (skips : (b.pType i = PT_LOAD → b.pMemsz i = 0) → ∀ s, H s → Q s)
    (pages : ∀ g : Segment,
      g = ⟨add64 (b.pVaddr i) base, b.pMemsz i, b.pOffset i, b.pFilesz i, b.pFlags i⟩ →
      b.pType i = PT_LOAD → b.pMemsz i ≠ 0 → add64 g.vaddr g.memsz < USER_VIRT_MAX →
      add64 g.offset g.filesz ≤ b.size →
      Spec H ((pageRange g.start g.stop).forM (page g)) (fun _ => Q) E) :
    Spec P (b.loadPhdr base page i) (fun _ => Q) E := by
  unfold PHDR_SIZE at read
  unfold loadPhdr
  refine read_then first (.ite (fun other => ?_) fun type => ?_)
  · exact .pure (skips fun load => absurd load other)
  refine read_then (fun s => read s _ _ (by omega)) (.ite (fun empty => ?_) fun memsz => ?_)
  · exact .pure (skips fun _ => empty)
  refine read_then (fun s => read s _ _ (by omega)) ?_
  refine .bind (require_spec fails) fun _ => .assuming fun user => ?_
  refine read_then (fun s => read s _ _ (by omega)) ?_
  refine read_then (fun s => read s _ _ (by omega)) ?_
  refine .bind (require_spec fails) fun _ => .assuming fun file => ?_
  refine read_then (fun s => read s _ _ (by omega)) ?_
  exact pages _ rfl (not_not.1 type) memsz user file

section
variable {base : Nat} (inFile : b.InFile base) (valid : b.Valid) {page : Segment → Nat → Load PUnit}
  (each : ∀ g : Segment, g.Fits b → ∀ va ∈ pageRange g.start g.stop, Keeps Tame (page g va))

include inFile valid each

theorem loadPhdr_tame (known : i < b.ePhnum) :
    Keeps Tame (b.loadPhdr base page i) := by
  have at_i := inFile.phdr valid known
  have inside (s : Loader) (off n : Nat) (fits : off + n ≤ b.phdrAt i + PHDR_SIZE) (tame : s.Tame) :
      Tame { s with reads := ⟨b, off, n⟩ :: s.reads } :=
    tame.look (inside_of_le (fits.trans at_i))
  refine loadPhdr_spec (fun s => inside s _ _ ?_) inside (fun _ => id) (fun _ _ => id) ?_
  · unfold PHDR_SIZE
    omega
  rintro g rfl type memsz user file
  have unwrapped := inFile.segments i known type memsz user file
  have fits : b.pOffset i + b.pFilesz i ≤ b.size := by
    rw [← mod_eq_of_lt unwrapped]
    exact file
  exact .forM (each _ ⟨add64_lt _ _, user, fits⟩)

theorem loadPhdrs_tame : Keeps Tame (b.loadPhdrs base page) := by
  have header : 64 ≤ b.size := valid.header
  unfold loadPhdrs
  refine tame_read (by omega) ?_
  exact .forM fun i mem => loadPhdr_tame inFile valid each (mem_range.1 mem)

end

theorem loadSegments_tame (inFile : b.InFile 0) (valid : b.Valid) (pml4 : Nat) :
    Keeps Tame (b.loadSegments pml4) :=
  loadPhdrs_tame inFile valid fun _ fits _ mem => loadPage_tame fits clipMin_le mem

theorem loadPhdrsInto_tame {base : Nat} (inFile : b.InFile base) (valid : b.Valid) (pml4 : Nat) :
    Keeps Tame (b.loadPhdrsInto pml4 base) := by
  refine loadPhdrs_tame inFile valid fun g fits va mem => ⟨fun s tame => ?_⟩
  by_cases mapped : vmmLookup s.phys.ram pml4 va ≠ 0
  · rw [if_pos mapped]
    exact tame
  · rw [if_neg mapped]
    exact (loadPage_tame fits clipIf_le mem).run s tame

theorem mapPage_tame {page : Nat} {flags : Flags} (user : va < USER_VIRT_MAX) :
    Keeps Tame (mapPage pml4 va page flags) := by
  refine mapPage_spec keep_phys fun s phys tame => ⟨tame.inside, fun va' mem => ?_⟩
  rcases mem_cons.1 mem with rfl | mem
  · exact user
  · exact tame.user va' mem

theorem loadStack_tame (pml4 : Nat) : Keeps Tame (loadStack pml4) := by
  refine .forM fun va mem => .bind (allocPage_spec keep_phys) fun page => mapPage_tame ?_
  have below := (mem_pageRange mem).2
  unfold USER_STACK_TOP at below
  unfold USER_VIRT_MAX
  omega

variable {l : List Nat}

theorem phdrSegment_tame (inside : ∀ i ∈ l, b.phdrAt i + PHDR_SIZE ≤ b.size) :
    Keeps Tame (b.phdrSegment l) := by
  induction l with
  | nil => exact .pure fun _ => id
  | cons i l ih =>
    have at_i := inside i mem_cons_self
    unfold PHDR_SIZE at at_i
    unfold phdrSegment
    refine tame_read (by omega) ?_
    refine .ite (fun _ => ?_) fun _ => ih fun j mem => inside j (mem_cons_of_mem i mem)
    exact ⟨fun s tame => tame.look (inside_of_le (by omega))⟩

theorem phdrInLoad_tame (inside : ∀ i ∈ l, b.phdrAt i + PHDR_SIZE ≤ b.size) :
    Keeps Tame (b.phdrInLoad l) := by
  induction l with
  | nil => exact .pure fun _ => id
  | cons i l ih =>
    have at_i := inside i mem_cons_self
    have rest := ih fun j mem => inside j (mem_cons_of_mem i mem)
    unfold PHDR_SIZE at at_i
    unfold phdrInLoad
    refine tame_read (by omega) ?_
    refine .ite (fun _ => rest) fun _ => ?_
    refine tame_read (by omega) ?_
    refine tame_read (by omega) ?_
    refine .ite (fun _ => ?_) fun _ => rest
    refine tame_read (by omega) ?_
    exact .pure fun _ => id

theorem phdrUserVa_tame (inFile : b.InFile 0) (valid : b.Valid) : Keeps Tame b.phdrUserVa := by
  have inside : ∀ i ∈ range b.ePhnum, b.phdrAt i + PHDR_SIZE ≤ b.size :=
    fun i mem => inFile.phdr valid (mem_range.1 mem)
  refine .bind (phdrSegment_tame inside) fun va => ?_
  exact .ite (fun _ => phdrInLoad_tame inside) fun _ => .pure fun _ => id

end Inside

section Loaders

variable {b : Blob}

theorem elfLoad_tame (inFile : b.Accepted (· == ET_EXEC) → b.InFile 0) :
    Spec Tame (elfLoad b) (fun l s => s.Tame ∧ l.entry = b.eEntry ∧ l.startEntry = b.eEntry)
      Tame := by
  refine .bind (validate_tame _) fun _ => .assuming fun accepted => ?_
  have header : 64 ≤ b.size := accepted.header
  refine .bind (create_spec keep_phys) fun pml4 => orDestroy_spec keep_phys ?_
  refine .bind (loadSegments_tame (inFile accepted) accepted.toValid pml4) fun _ => .bind (loadStack_tame pml4) fun _ => ?_
  refine tame_read (by omega) ?_
  exact .pure fun _ tame => ⟨tame, rfl, rfl⟩

def InterpEntry (interp : Option Blob) (entry : Nat) : Prop :=
  entry = 0 ∨ ∃ i, interp = some i ∧ i.size ≠ 0 ∧ entry = add64 INTERP_LOAD_BASE i.eEntry

theorem loadInterp_tame {interp : Option Blob}
    (inFile : ∀ i ∈ interp, i.Accepted (· == ET_DYN) → i.InFile INTERP_LOAD_BASE) (pml4 : Nat) :
    Spec Tame (loadInterp pml4 interp) (fun p s => s.Tame ∧ InterpEntry interp p.2)
      Tame := by
  cases interp with
  | none => exact .pure fun _ tame => ⟨tame, .inl rfl⟩
  | some i =>
    unfold loadInterp
    refine .ite (fun _ => .pure fun _ tame => ⟨tame, .inl rfl⟩) fun some_bytes => ?_
    refine .bind (validate_tame _) fun _ => .assuming fun accepted => ?_
    have header : 64 ≤ i.size := accepted.header
    refine .bind (expect_tame (by omega)) fun _ => .assuming fun dyn => ?_
    refine .bind (loadPhdrsInto_tame (inFile i rfl { accepted with type := dyn }) accepted.toValid
      pml4) fun _ => ?_
    refine tame_read (by omega) ?_
    exact .pure fun _ tame => ⟨tame, .inr ⟨i, rfl, some_bytes, rfl⟩⟩

theorem elfLoadDyn_tame {interp : Option Blob}
    (inFile : b.Accepted (· == ET_EXEC) → b.InFile 0 ∧
      ∀ i ∈ interp, i.Accepted (· == ET_DYN) → i.InFile INTERP_LOAD_BASE) :
    Spec Tame (elfLoadDyn b interp)
      (fun l s => s.Tame ∧ l.entry = b.eEntry ∧ (l.startEntry = b.eEntry ∨
          ∃ i, interp = some i ∧ i.size ≠ 0 ∧ l.startEntry = add64 INTERP_LOAD_BASE i.eEntry))
      Tame := by
  refine .bind (validate_tame _) fun _ => .assuming fun loose => ?_
  have header : 64 ≤ b.size := loose.header
  refine .bind (expect_tame (by omega)) fun _ => .assuming fun exec => ?_
  obtain ⟨inFile, inFile'⟩ := inFile { loose with type := exec }
  have valid := loose.toValid
  refine .bind (create_spec keep_phys) fun pml4 => orDestroy_spec keep_phys ?_
  refine .bind (loadPhdrsInto_tame inFile valid pml4) fun _ => ?_
  refine .bind (loadInterp_tame inFile' pml4) fun p => .assuming fun interpEntry => ?_
  refine .bind (loadStack_tame pml4) fun _ => .bind (phdrUserVa_tame inFile valid) fun _ => ?_
  refine tame_read (by omega) (.pure fun _ tame => ⟨tame, rfl, ?_⟩)
  dsimp only
  split
  next nonzero =>
    exact .inr (interpEntry.resolve_left nonzero)
  · exact .inl rfl

end Loaders

section Trace

variable {b : Blob} {g : Segment} {r : Read}

theorem has_phys (s : Loader) (phys : Phys) (has : r ∈ s.reads) :
    r ∈ Loader.reads { s with phys := phys } := has

def Segment.slice (g : Segment) (b : Blob) (clip : Nat → Nat → Nat → Nat) (va : Nat) : Read :=
  ⟨b, g.srcOff va, clip b.size (sub64 (g.copyHi va) (g.copyLo va)) (g.srcOff va)⟩

theorem fill_has {page : Nat} : Keeps (r ∈ ·.reads) (g.fill b clip va page) := by
  refine ⟨fun s has => ?_⟩
  unfold fill
  dsimp only
  split
  · exact mem_cons_of_mem _ has
  · exact has

theorem loadPage_has : Keeps (r ∈ ·.reads) (g.loadPage b clip pml4 va) := by
  refine .bind (allocPage_spec has_phys) fun page => .bind fill_has fun _ => ?_
  exact mapPage_spec has_phys fun s phys has => has

theorem loadPhdr_has {base : Nat} {page : Segment → Nat → Load PUnit}
    (each : ∀ g va, Keeps (r ∈ ·.reads) (page g va)) :
    Keeps (r ∈ ·.reads) (b.loadPhdr base page i) := by
  refine loadPhdr_spec (fun _ => mem_cons_of_mem _) (fun _ _ _ _ => mem_cons_of_mem _) (fun _ => id)
    (fun _ _ => id) ?_
  exact fun g _ _ _ _ _ => .forM fun va _ => each g va

theorem loadPage_reads (overlaps : g.Overlaps va) :
    Spec (fun _ => True) (g.loadPage b clip pml4 va) (fun _ s => g.slice b clip va ∈ s.reads)
      fun _ => True := by
  refine .bind (allocPage_spec fun _ _ => id) fun page => ?_
  have filled : Spec (fun _ => True) (g.fill b clip va page)
      (fun _ s => g.slice b clip va ∈ s.reads) fun _ => True := by
    refine ⟨fun s _ => ?_⟩
    unfold fill
    dsimp only
    rw [if_pos overlaps]
    exact mem_cons_self
  refine filled.bind fun _ => ?_
  exact (mapPage_spec has_phys fun s phys has => has).mono (fun _ => id) (fun _ _ => id)
    fun _ _ => trivial

theorem loadPages_reads {p : Nat} :
    Spec (r ∈ ·.reads) ((pageRange g.start g.stop).forM fun va => g.loadPage b clipMin p va)
      (fun _ s => r ∈ s.reads ∧ ∀ va ∈ pageRange g.start g.stop, g.Overlaps va →
        g.slice b clipMin va ∈ s.reads) fun _ => True := by
  have kept : ∀ {r' va}, Spec (r' ∈ ·.reads) (g.loadPage b clipMin p va)
      (fun _ s => r' ∈ s.reads) fun _ => True :=
    loadPage_has.mono (fun _ => id) (fun _ _ => id) fun _ _ => trivial
  refine .forM_each (fun va _ => ?_) fun va _ va' => ?_
  · by_cases overlaps : g.Overlaps va
    · refine (kept.and (loadPage_reads overlaps)).mono (fun _ has => ⟨has, trivial⟩)
        (fun _ s done => ⟨done.1, fun _ => done.2⟩) fun _ _ => trivial
    · exact kept.mono (fun _ => id) (fun _ s has => ⟨has, fun h => absurd h overlaps⟩) fun _ => id
  · by_cases overlaps : g.Overlaps va'
    · exact kept.mono (fun _ has => has overlaps) (fun _ s has _ => has) fun _ => id
    · exact Spec.any.mono (fun _ => id) (fun _ s _ h => absurd h overlaps) fun _ => id

def Blob.segmentAt (b : Blob) (i : Nat) : Segment :=
  ⟨add64 (b.pVaddr i) 0, b.pMemsz i, b.pOffset i, b.pFilesz i, b.pFlags i⟩

structure Blob.Loads (b : Blob) (i : Nat) (s : Loader) : Prop where
  header : ⟨b, b.phdrAt i, 4⟩ ∈ s.reads
  user : b.pType i = PT_LOAD → b.pMemsz i ≠ 0 →
    add64 (b.segmentAt i).vaddr (b.pMemsz i) < USER_VIRT_MAX
  file : b.pType i = PT_LOAD → b.pMemsz i ≠ 0 → add64 (b.pOffset i) (b.pFilesz i) ≤ b.size
  slices : b.pType i = PT_LOAD → b.pMemsz i ≠ 0 →
    ∀ va ∈ pageRange (b.segmentAt i).start (b.segmentAt i).stop, (b.segmentAt i).Overlaps va →
      (b.segmentAt i).slice b clipMin va ∈ s.reads

theorem loadPhdr_loads :
    Spec (fun _ => True) (b.loadPhdr 0 (fun g va => g.loadPage b clipMin pml4 va) i)
      (fun _ => b.Loads i) fun _ => True := by
  refine loadPhdr_spec (H := (⟨b, b.phdrAt i, 4⟩ ∈ ·.reads)) (fun _ _ => mem_cons_self)
    (fun _ _ _ _ => mem_cons_of_mem _) (fun _ _ => trivial) (fun skip s has => ?_) ?_
  · refine ⟨has, ?_, ?_, ?_⟩ <;> exact fun load nonempty => absurd (skip load) nonempty
  rintro g rfl - - user file
  exact loadPages_reads.mono (fun _ => id) (fun _ s done => ⟨done.1, fun _ _ => user, fun _ _ => file,
    fun _ _ => done.2⟩) fun _ => id

theorem Blob.Loads.more {s s' : Loader} (loads : b.Loads i s)
    (more : ∀ r ∈ s.reads, r ∈ s'.reads) : b.Loads i s' :=
  ⟨more _ loads.header, loads.user, loads.file,
    fun load nonempty va mem overlaps => more _ (loads.slices load nonempty va mem overlaps)⟩

theorem loads_kept {α : Type} {x : Load α}
    (kept : ∀ r, Keeps (r ∈ ·.reads) x) :
    Spec (b.Loads i) x (fun _ => b.Loads i) fun _ => True := by
  refine ⟨fun s loads => ?_⟩
  have more := fun r mem => (kept r).run s mem
  cases run : x s with
  | ok =>
    rw [run] at more
    exact loads.more more
  | error => trivial

theorem loadSegments_loads (pml4 : Nat) :
    Spec (fun _ => True) (b.loadSegments pml4) (fun _ s => ∀ i < b.ePhnum, b.Loads i s)
      fun _ => True := by
  refine read_then (H := fun _ => True) (fun _ => id) ?_
  have rounds : Spec (fun _ => True)
      ((range b.ePhnum).forM (b.loadPhdr 0 fun g va => g.loadPage b clipMin pml4 va))
      (fun _ s => True ∧ ∀ i ∈ range b.ePhnum, b.Loads i s) fun _ => True := by
    refine .forM_each (fun i _ => ?_) fun i _ j => ?_
    · exact loadPhdr_loads.mono (fun _ => id) (fun _ _ loads => ⟨trivial, loads⟩) fun _ => id
    · exact loads_kept fun r => loadPhdr_has fun g va => loadPage_has
  exact rounds.mono (fun _ => id) (fun _ s done i small => done.2 i (mem_range.2 small))
    fun _ => id

theorem loadStack_has (pml4 : Nat) : Keeps (r ∈ ·.reads) (loadStack pml4) := by
  refine .forM fun va _ => .bind (allocPage_spec has_phys) fun page => ?_
  exact mapPage_spec has_phys fun s phys has => has

theorem elfLoad_loads : Spec Tame (elfLoad b)
      (fun l s => b.Valid ∧ l.entry = b.eEntry ∧ ∀ i < b.ePhnum, b.Loads i s) fun _ => True := by
  have validated := (validate_tame (b := b) (· == ET_EXEC)).mono (fun _ => id) (fun _ _ => id)
    fun _ _ => trivial
  refine validated.bind fun _ => .assuming fun accepted => ?_
  have valid := accepted.toValid
  refine .bind Spec.any fun pml4 => orDestroy_spec (fun _ _ => id) ?_
  refine (loadSegments_loads pml4).bind fun _ => ?_
  have stack : Spec (fun s => ∀ i < b.ePhnum, b.Loads i s) (loadStack pml4)
      (fun _ s => ∀ i < b.ePhnum, b.Loads i s) fun _ => True :=
    .all fun i => .all fun small => loads_kept fun r => loadStack_has pml4
  refine stack.bind fun _ => read_then ?_ (.pure fun _ loads => ⟨valid, rfl, loads⟩)
  exact fun s loads i small => (loads i small).more fun r mem => mem_cons_of_mem _ mem

theorem loadSegments_begins (some_header : 0 < b.ePhnum) (pml4 : Nat) :
    Spec (fun _ => True) (b.loadSegments pml4) (fun _ s => ⟨b, b.phdrAt 0, 4⟩ ∈ s.reads)
      (⟨b, b.phdrAt 0, 4⟩ ∈ ·.reads) := by
  refine read_then (H := fun _ => True) (fun _ => id) ?_
  obtain ⟨n, more⟩ : ∃ n, b.ePhnum = n + 1 := ⟨b.ePhnum - 1, by omega⟩
  change Spec _ ((range b.ePhnum).forM _) _ _
  rw [more, range_succ_eq_map]
  refine Spec.bind (Q := fun _ s => ⟨b, b.phdrAt 0, 4⟩ ∈ s.reads) ?_ fun _ =>
    .forM fun i _ => loadPhdr_has fun g va => loadPage_has
  refine loadPhdr_spec (H := (⟨b, b.phdrAt 0, 4⟩ ∈ ·.reads)) (fun _ _ => mem_cons_self)
    (fun _ _ _ _ => mem_cons_of_mem _) (fun _ => id) (fun _ _ => id) ?_
  exact fun _ _ _ _ _ _ => .forM fun _ _ => loadPage_has

/-- A header that is accepted is read, unless there is no page for the address space. -/
theorem elfLoad_begins (phys : Phys) (some_header : 0 < b.ePhnum) :
    Spec (·.phys = phys) (elfLoad b) (fun _ s => ⟨b, b.phdrAt 0, 4⟩ ∈ s.reads) fun s =>
      b.Accepted (· == ET_EXEC) → (addressSpaceCreate phys).1.isSome →
        ⟨b, b.phdrAt 0, 4⟩ ∈ s.reads := by
  have check {ok : Prop} [Decidable ok] (passes : b.Accepted (· == ET_EXEC) → ok) :
      Spec (·.phys = phys) (require ok) (fun _ s => s.phys = phys) fun s =>
        b.Accepted (· == ET_EXEC) → (addressSpaceCreate phys).1.isSome →
          ⟨b, b.phdrAt 0, 4⟩ ∈ s.reads :=
    .ite (fun _ => .pure fun _ => id) fun fails =>
      .throw fun _ _ accepted => absurd (passes accepted) fails
  refine Spec.bind (Q := fun _ s => s.phys = phys) ?_ fun _ => ?_
  · refine .bind (check fun accepted => accepted.header) fun _ => ?_
    refine .bind (.forM fun p mem => read_then (fun _ => id)
      (check fun accepted => beq_iff_eq.2 (accepted.ident p mem))) fun _ => ?_
    refine .bind (read_then (fun _ => id) (check fun accepted => accepted.type)) fun _ => ?_
    refine .bind (read_then (fun _ => id)
      (check fun accepted => beq_iff_eq.2 accepted.machine)) fun _ => ?_
    refine .bind (read_then (fun _ => id)
      (check fun accepted => beq_iff_eq.2 accepted.phentsize)) fun _ => ?_
    exact read_then (fun _ => id) (read_then (fun _ => id) (check fun accepted => accepted.table))
  refine Spec.bind (Q := fun _ _ => True) ⟨fun s same => ?_⟩ fun pml4 => ?_
  · unfold create
    rw [same]
    rcases addressSpaceCreate phys with ⟨_ | _, _⟩
    · exact fun _ room => nomatch room
    · trivial
  refine (orDestroy_spec has_phys ((loadSegments_begins some_header pml4).bind fun _ =>
    (loadStack_has pml4).bind fun _ => ?_)).mono (fun _ => id) (fun _ _ => id) fun _ has _ _ => has
  exact read_then (fun _ => mem_cons_of_mem _) (.pure fun _ => id)

end Trace

theorem elfLoad_ok {b : Blob} {phys : Phys} {l : Loaded} {s : Loader}
    (run : elfLoad b { phys } = .ok l s) :
    b.Valid ∧ l.entry = b.eEntry ∧ ∀ i < b.ePhnum, b.Loads i s := by
  have result := (elfLoad_loads (b := b)).run _ (.start phys)
  rw [run] at result
  exact result

/-- Nothing outside the blob was read; on success the pages and the entries are in the
user half. -/
inductive Confined : EStateM.Result Status Loader Loaded → Prop
  | ok {l : Loaded} {s : Loader} (tame : s.Tame) (entry : l.entry < USER_VIRT_MAX)
      (startEntry : l.startEntry < USER_VIRT_MAX) : Confined (.ok l s)
  | error {e : Status} {s : Loader} (inside : ∀ r ∈ s.reads, r.Inside) : Confined (.error e s)

/-- Loaded segments are not larger in the file than in memory, and end below 2^64. -/
def Blob.WellFormed (b : Blob) : Prop :=
  ∀ i < b.ePhnum, b.pType i = PT_LOAD → b.pMemsz i ≠ 0 →
    b.pFilesz i ≤ b.pMemsz i ∧ b.pVaddr i + b.pMemsz i < 2 ^ 64

section Necessary

variable {b : Blob} {s : Loader}

theorem not_inside {off len : Nat} (outside : b.size ≤ off) (wraps : off < 2 ^ 64)
    (pos : 0 < len) :
    ¬ Inside ⟨b, off, len⟩ := by
  intro inside
  have first := inside 0 pos
  rw [Nat.add_zero, mod_eq_of_lt wraps] at first
  exact absurd first (Nat.not_lt.2 outside)

theorem table_of_inside (valid : b.Valid) (header : 0 < b.ePhnum → Inside ⟨b, b.phdrAt 0, 4⟩) :
    b.ePhoff + b.ePhnum * PHDR_SIZE < 2 ^ 64 := by
  by_contra wraps
  have table := valid.table
  have small := b.small
  have few := b.field_lt 56 2
  have low := b.field_lt 32 8
  change b.ePhnum < 256 ^ 2 at few
  change b.ePhoff < 256 ^ 8 at low
  unfold PHDR_SIZE at *
  norm_num at few low
  have outside : b.size ≤ b.phdrAt 0 := by
    unfold phdrAt
    omega
  exact not_inside outside (mod_lt _ (by norm_num)) (by norm_num) (header (by omega))

theorem sub64_pos {lo hi : Nat} (below : lo < hi) (small : hi < 2 ^ 64) : 0 < sub64 hi lo := by
  unfold sub64
  omega

theorem sub64_wraps {size off : Nat} (outside : size < off) (small : off < 2 ^ 64) :
    0 < sub64 size off := by
  unfold sub64
  omega

theorem clipMin_pos {size n off : Nat} (pos : 0 < n) (left : 0 < sub64 size off) :
    0 < clipMin size n off :=
  Nat.lt_min.2 ⟨pos, left⟩

theorem Segment.first_page (user : g.vaddr + g.memsz < 2 ^ 47) (pos : 0 < g.filesz)
    (shorter : g.filesz ≤ g.memsz) :
    g.start ∈ pageRange g.start g.stop ∧ g.Overlaps g.start ∧ g.copyLo g.start = g.vaddr ∧
      g.vaddr < g.copyHi g.start ∧ g.copyHi g.start < 2 ^ 48 := by
  have start : g.start = g.vaddr / 4096 * 4096 := rfl
  have stop : g.stop = (g.vaddr + g.memsz + 4095) / 4096 * 4096 := by
    unfold Segment.stop pageDown add64
    omega
  have hi : g.fileHi = g.vaddr + g.filesz := by
    unfold fileHi add64
    omega
  have next : add64 g.start 4096 = g.start + 4096 := by
    unfold add64
    omega
  refine ⟨mem_map.2 ⟨0, mem_range.2 ?_, by omega⟩, ?_, ?_, ?_⟩
  · omega
  · unfold Overlaps
    rw [hi, next]
    omega
  · unfold copyLo
    rw [if_neg (by omega)]
  · unfold copyHi
    rw [hi, next]
    split <;> omega

theorem segment_of_inside (loads : b.Loads i s) (load : b.pType i = PT_LOAD)
    (nonempty : b.pMemsz i ≠ 0) (shorter : b.pFilesz i ≤ b.pMemsz i)
    (ends : b.pVaddr i + b.pMemsz i < 2 ^ 64) (inside : ∀ r ∈ s.reads, r.Inside) :
    b.pOffset i + b.pFilesz i < 2 ^ 64 := by
  by_contra wraps
  have user := loads.user load nonempty
  have file := loads.file load nonempty
  have small := b.small
  have offset : b.pOffset i < 2 ^ 64 := by
    have := b.field_lt (b.phdrAt i + 8) 8
    norm_num at this
    exact this
  have vaddr : (b.segmentAt i).vaddr = b.pVaddr i := by
    change add64 (b.pVaddr i) 0 = b.pVaddr i
    unfold add64
    omega
  rw [vaddr] at user
  have top : add64 (b.pVaddr i) (b.pMemsz i) = b.pVaddr i + b.pMemsz i := mod_eq_of_lt ends
  rw [top] at user
  unfold USER_VIRT_MAX at user
  unfold add64 at file
  obtain ⟨mem, overlaps, lo, hi, low⟩ := (b.segmentAt i).first_page
    (by rw [vaddr]; exact user) (by change 0 < b.pFilesz i; omega) shorter
  have off : (b.segmentAt i).srcOff (b.segmentAt i).start = b.pOffset i := by
    unfold srcOff
    rw [lo]
    change add64 (b.pOffset i) _ = _
    unfold add64 sub64
    omega
  have slice : (b.segmentAt i).slice b clipMin (b.segmentAt i).start = ⟨b, b.pOffset i,
      clipMin b.size (sub64 ((b.segmentAt i).copyHi (b.segmentAt i).start) (b.segmentAt i).vaddr)
        (b.pOffset i)⟩ := by
    unfold Segment.slice
    rw [off, lo]
  have pos : 0 < clipMin b.size
      (sub64 ((b.segmentAt i).copyHi (b.segmentAt i).start) (b.segmentAt i).vaddr)
      (b.pOffset i) :=
    clipMin_pos (sub64_pos hi (low.trans (by norm_num))) (sub64_wraps (by omega) offset)
  have outside : b.size ≤ b.pOffset i := by omega
  have read := loads.slices load nonempty _ mem overlaps
  rw [slice] at read
  exact not_inside outside offset pos (inside _ read)

theorem inFile_of_inside (valid : b.Valid) (wellFormed : b.WellFormed)
    (loads : ∀ i < b.ePhnum, b.Loads i s) (inside : ∀ r ∈ s.reads, r.Inside) : b.InFile 0 where
  table := table_of_inside valid fun pos => inside _ (loads 0 pos).header
  segments i small load nonempty _ _ :=
    have ⟨shorter, ends⟩ := wellFormed i small load nonempty
    segment_of_inside (loads i small) load nonempty shorter ends inside

end Necessary

theorem Confined.inside {b : Blob} {phys : Phys} (confined : Confined (elfLoad b { phys }))
    (accepted : b.Accepted (· == ET_EXEC)) (room : (addressSpaceCreate phys).1.isSome)
    (some_header : 0 < b.ePhnum) : Inside ⟨b, b.phdrAt 0, 4⟩ := by
  have begins := (elfLoad_begins phys some_header).run { phys } rfl
  generalize elfLoad b { phys } = r at confined begins
  cases confined with
  | ok tame => exact tame.inside _ begins
  | error inside => exact inside _ (begins accepted room)

def smallMachine : Phys where
  ram := fun _ => 0
  pmm := ⟨true, fun f => decide (f < 2), 64, 62, 0, by omega⟩
  kernelPml4 := 1
  low := by norm_num

def bytesOf (v : Nat) : Nat → List Nat
  | 0 => []
  | n + 1 => v % 256 :: bytesOf (v / 256) n

def bareHeader (entry phoff phnum : Nat) : Blob where
  byte off := BitVec.ofNat 8 (([0x7f, 0x45, 0x4c, 0x46, 2, 1] ++ bytesOf 0 10 ++ bytesOf 2 2 ++
    bytesOf 62 2 ++ bytesOf 1 4 ++ bytesOf entry 8 ++ bytesOf phoff 8 ++ bytesOf 0 12 ++
    bytesOf 64 2 ++ bytesOf 56 2 ++ bytesOf phnum 2 ++ bytesOf 0 6).getD off 0)
  size := 64
  small := by norm_num

def Loader.finished : EStateM.Result Status Loader Loaded → Option (Loaded × Loader)
  | .ok l s => some (l, s)
  | .error _ _ => none

/-- Its one program header is said to lie 56 bytes before the blob. -/
def strayHeader : Blob := bareHeader (2 ^ 63) (2 ^ 64 - 56) 1

theorem Blob.Loads.strays {b : Blob} {l : Loaded} {s : Loader} (loads : b.Loads 0 s)
    (outside : b.size ≤ b.phdrAt 0) (high : USER_VIRT_MAX ≤ l.entry) :
    (∃ r ∈ s.reads, ¬ r.Inside) ∧ ¬ Confined (.ok l s) := by
  refine ⟨⟨_, loads.header, not_inside outside (mod_lt _ (by norm_num)) (by norm_num)⟩, ?_⟩
  intro confined
  cases confined with
  | ok _ entry => exact absurd entry (Nat.not_lt.2 high)

end Osnos.Proc
