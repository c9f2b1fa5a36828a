import Osnos.Fat.Contents

/-! A directory as the list of its slots, and what iteration and lookup read off it.
On a volume whose directories all have proper storage, the loops of the driver
compute the functions defined here and change nothing. -/
namespace Osnos.Fat
open List Prog Bool Nat Option Dirent

abbrev Pos := Nat × Nat

section
variable (g : Geometry) (V : Vol)

/-- The clusters from `c` on, as far as the driver's own checks let it follow them. -/
def chainWalk (fat : Nat → Nat) : Nat → Nat → List Nat
  | 0, _ => []
  | n + 1, c => if c < 2 ∨ c ≥ 0xFFF8 then [] else c :: chainWalk fat n (fat c)

def clusterLbas (c : Nat) : List Nat := List.range' (g.clusterToLba c) g.sectorsPerCluster
def rootLbas : List Nat := List.range' g.rootDirLba g.rootDirSectors

def dirLbas (dir : Nat) : List Nat :=
  if dir = 0 then rootLbas g else (chainWalk V.fat 65537 dir).flatMap (clusterLbas g)

def sectorSlots (lba : Nat) : List (Pos × Slot) :=
  (List.range 16).map fun i => ((lba, i * 32), slotIn (V.sec lba) i)

def slots (dir : Nat) : List (Pos × Slot) := (dirLbas g V dir).flatMap (sectorSlots V)

def entriesFrom : LfnAccum → List (Pos × Slot) → List Dirent
  | _, [] => []
  | accum, (pos, slot) :: rest =>
    if slot 0 = 0 then []
    else if slot 0 = 0xE5 then entriesFrom accum.reset rest
    else if isLfnSlot slot then entriesFrom (accum.consume slot) rest
    else if isVolSlot slot then entriesFrom accum.reset rest
    else decodeEntry accum slot pos.1 pos.2 :: entriesFrom .empty rest

def entries (dir : Nat) : List Dirent := entriesFrom .empty (slots g V dir)

def Dirent.matches (de : Dirent) (want : List UInt8) : Bool :=
  nameIequal de.name want || nameIequal de.shortName want

def find (dir : Nat) (want : List UInt8) : Option Dirent :=
  (entries g V dir).find? (·.matches want)

def DirOk (dir : Nat) : Prop := dir = 0 ∨ ∃ l, Chain g V dir l

end

def componentsFrom : Nat → List UInt8 → List (List UInt8)
  | 0, _ => []
  | n + 1, path =>
    if path = [] then [] else (takeComponent path).1 :: componentsFrom n (takeComponent path).2

def components (path : List UInt8) : List (List UInt8) :=
  componentsFrom (dropSlashes path).length (dropSlashes path)

def resolve (g : Geometry) (V : Vol) : Dirent → List (List UInt8) → Option Dirent
  | cur, [] => some cur
  | cur, comp :: rest =>
    if cur.isDir then (find g V cur.firstCluster comp).bind fun next => resolve g V next rest
    else none

def lookup (g : Geometry) (V : Vol) (path : List UInt8) : Option Dirent :=
  resolve g V rootSentinel (components path)

variable {path : List UInt8} {dir : Nat}

section
variable {g : Geometry} {V : Vol}

theorem chainWalk_eq {c n : Nat} {l : List Nat} (h : Chain g V c l) (rounds : l.length < n) :
    chainWalk V.fat n c = l := by
  induction l generalizing c n with
  | nil => exact absurd rfl h.path.ne_nil
  | cons x l ih =>
    obtain ⟨t, same⟩ := h.path.head
    obtain rfl : x = c := (List.cons.inj same).1
    obtain ⟨n, rfl⟩ : ∃ m, n = m + 1 := ⟨n - 1, by simp at rounds; omega⟩
    have hx := h.clusters x (by simp)
    rw [chainWalk, if_neg hx.go]
    congr 1
    cases h.path with
    | last e =>
      cases n with
      | zero => rfl
      | succ => rw [chainWalk, if_pos (.inr e)]
    | step _ p =>
      exact ih ⟨p, fun y hy => h.clusters y (by simp [hy])⟩ (by simp at rounds; omega)

theorem dirLbas_zero : dirLbas g V 0 = rootLbas g := rfl

theorem dirLbas_chain {l : List Nat} (h : Chain g V dir l) :
    dirLbas g V dir = l.flatMap (clusterLbas g) := by
  have two := h.first.1
  have ne : dir ≠ 0 := by omega
  rw [dirLbas, if_neg ne, chainWalk_eq h h.length_lt]

theorem getElem?_flatMap_block {α β : Type} {f : α → List β} {m : Nat} (l : List α)
    (len : ∀ a, (f a).length = m) (k j : Nat) (hj : j < m) :
    (l.flatMap f)[k * m + j]? = l[k]?.bind fun a => (f a)[j]? := by
  induction l generalizing k with
  | nil => simp
  | cons a l ih =>
    rw [flatMap_cons]
    cases k with
    | zero =>
      rw [getElem?_append_left (by rw [len a]; omega)]
      simp
    | succ k =>
      rw [getElem?_append_right (by rw [len a, succ_mul]; omega), len a]
      have shift : (k + 1) * m + j - m = k * m + j := by rw [succ_mul]; omega
      rw [shift, ih k]
      simp

theorem slots_getElem? (dir idx : Nat) :
    (slots g V dir)[idx]? = ((dirLbas g V dir)[idx / 16]?).map fun lba =>
      ((lba, idx % 16 * 32), slotIn (V.sec lba) (idx % 16)) := by
  have split : idx = idx / 16 * 16 + idx % 16 := by omega
  have block := getElem?_flatMap_block (f := sectorSlots V) (m := 16) (dirLbas g V dir)
    (fun lba => by simp [sectorSlots]) (idx / 16) (idx % 16) (by omega)
  rw [← split] at block
  rw [slots, block]
  cases (dirLbas g V dir)[idx / 16]? with
  | none => rfl
  | some lba =>
    have inside : idx % 16 < 16 := by omega
    simp [sectorSlots, inside]

theorem length_flatMap_block {α β : Type} {f : α → List β} {m : Nat} (l : List α)
    (len : ∀ a, (f a).length = m) : (l.flatMap f).length = l.length * m := by
  induction l with
  | nil => simp
  | cons a l ih =>
    rw [flatMap_cons, length_append, ih, len, length_cons, succ_mul, Nat.add_comm]

theorem slots_length (dir : Nat) : (slots g V dir).length = (dirLbas g V dir).length * 16 :=
  length_flatMap_block _ fun lba => by simp [sectorSlots]

theorem slots_length_lt (h : DirOk g V dir) : (slots g V dir).length < 2 ^ 32 := by
  rw [slots_length]
  rcases h with rfl | ⟨l, chain⟩
  · have := g.ranged.entries
    simp only [dirLbas_zero, rootLbas, length_range', Bpb.rootDirSectors]
    omega
  have hl := chain.length_lt
  have hs := g.ranged.spc
  rw [dirLbas_chain chain, length_flatMap_block (m := g.sectorsPerCluster) l fun c => by simp [clusterLbas]]
  have := Nat.mul_le_mul (Nat.le_of_lt hl) (Nat.le_of_lt hs)
  omega

theorem slots_step {e : Pos × Slot} {idx : Nat} (ok : DirOk g V dir)
    (h : (slots g V dir)[idx]? = some e) :
    idx < (slots g V dir).length ∧ (idx + 1) % 2 ^ 32 = idx + 1 := by
  have bound := slots_length_lt ok
  have inside := (List.getElem?_eq_some_iff.1 h).1
  exact ⟨inside, mod_eq_of_lt (by omega)⟩

theorem dirWalk_does {c n : Nat} {l : List Nat} (chain : Chain g V c l) :
    Does (Holds g) V (dirWalk g n c) (some l[n]?) V := by
  induction n generalizing c l with
  | zero =>
    have hc := chain.first
    obtain ⟨t, rfl⟩ := chain.path.head
    rw [dirWalk, if_neg hc.go]
    exact .pure _
  | succ n ih =>
    have hc := chain.first
    rw [dirWalk, if_neg hc.go]
    refine .bind (fatGetEntry_does hc.2.2) ?_
    by_cases more : 1 < l.length
    · have next := chain.drop_succ more
      have rest := ih next.2
      obtain ⟨t, rfl⟩ := chain.path.head
      simpa using rest
    cases chain.path with
    | last e =>
      -- the next round starts at the end mark, whichever of the two rounds it is
      have ended : dirWalk g n (V.fat c) = return some none := by
        cases n with
        | zero | succ => simp only [dirWalk, if_pos (Or.inr e)]
      simp only [ended]
      exact .pure _
    | step _ p =>
      have := List.length_pos_iff.2 p.ne_nil
      rw [length_cons] at more
      omega

def locatedAt (S : List (Pos × Slot)) (idx : Nat) : Located :=
  match S[idx]? with
  | none => .past
  | some (pos, slot) => .found slot pos.1 pos.2

theorem dirSlotLocate_does (ok : DirOk g V dir) (idx : Nat) :
    Does (Holds g) V (dirSlotLocate g dir idx) (locatedAt (slots g V dir) idx) V := by
  rw [dirSlotLocate, locatedAt, slots_getElem?]
  rcases ok with rfl | ⟨l, chain⟩
  · simp only [if_true, dirLbas_zero, rootLbas]
    by_cases past : idx ≥ g.rootDirSectors * 16
    · have none : (range' g.rootDirLba g.rootDirSectors)[idx / 16]? = none := by
        apply getElem?_eq_none
        simp only [length_range']
        omega
      simp only [past, if_true, none, map_none]
      exact .pure _
    · have some_lba : (range' g.rootDirLba g.rootDirSectors)[idx / 16]? =
          some (g.rootDirLba + idx / 16) := by
        rw [getElem?_range' (by omega)]
        simp
      simp only [past, if_false, some_lba, map_some]
      exact .bind (read_does (by omega)) (.pure _)
  have two := chain.first.1
  have ne : dir ≠ 0 := by omega
  have hs := g.spc_pos
  simp only [ne, if_false, dirLbas_chain chain]
  refine .bind (dirWalk_does (n := idx / (g.sectorsPerCluster * 16)) chain) ?_
  generalize hk : idx / (g.sectorsPerCluster * 16) = k
  generalize hr : idx % (g.sectorsPerCluster * 16) = r
  have rlt : r < g.sectorsPerCluster * 16 := by rw [← hr]; exact mod_lt _ (by omega)
  have whole : idx = 16 * (k * g.sectorsPerCluster) + r := by
    have h := div_add_mod idx (g.sectorsPerCluster * 16)
    rw [hk, hr] at h
    rw [← h]
    ring
  have split : idx / 16 = k * g.sectorsPerCluster + r / 16 := by omega
  have sub : idx % 16 = r % 16 := by omega
  have block := getElem?_flatMap_block (f := clusterLbas g) (m := g.sectorsPerCluster) l
    (fun c => by simp [clusterLbas]) k (r / 16) (by omega)
  rw [split, block, sub]
  cases l[k]? with
  | none => exact .pure _
  | some c =>
    have inside : (clusterLbas g c)[r / 16]? = some (g.clusterToLba c + r / 16) := by
      rw [clusterLbas, getElem?_range' (by omega)]
      simp
    simp only [Option.bind_some, inside, map_some]
    refine .bind (read_does ?_) (.pure _)
    have := rootDirLba_le_cluster (g := g) c
    omega

theorem readDirSlot_does (ok : DirOk g V dir) (idx : Nat) : Does (Holds g) V (readDirSlot g dir idx)
      (match (slots g V dir)[idx]? with
        | none => .past
        | some (pos, slot) => if slot 0 = 0 then .past else .found slot pos.1 pos.2) V := by
  have located := dirSlotLocate_does ok idx
  rw [locatedAt] at located
  rw [readDirSlot]
  refine .bind located ?_
  cases (slots g V dir)[idx]? with
  | none => exact .pure _
  | some p =>
    by_cases fin : p.2 0 = 0
    · simp only [fin, if_true]; exact .pure _
    · simp only [fin, if_false]; exact .pure _

def scanFrom : LfnAccum → Nat → List (Pos × Slot) → Option (Dirent × Nat)
  | _, _, [] => none
  | accum, idx, (pos, slot) :: rest =>
    if slot 0 = 0 then none
    else if slot 0 = 0xE5 then scanFrom accum.reset (idx + 1) rest
    else if isLfnSlot slot then scanFrom (accum.consume slot) (idx + 1) rest
    else if isVolSlot slot then scanFrom accum.reset (idx + 1) rest
    else some (decodeEntry accum slot pos.1 pos.2, idx + 1)

theorem drop_cons_of_getElem? {α : Type} {l : List α} {i : Nat} {a : α} (h : l[i]? = some a) :
    l.drop i = a :: l.drop (i + 1) := by
  obtain ⟨lt, rfl⟩ := List.getElem?_eq_some_iff.1 h
  exact drop_eq_getElem_cons lt

theorem fatReaddirLoop_does (ok : DirOk g V dir) (n idx : Nat) (accum : LfnAccum)
    (rounds : (slots g V dir).length - idx < n) :
    Does (Holds g) V (fatReaddirLoop g dir n accum idx)
      (scanFrom accum idx ((slots g V dir).drop idx)) V := by
  induction n generalizing idx accum with
  | zero => omega
  | succ n ih =>
    rw [fatReaddirLoop]
    refine .bind (readDirSlot_does ok idx) ?_
    cases h : (slots g V dir)[idx]? with
    | none =>
      rw [drop_eq_nil_of_le (List.getElem?_eq_none_iff.1 h)]
      exact .pure _
    | some p =>
      obtain ⟨pos, slot⟩ := p
      obtain ⟨inside, step⟩ := slots_step ok h
      rw [drop_cons_of_getElem? h, scanFrom]
      by_cases fin : slot 0 = 0
      · simp only [fin, if_true]
        exact .pure _
      simp only [fin, if_false, step]
      by_cases deleted : slot 0 = 0xE5
      · simp only [deleted, if_true]
        exact ih _ _ (by omega)
      simp only [deleted, if_false]
      by_cases lfn : isLfnSlot slot
      · simp only [lfn, if_true]
        exact ih _ _ (by omega)
      simp only [lfn, false_eq_true, if_false]
      by_cases vol : isVolSlot slot
      · simp only [vol, if_true]
        exact ih _ _ (by omega)
      · simp only [vol, false_eq_true, if_false]
        exact .pure _

theorem readdirFrom_does (ok : DirOk g V dir) (cursor : Nat) :
    Does (Holds g) V (readdirFrom g dir cursor)
      (scanFrom .empty cursor ((slots g V dir).drop cursor)) V := by
  have := slots_length_lt ok
  exact fatReaddirLoop_does ok _ _ _ (by simp only [scanRounds]; omega)

theorem entriesFrom_scan (accum : LfnAccum) (idx : Nat) (S : List (Pos × Slot)) :
    match scanFrom accum idx S with
    | none => entriesFrom accum S = []
    | some (ent, next) => idx < next ∧ next ≤ idx + S.length ∧
        entriesFrom accum S = ent :: entriesFrom .empty (S.drop (next - idx)) := by
  induction S generalizing accum idx with
  | nil => rfl
  | cons p rest ih =>
    obtain ⟨pos, slot⟩ := p
    -- a slot that is skipped leaves the claim to the rest, one index further
    have skip : ∀ a : LfnAccum, (match scanFrom a (idx + 1) rest with
        | none => entriesFrom a rest = []
        | some (ent, next) => idx < next ∧ next ≤ idx + ((pos, slot) :: rest).length ∧
            entriesFrom a rest = ent :: entriesFrom .empty (((pos, slot) :: rest).drop (next - idx))) := by
      intro a
      have h := ih a (idx + 1)
      cases scan : scanFrom a (idx + 1) rest with
      | none => simpa [scan] using h
      | some r =>
        obtain ⟨ent, next⟩ := r
        simp only [scan] at h ⊢
        obtain ⟨lo, hi, eq⟩ := h
        refine ⟨by omega, by simp only [length_cons]; omega, ?_⟩
        have shift : next - idx = (next - (idx + 1)) + 1 := by omega
        rw [eq, shift, drop_succ_cons]
    rw [scanFrom, entriesFrom]
    by_cases fin : slot 0 = 0
    · simp [fin]
    simp only [fin, if_false]
    by_cases deleted : slot 0 = 0xE5
    · simp only [deleted, if_true]
      exact skip _
    simp only [deleted, if_false]
    by_cases lfn : isLfnSlot slot
    · simp only [lfn, if_true]
      exact skip _
    simp only [lfn, false_eq_true, if_false]
    by_cases vol : isVolSlot slot
    · simp only [vol, if_true]
      exact skip _
    simp only [vol, false_eq_true, if_false]
    refine ⟨by omega, by simp, ?_⟩
    have one : idx + 1 - idx = 1 := by omega
    rw [one]
    rfl

theorem dirFindLoop_does (ok : DirOk g V dir) (want : List UInt8) (n cursor : Nat)
    (rounds : (slots g V dir).length - cursor < n) :
    Does (Holds g) V (dirFindLoop g dir want n cursor)
      ((entriesFrom .empty ((slots g V dir).drop cursor)).find? (·.matches want)) V := by
  induction n generalizing cursor with
  | zero => omega
  | succ n ih =>
    rw [dirFindLoop]
    refine .bind (readdirFrom_does ok cursor) ?_
    have h := entriesFrom_scan .empty cursor ((slots g V dir).drop cursor)
    cases scan : scanFrom .empty cursor ((slots g V dir).drop cursor) with
    | none =>
      simp only [scan] at h
      rw [h]
      exact .pure _
    | some r =>
      obtain ⟨ent, next⟩ := r
      simp only [scan, length_drop] at h
      obtain ⟨lo, hi, eq⟩ := h
      have shift : cursor + (next - cursor) = next := by omega
      rw [eq, find?_cons, drop_drop, shift]
      by_cases hit : nameIequal ent.name want
      · simp only [hit, if_true, Dirent.matches, Bool.true_or]
        exact .pure _
      by_cases short : nameIequal ent.shortName want
      · simp only [hit, short, false_eq_true, if_false, if_true, Dirent.matches, Bool.or_true]
        exact .pure _
      have miss : ent.matches want = false := by simp [Dirent.matches, hit, short]
      simp only [hit, short, false_eq_true, if_false, miss]
      exact ih next (by omega)

theorem dirFindByName_does (ok : DirOk g V dir) (want : List UInt8) :
    Does (Holds g) V (dirFindByName g dir want) (find g V dir want) V := by
  have := slots_length_lt ok
  have h := dirFindLoop_does ok want scanRounds 0 (by simp only [scanRounds]; omega)
  simpa [find, entries, dirFindByName] using h

structure Closed (g : Geometry) (V : Vol) (P : Nat → Prop) : Prop where
  root : P 0
  ok : ∀ dir, P dir → DirOk g V dir
  step : ∀ dir, P dir → ∀ e ∈ entries g V dir, e.isDir → P e.firstCluster

theorem find_mem {want : List UInt8} {e : Dirent} (h : find g V dir want = some e) :
    e ∈ entries g V dir := mem_of_find?_eq_some h

def Trimmed (path : List UInt8) : Prop := ∀ rest, path ≠ 47 :: rest

theorem dropSlashes_trimmed (path : List UInt8) : Trimmed (dropSlashes path) := by
  intro rest same
  have := head?_dropWhile_not (fun b : UInt8 => decide (b = 47)) path
  rw [← dropSlashes, same] at this
  simp at this

theorem takeComponent_ne_nil (ne : path ≠ []) (trimmed : Trimmed path) :
    (takeComponent path).1 ≠ [] := by
  obtain ⟨b, rest, rfl⟩ := exists_cons_of_ne_nil ne
  have slash : b ≠ 47 := fun h => trimmed rest (by rw [h])
  simp [takeComponent, slash]

theorem takeComponent_rest (path : List UInt8) :
    (takeComponent path).2 = dropSlashes (path.drop (takeComponent path).1.length) := rfl

theorem takeComponent_rest_lt (ne : path ≠ []) (trimmed : Trimmed path) :
    (takeComponent path).2.length < path.length := by
  have le : (takeComponent path).2.length ≤ path.length - (takeComponent path).1.length := by
    rw [takeComponent_rest, ← length_drop]
    exact length_dropWhile_le _ _
  have := List.length_pos_iff.2 ne
  have := List.length_pos_iff.2 (takeComponent_ne_nil ne trimmed)
  omega

theorem componentsFrom_enough {n : Nat} (trimmed : Trimmed path)
    (rounds : path.length ≤ n) : componentsFrom n path = componentsFrom path.length path := by
  induction n using Nat.strongRecOn generalizing path with
  | ind n ih =>
    by_cases nil : path = []
    · subst nil
      cases n <;> simp [componentsFrom]
    have lt := takeComponent_rest_lt nil trimmed
    obtain ⟨n, rfl⟩ : ∃ m, n = m + 1 := ⟨n - 1, by omega⟩
    obtain ⟨k, hk⟩ : ∃ k, path.length = k + 1 := ⟨path.length - 1, by omega⟩
    have rest := dropSlashes_trimmed (path.drop (takeComponent path).1.length)
    rw [← takeComponent_rest] at rest
    rw [hk, componentsFrom, componentsFrom, if_neg nil, if_neg nil, ih n (by omega) rest (by omega)]
    by_cases k' : k < n + 1
    · rw [ih k k' rest (by omega)]
    · omega

def Walkable (g : Geometry) (V : Vol) : Dirent → List (List UInt8) → Prop
  | _, [] => True
  | cur, comp :: rest => cur.isDir → DirOk g V cur.firstCluster ∧
      ∀ next, find g V cur.firstCluster comp = some next → Walkable g V next rest

theorem Closed.walkable {P : Nat → Prop} (closed : Closed g V P) (comps : List (List UInt8))
    {cur : Dirent} (start : cur.isDir → P cur.firstCluster) : Walkable g V cur comps := by
  induction comps generalizing cur with
  | nil => trivial
  | cons comp rest ih =>
    intro dir
    have inside := start dir
    exact ⟨closed.ok _ inside, fun next hit => ih fun down => closed.step _ inside next (find_mem hit) down⟩

theorem lookupLoop_does {n : Nat} (cur : Dirent) (trimmed : Trimmed path)
    (rounds : path.length < n) (walk : Walkable g V cur (componentsFrom n path)) :
    Does (Holds g) V (lookupLoop g n cur path)
    (resolve g V cur (componentsFrom n path)) V := by
  induction n generalizing cur path with
  | zero => omega
  | succ n ih =>
    rw [lookupLoop, componentsFrom]
    rw [componentsFrom] at walk
    by_cases nil : path = []
    · simp only [nil, if_true, resolve]
      exact .pure _
    have some_comp := takeComponent_ne_nil nil trimmed
    have lt := takeComponent_rest_lt nil trimmed
    have rest := dropSlashes_trimmed (path.drop (takeComponent path).1.length)
    rw [← takeComponent_rest] at rest
    simp only [nil, if_false, Walkable] at walk
    simp only [nil, if_false, resolve, some_comp]
    cases dir : cur.isDir with
    | false => exact .pure _
    | true =>
      obtain ⟨ok, onwards⟩ := walk dir
      refine .bind (dirFindByName_does ok _) ?_
      cases hit : find g V cur.firstCluster (takeComponent path).1 with
      | none => exact .pure _
      | some next => exact ih next rest (by omega) (onwards next hit)

theorem lookupFrom_walk (walk : Walkable g V rootSentinel (components path)) :
    Does (Holds g) V (lookupFrom g path) (lookup g V path) V := by
  have trimmed := dropSlashes_trimmed path
  have enough := componentsFrom_enough trimmed (Nat.le_add_right _ 1)
  have h := lookupLoop_does (n := (dropSlashes path).length + 1) rootSentinel trimmed
    (by omega) (by rw [enough]; exact walk)
  rw [enough] at h
  exact h

theorem lookupFrom_does {P : Nat → Prop} (closed : Closed g V P) (path : List UInt8) :
    Does (Holds g) V (lookupFrom g path) (lookup g V path) V :=
  lookupFrom_walk (closed.walkable _ fun _ => closed.root)

end

end Osnos.Fat
