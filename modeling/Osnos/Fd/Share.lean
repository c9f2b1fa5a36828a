import Osnos.Fd.File

/-! The calls through descriptors that share an open file description, against a cursor in a
byte string. Others may do what they like in between, as long as the file keeps its contents
and the description its place. -/
namespace Osnos.Fd
open Osnos.Vfs OpenFile Prog List FileCall

/-- Where a seek counts from; `none` for a `whence` that does not exist. -/
def seekFrom (c : Cursor UInt8) : Nat → Option Nat
  | 0 => some 0
  | 1 => some c.pos
  | 2 => some c.text.length
  | _ => none

def seekTarget (c : Cursor UInt8) (offset : Int) (whence : Nat) : Option Int :=
  (seekFrom c whence).map fun base => base + offset

/-- The cursor after a call with this reply, if it is one that a cursor gives. A read
fails where the description or the buffer does not allow it, a seek where it leads
nowhere; a write may always fail. A call that fails changes nothing. -/
def OpenFile.answer (f : OpenFile) (c : Cursor UInt8) : FileCall → Reply → Option (Cursor UInt8)
  | .read _ n, .data out => if out = c.slice n then some (c.seek (c.pos + out.length)) else none
  | .read buf _, .error _ => if !buf ∨ f.access = O_WRONLY then some c else none
  | .write buf n _, .count k =>
    if k = n ∧ (n = 0 ∨ buf.isSome) then
      some (c.put 0 f.appends (bytesOf (buf.getD fun _ => 0) n))
    else none
  | .write .., .error _ => some c
  | .lseek offset whence, .position p =>
    if seekTarget c offset whence = some p ∧ 0 ≤ p then some (c.seek p.toNat) else none
  | .lseek offset whence, .error _ =>
    if (seekTarget c offset whence).all fun p => p < 0 then some c else none
  | _, _ => none

def FileCall.InRange (c : Cursor UInt8) : FileCall → Prop
  | .read _ n => c.pos + n < 2 ^ 63
  | .write _ n _ => c.pos + n < 2 ^ 63
  | .lseek offset whence => -2 ^ 63 ≤ offset ∧ ∀ p ∈ seekTarget c offset whence, p < 2 ^ 63

instance (c : Cursor UInt8) (k : FileCall) : Decidable (k.InRange c) := by
  cases k <;> unfold FileCall.InRange <;> infer_instance

variable {β σ : Type}

structure Sharing (v : Tree β σ) where
  file : File β
  fds : Set FileFd
  ofd : OfdIdx
  mode : OpenFile
  served : v.serves mode.path = some file
  notDir : mode.isDir = false
  notChr : mode.isChr = false

structure Description (v : Tree β σ) extends Sharing v where
  regular : RegularFile v.ops file

/-- What happens: a call of the task, or something that leaves the machine as given. -/
inductive Event (σ : Type)
  | call (fd : FileFd) (k : FileCall)
  | others (m : Machine σ)

variable {fd : FileFd} {n : Nat} {memory : Option (Nat → UInt8)}

namespace Description

variable {v : Tree β σ} (d : Description v) {m m' : Machine σ} {c : Cursor UInt8}

structure Shows (m : Machine σ) (c : Cursor UInt8) : Prop where
  slots : ∀ fd ∈ d.fds, m.fds fd = some d.ofd
  entry : m.pool.backend d.ofd = some (d.mode.seek c.pos)
  contents : d.regular.holds m.store c.text
  range : c.pos < 2 ^ 63

def Fits (m : Machine σ) (c : Cursor UInt8) : FileCall → Prop
  | .read _ n => d.regular.readFits c.text c.pos n
  | .write _ n _ => c.start d.mode.appends = c.text.length → d.regular.appendFits m.store c.text n
  | .lseek .. => True

def Follows (after : Machine σ → Cursor UInt8 → Prop)
    (ok : Machine σ → Cursor UInt8 → FileCall → Prop) :
    Machine σ → Cursor UInt8 → List (Event σ) → Prop
  | _, _, [] => True
  | _, c, .others m' :: es => after m' c → Follows after ok m' c es
  | m, c, .call fd k :: es => fd ∈ d.fds → ok m c k →
    ∃ reply m' c', k.exec v fd m = some (reply, m') ∧ d.mode.answer c k reply = some c' ∧
      after m' c' ∧ Follows after ok m' c' es

variable {d}

namespace Shows

variable (shows : d.Shows m c)
include shows

theorem fdGet (mem : fd ∈ d.fds) : m.fdGet fd = some (d.ofd, d.mode.seek c.pos) := by
  simp [Machine.fdGet, shows.slots fd mem, shows.entry]

theorem restore {s : σ} {text : Bytes} (holds : d.regular.holds s text) :
    d.Shows { m with store := s } ⟨text, c.pos⟩ :=
  ⟨shows.slots, shows.entry, holds, shows.range⟩

theorem seek {pos : Nat} (range : pos < 2 ^ 63) :
    ∃ m', setOffset d.ofd pos m = some (⟨⟩, m') ∧ d.Shows m' (c.seek pos) := by
  refine ⟨_, rfl, shows.slots, ?_, shows.contents, range⟩
  have small : pos % 2 ^ 64 = pos := Nat.mod_eq_of_lt (by omega)
  rw [Pool.amend_backend, shows.entry, small]
  rfl

theorem stat : ∃ m', onStore (v.vfsStat d.mode.path) m = some (.ok ⟨.reg, c.text.length⟩, m') ∧
      d.Shows m' c ∧ ∀ n, d.regular.appendFits m.store c.text n →
        d.regular.appendFits m'.store c.text n := by
  obtain ⟨s, run, holds, fits⟩ := d.regular.stat_ok shows.contents
  rw [Tree.vfsStat, Tree.call_served d.served]
  exact ⟨_, focus_some run, shows.restore holds, fits⟩

theorem read {off : Nat} (fits : d.regular.readFits c.text off n) :
    ∃ m', onStore (v.vfsReadAt d.mode.path off true n) m =
        some (.ok ((c.text.drop off).take n), m') ∧ d.Shows m' c := by
  obtain ⟨s, run, holds⟩ := d.regular.read_ok off n shows.contents fits
  rw [Tree.vfsReadAt_served d.served]
  exact ⟨_, focus_some run, shows.restore holds⟩

theorem readOld {total : Nat} (small : total ≤ SYS_WRITE_RMW_MAX) (whole : c.text.length ≤ total) :
    ∃ m', Fd.readOld v d.mode.path c.text.length total m = some
    (.ok c.text, m') ∧ d.Shows m' c := by
  unfold Fd.readOld
  by_cases some_text : 0 < c.text.length
  · have fits : d.regular.readFits c.text 0 total := d.regular.small (small.trans_lt (by decide))
    have got := shows.read fits
    rw [drop_zero, take_of_length_le whole] at got
    rw [if_pos some_text]
    exact got
  · have empty : c.text = [] := List.length_eq_zero_iff.1 (by omega)
    rw [if_neg some_text, empty]
    exact ⟨m, rfl, shows⟩

theorem write (buf : Nat → UInt8) (n : Nat) :
    ∃ e m', onStore (v.vfsWrite d.mode.path buf n) m = some (e, m') ∧
      d.Shows m' ⟨if e = 0 then bytesOf buf n else c.text, c.pos⟩ := by
  obtain ⟨e, s, run, holds⟩ := d.regular.write_ok buf n shows.contents
  rw [Tree.vfsWrite, Tree.call_served d.served]
  exact ⟨e, _, focus_some run, shows.restore holds⟩

theorem append (buf : Nat → UInt8) (fits : d.regular.appendFits m.store c.text n) :
    ∃ e m', onStore (v.vfsAppend d.mode.path buf n) m = some (e, m') ∧
      d.Shows m' ⟨if e = 0 then c.text ++ bytesOf buf n else c.text, c.pos⟩ := by
  obtain ⟨e, s, run, holds⟩ := d.regular.append_ok buf n shows.contents fits
  rw [Tree.vfsAppend, Tree.call_served d.served]
  exact ⟨e, _, focus_some run, shows.restore holds⟩

end Shows

variable (d) in
def Wrote (c : Cursor UInt8) (off : Nat) (data : Bytes) (reply : Reply) (m' : Machine σ) : Prop :=
  (∃ e, reply = .error e) ∧ d.Shows m' c ∨
    reply = .count data.length ∧ d.Shows m' ⟨overlay 0 c.text off data, off + data.length⟩

theorem appendAt_wrote (shows : d.Shows m c) (buf : Nat → UInt8)
    (fits : d.regular.appendFits m.store c.text n) :
    ∃ reply m', appendAt v d.ofd d.mode.path buf c.text.length n m = some (reply, m') ∧
      d.Wrote c c.text.length (bytesOf buf n) reply m' := by
  obtain ⟨e, _, run, shows₁⟩ := shows.append buf fits
  rw [appendAt, bind_some run]
  by_cases done : e = 0
  · rw [if_pos done] at shows₁
    have range := d.regular.bounded shows₁.contents
    rw [length_append, bytesOf_length] at range
    obtain ⟨_, move, shows₂⟩ := shows₁.seek range
    simp only [done, ne_eq, not_true_eq_false, if_false]
    rw [bind_some move]
    refine ⟨_, _, rfl, .inr ⟨by rw [bytesOf_length], ?_⟩⟩
    rw [overlay_end, bytesOf_length]
    exact shows₂
  · rw [if_neg done] at shows₁
    simp only [ne_eq, done, not_false_eq_true, if_true]
    exact ⟨_, _, rfl, .inl ⟨⟨e, rfl⟩, shows₁⟩⟩

theorem spliced_eq (scratch : Nat → UInt8) (old : Bytes) (off : Nat) (buf : Nat → UInt8) (n : Nat) :
    bytesOf (spliced scratch old old.length off buf n) (max (off + n) old.length) =
      overlay 0 old off (bytesOf buf n) := by
  rw [max_comm]
  refine map_range_eq_overlay (fun i inside => ?_) (fun i before gap => ?_) fun i outside inside => ?_
  · rw [spliced, if_pos (by omega), Nat.add_sub_cancel_left]
  · rw [spliced, if_neg (by omega), if_pos ⟨gap, before⟩]
  rw [spliced, if_neg (by omega), if_neg (by omega), if_neg (by omega), getElem?_eq_getElem inside]
  rfl

theorem rewriteAt_wrote (shows : d.Shows m c) (buf : Nat → UInt8) {off : Nat}
    (range : off + n < 2 ^ 63) (memory : Option (Nat → UInt8)) :
    ∃ reply m', rewriteAt v d.ofd d.mode.path buf c.text.length off n memory m = some (reply, m') ∧
      d.Wrote c off (bytesOf buf n) reply m' := by
  have small : (off + n) % 2 ^ 64 = off + n := Nat.mod_eq_of_lt (by omega)
  unfold rewriteAt
  rw [small]
  by_cases big : SYS_WRITE_RMW_MAX < max (off + n) c.text.length
  · rw [if_pos big]
    exact ⟨_, _, rfl, .inl ⟨⟨_, rfl⟩, shows⟩⟩
  rw [if_neg big]
  cases memory with
  | none => exact ⟨_, _, rfl, .inl ⟨⟨_, rfl⟩, shows⟩⟩
  | some scratch =>
    obtain ⟨m₁, read, shows₁⟩ := shows.readOld (not_lt.1 big) (le_max_right _ _)
    obtain ⟨e, m₂, run, shows₂⟩ := shows₁.write
      (spliced scratch c.text c.text.length off buf n) (max (off + n) c.text.length)
    rw [spliced_eq] at shows₂
    dsimp only
    rw [bind_some read]
    dsimp only
    rw [bind_some run]
    by_cases done : e = 0
    · rw [if_pos done] at shows₂
      obtain ⟨m₃, move, shows₃⟩ := shows₂.seek range
      simp only [done, ne_eq, not_true_eq_false, if_false]
      rw [bind_some move]
      refine ⟨_, _, rfl, .inr ⟨by rw [bytesOf_length], ?_⟩⟩
      rw [bytesOf_length]
      exact shows₃
    · rw [if_neg done] at shows₂
      simp only [ne_eq, done, not_false_eq_true, if_true]
      exact ⟨_, _, rfl, .inl ⟨⟨e, rfl⟩, shows₂⟩⟩

variable (d) in
def Replies (m : Machine σ) (c : Cursor UInt8) (fd : FileFd) (k : FileCall) : Prop :=
  ∃ reply m' c', k.exec v fd m = some (reply, m') ∧ d.mode.answer c k reply = some c' ∧ d.Shows m' c'

theorem read_replies (shows : d.Shows m c) (mem : fd ∈ d.fds) {buf : Bool}
    (range : c.pos + n < 2 ^ 63) (fits : d.regular.readFits c.text c.pos n) :
    d.Replies m c fd (.read buf n) := by
  unfold Replies
  rw [exec, sysRead]
  by_cases fault : !buf ∧ 0 < n
  · rw [if_pos fault]
    exact ⟨_, m, c, rfl, if_pos (.inl fault.1), shows⟩
  rw [if_neg fault, bind_some (get_apply m), shows.fdGet mem]
  by_cases unreadable : d.mode.access = O_WRONLY
  · simp only [seek_isDir, d.notDir, Bool.false_eq_true, if_false, seek_access, unreadable, if_true]
    exact ⟨_, m, c, rfl, if_pos (.inr unreadable), shows⟩
  simp only [seek_isDir, seek_isChr, d.notDir, d.notChr, Bool.false_eq_true,
    if_false, seek_access, unreadable, seek_path, seek_offset]
  cases buf with
  | false =>
    rw [Tree.vfsReadAt_unbuffered d.served]
    exact ⟨_, m, c, rfl, by simp [answer], shows⟩
  | true =>
    obtain ⟨m₁, read, shows₁⟩ := shows.read fits
    have short : ((c.text.drop c.pos).take n).length ≤ n := length_take_le _ _
    have after : c.pos + ((c.text.drop c.pos).take n).length < 2 ^ 63 := by omega
    obtain ⟨m₂, move, shows₂⟩ := shows₁.seek after
    rw [bind_some read]
    dsimp only
    rw [bind_some move]
    exact ⟨_, m₂, _, rfl, if_pos rfl, shows₂⟩

theorem Wrote.replies {reply : Reply} {buf : Nat → UInt8}
    (wrote : d.Wrote c (c.start d.mode.appends) (bytesOf buf n) reply m') (some_data : n ≠ 0) :
    ∃ c', d.mode.answer c (.write (some buf) n memory) reply = some c' ∧ d.Shows m' c' := by
  obtain ⟨⟨e, rfl⟩, shows⟩ | ⟨rfl, shows⟩ := wrote
  · exact ⟨c, rfl, shows⟩
  refine ⟨_, if_pos ⟨bytesOf_length buf n, .inr rfl⟩, ?_⟩
  have data : bytesOf buf n ≠ [] := by
    rw [← length_pos_iff, bytesOf_length]
    omega
  rw [Option.getD_some, Cursor.put, if_neg data]
  exact shows

theorem write_replies (shows : d.Shows m c) (mem : fd ∈ d.fds)
    {buf : Option (Nat → UInt8)} (range : c.pos + n < 2 ^ 63)
    (fits : c.start d.mode.appends = c.text.length → d.regular.appendFits m.store c.text n) :
    d.Replies m c fd (.write buf n memory) := by
  unfold Replies
  rw [exec, sysWrite]
  by_cases fault : buf.isNone ∧ 0 < n
  · rw [if_pos fault]
    exact ⟨_, m, c, rfl, rfl, shows⟩
  rw [if_neg fault, bind_some (get_apply m), shows.fdGet mem]
  dsimp only
  by_cases unwritable : (d.mode.seek c.pos).access = O_RDONLY
  · rw [if_pos unwritable]
    exact ⟨_, m, c, rfl, rfl, shows⟩
  rw [if_neg unwritable]
  simp only [seek_path]
  by_cases none : n = 0
  · simp only [none, if_true]
    refine ⟨_, m, c, rfl, ?_, shows⟩
    simp [OpenFile.answer, bytesOf, Cursor.put]
  simp only [none, if_false]
  obtain ⟨src, rfl⟩ : ∃ src, buf = some src := by
    cases buf with
    | none => exact absurd ⟨rfl, by omega⟩ fault
    | some src => exact ⟨src, rfl⟩
  obtain ⟨m₁, stat, shows₁, keep⟩ := shows.stat
  rw [bind_some stat]
  have start : (if (d.mode.seek c.pos).appends then c.text.length else (d.mode.seek c.pos).offset) =
      c.start d.mode.appends := rfl
  simp only [existing, Option.getD_some, start]
  by_cases at_end : c.start d.mode.appends = c.text.length
  · rw [if_pos at_end, at_end]
    obtain ⟨reply, m', run, wrote⟩ := appendAt_wrote shows₁ src (keep n (fits at_end))
    rw [← at_end] at wrote
    obtain ⟨c', answer, shows'⟩ := wrote.replies none
    exact ⟨reply, m', c', run, answer, shows'⟩
  rw [if_neg at_end]
  have here : c.start d.mode.appends = c.pos := by
    unfold Cursor.start at at_end ⊢
    split at at_end
    · exact absurd rfl at_end
    next seeks =>
      rw [if_neg seeks]
  obtain ⟨reply, m', run, wrote⟩ := rewriteAt_wrote shows₁ src (here ▸ range) memory
  obtain ⟨c', answer, shows'⟩ := wrote.replies none
  exact ⟨reply, m', c', run, answer, shows'⟩

theorem Shows.seekBase (shows : d.Shows m c) (whence : Nat) :
    ∃ m', Fd.seekBase v (d.mode.seek c.pos) whence m =
        some ((seekFrom c whence).elim (.error OSNOS_EINVAL) fun base => .ok (base : Int), m') ∧
      d.Shows m' c := by
  have pos : int64 c.pos = c.pos := int64_eq (by omega) (by exact_mod_cast shows.range)
  have size : int64 c.text.length = c.text.length :=
    int64_eq (by omega) (by exact_mod_cast d.regular.bounded shows.contents)
  match whence with
  | 0 => exact ⟨m, rfl, shows⟩
  | 1 =>
    rw [Fd.seekBase, seek_offset, pos]
    exact ⟨m, rfl, shows⟩
  | 2 =>
    obtain ⟨m₁, stat, shows₁, _⟩ := shows.stat
    rw [Fd.seekBase, seek_path, bind_some stat]
    dsimp only
    rw [size]
    exact ⟨m₁, rfl, shows₁⟩
  | _ + 3 => exact ⟨m, rfl, shows⟩

theorem lseek_replies (shows : d.Shows m c) (mem : fd ∈ d.fds) {offset : Int}
    {whence : Nat} (low : -2 ^ 63 ≤ offset) (high : ∀ p ∈ seekTarget c offset whence, p < 2 ^ 63) :
    d.Replies m c fd (.lseek offset whence) := by
  unfold Replies
  rw [exec, sysLseek, bind_some (get_apply m), shows.fdGet mem]
  obtain ⟨m₁, base_run, shows₁⟩ := shows.seekBase whence
  dsimp only
  rw [bind_some base_run]
  unfold seekTarget at high
  cases from_ : seekFrom c whence with
  | none => exact ⟨_, m₁, c, rfl, by simp [answer, seekTarget, from_], shows₁⟩
  | some base =>
    rw [from_] at high
    have below := high (base + offset) rfl
    simp only [Option.elim_some, int64_eq (show -2 ^ 63 ≤ (base : Int) + offset by omega) below]
    by_cases negative : (base : Int) + offset < 0
    · rw [if_pos negative]
      exact ⟨_, m₁, c, rfl, by simp [answer, seekTarget, from_, negative], shows₁⟩
    rw [if_neg negative]
    obtain ⟨m₂, move, shows₂⟩ := shows₁.seek (show ((base : Int) + offset).toNat < 2 ^ 63 by omega)
    rw [bind_some move]
    refine ⟨_, m₂, _, rfl, if_pos ⟨by rw [seekTarget, from_]; rfl, by omega⟩, shows₂⟩

theorem replies (shows : d.Shows m c) (mem : fd ∈ d.fds) {k : FileCall}
    (range : k.InRange c) (fits : d.Fits m c k) : d.Replies m c fd k := by
  cases k with
  | read => exact read_replies shows mem range fits
  | write => exact write_replies shows mem range fits
  | lseek => exact lseek_replies shows mem range.1 range.2

theorem follows (shows : d.Shows m c) (es : List (Event σ)) :
    d.Follows d.Shows (fun m c k => k.InRange c ∧ d.Fits m c k) m c es := by
  induction es generalizing m c with
  | nil => trivial
  | cons e _ ih =>
    cases e with
    | others => exact fun kept => ih kept
    | call =>
      rintro mem ⟨range, fits⟩
      obtain ⟨reply, m', c', run, answer, shows'⟩ := replies shows mem range fits
      exact ⟨reply, m', c', run, answer, shows', ih shows'⟩

theorem Follows.weaken {after : Machine σ → Cursor UInt8 → Prop}
    {ok ok' : Machine σ → Cursor UInt8 → FileCall → Prop} {es : List (Event σ)}
    (follows : d.Follows after ok m c es) (fewer : ∀ m c k, ok' m c k → ok m c k) :
    d.Follows after ok' m c es := by
  induction es generalizing m c with
  | nil => trivial
  | cons e _ ih =>
    cases e with
    | others => exact fun kept => ih (follows kept)
    | call _ k =>
      intro mem legal
      obtain ⟨reply, m', c', run, answer, shows, rest⟩ := follows mem (fewer m c k legal)
      exact ⟨reply, m', c', run, answer, shows, ih rest⟩

variable (d) in
def judge : Machine σ → Cursor UInt8 → List (FileFd × FileCall) → Bool
  | _, _, [] => true
  | m, c, (fd, k) :: rest =>
    if k.InRange c then
      match k.exec v fd m with
      | none => false
      | some (reply, m') =>
        match d.mode.answer c k reply with
        | none => false
        | some c' => judge m' c' rest
    else true

theorem Follows.judged {after : Machine σ → Cursor UInt8 → Prop}
    {calls : List (FileFd × FileCall)} (members : ∀ i ∈ calls, i.1 ∈ d.fds)
    (follows : d.Follows after (fun _ c k => k.InRange c) m c
      (calls.map fun i => .call i.1 i.2)) : d.judge m c calls := by
  induction calls generalizing m c with
  | nil => rfl
  | cons i calls ih =>
    obtain ⟨fd, k⟩ := i
    unfold judge
    split
    next range =>
      obtain ⟨reply, m', c', run, answer, _, rest⟩ := follows (members _ (by simp)) range
      simp only [run, answer]
      exact ih (fun i mem => members i (by simp [mem])) rest
    · rfl

theorem shortcut_same (shows : d.Shows m c) {buf : Nat → UInt8} {k k' : Nat} {m₁ m₂ : Machine σ}
    (range : c.text.length + n < 2 ^ 63) (fits : d.regular.appendFits m.store c.text n)
    (fast : appendAt v d.ofd d.mode.path buf c.text.length n m = some (.count k, m₁))
    (slow : rewriteAt v d.ofd d.mode.path buf c.text.length c.text.length n memory m =
      some (.count k', m₂)) :
    k = n ∧ k' = n ∧ d.Shows m₁ ⟨c.text ++ bytesOf buf n, c.text.length + n⟩ ∧
      d.Shows m₂ ⟨c.text ++ bytesOf buf n, c.text.length + n⟩ := by
  obtain ⟨_, _, run₁, wrote₁⟩ := appendAt_wrote shows buf fits
  obtain ⟨_, _, run₂, wrote₂⟩ := rewriteAt_wrote shows buf range memory
  cases fast.symm.trans run₁
  cases slow.symm.trans run₂
  obtain ⟨⟨_, impossible⟩, _⟩ | ⟨count₁, shows₁⟩ := wrote₁
  · cases impossible
  obtain ⟨⟨_, impossible⟩, _⟩ | ⟨count₂, shows₂⟩ := wrote₂
  · cases impossible
  rw [overlay_end, bytesOf_length] at shows₁ shows₂
  cases count₁
  cases count₂
  exact ⟨bytesOf_length buf n, bytesOf_length buf n, shows₁, shows₂⟩

end Description

end Osnos.Fd
