import Osnos.Base.Code
import Osnos.Base.Prog

/-! A processor whose interrupt handlers can be interrupted: an interrupt flag, a controller
with prioritised lines, and a stack of handlers that each run their code step by step. -/
namespace Nest
open Option

/-- A step of a handler. `enter` and `leave` mark the code that should not be entered twice. -/
inductive Op (σ α : Type)
  | cli
  | sti
  | eoi
  | enter (a : α)
  | leave
  | work (f : σ → σ)

abbrev Handler (σ α : Type) := Code (Op σ α) σ Unit

structure Frame (σ ι α : Type) where
  line : ι
  busy : Option α
  code : Handler σ α

structure Cpu (σ ι α : Type) where
  mem : σ
  enabled : Bool
  /-- The lines in service. -/
  service : ι → Bool
  /-- The innermost handler first. -/
  frames : List (Frame σ ι α)

/-- A request on a line, a step of the innermost handler, or a step of the code that no
handler interrupts, which leaves the flag as it likes. -/
inductive Event (σ ι α μ : Type)
  | request (l : ι) (h : Handler σ α)
  | op
  | main (m : μ) (on : Bool)

variable {σ ι α μ : Type}

namespace Op

def mem : Op σ α → σ → σ
  | work f, s => f s
  | _, s => s

def flag : Op σ α → Bool → Bool
  | cli, _ => false
  | sti, _ => true
  | _, on => on

def busy : Op σ α → Option α → Option α
  | enter a, _ => some a
  | leave, _ => none
  | _, b => b

end Op

namespace Cpu

def step [DecidableEq ι] (c : Cpu σ ι α) (f : Frame σ ι α) (rest : List (Frame σ ι α))
    (i : Op σ α) (next : σ → Handler σ α) : Cpu σ ι α where
  mem := i.mem c.mem
  enabled := i.flag c.enabled
  service := match i with
    | .eoi => Function.update c.service f.line false
    | _ => c.service
  frames := { f with busy := i.busy f.busy, code := next c.mem } :: rest

def op [DecidableEq ι] (c : Cpu σ ι α) : Option (Cpu σ ι α) :=
  match c.frames with
  | [] => none
  | f :: rest =>
    match f.code with
    | .ret _ => some { c with enabled := true, frames := rest }
    | .step i next => some (c.step f rest i next)

variable [LinearOrder ι] [Fintype ι]

def accept (c : Cpu σ ι α) (l : ι) (h : Handler σ α) : Option (Cpu σ ι α) :=
  if c.enabled = true ∧ ∀ m, c.service m = true → l < m then
    some { c with
      enabled := false
      service := Function.update c.service l true
      frames := ⟨l, none, h⟩ :: c.frames }
  else none

end Cpu

section
variable [LinearOrder ι] [Fintype ι] (base : μ → σ → σ)

def exec : Event σ ι α μ → Prog (Cpu σ ι α) Unit
  | .request l h, c => (c.accept l h).map fun c => ((), c)
  | .op, c => c.op.map fun c => ((), c)
  | .main m on, c =>
    if c.frames = [] then some ((), { c with mem := base m c.mem, enabled := on }) else none

end

def Exposed (c : Cpu σ ι α) : Prop := c.enabled = true ∧ ∃ f ∈ c.frames, f.busy ≠ none

/-- Interrupts are enabled and a handler, other than the outermost, has ended its interrupt. -/
def Late (c : Cpu σ ι α) : Prop :=
  c.enabled = true ∧ ∃ f ∈ c.frames.dropLast, c.service f.line = false

/-- Above the outermost handler, every handler interrupted one of a lower priority. -/
def Ordered [LT ι] (c : Cpu σ ι α) : Prop :=
  c.frames.dropLast.Pairwise fun inner outer => inner.line < outer.line

def Atomic (a : α) (c : Cpu σ ι α) : Prop :=
  c.frames.Pairwise fun inner outer => inner.busy = some a → outer.busy = none

def Starts (a : α) (h : Handler σ α) : Prop :=
  ∃ (next : σ → Handler σ α) (next' : σ → σ → Handler σ α),
    h = .step .eoi next ∧ ∀ s, next s = .step (.enter a) (next' s)

def Quiet : Handler σ α → Bool → Option α → σ → Prop
  | .ret _, on, busy, _ => ¬(on = true ∧ busy ≠ none)
  | .step i next, on, busy, s =>
    ¬(on = true ∧ busy ≠ none) ∧ Quiet (next s) (i.flag on) (i.busy busy) (i.mem s)

structure Sound (top : ι) (c : Cpu σ ι α) : Prop where
  served : c.service top = true → c.enabled = false ∧
    ∃ f rest next, c.frames = f :: rest ∧ f.line = top ∧ f.code = .step .eoi next
  single : ∀ f ∈ c.frames.tail, f.busy = none

theorem Sound.atomic {top : ι} {c : Cpu σ ι α} {a : α} (sound : Sound top c) : Atomic a c := by
  have single := sound.single
  unfold Atomic
  cases frames : c.frames with
  | nil => exact .nil
  | cons =>
    rw [frames] at single
    refine .cons (fun outer mem _ => single outer mem) ?_
    exact List.pairwise_of_forall_mem_list fun _ _ outer mem _ => single outer mem

theorem Cpu.op_cases [DecidableEq ι] {c c' : Cpu σ ι α} (stepped : c.op = some c') :
    ∃ f rest, c.frames = f :: rest ∧
      ((∃ u, f.code = .ret u ∧ c' = { c with enabled := true, frames := rest }) ∨
        ∃ i next, f.code = .step i next ∧ c' = c.step f rest i next) := by
  unfold Cpu.op at stepped
  split at stepped
  · cases stepped
  rename_i f rest frames
  refine ⟨f, rest, frames, ?_⟩
  split at stepped
  next u code =>
    exact .inl ⟨u, code, (some.inj stepped).symm⟩
  next i next code =>
    exact .inr ⟨i, next, code, (some.inj stepped).symm⟩

theorem op_sound [DecidableEq ι] {top : ι} {c c' : Cpu σ ι α} (sound : Sound top c)
    (stepped : c.op = some c') : Sound top c' := by
  obtain ⟨f, rest, frames, ⟨u, code, rfl⟩ | ⟨i, next, code, rfl⟩⟩ := Cpu.op_cases stepped
  · refine ⟨fun served => ?_, fun g mem => ?_⟩
    · obtain ⟨-, _, _, _, frames', -, code'⟩ := sound.served served
      cases frames.symm.trans frames'
      cases code.symm.trans code'
    · refine sound.single g ?_
      rw [frames]
      exact List.mem_of_mem_tail mem
  refine ⟨fun served => ?_, fun g mem => ?_⟩
  · -- the step is the one that ends the service
    have before : c.service top := by
      cases i with
      | eoi =>
        by_cases here : top = f.line
        · simp [Cpu.step, here] at served
        · simpa [Cpu.step, here] using served
      | _ => exact served
    obtain ⟨-, _, _, _, frames', line, code'⟩ := sound.served before
    cases frames.symm.trans frames'
    cases code.symm.trans code'
    simp [Cpu.step, line] at served
  · refine sound.single g ?_
    rw [frames]
    exact mem

section
variable [LinearOrder ι] [Fintype ι] {base : μ → σ → σ} {c c' : Cpu σ ι α}

theorem Ordered.depth (ordered : Ordered c) : c.frames.length ≤ Fintype.card ι + 1 := by
  have distinct : (c.frames.dropLast.map (·.line)).Nodup :=
    List.pairwise_map.2 (ordered.imp ne_of_lt)
  have few := distinct.length_le_card
  rw [List.length_map, List.length_dropLast] at few
  omega

omit [Fintype ι] in
theorem op_ordered (ordered : Ordered c) (stepped : c.op = some c') : Ordered c' := by
  unfold Ordered at ordered ⊢
  obtain ⟨f, rest, frames, ⟨_, _, rfl⟩ | ⟨i, next, _, rfl⟩⟩ := Cpu.op_cases stepped
  · rw [frames] at ordered
    cases rest with
    | nil => exact .nil
    | cons => exact (List.pairwise_cons.1 ordered).2
  · rw [frames] at ordered
    cases rest with
    | nil => exact .nil
    | cons => exact .cons (List.pairwise_cons.1 ordered).1 (List.pairwise_cons.1 ordered).2

theorem exec_ordered {e : Event σ ι α μ} {u : Unit} (ordered : Ordered c) (timely : ¬Late c)
    (run : exec base e c = some (u, c')) : Ordered c' := by
  cases e with
  | request l h =>
    obtain ⟨c₁, accepted, same⟩ := map_eq_some_iff.1 run
    cases same
    unfold Cpu.accept at accepted
    split at accepted
    next free =>
      cases accepted
      unfold Ordered at ordered ⊢
      dsimp only
      cases frames : c.frames with
      | nil => exact .nil
      | cons f rest =>
        rw [frames] at ordered
        refine .cons (fun outer mem => free.2 outer.line ?_) ordered
        by_contra ended
        exact timely ⟨free.1, outer, frames ▸ mem, by simpa using ended⟩
    · cases accepted
  | op =>
    obtain ⟨c₁, stepped, same⟩ := map_eq_some_iff.1 run
    cases same
    exact op_ordered ordered stepped
  | main =>
    simp only [exec] at run
    split at run
    · cases run
      exact ordered
    · cases run

end

section
variable [LinearOrder ι] [Fintype ι] {base : μ → σ → σ} (handlers : ι → Handler σ α → Prop)
  (a : α) (top : ι)

def Legal : Event σ ι α μ → Prop
  | .request l h => handlers l h
  | _ => True

def Safe (base : μ → σ → σ) (c : Cpu σ ι α) : Prop :=
  Atomic a c ∧ ∀ h c', handlers top h →
    Prog.play (exec base) c [.request top h, .op, .op] = some c' → Atomic a c'

variable {handlers a top} {c c' : Cpu σ ι α} (least : ∀ m, top ≤ m)
include least

theorem Cpu.accept_cases {l : ι} {h : Handler σ α} (accepted : c.accept l h = some c') :
    c.enabled = true ∧ c.service top = false ∧
      c' = { c with enabled := false, service := Function.update c.service l true
                    frames := ⟨l, none, h⟩ :: c.frames } := by
  unfold Cpu.accept at accepted
  split at accepted
  next free =>
    cases accepted
    refine ⟨free.1, ?_, rfl⟩
    by_contra served
    exact absurd (free.2 top (by simpa using served)) (not_lt.2 (least l))
  · cases accepted

variable (starts : ∀ h, handlers top h → Starts a h)
include starts

theorem accept_sound {l : ι} {h : Handler σ α} (shut : ¬Exposed c) (handles : handlers l h)
    (accepted : c.accept l h = some c') : Sound top c' := by
  obtain ⟨enabled, free, rfl⟩ := Cpu.accept_cases least accepted
  refine ⟨fun served => ?_, fun f mem => ?_⟩
  · have here : top = l := by
      by_contra other
      simp [other, free] at served
    subst here
    obtain ⟨next, -, code, -⟩ := starts h handles
    exact ⟨rfl, _, _, next, rfl, rfl, code⟩
  · by_contra busy
    exact shut ⟨enabled, f, mem, busy⟩

theorem exec_sound {e : Event σ ι α μ} {u : Unit} (sound : Sound top c) (shut : ¬Exposed c)
    (legal : Legal handlers e) (run : exec base e c = some (u, c')) : Sound top c' := by
  cases e with
  | request =>
    obtain ⟨c₁, accepted, same⟩ := map_eq_some_iff.1 run
    cases same
    exact accept_sound least starts shut legal accepted
  | op =>
    obtain ⟨c₁, stepped, same⟩ := map_eq_some_iff.1 run
    cases same
    exact op_sound sound stepped
  | main m on =>
    simp only [exec] at run
    split at run
    next idle =>
      cases run
      refine ⟨fun served => ?_, fun f mem => ?_⟩
      · obtain ⟨-, f, rest, -, frames, -⟩ := sound.served served
        cases idle.symm.trans frames
      · rw [idle] at mem
        cases mem
    · cases run

variable (base) in
theorem reaches {h : Handler σ α} (sound : Sound top c) (enabled : c.enabled)
    (handles : handlers top h) :
    ∃ c' f, Prog.play (exec base) c [.request top h, .op, .op] = some c' ∧
      c'.frames = f :: c.frames ∧ f.busy = some a := by
  obtain ⟨_, _, rfl, enters⟩ := starts h handles
  have free : c.enabled ∧ ∀ m, c.service m → top < m := by
    refine ⟨enabled, fun m served => lt_of_le_of_ne (least m) ?_⟩
    rintro rfl
    cases (sound.served served).1.symm.trans enabled
  simp only [Prog.play, exec, Cpu.accept, if_pos free, map_some, bind_some, Cpu.op,
    Cpu.step, enters]
  exact ⟨_, _, rfl, rfl, rfl⟩

theorem safe_iff (sound : Sound top c) {h : Handler σ α} (handles : handlers top h) :
    Safe handlers a top base c ↔ ¬Exposed c := by
  constructor
  · rintro ⟨-, next⟩ ⟨enabled, f, mem, busy⟩
    obtain ⟨c', _, played, frames, active⟩ := reaches base least starts sound enabled handles
    have atomic := next h c' handles played
    unfold Atomic at atomic
    rw [frames] at atomic
    exact busy (List.rel_of_pairwise_cons atomic mem active)
  intro shut
  refine ⟨sound.atomic, fun h c' handles played => ?_⟩
  obtain ⟨r, first, -⟩ := bind_eq_some_iff.1 played
  obtain ⟨_, accepted, -⟩ := map_eq_some_iff.1 first
  obtain ⟨enabled, -, -⟩ := Cpu.accept_cases least accepted
  obtain ⟨_, f, played', frames, -⟩ := reaches base least starts sound enabled handles
  cases played.symm.trans played'
  have idle : ∀ g ∈ c.frames, g.busy = none := by
    intro g mem
    by_contra busy
    exact shut ⟨enabled, g, mem, busy⟩
  unfold Atomic
  rw [frames]
  refine .cons (fun g mem _ => idle g mem) ?_
  exact List.pairwise_of_forall_mem_list fun _ _ g mem _ => idle g mem

/-- Runs in which `a` is never on top of marked code, wherever the next request comes, are
those in which interrupts are never enabled while marked code is active. -/
theorem runs_iff {h : Handler σ α} (handles : handlers top h) (sound : Sound top c)
    (es : List (Event σ ι α μ)) :
    Prog.Runs (exec base) (fun c e => Legal handlers e ∧ Safe handlers a top base c) c es c' ↔
      Prog.Runs (exec base) (fun c e => Legal handlers e ∧ ¬Exposed c) c es c' := by
  refine Prog.Runs.congr (fun c e (sound : Sound top c) => ?_)
    (fun c e u c' (sound : Sound top c) legal run => ?_) sound
  · rw [safe_iff least starts sound handles]
  · exact exec_sound least starts sound ((safe_iff least starts sound handles).1 legal.2) legal.1 run

end

end Nest
