import Osnos.Base.Prog
import Osnos.Net.Socket

/-! Runs: user calls on sockets that an open fd refers to, segments and datagrams from the
network, and ticks of the timer, in any order. -/
namespace Osnos.Net
open Prog

inductive Call
  | create (type : SockType)
  | bind (sd : Sd) (ip : Ip) (port : Port)
  | listen (sd : Sd) (backlog : Int)
  | connect (sd : Sd) (ip : Ip) (port : Port) (now : Nat) (delivered : Bool)
  | accept (sd : Sd) (interrupted : Bool)
  | recv (sd : Sd) (len : Nat) (interrupted : Bool)
  | send (sd : Sd) (buf : List Byte) (now : Nat) (delivered : List Bool)
  | close (sd : Sd)
  | segment (g : Segment) (now : Nat)
  | datagram (d : Dgram) (port : Port)
  | tick (now : Nat)

namespace Call

def sd : Call → Option Sd
  | create _ | segment .. | datagram .. | tick _ => none
  | bind i .. | listen i _ | connect i .. | accept i _ | recv i .. | send i .. | close i => some i

def fromNetwork : Call → Bool
  | segment .. | datagram .. | tick _ => true
  | _ => false

end Call

structure Answer where
  reply : Reply
  bytes : List Byte

def Table.call (t : Table) : Call → Answer × Table
  | .create .raw => (⟨t.createRaw.1, []⟩, t.createRaw.2)
  | .create type => (⟨(t.create type).1, []⟩, (t.create type).2)
  | .bind sd ip port => (⟨(t.bind sd ip port).1, []⟩, (t.bind sd ip port).2)
  | .listen sd backlog => (⟨(t.listen sd backlog).1, []⟩, (t.listen sd backlog).2)
  | .connect sd ip port now delivered =>
    (⟨(t.connect sd ip port now delivered).1, []⟩, (t.connect sd ip port now delivered).2)
  | .accept sd interrupted => (⟨(t.accept sd interrupted).1, []⟩, (t.accept sd interrupted).2)
  | .recv sd len interrupted =>
    (⟨(t.recv sd len interrupted).1, (t.recv sd len interrupted).2.1⟩,
      (t.recv sd len interrupted).2.2)
  | .send sd buf now delivered =>
    (⟨(t.send sd buf now delivered).1, []⟩, (t.send sd buf now delivered).2)
  | .close sd => (⟨(t.close sd).1, []⟩, (t.close sd).2)
  | .segment g now => (⟨.ok 0, []⟩, t.handleSegment g now)
  | .datagram d port => (⟨.ok 0, []⟩, t.deliverUdp d port)
  | .tick now => (⟨.ok 0, []⟩, t.tick now)

structure World where
  table : Table
  held : Sd → Bool

namespace World

def boot : World where
  table := { socks := fun _ => .unused, ephemeralNext := 40000, sent := [] }
  held _ := false

/-- `sys_socket` and `sys_accept` give the new socket an fd; a close takes it away. -/
def holds (w : World) (c : Call) (a : Answer) : Sd → Bool :=
  match c, a.reply with
  | .create _, .ok n | .accept .., .ok n => fun i => w.held i || decide (n = i.val)
  | .close sd, _ => Function.update w.held sd false
  | _, _ => w.held

def permits (w : World) (c : Call) : Bool := c.sd.all w.held

end World

def exec (c : Call) : Prog World Answer := fun w =>
  if w.permits c then
    let r := w.table.call c
    some (r.1, { table := r.2, held := w.holds c r.1 })
  else none

structure Observer (γ : Type) where
  start : γ
  see : γ → World → Call → Answer → World → γ

def watch {γ : Type} (o : Observer γ) (c : Call) : Prog (World × γ) Answer := fun p =>
  (exec c p.1).map fun r => (r.1, (r.2, o.see p.2 p.1 c r.1 r.2))

theorem watch_inv {γ : Type} {o : Observer γ} {c : Call} {p p' : World × γ} {a : Answer}
    (run : watch o c p = some (a, p')) :
    p.1.permits c = true ∧ a = (p.1.table.call c).1 ∧ p'.1.table = (p.1.table.call c).2 ∧
      p'.1.held = p.1.holds c a ∧ p'.2 = o.see p.2 p.1 c a p'.1 := by
  simp only [watch, exec] at run
  split at run
  next allowed =>
    cases run
    exact ⟨allowed, rfl, rfl, rfl, rfl⟩
  · cases run

section
variable {γ : Type} {o : Observer γ}

theorem watch_always_iff {Inv : World × γ → Prop} {legal : World × γ → Call → Prop}
    (one : ∀ p c a p', Inv p → watch o c p = some (a, p') → (Inv p' ↔ legal p c))
    {calls : List Call} {p p' : World × γ}
    (run : Runs (watch o) (fun _ _ => True) p calls p') (start : Inv p) :
    Always (watch o) Inv p calls ↔ Runs (watch o) legal p calls p' :=
  Prog.Runs.always_iff (fun _ _ _ _ (_ : True) _ => trivial)
    (fun p c a p' _ holds step => one p c a p' holds step) run trivial start

def played (o : Observer γ) (legal : World × γ → Call → Prop) [∀ p c, Decidable (legal p c)] :
    World × γ → List Call → Option (World × γ)
  | p, [] => some p
  | p, c :: calls =>
    if legal p c then (watch o c p).bind fun r => played o legal r.2 calls else none

variable {legal : World × γ → Call → Prop} [∀ p c, Decidable (legal p c)]

theorem played_runs {calls : List Call} {p p' : World × γ} (done : played o legal p calls = some p') :
    Runs (watch o) legal p calls p' := by
  induction calls generalizing p with
  | nil =>
    cases done
    exact .nil _
  | cons c calls ih =>
    simp only [played] at done
    split at done
    next allowed =>
      obtain ⟨r, first, rest⟩ := Option.bind_eq_some_iff.1 done
      exact .cons allowed first (ih rest)
    · cases done

def observed (o : Observer γ) (calls : List Call) : World × γ :=
  (played o (fun _ _ => True) (.boot, o.start) calls).getD (.boot, o.start)

theorem observed_runs {calls : List Call}
    (possible : (played o (fun _ _ => True) (.boot, o.start) calls).isSome) :
    Runs (watch o) (fun _ _ => True) (.boot, o.start) calls (observed o calls) := by
  obtain ⟨p, done⟩ := Option.isSome_iff_exists.1 possible
  rw [observed, done]
  exact played_runs done

theorem legal_runs {calls : List Call} (possible : (played o legal (.boot, o.start) calls).isSome) :
    ∃ p, played o legal (.boot, o.start) calls = some p ∧
      Runs (watch o) legal (.boot, o.start) calls p := by
  obtain ⟨p, done⟩ := Option.isSome_iff_exists.1 possible
  exact ⟨p, done, played_runs done⟩

end

def halfOpen : List Call :=
  [.create .stream, .bind 0 0 80, .listen 0 4,
    .segment { srcIp := 0x0A000202, srcPort := 99, dstPort := 80, seq := 7, ack := 0
               flags := { syn := true }, payload := [] } 0]

def handshakeAck : Call :=
  .segment { srcIp := 0x0A000202, srcPort := 99, dstPort := 80, seq := 8, ack := 0x1234ABCE
             flags := { ack := true }, payload := [] } 0

end Osnos.Net
