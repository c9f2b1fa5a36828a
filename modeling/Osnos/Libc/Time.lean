import Mathlib.Tactic

/-! `gmtime` and `mktime` of the C library against the date from which `rtc_init` computes
the system clock. -/
namespace Osnos.Libc
open Int

structure Tm where
  sec : Int
  min : Int
  hour : Int
  mday : Int
  mon : Int
  year : Int
  wday : Int
  yday : Int
  isdst : Int := 0
  deriving DecidableEq, Repr

def toInt (n : Int) : Int := n.bmod (2 ^ 32)

def fillTm (t : Int) : Tm :=
  let minutes := t.tdiv 60
  let hours := minutes.tdiv 60
  let doy := toInt (hours.tdiv 24)
  { sec := t.tmod 60
    min := minutes.tmod 60
    hour := hours.tmod 24
    mday := 1 + doy.tmod 365
    mon := 0
    year := 2026 - 1900
    wday := (toInt (4 + doy)).tmod 7
    yday := doy.tmod 365 }

def gmtime (t : Int) : Tm := fillTm t
def leap (y : Int) : Bool := y.tmod 4 = 0 ∧ (y.tmod 100 ≠ 0 ∨ y.tmod 400 = 0)

def daysInMonth (year : Int) (mon : Nat) : Int :=
  if mon ≠ 1 then [31, 28, 31, 30, 31, 30, 31, 31, 30, 31, 30, 31].getD mon 0
  else if leap (year + 1900) then 29 else 28

def mktime (t : Tm) : Int :=
  let years := (List.range (t.year + 1900 - 2026).toNat).map fun y : Nat =>
    if leap (2026 + (y : Int)) then (366 : Int) else 365
  let months := (List.range t.mon.toNat).map (daysInMonth t.year)
  let days := years.sum + months.sum + (t.mday - 1)
  days * 86400 + t.hour * 3600 + t.min * 60 + t.sec

def daysFromCivil (y m d : Int) : Int :=
  let y := if m ≤ 2 then y - 1 else y
  let era := (if 0 ≤ y then y else y - 399).tdiv 400
  let yoe := y - era * 400
  let doy := (153 * (if 2 < m then m - 3 else m + 9) + 2) / 5 + d - 1
  let doe := yoe * 365 + yoe / 4 - yoe / 100 + doy
  era * 146097 + doe - 719468

/-- `epoch_now` of `rtc_init`, which counts the months from 1. -/
def Tm.epoch (t : Tm) : Int :=
  daysFromCivil (t.year + 1900) (t.mon + 1) t.mday * 86400 + t.hour * 3600 + t.min * 60 + t.sec

structure Tm.Standard (t : Tm) : Prop where
  sec : 0 ≤ t.sec ∧ t.sec ≤ 60
  min : 0 ≤ t.min ∧ t.min ≤ 59
  hour : 0 ≤ t.hour ∧ t.hour ≤ 23
  mday : 1 ≤ t.mday ∧ t.mday ≤ 31
  mon : 0 ≤ t.mon ∧ t.mon ≤ 11
  wday : 0 ≤ t.wday ∧ t.wday ≤ 6
  yday : 0 ≤ t.yday ∧ t.yday ≤ 365

theorem toInt_of_small {n : Int} (nonneg : 0 ≤ n) (small : n < 2 ^ 31) : toInt n = n := by
  unfold toInt
  rw [bmod_eq_of_le] <;> omega

section
variable (t : Nat)

theorem gmtime_eq : gmtime t =
    { sec := t % 60
      min := t / 60 % 60
      hour := t / 3600 % 24
      mday := 1 + (gmtime t).yday
      mon := 0
      year := 126
      wday := (toInt (4 + toInt (t / 86400))).tmod 7
      yday := (toInt (t / 86400)).tmod 365 } := by
  have div {n : Int} (m : Int) (nonneg : 0 ≤ n) : n.tdiv m = n / m :=
    tdiv_eq_ediv_of_nonneg nonneg
  have mod {n : Int} (m : Int) (nonneg : 0 ≤ n) : n.tmod m = n % m :=
    tmod_eq_emod_of_nonneg nonneg
  have minutes : (0 : Int) ≤ t / 60 := by omega
  have hours : (t / 60 / 60 : Int) = t / 3600 := by omega
  have days : (t / 3600 / 24 : Int) = t / 86400 := by omega
  have nonneg : (0 : Int) ≤ t / 3600 := by omega
  simp only [gmtime, fillTm, div 60 (natCast_nonneg t), div 60 minutes, hours, div 24 nonneg,
    days, mod 60 (natCast_nonneg t), mod 60 minutes, mod 24 nonneg]
  rfl

theorem gmtime_yday : (gmtime t).yday = (toInt (t / 86400)).tmod 365 := by
  rw [gmtime_eq]

theorem gmtime_yday_lt : -365 < (gmtime t).yday ∧ (gmtime t).yday < 365 := by
  rw [gmtime_yday]
  exact ⟨lt_tmod_of_pos _ (by decide), tmod_lt_of_pos _ (by decide)⟩

theorem gmtime_yday_small (small : t / 86400 < 2 ^ 31) : (gmtime t).yday = t / 86400 % 365 := by
  rw [gmtime_yday, toInt_of_small (by omega) (by omega), tmod_eq_emod_of_nonneg (by omega)]

theorem epoch_gmtime : (gmtime t).epoch = (20454 + (gmtime t).yday) * 86400 + t % 86400 := by
  have civil (d : Int) : daysFromCivil (126 + 1900) (0 + 1) (1 + d) = 20454 + d := by
    simp [daysFromCivil]
    omega
  rw [gmtime_eq, Tm.epoch]
  dsimp only
  rw [civil, gmtime_yday]
  omega

theorem mktime_gmtime : mktime (gmtime t) = (gmtime t).yday * 86400 + t % 86400 := by
  rw [gmtime_eq, mktime]
  simp only [reduceAdd, reduceSub, toNat_zero, List.range_zero, List.map_nil, List.sum_nil]
  rw [gmtime_yday]
  omega

theorem gmtime_standard (small : t < 31 * 86400) : (gmtime t).Standard := by
  have yday := gmtime_yday_small t (by omega)
  have weekday : (gmtime t).wday = (4 + t / 86400) % 7 := by
    rw [gmtime_eq]
    rw [toInt_of_small (n := t / 86400), toInt_of_small, tmod_eq_emod_of_nonneg] <;> omega
  constructor
  case wday => omega
  case yday => omega
  all_goals
    rw [gmtime_eq]
    dsimp only
    omega

/-- Of the first month the fields are in range and `mktime` goes back, but the date is never
the one of the system clock. -/
theorem gmtime_right_iff : (gmtime t).epoch ≠ t ∧
    ((gmtime t).Standard ∧ mktime (gmtime t) = t ↔ t < 31 * 86400) := by
  have bound := gmtime_yday_lt t
  have small := gmtime_yday_small t
  rw [epoch_gmtime, mktime_gmtime]
  refine ⟨by omega, fun ⟨standard, back⟩ => ?_, fun early => ⟨gmtime_standard t early, by omega⟩⟩
  have day : (gmtime t).mday = 1 + (gmtime t).yday := by simp only [gmtime, fillTm]
  have := standard.mday
  omega

end

theorem gmtime_epoch_off : (gmtime 0).epoch = 1767225600 ∧ (gmtime 2678400).mday = 32 ∧
    mktime (gmtime 31536000) = 0 := by
  decide +kernel

end Osnos.Libc
