import Mathlib.Tactic.IntervalCases
import RendezvosLinux.Lib.Calendar
import RendezvosLinux.Time.Sleep

/-!
# The time of day (`linux_layer/time/arch/time_arch_x86_64.c`, `sys_clock_gettime.c`, …)

At boot the date is read off the real-time clock and made a number of seconds; from then on the time of
day is that number and the ticks since.

* `rtc_tick`: the number of a date is one more for the second that comes next.
* `time_of_day`: the calls that tell the time agree, and tell the date of the boot, moved on by the
  seconds in the microseconds that have passed.
-/

namespace Time

open Errno
open Calendar (Date)

/-- `struct rtc_time`: the fields are `u16` and `u8`. -/
abbrev RtcTime : Type := Date

/-- `linux_time_is_leap`. -/
def linuxTimeIsLeap (year : Nat) : Bool :=
  (year % 4 = 0 ∧ year % 100 ≠ 0) ∨ year % 400 = 0

/-- `days_in_month`. -/
def daysInMonth : List Nat := [31, 28, 31, 30, 31, 30, 31, 31, 30, 31, 30, 31]

/-- The first loop of `linux_rtc_to_unix_sec`. -/
def yearDays (year : Nat) : Nat :=
  (List.range' 1970 (year - 1970)).foldl (fun days y => days + if linuxTimeIsLeap y then 366 else 365) 0

/-- The second loop of `linux_rtc_to_unix_sec`. -/
def monthDays (year month days : Nat) : Nat :=
  (List.range' 1 (month - 1)).foldl (fun days m =>
    let days := days + daysInMonth.getD (m - 1) 0
    if m = 2 ∧ linuxTimeIsLeap year then days + 1 else days) days

/-- `linux_rtc_to_unix_sec`. -/
def linuxRtcToUnixSec (rtc : RtcTime) : Nat :=
  if rtc.year < 1970 ∨ rtc.month < 1 ∨ rtc.month > 12 ∨ rtc.day < 1 ∨ rtc.day > 31 then 0
  else
    let days := monthDays rtc.year rtc.month (yearDays rtc.year) + (rtc.day - 1)
    (days * 86400 + rtc.hour * 3600 + rtc.min * 60 + rtc.sec) % 2 ^ 64

/-- `linux_time_arch_boot_realtime_us` (x86_64). -/
def linuxTimeArchBootRealtimeUs (rtc : RtcTime) : Nat := linuxRtcToUnixSec rtc * 1000000 % 2 ^ 64

/-- `linux_timeval_t`, of two `i64`. -/
structure Timeval where
  tvSec : Int
  tvUsec : Int
  deriving DecidableEq, Repr

/-- `linux_us_to_timeval`. -/
def linuxUsToTimeval (us : Nat) : Timeval := ⟨(us / 1000000 : Nat), (us % 1000000 : Nat)⟩

/-- What a call that tells the time meets: whether there is a process with a `VSpace`, whether that is a
user's, and what can be stored. -/
structure ClockEnv where
  current : Bool := true
  isUserTable : Bool := true
  store : Bool := true
  storeTz : Bool := true

section

variable (core : TimeCore) (env : ClockEnv)

/-- `linux_time_monotonic_us`. -/
def linuxTimeMonotonicUs (clock : Nat) : Nat := core.countToUs (reading clock)

/-- `sys_clock_gettime`: what it returns, and what it stores for the user. -/
def sysClockGettime (clockid : Int) (userTp clock : Nat) : Int × Option Timespec :=
  if clockid ≠ clockRealtime ∧ clockid ≠ clockMonotonic then (-EINVAL, none)
  else if userTp = 0 then (-EFAULT, none)
  else if !env.current then (-ESRCH, none)
  else if !env.isUserTable then (-EFAULT, none)
  else
    let us :=
      if clockid = clockMonotonic then linuxTimeMonotonicUs core clock
      else core.linuxTimeRealtimeUs clock
    if !env.store then (-EFAULT, none) else (0, some (TimeCore.linuxUsToTimespec us))

/-- `sys_gettimeofday`: what it returns, and the time and the zone (minutes west, and summer time) that
it stores. -/
def sysGettimeofday (userTv userTz clock : Nat) : Int × Option Timeval × Option (Int × Int) :=
  if !env.current then (-ESRCH, none, none)
  else if !env.isUserTable then (-EFAULT, none, none)
  else
    let realtimeUs := core.linuxTimeRealtimeUs clock
    if userTv ≠ 0 ∧ !env.store then (-EFAULT, none, none)
    else
      let tv := if userTv ≠ 0 then some (linuxUsToTimeval realtimeUs) else none
      if userTz ≠ 0 then
        if !env.storeTz then (-EFAULT, tv, none) else (0, tv, some (0, 0))
      else (0, tv, none)

/-- `sys_time`. -/
def sysTime (userTloc clock : Nat) : Int × Option Int :=
  if !env.current then (-ESRCH, none)
  else if !env.isUserTable then (-EFAULT, none)
  else
    let secs : Int := (core.linuxTimeRealtimeUs clock / 1000000 : Nat)
    if userTloc ≠ 0 then
      if !env.store then (-EFAULT, none) else (secs, some secs)
    else (secs, none)

end

/-! ## The loops -/

theorem isLeap_iff (year : Nat) : linuxTimeIsLeap year = true ↔ Calendar.Leap year := by
  unfold linuxTimeIsLeap Calendar.Leap
  rw [decide_eq_true_iff]
  omega

theorem yearDays_succ {year : Nat} (h : 1970 ≤ year) :
    yearDays (year + 1) = yearDays year + if Calendar.Leap year then 366 else 365 := by
  unfold yearDays
  rw [show year + 1 - 1970 = year - 1970 + 1 by omega, List.range'_1_concat, List.foldl_append,
    show 1970 + (year - 1970) = year by omega]
  simp [isLeap_iff]

theorem monthDays_succ {year month : Nat} (hpos : 1 ≤ month) (hle : month ≤ 12) (days : Nat) :
    monthDays year (month + 1) days = monthDays year month days + Calendar.monthLength year month := by
  unfold monthDays
  rw [show month + 1 - 1 = month - 1 + 1 by omega, List.range'_1_concat, List.foldl_append,
    show 1 + (month - 1) = month by omega, List.foldl_cons, List.foldl_nil]
  generalize List.foldl _ days _ = days'
  simp only [isLeap_iff]
  unfold Calendar.monthLength
  interval_cases month <;> simp [daysInMonth]
  split <;> omega

theorem monthDays_one (year days : Nat) : monthDays year 1 days = days := rfl

/-- The months of a year. -/
theorem monthDays_year (year days : Nat) : monthDays year 12 days + 31 =
    days + if Calendar.Leap year then 366 else 365 := by
  simp only [monthDays, isLeap_iff, List.range', daysInMonth]
  by_cases hleap : Calendar.Leap year
  · simp [hleap]
  · simp [hleap]

theorem yearDays_le {year : Nat} (h : 1970 ≤ year) : yearDays year ≤ (year - 1970) * 366 := by
  induction year, h using Nat.le_induction with
  | base => exact Nat.le_refl _
  | succ year h ih =>
    rw [yearDays_succ h, show year + 1 - 1970 = year - 1970 + 1 by omega]
    split <;> omega

theorem monthDays_le {month : Nat} (year days : Nat) (hpos : 1 ≤ month) (hle : month ≤ 12) :
    monthDays year month days ≤ days + 31 * (month - 1) := by
  induction month, hpos using Nat.le_induction with
  | base => exact Nat.le_refl _
  | succ month hpos ih =>
    have hlen := Calendar.monthLength_bounds year month
    rw [monthDays_succ hpos (by omega)]
    have := ih (by omega)
    omega

/-! ## The number of a date -/

/-- The number of a date, before it is cut to 64 bits. -/
def seconds (d : Date) : Nat :=
  (monthDays d.year d.month (yearDays d.year) + (d.day - 1)) * 86400 + d.hour * 3600 + d.min * 60 + d.sec

/-- The days of a date, for the day that comes next. -/
theorem days_nextDay {d : Date} (h : d.Valid) :
    monthDays d.nextDay.year d.nextDay.month (yearDays d.nextDay.year) + d.nextDay.day =
      monthDays d.year d.month (yearDays d.year) + d.day + 1 := by
  obtain ⟨hyear, hmonth, hday, -⟩ := h
  unfold Date.nextDay
  split
  · rfl
  split
  · next hlast hmon =>
    rw [monthDays_succ hmonth.1 hmonth.2]
    dsimp only
    omega
  · next hlast hmon =>
    have hdec : d.month = 12 := by omega
    have hlen : Calendar.monthLength d.year 12 = 31 := rfl
    rw [hdec] at hday hlast ⊢
    have hsum := monthDays_year d.year (yearDays d.year)
    dsimp only
    rw [monthDays_one, yearDays_succ hyear]
    omega

/-- **The number of a date** is one more for the second that comes next. -/
theorem seconds_tick (d : Date) (h : d.Valid) : seconds d.tick = seconds d + 1 := by
  have hnext := days_nextDay h
  have hday := (Date.nextDay_valid h).day.1
  obtain ⟨-, -, hday', hhour, hmin, hsec⟩ := h
  unfold Date.tick
  split
  · simp only [seconds]
    omega
  split
  · simp only [seconds]
    omega
  split
  · simp only [seconds]
    omega
  · simp only [seconds]
    omega

theorem seconds_epoch : seconds Date.epoch = 0 := rfl

/-- What the clock of the machine can say fits. -/
theorem rtcToUnixSec_eq {d : Date} (h : d.Valid) (hyear : d.year < 2 ^ 16) :
    linuxRtcToUnixSec d = seconds d ∧ seconds d < 2 ^ 41 := by
  have hyears := yearDays_le h.year
  have hmonths := monthDays_le d.year (yearDays d.year) h.month.1 h.month.2
  have hlen := Calendar.monthLength_bounds d.year d.month
  obtain ⟨hfirst, hmonth, hday, hhour, hmin, hsec⟩ := h
  have hlt : seconds d < 2 ^ 41 := by
    unfold seconds
    omega
  refine ⟨?_, hlt⟩
  rw [linuxRtcToUnixSec, if_neg (by omega)]
  exact Nat.mod_eq_of_lt (Nat.lt_trans hlt (by decide))

/-! ## Telling the time -/

/-- **A call tells** a time: it stores it for the user, or it fails, and stores nothing or that time. -/
def Tells {α : Type} (ret : Int) (stored : Option α) (time : α) : Prop :=
  (stored = none ∨ stored = some time) ∧ (ret < 0 ∨ stored = some time)

section

variable {core : TimeCore} {env : ClockEnv} {clock us : Nat}

theorem sysClockGettime_tells (hus : core.linuxTimeRealtimeUs clock = us) (userTp : Nat) :
    let r := sysClockGettime core env clockRealtime userTp clock
    Tells r.1 r.2 ⟨(us / 1000000 : Nat), (us % 1000000 * 1000 : Nat)⟩ := by
  have hfailed : ∀ {e : Int} {time : Timespec}, 0 < e → Tells (-e) none time := fun he =>
    ⟨Or.inl rfl, Or.inl (Int.neg_neg_of_pos he)⟩
  unfold sysClockGettime
  rw [if_neg (by simp), if_neg (show ¬ clockRealtime = clockMonotonic by decide), hus]
  dsimp only
  split
  · exact hfailed (e := EFAULT) (by decide)
  split
  · exact hfailed (e := ESRCH) (by decide)
  split
  · exact hfailed (e := EFAULT) (by decide)
  split
  · exact hfailed (e := EFAULT) (by decide)
  · exact ⟨Or.inr rfl, Or.inr rfl⟩

theorem sysGettimeofday_tells (hus : core.linuxTimeRealtimeUs clock = us) {userTv : Nat}
    (htv : userTv ≠ 0) (userTz : Nat) :
    let r := sysGettimeofday core env userTv userTz clock
    Tells r.1 r.2.1 ⟨(us / 1000000 : Nat), (us % 1000000 : Nat)⟩ := by
  unfold sysGettimeofday
  rw [hus]
  dsimp only
  split
  · exact ⟨Or.inl rfl, Or.inl (show -ESRCH < 0 by decide)⟩
  split
  · exact ⟨Or.inl rfl, Or.inl (show -EFAULT < 0 by decide)⟩
  split
  · exact ⟨Or.inl rfl, Or.inl (show -EFAULT < 0 by decide)⟩
  split
  · split
    · exact ⟨Or.inr rfl, Or.inr rfl⟩
    · exact ⟨Or.inr rfl, Or.inr rfl⟩
  · exact ⟨Or.inr rfl, Or.inr rfl⟩

/-- `time` returns the seconds, unless it fails; it stores them where it is given an address, and it does
not fail if it is given none. -/
theorem sysTime_tells (hus : core.linuxTimeRealtimeUs clock = us) (userTloc : Nat) :
    let r := sysTime core env userTloc clock
    (userTloc ≠ 0 → Tells r.1 r.2 ((us / 1000000 : Nat) : Int)) ∧
      (0 ≤ r.1 → r.1 = (us / 1000000 : Nat)) ∧
      (userTloc = 0 → r.2 = none ∧ (env.current = true → env.isUserTable = true → 0 ≤ r.1)) := by
  unfold sysTime
  rw [hus]
  dsimp only
  split
  · next hcurrent =>
    refine ⟨fun _ => ⟨.inl rfl, .inl (show -ESRCH < 0 by decide)⟩, fun h => absurd h (by decide),
      fun _ => ⟨rfl, fun hc => ?_⟩⟩
    rw [hc] at hcurrent
    cases hcurrent
  split
  · next htable =>
    refine ⟨fun _ => ⟨.inl rfl, .inl (show -EFAULT < 0 by decide)⟩, fun h => absurd h (by decide),
      fun _ => ⟨rfl, fun _ ht => ?_⟩⟩
    rw [ht] at htable
    cases htable
  split
  · next htloc =>
    split
    · exact ⟨fun _ => ⟨.inl rfl, .inl (show -EFAULT < 0 by decide)⟩, fun h => absurd h (by decide),
        fun hnull => absurd hnull htloc⟩
    · exact ⟨fun _ => ⟨.inr rfl, .inr rfl⟩, fun _ => rfl, fun hnull => absurd hnull htloc⟩
  · next hnull => exact ⟨fun htloc => absurd htloc hnull, fun _ => rfl, fun _ => ⟨rfl, fun _ _ => by omega⟩⟩

end

/-- The last second of a 28 February. -/
def beforeLeapDay : RtcTime := ⟨2024, 2, 28, 23, 59, 59⟩

/-- A machine that has been booted then. -/
def bootedCore : TimeCore := { usCore with bootRealtimeUs := linuxTimeArchBootRealtimeUs beforeLeapDay }

end Time
