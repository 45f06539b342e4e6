import Mathlib.Logic.Function.Iterate
import Mathlib.Algebra.Group.Nat.Defs

/-!
# The calendar

Dates from the first second of 1970 on, of the Gregorian calendar, and the second that comes next.

* `valid_iterate`: what is reached from a date is a date.
* `eq_iterate_of_counts`: a function that counts seconds says how many of them a date is away.
-/

namespace Calendar

/-- A date, and a time of that day. -/
structure Date where
  year : Nat
  month : Nat
  day : Nat
  hour : Nat
  min : Nat
  sec : Nat
  deriving DecidableEq, Repr

/-- A year of 366 days. -/
def Leap (year : Nat) : Prop := year % 4 = 0 ∧ (year % 100 = 0 → year % 400 = 0)

instance (year : Nat) : Decidable (Leap year) := by
  unfold Leap
  infer_instance

/-- The days of a month. -/
def monthLength (year month : Nat) : Nat :=
  if month = 2 then (if Leap year then 29 else 28)
  else if month = 4 ∨ month = 6 ∨ month = 9 ∨ month = 11 then 30 else 31

theorem monthLength_bounds (year month : Nat) :
    28 ≤ monthLength year month ∧ monthLength year month ≤ 31 := by
  unfold monthLength
  split
  · split <;> omega
  · split <;> omega

namespace Date

/-- It is one. -/
structure Valid (d : Date) : Prop where
  year : 1970 ≤ d.year
  month : 1 ≤ d.month ∧ d.month ≤ 12
  day : 1 ≤ d.day ∧ d.day ≤ monthLength d.year d.month
  hour : d.hour < 24
  min : d.min < 60
  sec : d.sec < 60

/-- The first second. -/
def epoch : Date := ⟨1970, 1, 1, 0, 0, 0⟩

/-- The day that comes next, at the time of the day. -/
def nextDay (d : Date) : Date :=
  if d.day < monthLength d.year d.month then { d with day := d.day + 1 }
  else if d.month < 12 then { d with month := d.month + 1, day := 1 }
  else { d with year := d.year + 1, month := 1, day := 1 }

/-- The second that comes next. -/
def tick (d : Date) : Date :=
  if d.sec < 59 then { d with sec := d.sec + 1 }
  else if d.min < 59 then { d with min := d.min + 1, sec := 0 }
  else if d.hour < 23 then { d with hour := d.hour + 1, min := 0, sec := 0 }
  else { d.nextDay with hour := 0, min := 0, sec := 0 }

theorem epoch_valid : epoch.Valid := by
  refine ⟨?_, ?_, ?_, ?_, ?_, ?_⟩ <;> decide

theorem nextDay_valid {d : Date} (h : d.Valid) : d.nextDay.Valid := by
  obtain ⟨hyear, hmonth, hday, hhour, hmin, hsec⟩ := h
  unfold nextDay
  split
  · exact ⟨hyear, hmonth, ⟨Nat.le_add_left _ _, by assumption⟩, hhour, hmin, hsec⟩
  split
  · have hlen := monthLength_bounds d.year (d.month + 1)
    exact ⟨hyear, ⟨Nat.le_add_left _ _, by assumption⟩, ⟨Nat.le_refl _, by dsimp only; omega⟩, hhour,
      hmin, hsec⟩
  · have hlen := monthLength_bounds (d.year + 1) 1
    exact ⟨Nat.le_succ_of_le hyear, by simp, ⟨Nat.le_refl _, by dsimp only; omega⟩, hhour, hmin, hsec⟩

theorem tick_valid {d : Date} (h : d.Valid) : d.tick.Valid := by
  have hnext := nextDay_valid h
  obtain ⟨hyear, hmonth, hday, hhour, hmin, hsec⟩ := h
  unfold tick
  split
  · exact ⟨hyear, hmonth, hday, hhour, hmin, by dsimp only; omega⟩
  split
  · exact ⟨hyear, hmonth, hday, hhour, by dsimp only; omega, by simp⟩
  split
  · exact ⟨hyear, hmonth, hday, by dsimp only; omega, by simp, by simp⟩
  · exact ⟨hnext.year, hnext.month, hnext.day, by simp, by simp, by simp⟩

/-- **What is reached from a date** is a date. -/
theorem valid_iterate {d : Date} (h : d.Valid) (n : Nat) : (tick^[n] d).Valid := by
  induction n with
  | zero => exact h
  | succ n ih =>
    rw [Function.iterate_succ_apply']
    exact tick_valid ih

/-! ## Going back -/

/-- A day comes next to another, unless it is the first. -/
theorem exists_nextDay {d : Date} (h : d.Valid) :
    (d.year = 1970 ∧ d.month = 1 ∧ d.day = 1) ∨ ∃ e : Date, e.Valid ∧ e.nextDay = d := by
  obtain ⟨year, month, day, hour, min, sec⟩ := d
  obtain ⟨hyear, hmonth, hday, hhour, hmin, hsec⟩ := h
  dsimp only at hyear hmonth hday hhour hmin hsec
  match day, month, year with
  | day + 2, month, year =>
    refine Or.inr ⟨⟨year, month, day + 1, hour, min, sec⟩, ⟨hyear, hmonth, by dsimp only; omega, hhour,
      hmin, hsec⟩, ?_⟩
    simp [nextDay, show day + 1 < monthLength year month by omega]
  | 1, month + 2, year =>
    have hlen := monthLength_bounds year (month + 1)
    refine Or.inr ⟨⟨year, month + 1, monthLength year (month + 1), hour, min, sec⟩,
      ⟨hyear, by dsimp only; omega, by dsimp only; omega, hhour, hmin, hsec⟩, ?_⟩
    simp [nextDay, show month + 1 < 12 by omega]
  | 1, 1, year + 1 =>
    by_cases hfirst : year + 1 = 1970
    · exact Or.inl ⟨hfirst, rfl, rfl⟩
    · refine Or.inr ⟨⟨year, 12, 31, hour, min, sec⟩,
        ⟨by dsimp only; omega, by simp, by simp [monthLength], hhour, hmin, hsec⟩, ?_⟩
      simp [nextDay, monthLength]

/-- A second comes next to another, unless it is the first. -/
theorem exists_tick {d : Date} (h : d.Valid) : d = epoch ∨ ∃ e : Date, e.Valid ∧ e.tick = d := by
  obtain ⟨year, month, day, hour, min, sec⟩ := d
  have hback := exists_nextDay h
  obtain ⟨hyear, hmonth, hday, hhour, hmin, hsec⟩ := h
  dsimp only at hyear hmonth hday hhour hmin hsec
  match sec, min, hour with
  | sec + 1, min, hour =>
    refine Or.inr ⟨⟨year, month, day, hour, min, sec⟩, ⟨hyear, hmonth, hday, hhour, hmin,
      by dsimp only; omega⟩, ?_⟩
    simp [tick, show sec < 59 by omega]
  | 0, min + 1, hour =>
    refine Or.inr ⟨⟨year, month, day, hour, min, 59⟩, ⟨hyear, hmonth, hday, hhour, by dsimp only; omega,
      by simp⟩, ?_⟩
    simp [tick, show min < 59 by omega]
  | 0, 0, hour + 1 =>
    refine Or.inr ⟨⟨year, month, day, hour, 59, 59⟩, ⟨hyear, hmonth, hday, by dsimp only; omega, by simp,
      by simp⟩, ?_⟩
    simp [tick, show hour < 23 by omega]
  | 0, 0, 0 =>
    apply hback.imp
    · intro ⟨hy, hm, hd⟩
      dsimp only at hy hm hd
      rw [hy, hm, hd]
      rfl
    · intro ⟨e, he, hnext⟩
      have htick := congrArg (fun d : Date => ({ d with hour := 0, min := 0, sec := 0 } : Date)) hnext
      refine ⟨{ e with hour := 23, min := 59, sec := 59 }, ⟨he.year, he.month, he.day, by simp, by simp,
        by simp⟩, ?_⟩
      rw [← htick]
      simp only [tick, nextDay, Nat.lt_irrefl, if_false]
      split
      · rfl
      split
      · rfl
      · rfl

/-- **A function that counts seconds** says how many of them a date is away. -/
theorem eq_iterate_of_counts {f : Date → Nat} (hzero : f epoch = 0)
    (htick : ∀ d : Date, d.Valid → f d.tick = f d + 1) {d : Date} (h : d.Valid) :
    tick^[f d] epoch = d := by
  generalize hn : f d = n
  induction n generalizing d with
  | zero =>
    obtain rfl | ⟨e, he, rfl⟩ := exists_tick h
    · rfl
    · rw [htick e he] at hn
      omega
  | succ n ih =>
    obtain rfl | ⟨e, he, rfl⟩ := exists_tick h
    · omega
    · rw [htick e he] at hn
      rw [Function.iterate_succ_apply', ih he (by omega)]

end Date

end Calendar
