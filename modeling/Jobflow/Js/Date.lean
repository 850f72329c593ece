import Jobflow.Js.Value

/-!
# JavaScript dates

A `Date` holds a time value: milliseconds since the epoch, leap seconds left out, up to 100,000,000 days on either
side. A date whose time value would be `NaN`, or beyond that range, is an invalid date. The UTC calendar fields are
those of ECMAScript's `Day`, `YearFromTime`, `MonthFromTime`, `DateFromTime` and `WeekDay`.
-/

namespace Js

/-- 100,000,000 days. -/
def maxTime : Int := 8640000000000000

/-- A time value that is not `NaN`. -/
structure Time where
  ms : Int
  inRange : -maxTime ≤ ms ∧ ms ≤ maxTime
  deriving DecidableEq

instance : LE Time := ⟨fun a b => a.ms ≤ b.ms⟩
instance : LT Time := ⟨fun a b => a.ms < b.ms⟩
instance (a b : Time) : Decidable (a ≤ b) := inferInstanceAs (Decidable (a.ms ≤ b.ms))
instance (a b : Time) : Decidable (a < b) := inferInstanceAs (Decidable (a.ms < b.ms))

theorem Time.le_def {a b : Time} : a ≤ b ↔ a.ms ≤ b.ms := Iff.rfl
theorem Time.lt_def {a b : Time} : a < b ↔ a.ms < b.ms := Iff.rfl

/-- A `Date`; `none` is an invalid one. -/
abbrev Date := Option Time

/-- `TimeClip`. -/
def timeClip (ms : Int) : Date := if h : -maxTime ≤ ms ∧ ms ≤ maxTime then some ⟨ms, h⟩ else none

theorem timeClip_eq_some {ms : Int} {t : Time} : timeClip ms = some t ↔ t.ms = ms := by
  unfold timeClip
  constructor
  · intro h
    split at h
    · rw [← Option.some.inj h]
    · cases h
  · rintro rfl
    rw [dif_pos t.inRange]

namespace Date

/-! ## The calendar -/

/-- `DayFromYear`: the number of the first day of a year. -/
def dayFromYear (y : Int) : Int := 365 * (y - 1970) + (y - 1969) / 4 - (y - 1901) / 100 + (y - 1601) / 400

/-- `YearFromTime`, of a day: 400 years have 146097 days, which gives the year up to one. -/
def yearFromDay (day : Int) : Int :=
  let y := 1970 + day * 400 / 146097
  if day < dayFromYear y then y - 1 else if dayFromYear (y + 1) ≤ day then y + 1 else y

/-- The first day of a year is where 146097 days in 400 years put it, up to two days. -/
theorem dayFromYear_bounds (y : Int) :
    146097 * (y - 1970) - 506 ≤ 400 * dayFromYear y ∧ 400 * dayFromYear y ≤ 146097 * (y - 1970) + 589 := by
  unfold dayFromYear
  omega

/-- It is the year whose first day has come and whose last day has not passed. -/
theorem yearFromDay_spec (day : Int) :
    dayFromYear (yearFromDay day) ≤ day ∧ day < dayFromYear (yearFromDay day + 1) := by
  unfold yearFromDay
  dsimp only
  generalize hy : 1970 + day * 400 / 146097 = y
  have hbefore := dayFromYear_bounds (y - 1)
  have hafter := dayFromYear_bounds (y + 1 + 1)
  split
  · rename_i hlt
    rw [Int.sub_add_cancel]
    exact ⟨by omega, hlt⟩
  split
  · rename_i hle
    exact ⟨hle, by omega⟩
  · omega

/-- `InLeapYear` as a number of days. -/
def leapDays (y : Int) : Int := dayFromYear (y + 1) - dayFromYear y - 365

/-- The number, within its year, of the first day of each month. -/
def monthStarts (y : Int) : List Int :=
  [0, 31, 59 + leapDays y, 90 + leapDays y, 120 + leapDays y, 151 + leapDays y, 181 + leapDays y, 212 + leapDays y,
   243 + leapDays y, 273 + leapDays y, 304 + leapDays y, 334 + leapDays y]

/-- The first days of the months that have begun on a day, with that day's number within its year. -/
def begun (day : Int) : Int × List Int :=
  let y := yearFromDay day
  (day - dayFromYear y, (monthStarts y).filter (· ≤ day - dayFromYear y))

/-- `MonthFromTime`, from 0. -/
def monthOfDay (day : Int) : Int := (begun day).2.length - 1

/-- `DateFromTime`, from 1. -/
def dateOfDay (day : Int) : Int := (begun day).1 - ((begun day).2.getLast?.getD 0) + 1

def msPerMinute : Int := 60000
def msPerHour : Int := 3600000
def msPerDay : Int := 86400000

/-! ## `getUTC…` -/

/-- A field of a date: `NaN` when the date is invalid. -/
def field (f : Int → Int) (d : Date) : Number :=
  match d with
  | none => .nan
  | some t => .finite (f t.ms)

def getUTCMinutes (d : Date) : Number := field (fun ms => ms / msPerMinute % 60) d
def getUTCHours (d : Date) : Number := field (fun ms => ms / msPerHour % 24) d
def getUTCDate (d : Date) : Number := field (fun ms => dateOfDay (ms / msPerDay)) d
def getUTCMonth (d : Date) : Number := field (fun ms => monthOfDay (ms / msPerDay)) d

/-- The epoch was a Thursday. -/
def getUTCDay (d : Date) : Number := field (fun ms => (ms / msPerDay + 4) % 7) d

/-! ## `setUTC…` -/

/-- `d.setUTCSeconds(0, 0)`. -/
def startOfMinute (d : Date) : Date := d.bind fun t => timeClip (t.ms - t.ms % msPerMinute)

/-- `d.setUTCMinutes(d.getUTCMinutes() + 1)`; minute 60 is the next hour. -/
def nextMinute (d : Date) : Date := d.bind fun t => timeClip (t.ms + msPerMinute)

/-- `a <= b`; an invalid date compares with none. -/
def le (a b : Date) : Bool :=
  match a, b with
  | some a, some b => a ≤ b
  | _, _ => false

/-- `d.toISOString()`: what it writes stands for the time it is read back as by `new Date`. -/
def toISOString (d : Date) : Except Exception Time :=
  match d with
  | some t => .ok t
  | none => .error ⟨"RangeError", "Invalid time value"⟩

/-! ## Which dates there are -/

/-- The number of days, in a leap year, of month `m`, from 0. -/
def daysInMonth (m : Nat) : Nat := [31, 29, 31, 30, 31, 30, 31, 31, 30, 31, 30, 31][m]?.getD 0

/-- The number of the first day of each month, within a year with `leap` days more than 365. -/
def firstDays (leap : Nat) : List Nat :=
  [0, 31, 59 + leap, 90 + leap, 120 + leap, 151 + leap, 181 + leap, 212 + leap, 243 + leap, 273 + leap, 304 + leap,
   334 + leap]

/-- That of month `m`; month 12 is the first of the next year. -/
def firstOfMonth (leap m : Nat) : Nat := (firstDays leap)[m]?.getD (365 + leap)

theorem firstDays_split : ∀ leap < 2, ∀ m < 12, (∀ x ∈ (firstDays leap).take (m + 1), x ≤ firstOfMonth leap m) ∧
    ∀ x ∈ (firstDays leap).drop (m + 1), firstOfMonth leap (m + 1) ≤ x := by
  decide +kernel

theorem firstOfMonth_succ_le : ∀ leap < 2, ∀ m < 12,
    firstOfMonth leap (m + 1) ≤ firstOfMonth leap m + daysInMonth m := by
  decide

theorem firstOfMonth_succ : ∀ m < 12, firstOfMonth 1 (m + 1) = firstOfMonth 1 m + daysInMonth m := by
  decide

theorem firstOfMonth_le : ∀ m < 12, firstOfMonth 1 (m + 1) ≤ 366 := by
  decide

/-- The months that have begun on a day are those up to its own. -/
theorem filter_firstDays {leap n m : Nat} (hleap : leap < 2) (hm : m < 12) (hle : firstOfMonth leap m ≤ n)
    (hlt : n < firstOfMonth leap (m + 1)) : (firstDays leap).filter (· ≤ n) = (firstDays leap).take (m + 1) := by
  obtain ⟨hbefore, hafter⟩ := firstDays_split leap hleap m hm
  have htake : ((firstDays leap).take (m + 1)).filter (· ≤ n) = (firstDays leap).take (m + 1) :=
    List.filter_eq_self.2 fun x hx => decide_eq_true (Nat.le_trans (hbefore x hx) hle)
  have hdrop : ((firstDays leap).drop (m + 1)).filter (· ≤ n) = [] :=
    List.filter_eq_nil_iff.2 fun x hx => by simpa using Nat.lt_of_lt_of_le hlt (hafter x hx)
  calc (firstDays leap).filter (· ≤ n)
      = ((firstDays leap).take (m + 1) ++ (firstDays leap).drop (m + 1)).filter (· ≤ n) := by
        rw [List.take_append_drop]
    _ = (firstDays leap).take (m + 1) := by rw [List.filter_append, htake, hdrop, List.append_nil]

theorem monthStarts_eq {y : Int} {leap : Nat} (hleap : leapDays y = leap) :
    monthStarts y = (firstDays leap).map Nat.cast := by
  simp [monthStarts, firstDays, hleap]

/-- The month and the day of the month of day `n` of a year. -/
theorem calendar_eq {day : Int} {leap n m : Nat} (hyear : leapDays (yearFromDay day) = leap)
    (hn : day - dayFromYear (yearFromDay day) = n) (hleap : leap < 2) (hm : m < 12) (hle : firstOfMonth leap m ≤ n)
    (hlt : n < firstOfMonth leap (m + 1)) : monthOfDay day = m ∧ dateOfDay day = n - firstOfMonth leap m + 1 := by
  have hlength : (firstDays leap).length = 12 := rfl
  have hbegun : begun day = ((n : Int), ((firstDays leap).take (m + 1)).map Nat.cast) := by
    rw [begun, hn, monthStarts_eq hyear, List.filter_map, ← filter_firstDays hleap hm hle hlt]
    simp [Function.comp_def]
  constructor
  · rw [monthOfDay, hbegun, List.length_map, List.length_take, hlength]
    omega
  · have hget : (firstDays leap)[m]? = some (firstOfMonth leap m) := by
      rw [firstOfMonth, List.getElem?_eq_getElem (by omega), Option.getD_some]
    rw [dateOfDay, hbegun, List.getLast?_map, List.getLast?_take, if_neg (Nat.succ_ne_zero m), Nat.add_sub_cancel, hget]
    rfl

/-- Every day of a year is in one of its months. -/
theorem exists_month {leap n : Nat} : ∀ k, n < firstOfMonth leap k →
    ∃ m < k, firstOfMonth leap m ≤ n ∧ n < firstOfMonth leap (m + 1)
  | 0, h => absurd h (Nat.not_lt_zero n)
  | k + 1, h => by
    by_cases hk : n < firstOfMonth leap k
    · obtain ⟨m, hm, hday⟩ := exists_month k hk
      exact ⟨m, Nat.lt_succ_of_lt hm, hday⟩
    · exact ⟨k, Nat.lt_succ_self k, Nat.not_lt.1 hk, h⟩

theorem leapDays_cases (y : Int) : leapDays y = 0 ∨ leapDays y = 1 := by
  unfold leapDays dayFromYear
  omega

/-- A day has a month and a day of that month. -/
theorem calendar_inRange (day : Int) :
    ∃ m < 12, ∃ d < daysInMonth m, monthOfDay day = (m : Nat) ∧ dateOfDay day = (d : Nat) + 1 := by
  obtain ⟨hfirst, hnext⟩ := yearFromDay_spec day
  have hcases := leapDays_cases (yearFromDay day)
  obtain ⟨leap, hyear⟩ : ∃ leap : Nat, leapDays (yearFromDay day) = leap := Int.eq_ofNat_of_zero_le (by omega)
  obtain ⟨n, hn⟩ : ∃ n : Nat, day - dayFromYear (yearFromDay day) = n := Int.eq_ofNat_of_zero_le (by omega)
  have hlast : n < firstOfMonth leap 12 := by
    show n < 365 + leap
    unfold leapDays at hyear
    omega
  obtain ⟨m, hm, hle, hlt⟩ := exists_month 12 hlast
  have hdays := firstOfMonth_succ_le leap (by omega) m hm
  obtain ⟨hmonth, hdate⟩ := calendar_eq hyear hn (by omega) hm hle hlt
  exact ⟨m, hm, n - firstOfMonth leap m, by omega, hmonth, by omega⟩

theorem dayFromYear_mono {y z : Int} (h : y ≤ z) : dayFromYear y ≤ dayFromYear z := by
  unfold dayFromYear
  omega

/-- The leap years from 2004 to 2028, and the first day of each. -/
theorem leapYear {i n : Int} (hi : 0 ≤ i ∧ i < 7) (hn : 0 ≤ n ∧ n < 366) :
    dayFromYear (2004 + 4 * i) = 12418 + 1461 * i ∧ leapDays (2004 + 4 * i) = 1 ∧
      yearFromDay (12418 + 1461 * i + n) = 2004 + 4 * i := by
  have hfirst : dayFromYear (2004 + 4 * i) = 12418 + 1461 * i := by
    unfold dayFromYear
    omega
  have hnext : dayFromYear (2004 + 4 * i + 1) = 12418 + 1461 * i + 366 := by
    unfold dayFromYear
    omega
  refine ⟨hfirst, by rw [leapDays, hfirst, hnext]; omega, ?_⟩
  obtain ⟨hle, hlt⟩ := yearFromDay_spec (12418 + 1461 * i + n)
  apply Int.le_antisymm
  · refine Int.not_lt.1 fun hgt => ?_
    have := dayFromYear_mono (Int.add_one_le_of_lt hgt)
    omega
  · refine Int.not_lt.1 fun hgt => ?_
    have := dayFromYear_mono (Int.add_one_le_of_lt hgt)
    omega

/-- In these years the day `d + 1` of month `m` falls on every weekday. -/
theorem exists_day {m d w : Nat} (hm : m < 12) (hd : d < daysInMonth m) (hw : w < 7) : ∃ day, 12418 ≤ day ∧
    day < 21550 ∧ monthOfDay day = m ∧ dateOfDay day = d + 1 ∧ (day + 4) % 7 = w := by
  have hnext := firstOfMonth_succ m hm
  have hlast := firstOfMonth_le m hm
  obtain ⟨n, hfirst⟩ : ∃ n, n = firstOfMonth 1 m + d := ⟨_, rfl⟩
  -- each begins five weekdays after the one before it
  obtain ⟨i, hi⟩ : ∃ i : Int, i = 3 * (w - 12422 - n) % 7 := ⟨_, rfl⟩
  obtain ⟨hday, hleap, hyear⟩ := @leapYear i n (by omega) (by omega)
  rw [← hyear] at hleap hday
  obtain ⟨hmonth, hdate⟩ := @calendar_eq _ 1 n m hleap (by omega) (by decide) hm (by omega) (by omega)
  exact ⟨12418 + 1461 * i + n, by omega, by omega, hmonth, by omega, by omega⟩

/-- Every combination of calendar fields is that of a date. -/
theorem exists_date {min hour m d w : Nat} (hmin : min < 60) (hhour : hour < 24) (hm : m < 12) (hd : d < daysInMonth m)
    (hw : w < 7) : ∃ t : Time, t.ms % msPerMinute = 0 ∧ msPerMinute ≤ t.ms ∧ getUTCMinutes t = .finite (min : Int) ∧
      getUTCHours t = .finite (hour : Int) ∧ getUTCDate t = .finite (d + 1 : Int) ∧
      getUTCMonth t = .finite (m : Int) ∧ getUTCDay t = .finite (w : Int) := by
  obtain ⟨day, hday, hday', hmonth, hdate, hweek⟩ := exists_day hm hd hw
  obtain ⟨ms, hms⟩ : ∃ ms, ms = day * msPerDay + hour * msPerHour + min * msPerMinute := ⟨_, rfl⟩
  unfold msPerDay msPerHour msPerMinute at hms
  have hdays : ms / msPerDay = day := by
    unfold msPerDay
    omega
  have hminutes : ms / msPerMinute % 60 = min := by
    unfold msPerMinute
    omega
  have hhours : ms / msPerHour % 24 = hour := by
    unfold msPerHour
    omega
  have hrange : -maxTime ≤ ms ∧ ms ≤ maxTime := by
    unfold maxTime
    omega
  have hwhole : ms % msPerMinute = 0 ∧ msPerMinute ≤ ms := by
    unfold msPerMinute
    omega
  refine ⟨⟨ms, hrange⟩, hwhole.1, hwhole.2, ?_, ?_, ?_, ?_, ?_⟩
  · rw [getUTCMinutes, field, hminutes]
  · rw [getUTCHours, field, hhours]
  · rw [getUTCDate, field, hdays, hdate]
  · rw [getUTCMonth, field, hdays, hmonth]
  · rw [getUTCDay, field, hdays, hweek]

/-- And the fields of a date are in their ranges. -/
theorem fields_inRange (t : Time) : ∃ min hour m d w : Nat, min < 60 ∧ hour < 24 ∧ m < 12 ∧ d < daysInMonth m ∧ w < 7 ∧
    getUTCMinutes t = .finite (min : Int) ∧ getUTCHours t = .finite (hour : Int) ∧
      getUTCDate t = .finite (d + 1 : Int) ∧ getUTCMonth t = .finite (m : Int) ∧
      getUTCDay t = .finite (w : Int) := by
  obtain ⟨m, hm, d, hd, hmonth, hdate⟩ := calendar_inRange (t.ms / msPerDay)
  refine ⟨(t.ms / msPerMinute % 60).toNat, (t.ms / msPerHour % 24).toNat, m, d, ((t.ms / msPerDay + 4) % 7).toNat,
    by omega, by omega, hm, hd, by omega, ?_, ?_, ?_, ?_, ?_⟩
  · rw [getUTCMinutes, field, Int.toNat_of_nonneg (by omega)]
  · rw [getUTCHours, field, Int.toNat_of_nonneg (by omega)]
  · rw [getUTCDate, field, hdate]
  · rw [getUTCMonth, field, hmonth]
  · rw [getUTCDay, field, Int.toNat_of_nonneg (by omega)]

end Date

end Js
