import Jobflow.Js.Date
import Jobflow.Lib.FixedWidth

/-!
# The texts of JavaScript dates

`toISOString` writes a year of four digits, or of six with a sign, and every other field with a fixed width. So the text
can be read back (`readIso_isoText`), and a later time has a later text as long as its year is from 0 to 9999
(`isoText_lt`).
-/

namespace Js

theorem Time.eq_of_ms {t u : Time} (h : t.ms = u.ms) : t = u := by
  cases t
  cases u
  cases h
  rfl

namespace Date

/-! ## The fields of a day -/

/-- `MakeDay`, of a month from 0. -/
def makeDay (year : Int) (month : Nat) (date : Int) : Int :=
  dayFromYear year + ((monthStarts year)[month]?.getD 0) + date - 1

/-- Day `n` of a year with `leap` days more than 365, in month `m` of it. -/
structure InMonth (day : Int) (leap n m : Nat) : Prop where
  leap_lt : leap < 2
  leap_eq : leapDays (yearFromDay day) = leap
  month_lt : m < 12
  day_eq : day = dayFromYear (yearFromDay day) + n
  from_first : firstOfMonth leap m ≤ n
  before_next : n < firstOfMonth leap (m + 1)

theorem exists_inMonth (day : Int) : ∃ leap n m, InMonth day leap n m := by
  obtain ⟨hfirst, hnext⟩ := yearFromDay_spec day
  have hcases := leapDays_cases (yearFromDay day)
  obtain ⟨leap, hyear⟩ : ∃ leap : Nat, leapDays (yearFromDay day) = leap := Int.eq_ofNat_of_zero_le (by omega)
  obtain ⟨n, hn⟩ : ∃ n : Nat, day - dayFromYear (yearFromDay day) = n := Int.eq_ofNat_of_zero_le (by omega)
  have hlast : n < firstOfMonth leap 12 := by
    show n < 365 + leap
    unfold leapDays at hyear
    omega
  obtain ⟨m, hm, hle, hlt⟩ := exists_month 12 hlast
  exact ⟨leap, n, m, by omega, hyear, hm, by omega, hle, hlt⟩

section
variable {day : Int} {leap n m : Nat}

theorem InMonth.calendar (h : InMonth day leap n m) :
    monthOfDay day = m ∧ dateOfDay day = n - firstOfMonth leap m + 1 := by
  have hday := h.day_eq
  exact calendar_eq h.leap_eq (by omega) h.leap_lt h.month_lt h.from_first h.before_next

theorem InMonth.makeDay_eq (h : InMonth day leap n m) (date : Int) :
    makeDay (yearFromDay day) m date = day - dateOfDay day + date := by
  have hlength : m < (firstDays leap).length := h.month_lt
  have hfirst : (monthStarts (yearFromDay day))[m]?.getD 0 = firstOfMonth leap m := by
    rw [monthStarts_eq h.leap_eq, List.getElem?_map, firstOfMonth, List.getElem?_eq_getElem hlength]
    rfl
  have hday := h.day_eq
  rw [makeDay, hfirst, h.calendar.2]
  omega

theorem firstOfMonth_mono : ∀ leap < 2, ∀ m ≤ 12, ∀ k ≤ m, firstOfMonth leap k ≤ firstOfMonth leap m := by
  decide +kernel

/-- The month and the date of a day, in their order, are later on a later day of the year. -/
theorem InMonth.lt {day' : Int} {leap' n' m' : Nat} (h : InMonth day leap n m) (h' : InMonth day' leap' n' m')
    (hyear : yearFromDay day = yearFromDay day') (hlt : day < day') :
    m < m' ∨ m = m' ∧ dateOfDay day < dateOfDay day' := by
  obtain rfl : leap = leap' := by
    have := h.leap_eq
    rw [hyear, h'.leap_eq] at this
    omega
  have hday := h.day_eq
  have hday' := h'.day_eq
  rw [hyear] at hday
  have hle : m ≤ m' := by
    by_contra hgt
    have hmono := firstOfMonth_mono leap h.leap_lt m h.month_lt.le (m' + 1) (by omega)
    have hfrom := h.from_first
    have hbefore := h'.before_next
    omega
  rcases hle.lt_or_eq with hm | rfl
  · exact .inl hm
  · have hdate := h.calendar.2
    have hdate' := h'.calendar.2
    exact .inr ⟨rfl, by omega⟩

end

theorem yearFromDay_mono {day day' : Int} (h : day ≤ day') : yearFromDay day ≤ yearFromDay day' := by
  by_contra hlt
  have hmono := @dayFromYear_mono (yearFromDay day' + 1) (yearFromDay day) (by omega)
  have hspec := yearFromDay_spec day
  have hspec' := yearFromDay_spec day'
  omega

/-! ## `setUTCDate` -/

/-- `d.setUTCDate(date)`. -/
def setUTCDate (d : Date) (date : Int) : Date :=
  d.bind fun t =>
    let day := t.ms / msPerDay
    timeClip (makeDay (yearFromDay day) (monthOfDay day).toNat date * msPerDay + t.ms % msPerDay)

/-- Going back `n` days from the date of the month is going back `n` days, whatever months lie between. -/
theorem setUTCDate_sub (t : Time) (n : Int) :
    setUTCDate (some t) (dateOfDay (t.ms / msPerDay) - n) = timeClip (t.ms - n * msPerDay) := by
  obtain ⟨leap, k, m, h⟩ := exists_inMonth (t.ms / msPerDay)
  have hmonth : (monthOfDay (t.ms / msPerDay)).toNat = m := by rw [h.calendar.1]; rfl
  unfold setUTCDate
  rw [Option.bind_some]
  dsimp only
  rw [hmonth, h.makeDay_eq]
  congr 1
  unfold msPerDay
  omega

/-! ## `toISOString` -/

def yearOf (t : Time) : Int := yearFromDay (t.ms / msPerDay)

/-- Month, date, hours, minutes, seconds and milliseconds. -/
def isoFields (t : Time) : List Nat :=
  [(monthOfDay (t.ms / msPerDay) + 1).toNat, (dateOfDay (t.ms / msPerDay)).toNat, (t.ms / msPerHour % 24).toNat,
    (t.ms / msPerMinute % 60).toNat, (t.ms / 1000 % 60).toNat, (t.ms % 1000).toNat]

def isoShape : List (Nat × Char) := [(2, '-'), (2, 'T'), (2, ':'), (2, ':'), (2, '.'), (3, 'Z')]

def isoText (t : Time) : List Char :=
  let year := yearOf t
  if 0 ≤ year ∧ year ≤ 9999 then FixedWidth.text ((4, '-') :: isoShape) (year.toNat :: isoFields t)
  else (if year < 0 then '-' else '+') :: FixedWidth.text ((6, '-') :: isoShape) (year.natAbs :: isoFields t)

def isoString (t : Time) : String := String.ofList (isoText t)

/-! ## `Date.parse` -/

/-- The date that the fields of a text give, if they are those of one. -/
def dateOfFields (year : Int) : List Nat → Option Date
  | [month, date, hour, min, sec, ms] =>
    if (1 ≤ month ∧ month ≤ 12) ∧ (1 ≤ date ∧ date ≤ daysInMonth (month - 1)) ∧
        (hour < 24 ∨ hour = 24 ∧ min = 0 ∧ sec = 0 ∧ ms = 0) ∧ min < 60 ∧ sec < 60 then
      some (timeClip
        (makeDay year (month - 1) date * msPerDay + hour * msPerHour + min * msPerMinute + sec * 1000 + ms))
    else none
  | _ => none

/-- A year of so many digits and what follows it. -/
def readIsoYear (width : Nat) (sign : Int) (cs : List Char) : Option Date :=
  match FixedWidth.read ((width, '-') :: isoShape) cs with
  | some (year :: fields, []) => if sign < 0 ∧ year = 0 then none else dateOfFields (sign * year) fields
  | _ => none

/-- A text in the form that `toISOString` writes. -/
def readIso : List Char → Option Date
  | '+' :: cs => readIsoYear 6 1 cs
  | '-' :: cs => readIsoYear 6 (-1) cs
  | cs => readIsoYear 4 1 cs

/-- `new Date(text)`. The shorter forms of the format, and what is in none of them, are read by `other`. -/
def ofText (other : String → Date) (text : String) : Date := (readIso text.toList).getD (other text)

/-! ## Reading back -/

section
variable {t u : Time}

theorem yearOf_bounds (t : Time) : (yearOf t).natAbs < 10 ^ 6 := by
  obtain ⟨hfirst, hnext⟩ := yearFromDay_spec (t.ms / msPerDay)
  have hlo := dayFromYear_bounds (yearFromDay (t.ms / msPerDay))
  have hhi := dayFromYear_bounds (yearFromDay (t.ms / msPerDay) + 1)
  have hrange := t.inRange
  unfold maxTime at hrange
  unfold msPerDay at hfirst hnext hlo hhi
  unfold yearOf msPerDay
  omega

/-- The fields behind the year, as the numbers that they are. -/
theorem isoFields_spec (t : Time) : ∃ leap n m d : Nat, InMonth (t.ms / msPerDay) leap n m ∧
    dateOfDay (t.ms / msPerDay) = d + 1 ∧ d < daysInMonth m ∧
    isoFields t = [m + 1, d + 1, (t.ms / msPerHour % 24).toNat, (t.ms / msPerMinute % 60).toNat,
      (t.ms / 1000 % 60).toNat, (t.ms % 1000).toNat] := by
  obtain ⟨leap, n, m, h⟩ := exists_inMonth (t.ms / msPerDay)
  have hdays := firstOfMonth_succ_le leap h.leap_lt m h.month_lt
  have hfrom := h.from_first
  have hbefore := h.before_next
  obtain ⟨hmonth, hdate⟩ := h.calendar
  refine ⟨leap, n, m, n - firstOfMonth leap m, h, by omega, by omega, ?_⟩
  have hmonth' : (monthOfDay (t.ms / msPerDay) + 1).toNat = m + 1 := by omega
  have hdate' : (dateOfDay (t.ms / msPerDay)).toNat = n - firstOfMonth leap m + 1 := by omega
  rw [isoFields, hmonth', hdate']

theorem daysInMonth_le : ∀ m < 12, daysInMonth m ≤ 31 := by decide

theorem fits_isoFields (t : Time) : FixedWidth.Fits isoShape (isoFields t) := by
  obtain ⟨leap, n, m, d, h, _, hd, hfields⟩ := isoFields_spec t
  have hm := h.month_lt
  have hdays := daysInMonth_le m hm
  rw [hfields]
  refine .cons _ ?_ (.cons _ ?_ (.cons _ ?_ (.cons _ ?_ (.cons _ ?_ (.cons _ ?_ .nil)))))
  all_goals omega

theorem dateOfFields_isoFields (t : Time) : dateOfFields (yearOf t) (isoFields t) = some (some t) := by
  obtain ⟨leap, n, m, d, h, hdate, hd, hfields⟩ := isoFields_spec t
  have hm := h.month_lt
  have hmake := h.makeDay_eq (d + 1 : Nat)
  rw [hfields, dateOfFields, Nat.add_sub_cancel, if_pos (by omega)]
  refine congrArg some (timeClip_eq_some.2 ?_)
  rw [show yearOf t = yearFromDay (t.ms / msPerDay) from rfl, hmake, hdate]
  unfold msPerDay msPerHour msPerMinute
  omega

theorem readIsoYear_text (width : Nat) (sign : Int) {y : Nat} (hy : y < 10 ^ width) (hsign : sign < 0 → y ≠ 0)
    (hyear : sign * y = yearOf t) :
    readIsoYear width sign (FixedWidth.text ((width, '-') :: isoShape) (y :: isoFields t)) = some (some t) := by
  have hread := FixedWidth.read_text (.cons '-' hy (fits_isoFields t)) []
  rw [List.append_nil] at hread
  rw [readIsoYear, hread]
  dsimp only
  rw [if_neg fun h => hsign h.1 h.2, hyear, dateOfFields_isoFields]

/-- A text that begins with a digit has no sign. -/
theorem readIso_digits {w y : Nat} {shape : List (Nat × Char)} {ns : List Nat} :
    readIso (FixedWidth.text ((w + 1, '-') :: shape) (y :: ns)) =
      readIsoYear 4 1 (FixedWidth.text ((w + 1, '-') :: shape) (y :: ns)) := by
  obtain ⟨m, cs, hcs⟩ := FixedWidth.exists_text_eq_cons w '-' y shape ns
  rw [hcs]
  unfold readIso
  split
  · rename_i heq
    exact absurd (List.cons.inj heq).1 (FixedWidth.digit_ne (by decide) m)
  · rename_i heq
    exact absurd (List.cons.inj heq).1 (FixedWidth.digit_ne (by decide) m)
  · rfl

/-- **The text of a date is read back as that date.** -/
theorem readIso_isoText (t : Time) : readIso (isoText t) = some (some t) := by
  have hbounds := yearOf_bounds t
  unfold isoText
  dsimp only
  split_ifs with hshort hneg
  · rw [readIso_digits]
    exact readIsoYear_text 4 1 (by omega) (by omega) (by omega)
  · exact readIsoYear_text 6 (-1) hbounds (by omega) (by omega)
  · exact readIsoYear_text 6 1 hbounds (by omega) (by omega)

theorem ofText_isoString (other : String → Date) (t : Time) : ofText other (isoString t) = some t := by
  rw [ofText, isoString, String.toList_ofList, readIso_isoText]
  rfl

/-! ## Order -/

/-- The years whose texts have four digits. -/
def ShortYear (t : Time) : Prop := 0 ≤ yearOf t ∧ yearOf t ≤ 9999

instance : DecidablePred ShortYear := fun t => inferInstanceAs (Decidable (0 ≤ yearOf t ∧ yearOf t ≤ 9999))

theorem yearOf_mono (h : t ≤ u) : yearOf t ≤ yearOf u := yearFromDay_mono (Int.ediv_le_ediv (by decide) h)

theorem isoFields_lt (hyear : yearOf t = yearOf u) (hlt : t < u) : isoFields t < isoFields u := by
  obtain ⟨leap, n, m, d, h, hdate, _, hfields⟩ := isoFields_spec t
  obtain ⟨leap', n', m', d', h', hdate', _, hfields'⟩ := isoFields_spec u
  rw [Time.lt_def] at hlt
  rw [hfields, hfields']
  simp only [List.cons_lt_cons_iff]
  rcases Int.lt_or_le (t.ms / msPerDay) (u.ms / msPerDay) with hday | hday
  · rcases h.lt h' hyear hday with hm | ⟨rfl, hd⟩
    · exact .inl (by omega)
    · exact .inr ⟨rfl, .inl (by omega)⟩
  · -- on the same day
    have hsame : t.ms / msPerDay = u.ms / msPerDay := by
      unfold msPerDay at hday ⊢
      omega
    have hm : m = m' := by
      have hmonth := h.calendar.1
      rw [hsame, h'.calendar.1] at hmonth
      omega
    have hd : d = d' := by
      rw [hsame, hdate'] at hdate
      omega
    subst hm hd
    refine .inr ⟨rfl, .inr ⟨rfl, ?_⟩⟩
    unfold msPerDay at hsame
    unfold msPerHour msPerMinute
    rcases Int.lt_or_le (t.ms / 3600000) (u.ms / 3600000) with hhour | hhour
    · exact .inl (by omega)
    refine .inr ⟨by omega, ?_⟩
    rcases Int.lt_or_le (t.ms / 60000) (u.ms / 60000) with hmin | hmin
    · exact .inl (by omega)
    refine .inr ⟨by omega, ?_⟩
    rcases Int.lt_or_le (t.ms / 1000) (u.ms / 1000) with hsec | hsec
    · exact .inl (by omega)
    · exact .inr ⟨by omega, .inl (by omega)⟩

/-- A later time has a later text, if its year has four digits. A sign comes before all of them. -/
theorem isoText_lt (hu : ShortYear u) (hlt : t < u) : isoText t < isoText u := by
  have hyear := yearOf_mono (Int.le_of_lt hlt)
  unfold isoText
  unfold ShortYear at hu
  dsimp only
  rw [if_pos hu]
  by_cases hneg : yearOf t < 0
  · obtain ⟨m, cs, hcs⟩ := FixedWidth.exists_text_eq_cons 3 '-' (yearOf u).toNat isoShape (isoFields u)
    rw [if_neg (by omega), if_pos hneg, hcs]
    refine List.cons_lt_cons_iff.2 (.inl ?_)
    show ('-').toNat < (FixedWidth.digit m).toNat
    rw [FixedWidth.toNat_digit]
    exact Nat.lt_add_right _ (by decide)
  · rw [if_pos (by omega)]
    refine FixedWidth.text_lt_text (.cons _ (by omega) (fits_isoFields t)) (.cons _ (by omega) (fits_isoFields u)) ?_
    rcases hyear.lt_or_eq with hy | hy
    · exact List.cons_lt_cons_iff.2 (.inl (by omega))
    · exact List.cons_lt_cons_iff.2 (.inr ⟨by rw [hy], isoFields_lt hy hlt⟩)

theorem isoText_ascii (t : Time) : ∀ c ∈ isoText t, c.toNat < 128 := by
  have hshape : ∀ c ∈ '-' :: isoShape.map Prod.snd, c.toNat < 128 := by simp [isoShape]
  have htext : ∀ w ns, ∀ c ∈ FixedWidth.text ((w, '-') :: isoShape) ns, c.toNat < 128 := by
    intro w ns c hc
    rcases FixedWidth.mem_text hc with ⟨m, rfl⟩ | hmem
    · rw [FixedWidth.toNat_digit]
      omega
    · exact hshape c hmem
  unfold isoText
  dsimp only
  split_ifs with hshort hneg
  · exact htext _ _
  · exact List.forall_mem_cons.2 ⟨by decide, htext _ _⟩
  · exact List.forall_mem_cons.2 ⟨by decide, htext _ _⟩

end

end Date

end Js
