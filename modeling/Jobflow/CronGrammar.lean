import Jobflow.NextRun
import Jobflow.Schedules

/-!
# Which cron expressions are accepted (src/services/schedule-service.ts, src/utils/cron.ts)

`create` has no grammar: it accepts what matches some minute within the horizon. A field is read by `Number`, which
takes `0x10` and `1e1`, and makes 0 of the empty text; in a list it is enough that one element is read as the value,
whatever the others are. So an expression outside the grammar is accepted as soon as each of its fields admits a value
and there is a day for them (`accepts_iff`).
-/

namespace Jobflow

open Js (Date Number Time)

/-! ## The grammar -/

def IsDecimal (text : List Char) : Prop := text ≠ [] ∧ ∀ c ∈ text, Number.isDigit c = true

/-- `*`, `*/` and a positive integer, or integers with commas between them. -/
inductive CronField : List Char → Prop
  | every : CronField ['*']
  | step {text : List Char} : IsDecimal text → (∃ c ∈ text, c ≠ '0') → CronField ('*' :: '/' :: text)
  | list {text : List Char} : (∀ element ∈ text.splitOn ',', IsDecimal element) → CronField text

/-- Five fields of the grammar. -/
def CronGrammar (expression : String) : Prop :=
  (cronParts expression).length = 5 ∧ ∀ field ∈ cronParts expression, CronField field

/-! ## What is accepted -/

/-- Some day of the calendar has a minute that five fields match. -/
def Occurs (minExpr hourExpr domExpr monthExpr dowExpr : List Char) : Prop :=
  (∃ min : Nat, min < 60 ∧ matchField minExpr (.finite (min : Int)) = true) ∧
    (∃ hour : Nat, hour < 24 ∧ matchField hourExpr (.finite (hour : Int)) = true) ∧
    (∃ month : Nat, month < 12 ∧ matchField monthExpr (.finite (month + 1 : Int)) = true ∧
      ∃ dom : Nat, dom < Date.daysInMonth month ∧ matchField domExpr (.finite (dom + 1 : Int)) = true) ∧
    ∃ dow : Nat, dow < 7 ∧ matchField dowExpr (.finite (dow : Int)) = true

/-- The expression has five fields, and they match some minute. -/
def CanMatch (expression : String) : Prop :=
  ∃ minExpr hourExpr domExpr monthExpr dowExpr,
    cronParts expression = [minExpr, hourExpr, domExpr, monthExpr, dowExpr] ∧
      Occurs minExpr hourExpr domExpr monthExpr dowExpr

/-- A call of `create` with this expression goes through. -/
def ScheduleService.Accepts (expression : String) : Prop :=
  ∃ input uuid probed created issued schedule, input.cronExpression = expression ∧
    create input uuid probed created issued = .ok schedule

section
variable {expression : String} {t before : Time}

/-- The months count from 1 in an expression. -/
theorem getUTCMonth_add_one : ∀ m : Nat, m < 12 →
    (Number.finite (m : Int)).add (.finite 1) = .finite (m + 1 : Int) := by
  decide +kernel

/-- An expression that matches a date can match. -/
theorem canMatch_of_matchesCron (h : matchesCron expression (some t) = true) : CanMatch expression := by
  obtain ⟨min, hour, m, d, w, hmin, hhour, hm, hd, hw, h1, h2, h3, h4, h5⟩ := Date.fields_inRange t
  unfold matchesCron at h
  split at h
  · rename_i minExpr hourExpr domExpr monthExpr dowExpr hparts
    rw [h1, h2, h3, h4, h5, getUTCMonth_add_one m hm] at h
    simp only [Bool.and_eq_true] at h
    obtain ⟨⟨⟨⟨hmatch1, hmatch2⟩, hmatch3⟩, hmatch4⟩, hmatch5⟩ := h
    exact ⟨minExpr, hourExpr, domExpr, monthExpr, dowExpr, hparts, ⟨min, hmin, hmatch1⟩, ⟨hour, hhour, hmatch2⟩,
      ⟨m, hm, hmatch4, d, hd, hmatch3⟩, w, hw, hmatch5⟩
  · cases h

/-- An expression that can match matches a whole minute, which is not the first one. -/
theorem exists_matchesCron (h : CanMatch expression) :
    ∃ t : Time, WholeMinute t ∧ Date.msPerMinute ≤ t.ms ∧ matchesCron expression (some t) = true := by
  obtain ⟨minExpr, hourExpr, domExpr, monthExpr, dowExpr, hparts, ⟨min, hmin, hmatch1⟩, ⟨hour, hhour, hmatch2⟩,
    ⟨m, hm, hmatch4, d, hd, hmatch3⟩, w, hw, hmatch5⟩ := h
  obtain ⟨t, hwhole, hle, h1, h2, h3, h4, h5⟩ := Date.exists_date hmin hhour hm hd hw
  refine ⟨t, hwhole, hle, ?_⟩
  rw [matchesCron, hparts]
  dsimp only
  rw [h1, h2, h3, h4, h5, getUTCMonth_add_one m hm, hmatch1, hmatch2, hmatch3, hmatch4, hmatch5]
  rfl

/-- From the minute before a match, the match is the next run. -/
theorem nextCronRun_minute_before (hwhole : WholeMinute t) (h : matchesCron expression (some t) = true)
    (hbefore : before.ms + Date.msPerMinute = t.ms) : nextCronRun expression (some before) = .ok (some t) := by
  have hnext : minuteAfter before 1 = some t := by
    refine Js.timeClip_eq_some.2 ?_
    unfold WholeMinute at hwhole
    unfold Date.msPerMinute at *
    omega
  rw [nextCronRun, startOfMinute_eq, nextMatch, minuteAfter_succ, hnext, if_pos h]

/-- **What `create` accepts**: the expressions that match some minute of the calendar. -/
theorem ScheduleService.accepts_iff : Accepts expression ↔ CanMatch expression := by
  constructor
  · rintro ⟨input, uuid, probed, created, issued, schedule, rfl, h⟩
    obtain ⟨-, next, -, hnext, -⟩ := create_eq_ok h
    obtain ⟨after, rfl, -⟩ := nextCronRun_later hnext
    have hearliest := next_run_earliest input.cronExpression after
    rw [hnext] at hearliest
    exact canMatch_of_matchesCron hearliest.fires
  · intro h
    obtain ⟨t, hwhole, hle, hmatch⟩ := exists_matchesCron h
    have hrange : -Js.maxTime ≤ t.ms - Date.msPerMinute ∧ t.ms - Date.msPerMinute ≤ Js.maxTime := by
      have := t.inRange.2
      unfold Js.maxTime Date.msPerMinute at *
      omega
    have hnext : nextCronRun expression (some ⟨t.ms - Date.msPerMinute, hrange⟩) = .ok (some t) :=
      nextCronRun_minute_before hwhole hmatch (Int.sub_add_cancel _ _)
    refine ⟨⟨"", "", expression, none, none⟩, "", some ⟨_, hrange⟩, some t, some ⟨_, hrange⟩, ?_⟩
    rw [create]
    dsimp only
    rw [hnext]
    exact ⟨_, rfl, rfl⟩

/-- **When the grammar is kept**: an expression that `create` accepts is one of the grammar if and only if it is one of
the grammar, or there is no minute that its fields, read by `Number`, match. -/
theorem keeps_grammar_iff (expression : String) :
    (∀ input uuid probed created issued schedule, input.cronExpression = expression →
      ScheduleService.create input uuid probed created issued = .ok schedule → CronGrammar expression) ↔
      CronGrammar expression ∨ ¬ CanMatch expression := by
  rw [← ScheduleService.accepts_iff]
  constructor
  · intro h
    by_cases hgrammar : CronGrammar expression
    · exact .inl hgrammar
    · refine .inr ?_
      rintro ⟨input, uuid, probed, created, issued, schedule, heq, hcreate⟩
      exact hgrammar (h input uuid probed created issued schedule heq hcreate)
  · rintro (hgrammar | hnever) input uuid probed created issued schedule heq hcreate
    · exact hgrammar
    · exact absurd ⟨input, uuid, probed, created, issued, schedule, heq, hcreate⟩ hnever

end

/-- 1970-01-01T00:00:00.000Z -/
def epoch : Time := ⟨0, by decide⟩

/-- The range of `1-5,10` is no number, and is passed over. -/
theorem range_is_passed_over : ¬ ∀ expression input uuid probed created issued schedule,
    input.cronExpression = expression →
      ScheduleService.create input uuid probed created issued = .ok schedule → CronGrammar expression := by
  intro h
  have haccepted : (ScheduleService.create ⟨"tenant", "job", "1-5,10 * * * *", none, none⟩ "1" (some epoch) (some epoch)
      (some epoch)).toBool = true := by decide +kernel
  cases hcreate : ScheduleService.create ⟨"tenant", "job", "1-5,10 * * * *", none, none⟩ "1" (some epoch) (some epoch)
      (some epoch) with
  | error e =>
    rw [hcreate] at haccepted
    cases haccepted
  | ok schedule =>
    have hfield := (h _ _ _ _ _ _ _ rfl hcreate).2 "1-5,10".toList (by decide +kernel)
    cases hfield with
    | list helements =>
      have hrange := (helements "1-5".toList (by decide +kernel)).2 '-' (by decide +kernel)
      exact absurd hrange (by decide +kernel)

end Jobflow
