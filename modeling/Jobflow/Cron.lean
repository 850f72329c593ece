import Jobflow.Js.Date

/-!
# Cron expressions (src/utils/cron.ts)

`nextCronRun` goes forward minute by minute, for 366 days at most, until the expression matches. It reads the five
fields of the calendar in UTC.
-/

namespace Jobflow

open Js (Date Number Time)

/-- `matchField` (cron.ts:22-32). -/
def matchField (expr : List Char) (value : Number) : Bool :=
  match expr with
  | ['*'] => true
  | '*' :: '/' :: text =>
    let step := Number.parse (String.ofList text)
    (Number.finite 0).lt step && (value.rem step).eq (.finite 0)
  | _ =>
    if ',' ∈ expr then (expr.splitOn ',').any fun text => (Number.parse (String.ofList text)).sameValueZero value
    else (Number.parse (String.ofList expr)).eq value

/-- `expression.trim().split(/\s+/)`, but for the empty text, of which `split` makes one empty part. -/
def cronParts (expression : String) : List (List Char) :=
  ((Number.trim expression.toList).splitOnP Number.isSpace).filter (· ≠ [])

/-- `matchesCron` (cron.ts:2-20). -/
def matchesCron (expression : String) (date : Date) : Bool :=
  match cronParts expression with
  | [minExpr, hourExpr, domExpr, monthExpr, dowExpr] =>
    matchField minExpr date.getUTCMinutes && matchField hourExpr date.getUTCHours &&
      matchField domExpr date.getUTCDate && matchField monthExpr (date.getUTCMonth.add (.finite 1)) &&
      matchField dowExpr date.getUTCDay
  | _ => false

/-- The loop of `nextCronRun`, with the number of minutes still to try. -/
def nextMatch (expression : String) : Nat → Date → Except Js.Exception Date
  | 0, _ => .error (.error "no cron match within horizon")
  | n + 1, cursor =>
    if matchesCron expression cursor.nextMinute then .ok cursor.nextMinute
    else nextMatch expression n cursor.nextMinute

/-- `nextCronRun` (cron.ts:34-44). -/
def nextCronRun (expression : String) (after : Date) : Except Js.Exception Date :=
  nextMatch expression (60 * 24 * 366) after.startOfMinute

/-! ## The next run is later -/

theorem nextMatch_later {expression : String} : ∀ {n : Nat} {cursor : Date} {next : Time},
    nextMatch expression n cursor = .ok (some next) →
      ∃ t, cursor = some t ∧ t.ms + Date.msPerMinute ≤ next.ms
  | 0, _, _, h => by cases h
  | n + 1, cursor, next, h => by
    have hminute : ∀ {t : Time}, cursor.nextMinute = some t → ∃ c, cursor = some c ∧
        t.ms = c.ms + Date.msPerMinute := by
      intro t ht
      obtain ⟨c, rfl, hc⟩ := Option.bind_eq_some_iff.1 ht
      exact ⟨c, rfl, Js.timeClip_eq_some.1 hc⟩
    unfold nextMatch at h
    split at h
    · obtain ⟨c, rfl, hc⟩ := hminute (Except.ok.inj h)
      exact ⟨c, rfl, by omega⟩
    · obtain ⟨t, ht, hle⟩ := nextMatch_later h
      obtain ⟨c, rfl, hc⟩ := hminute ht
      refine ⟨c, rfl, ?_⟩
      unfold Date.msPerMinute at *
      omega

theorem nextCronRun_later {expression : String} {after : Date} {next : Time}
    (h : nextCronRun expression after = .ok (some next)) : ∃ t, after = some t ∧ t < next := by
  obtain ⟨c, hc, hle⟩ := nextMatch_later h
  obtain ⟨t, rfl, ht⟩ := Option.bind_eq_some_iff.1 hc
  refine ⟨t, rfl, ?_⟩
  have := Js.timeClip_eq_some.1 ht
  rw [Js.Time.lt_def]
  unfold Date.msPerMinute at *
  omega

end Jobflow
