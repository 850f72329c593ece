import Jobflow.Cron
import Jobflow.Domain
import Jobflow.Lib.InsertionMap

/-!
# Cron schedules (src/domain/schedule.ts, src/services/schedule-service.ts, src/storage/memory/schedule-store.ts)

An ISO date in a schedule is kept as the time it stands for. A stored schedule is never changed in place: `save` puts
another record under its id, so whoever has read a schedule goes on holding what it has read.
-/

namespace Jobflow

open Js (Record Date Time)

abbrev ScheduleId := String
abbrev TenantId := String

structure CronSchedule where
  id : ScheduleId
  tenantId : TenantId
  jobId : JobId
  cronExpression : String
  timezone : String
  enabled : Bool
  lastTriggeredAt : Option Time
  nextRunAt : Option Time
  defaultInput : Record
  createdAt : Time

/-- The input of `create`. -/
structure CronScheduleInput where
  tenantId : TenantId
  jobId : JobId
  cronExpression : String
  timezone : Option String
  defaultInput : Option Record

/-- `InMemoryScheduleStore`. -/
abbrev ScheduleStore := InsertionMap ScheduleId CronSchedule

namespace ScheduleStore

/-- `save` (schedule-store.ts:8-10). -/
def save (store : ScheduleStore) (schedule : CronSchedule) : ScheduleStore := store.set schedule.id schedule

/-- `listEnabled` (schedule-store.ts:20-22). -/
def listEnabled (store : ScheduleStore) : List CronSchedule := store.values.filter (·.enabled)

end ScheduleStore

def newScheduleId (uuid : String) : ScheduleId := "sched_" ++ uuid

/-- An exception that is not one of errors.ts. -/
def thrown {α : Type} : Except Js.Exception α → Except JobflowError α
  | .ok a => .ok a
  | .error e => .error (.exception e)

namespace ScheduleService

/-- `create` up to `store.save` (schedule-service.ts:23-40): the schedule it saves, or what it throws. The clock is read
three times: to probe the expression, for `createdAt` and for `nextRunAt`. -/
def create (input : CronScheduleInput) (uuid : String) (probed created issued : Date) :
    Except JobflowError CronSchedule :=
  match nextCronRun input.cronExpression probed with
  | .error _ => .error (.validationError ("invalid cron expression: " ++ input.cronExpression) [])
  | .ok _ => do
    let now ← thrown created.toISOString
    let next ← thrown (nextCronRun input.cronExpression issued)
    let nextRunAt ← thrown next.toISOString
    .ok { id := newScheduleId uuid
          tenantId := input.tenantId
          jobId := input.jobId
          cronExpression := input.cronExpression
          timezone := input.timezone.getD "UTC"
          enabled := true
          lastTriggeredAt := none
          nextRunAt := some nextRunAt
          defaultInput := input.defaultInput.getD []
          createdAt := now }

/-- The filter of `dueSchedules` (schedule-service.ts:47-50). -/
def isDue (now : Date) (s : CronSchedule) : Bool :=
  match s.nextRunAt with
  | none => matchesCron s.cronExpression now
  | some nextRunAt => Date.le (some nextRunAt) now

/-- `markTriggered` up to `store.save` (schedule-service.ts:53-60), with the two readings of the clock. -/
def markTriggered (schedule : CronSchedule) (now nowIso : Date) : Except Js.Exception CronSchedule := do
  let next ← nextCronRun schedule.cronExpression now
  let lastTriggeredAt ← nowIso.toISOString
  let nextRunAt ← next.toISOString
  .ok { schedule with lastTriggeredAt := some lastTriggeredAt, nextRunAt := some nextRunAt }

end ScheduleService

/-! ## What they store -/

section
variable {input : CronScheduleInput} {uuid : String} {probed created issued now nowIso : Date} {s s' : CronSchedule}

theorem toISOString_ok {d : Date} {t : Time} (h : d.toISOString = .ok t) : d = some t := by
  cases d with
  | none => cases h
  | some t' => rw [Except.ok.inj h]

/-- `create` saves a schedule when the expression has a match ahead, and the clock shows dates. -/
theorem ScheduleService.create_eq_ok (h : create input uuid probed created issued = .ok s) : ∃ now next,
    created = some now ∧ nextCronRun input.cronExpression issued = .ok (some next) ∧
      s = { id := newScheduleId uuid
            tenantId := input.tenantId
            jobId := input.jobId
            cronExpression := input.cronExpression
            timezone := input.timezone.getD "UTC"
            enabled := true
            lastTriggeredAt := none
            nextRunAt := some next
            defaultInput := input.defaultInput.getD []
            createdAt := now } := by
  unfold create at h
  split at h
  · cases h
  · cases hc : created.toISOString <;> rw [hc] at h
    · cases h
    rename_i now
    cases hn : nextCronRun input.cronExpression issued with
    | error e =>
      rw [hn] at h
      cases h
    | ok d =>
      rw [hn] at h
      cases hi : Date.toISOString d <;> simp only [thrown, hi, bind, Except.bind] at h <;> cases h
      rename_i next
      obtain rfl := toISOString_ok hi
      exact ⟨now, next, toISOString_ok hc, rfl, rfl⟩

theorem ScheduleService.create_ok (h : create input uuid probed created issued = .ok s) :
    s.id = newScheduleId uuid ∧ s.enabled = true ∧ s.nextRunAt.isSome = true := by
  obtain ⟨now, next, -, -, rfl⟩ := create_eq_ok h
  exact ⟨rfl, rfl, rfl⟩

/-- `markTriggered` moves `nextRunAt` behind the clock and changes `lastTriggeredAt`, and nothing else. -/
theorem ScheduleService.markTriggered_ok (h : markTriggered s now nowIso = .ok s') : ∃ t last next,
    now = some t ∧ t < next ∧ s' = { s with lastTriggeredAt := some last, nextRunAt := some next } := by
  unfold markTriggered at h
  cases hn : nextCronRun s.cronExpression now with
  | error e =>
    rw [hn] at h
    cases h
  | ok d =>
    rw [hn] at h
    cases hi : nowIso.toISOString <;> cases hd : Date.toISOString d <;>
      simp only [hi, hd, bind, Except.bind] at h <;> cases h
    rename_i last next
    obtain rfl := toISOString_ok hd
    obtain ⟨t, ht, hlt⟩ := nextCronRun_later hn
    exact ⟨t, last, next, ht, hlt, rfl⟩

/-- It goes through when the expression still has a match ahead. -/
theorem ScheduleService.markTriggered_isOk_iff : (markTriggered s now nowIso).toBool = true ↔
    (∃ next, nextCronRun s.cronExpression now = .ok (some next)) ∧ nowIso.isSome = true := by
  unfold markTriggered
  cases hn : nextCronRun s.cronExpression now with
  | error e => simp [bind, Except.bind, Except.toBool]
  | ok d => cases d <;> cases nowIso <;> simp [bind, Except.bind, Except.toBool, Date.toISOString]

end

end Jobflow
