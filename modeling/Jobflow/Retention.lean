import Jobflow.Js.IsoDate
import Jobflow.Listings

/-!
# Retention (src/compliance/retention.ts, src/audit/trail.ts)

Audit records and workflows carry the time at which they were written as a text, and retention compares texts. What is
kept is what the times say, for years of four digits (`retention_exact`).
-/

namespace Js

open Date

/-! ## The order of the texts -/

theorem codeUnits_ofList {cs : List Char} (h : ∀ c ∈ cs, c.toNat < 128) :
    codeUnits (String.ofList cs) = cs.map Char.toNat := by
  unfold codeUnits
  rw [String.toList_ofList]
  induction cs with
  | nil => rfl
  | cons c cs ih =>
    have hc := h c List.mem_cons_self
    rw [List.flatMap_cons, if_pos (by omega), ih fun d hd => h d (List.mem_cons_of_mem _ hd)]
    rfl

theorem map_toNat_lt {cs ds : List Char} (h : cs < ds) : cs.map Char.toNat < ds.map Char.toNat := by
  induction cs generalizing ds with
  | nil =>
    cases ds with
    | nil => exact absurd h (List.not_lt_nil _)
    | cons d ds => exact List.nil_lt_cons _ _
  | cons c cs ih =>
    cases ds with
    | nil => exact absurd h (List.not_lt_nil _)
    | cons d ds =>
      rcases List.cons_lt_cons_iff.1 h with hlt | ⟨rfl, hlt⟩
      · exact List.cons_lt_cons_iff.2 (.inl hlt)
      · exact List.cons_lt_cons_iff.2 (.inr ⟨rfl, ih hlt⟩)

theorem codeUnits_isoString (t : Time) : codeUnits (isoString t) = (isoText t).map Char.toNat :=
  codeUnits_ofList (isoText_ascii t)

/-- A text comes before another just if its time does, if the year of the one has four digits and the year of the other
no more. -/
theorem before_isoString {t u : Time} (ht : ShortYear t) (hu : yearOf u ≤ 9999) :
    before (isoString t) (isoString u) = decide (t < u) := by
  unfold before
  rw [codeUnits_isoString, codeUnits_isoString, decide_eq_decide]
  constructor
  · intro hlt
    by_contra hge
    rcases Int.lt_or_eq_of_le (Int.not_lt.1 hge) with h | h
    · exact List.lt_asymm (map_toNat_lt (isoText_lt ht h)) hlt
    · rw [Time.eq_of_ms h] at hlt
      exact List.lt_irrefl _ hlt
  · intro hlt
    have hyear := yearOf_mono (Int.le_of_lt hlt)
    exact map_toNat_lt (isoText_lt ⟨Int.le_trans ht.1 hyear, hu⟩ hlt)

end Js

namespace Jobflow

open Js (Date Time Record)
open Js.Date

/-! ## The source -/

/-- `d.toISOString()`; `none` is its `RangeError` for an invalid date. -/
def toISOString (d : Date) : Option ISODateString := d.map isoString

/-- What `AuditTrail.record` is given, and the id that it draws. -/
structure AuditEntry where
  id : String
  tenantId : String
  actor : String
  action : String
  resourceType : String
  resourceId : String
  metadata : Option Record

/-- The entry that is written at a time. -/
def AuditEntry.recordAt (e : AuditEntry) (timestamp : ISODateString) : AuditRecord where
  id := e.id
  tenantId := e.tenantId
  actor := e.actor
  action := e.action
  resourceType := e.resourceType
  resourceId := e.resourceId
  metadata := e.metadata.getD []
  timestamp := timestamp

/-- `AuditTrail.record` (trail.ts:13-34). A clock that shows no valid date writes nothing. -/
def AuditTrail.record (sink : InMemoryAuditSink) (e : AuditEntry) (now : Date) :
    Option (InMemoryAuditSink × AuditRecord) :=
  (toISOString now).map fun timestamp => (sink.write (e.recordAt timestamp), e.recordAt timestamp)

/-- Whole numbers of days, as the defaults are. -/
structure RetentionPolicy where
  auditDays : Int
  workflowDays : Int
  deadLetterDays : Int

/-- `DEFAULT_RETENTION`. -/
def RetentionPolicy.default : RetentionPolicy := ⟨90, 30, 180⟩

/-- `cutoffDate` (retention.ts:29-33). -/
def cutoffDate (now : Date) (days : Int) : Option ISODateString :=
  toISOString (setUTCDate now ((now.elim 0 fun t => dateOfDay (t.ms / msPerDay)) - days))

/-- `isTerminal` (retention.ts:35-37). -/
def retiredState (state : WorkflowState) : Bool := state.text ∈ ["completed", "failed", "cancelled", "dead_lettered"]

/-- `RetentionEnforcer.filterAudit` (retention.ts:19-22). -/
def RetentionPolicy.filterAudit (policy : RetentionPolicy) (records : List AuditRecord) (now : Date) :
    Option (List AuditRecord) :=
  (cutoffDate now policy.auditDays).map fun cutoff => records.filter fun r => !Js.before r.timestamp cutoff

/-- `RetentionEnforcer.shouldPurgeWorkflow` (retention.ts:24-27). -/
def RetentionPolicy.shouldPurgeWorkflow (policy : RetentionPolicy) (workflow : WorkflowInstance) (now : Date) :
    Option Bool :=
  (cutoffDate now policy.workflowDays).map fun cutoff =>
    Js.before workflow.updatedAt cutoff && retiredState workflow.state

/-! ## By the clock -/

/-- The time so many days of 24 hours before. -/
def daysBefore (now : Time) (days : Int) : Date := Js.timeClip (now.ms - days * msPerDay)

/-- The sink after a history of recordings, each at a reading of the clock. -/
def recorded (history : List (AuditEntry × Date)) : InMemoryAuditSink :=
  history.foldl (fun sink e => ((AuditTrail.record sink e.1 e.2).map Prod.fst).getD sink) ⟨[]⟩

/-- The records of a history of recordings at valid dates. -/
def recordsOf (history : List (AuditEntry × Time)) : List AuditRecord :=
  history.map fun e => e.1.recordAt (isoString e.2)

/-- A history at valid dates. -/
def atDates (history : List (AuditEntry × Time)) : List (AuditEntry × Date) := history.map fun e => (e.1, some e.2)

/-- Retention by the texts is retention by the times: a record is kept just if it was made in the last `auditDays` days,
and a workflow may go just if it is over and was last saved before the last `workflowDays` days. If the clock did not go
back, the records that are kept are the most recent ones. To have filtered before makes no difference. -/
structure RetainsByTime (policy : RetentionPolicy) (history : List (AuditEntry × Time)) (now : Time) : Prop where
  kept : policy.filterAudit (recorded (atDates history)).records now =
    (daysBefore now policy.auditDays).map fun cutoff => recordsOf (history.filter fun e => cutoff ≤ e.2)
  recent : history.Pairwise (fun a b => a.2 ≤ b.2) → ∀ records,
    policy.filterAudit (recorded (atDates history)).records now = some records →
    records = lastOf records.length (recorded (atDates history)).records
  again : ∀ earlier ≤ now, ∀ records, policy.filterAudit (recorded (atDates history)).records earlier = some records →
    policy.filterAudit records now = policy.filterAudit (recorded (atDates history)).records now
  purged : ∀ workflow saved, workflow.updatedAt = isoString saved → ShortYear saved →
    policy.shouldPurgeWorkflow workflow now = (daysBefore now policy.workflowDays).map fun cutoff =>
      decide (saved < cutoff ∧ retiredState workflow.state)

/-- The first time that is kept is before the year 10000. -/
def CutoffInRange (now : Time) (days : Int) : Prop := ∀ cutoff, daysBefore now days = some cutoff → yearOf cutoff ≤ 9999

section
variable {policy : RetentionPolicy} {history : List (AuditEntry × Time)} {now : Time}

/-- The calendar does not matter: so many days are so many times 24 hours. -/
theorem cutoffDate_eq (now : Time) (days : Int) : cutoffDate (some now) days = (daysBefore now days).map isoString := by
  rw [cutoffDate, Option.elim_some, setUTCDate_sub]
  rfl

theorem records_recorded (history : List (AuditEntry × Time)) :
    (recorded (atDates history)).records = recordsOf history := by
  have happended := foldl_appends InMemoryAuditSink.records (fun e : AuditEntry × Time => e.1.recordAt (isoString e.2))
    (fun sink e => ((AuditTrail.record sink e.1 (some e.2)).map Prod.fst).getD sink) (fun _ _ => rfl) ⟨[]⟩ history
  rw [recorded, atDates, List.foldl_map]
  exact happended

theorem filterAudit_recordsOf (hyears : ∀ e ∈ history, ShortYear e.2) (hcutoff : CutoffInRange now policy.auditDays) :
    policy.filterAudit (recordsOf history) now =
      (daysBefore now policy.auditDays).map fun cutoff => recordsOf (history.filter fun e => cutoff ≤ e.2) := by
  rw [RetentionPolicy.filterAudit, cutoffDate_eq, Option.map_map]
  cases hdate : daysBefore now policy.auditDays with
  | none => rfl
  | some cutoff =>
    simp only [Option.map_some, Function.comp_apply, Option.some.injEq, recordsOf, List.filter_map]
    refine congrArg _ (List.filter_congr fun e he => ?_)
    rw [Function.comp_apply, AuditEntry.recordAt, Js.before_isoString (hyears e he) (hcutoff cutoff hdate),
      ← decide_not, decide_eq_decide]
    exact Int.not_lt

/-- What passes from some point of an order on is the end of the list. -/
theorem filter_eq_lastOf {α : Type} {time : α → Time} {xs : List α} (h : xs.Pairwise fun a b => time a ≤ time b)
    (cutoff : Time) :
    xs.filter (fun x => cutoff ≤ time x) = lastOf (xs.filter fun x => cutoff ≤ time x).length xs := by
  induction xs with
  | nil => rfl
  | cons x xs ih =>
    obtain ⟨hx, hxs⟩ := List.pairwise_cons.1 h
    by_cases hle : cutoff ≤ time x
    · have hall : (x :: xs).filter (fun y => cutoff ≤ time y) = x :: xs := by
        refine List.filter_eq_self.2 fun y hy => decide_eq_true ?_
        rcases List.mem_cons.1 hy with rfl | hy
        · exact hle
        · exact Int.le_trans hle (hx y hy)
      rw [hall, lastOf, min_self, Nat.sub_self]
      rfl
    · have hlength := List.length_filter_le (fun y => decide (cutoff ≤ time y)) xs
      have hstart : xs.length + 1 - min (xs.filter fun y => decide (cutoff ≤ time y)).length (xs.length + 1) =
          xs.length - min (xs.filter fun y => decide (cutoff ≤ time y)).length xs.length + 1 := by omega
      rw [List.filter_cons_of_neg (by simpa using hle), lastOf, List.length_cons, hstart, List.drop_succ_cons]
      exact ih hxs

/-- An earlier cutoff keeps more. -/
theorem filter_filter_daysBefore {earlier now : Time} {days : Int} {cutoff cutoff' : Time}
    (hle : earlier ≤ now) (h : daysBefore earlier days = some cutoff) (h' : daysBefore now days = some cutoff') :
    (history.filter fun e => cutoff ≤ e.2).filter (fun e => cutoff' ≤ e.2) =
      history.filter fun e => cutoff' ≤ e.2 := by
  have hms := Js.timeClip_eq_some.1 h
  have hms' := Js.timeClip_eq_some.1 h'
  rw [List.filter_filter]
  refine List.filter_congr fun e _ => ?_
  rw [← Bool.decide_and, decide_eq_decide]
  rw [Time.le_def] at *
  simp only [Time.le_def]
  omega

/-- A cutoff before that of a later time is no later than it. -/
theorem CutoffInRange.earlier {earlier : Time} {days : Int} (hcutoff : CutoffInRange now days) (hle : earlier ≤ now)
    {cutoff : Time} (h : daysBefore now days = some cutoff) : CutoffInRange earlier days := by
  intro cutoff' h'
  refine Int.le_trans (yearOf_mono ?_) (hcutoff cutoff h)
  rw [Time.le_def] at *
  rw [Js.timeClip_eq_some.1 h, Js.timeClip_eq_some.1 h']
  omega

end

/-- **Retention is exact**: over every history of recordings and every policy, if the readings of the clock, and the
cutoffs, are in years of four digits at most. -/
theorem retention_exact {policy : RetentionPolicy} {history : List (AuditEntry × Time)} {now : Time}
    (hyears : ∀ e ∈ history, ShortYear e.2) (haudit : CutoffInRange now policy.auditDays)
    (hworkflow : CutoffInRange now policy.workflowDays) : RetainsByTime policy history now := by
  have hkept := filterAudit_recordsOf hyears haudit
  refine ⟨?_, ?_, ?_, ?_⟩
  · rw [records_recorded, hkept]
  · intro horder records hrecords
    rw [records_recorded, hkept] at hrecords
    obtain ⟨cutoff, _, rfl⟩ := Option.map_eq_some_iff.1 hrecords
    have hend := filter_eq_lastOf horder cutoff
    rw [records_recorded, recordsOf, recordsOf, List.length_map, lastOf, List.length_map, ← List.map_drop]
    exact congrArg _ hend
  · intro earlier hle records hrecords
    rw [records_recorded] at hrecords ⊢
    cases hdate : daysBefore now policy.auditDays with
    | none => rw [RetentionPolicy.filterAudit, RetentionPolicy.filterAudit, cutoffDate_eq, hdate]; rfl
    | some cutoff =>
      rw [filterAudit_recordsOf hyears (haudit.earlier hle hdate)] at hrecords
      obtain ⟨cutoff', hdate', rfl⟩ := Option.map_eq_some_iff.1 hrecords
      rw [filterAudit_recordsOf (fun e he => hyears e (List.mem_of_mem_filter he)) haudit, hkept, hdate,
        Option.map_some, Option.map_some, filter_filter_daysBefore hle hdate' hdate]
  · intro workflow saved hsaved hshort
    rw [RetentionPolicy.shouldPurgeWorkflow, cutoffDate_eq, Option.map_map]
    cases hdate : daysBefore now policy.workflowDays with
    | none => rfl
    | some cutoff =>
      simp only [Option.map_some, Function.comp_apply, hsaved, Js.before_isoString hshort (hworkflow cutoff hdate),
        Bool.decide_and, Bool.decide_eq_true]

/-- The time of 2026-06-01T00:00:00.000Z. -/
def juneFirst : Time := ⟨1780272000000, by decide⟩

/-- A record of 12 days before, and a record of the year before. -/
def auditSample : List (AuditEntry × Time) :=
  let entry (id : String) : AuditEntry := ⟨id, "t1", "system", "run.start", "run", "r1", none⟩
  [(entry "a2", ⟨1735689600000, by decide⟩), (entry "a1", ⟨1779235200000, by decide⟩)]

theorem retention_exact_sample :
    (RetentionPolicy.default.filterAudit (recorded (atDates auditSample)).records (some juneFirst)).map
        (·.map (·.id)) = some ["a1"] ∧
      RetainsByTime .default auditSample juneFirst := by
  have hcutoff (days : Int) (h : daysBefore juneFirst days = daysBefore juneFirst 90 ∨
      daysBefore juneFirst days = daysBefore juneFirst 30) : CutoffInRange juneFirst days := by
    intro cutoff hdate
    rcases h with h | h <;> rw [h] at hdate <;> obtain rfl := Option.some.inj hdate <;> decide
  exact ⟨by decide +kernel, retention_exact (by decide) (hcutoff _ (.inl rfl)) (hcutoff _ (.inr rfl))⟩

end Jobflow
