import Jobflow.RunQuery
import Jobflow.Webhooks

/-!
# Limited listings (src/storage/memory/dead-letter-store.ts, src/audit/memory-sink.ts, src/webhooks/delivery-store.ts)

Three stores cut the end off their list with `slice(-limit)`. That is the whole list for the limit 0
(`sliceFrom_neg_eq_iff`), and in the store that writes under keys it is not what was written last where a key was
written again (`limited_listings_iff`).
-/

namespace Jobflow

open Js (Record)

/-! ## The source -/

/-- `xs.slice(start)`. -/
def sliceFrom {α : Type} (xs : List α) (start : Int) : List α :=
  if start < 0 then xs.drop (max (xs.length + start) 0).toNat else xs.drop start.toNat

/-- `InMemoryDeadLetterStore.list` (dead-letter-store.ts:17-19). -/
def Stores.listDeadLetters (s : Stores) (limit : Option Int) : List DeadLetterEntry :=
  sliceFrom s.deadLetters (-limit.getD 100)

/-- `WebhookDeliveryStore.list` (delivery-store.ts:10-12). -/
def WebhookDeliveryStore.list (store : WebhookDeliveryStore) (limit : Option Int) : List WebhookDelivery :=
  sliceFrom store.values (-limit.getD 50)

/-- `timestamp` is `at`, which Lean reserves. -/
structure AuditRecord where
  id : String
  tenantId : String
  actor : String
  action : String
  resourceType : String
  resourceId : String
  metadata : Record
  timestamp : String

structure AuditQueryFilter where
  tenantId : Option String
  resourceType : Option String
  resourceId : Option String
  since : Option String
  limit : Option Int

structure InMemoryAuditSink where
  records : List AuditRecord

def InMemoryAuditSink.write (sink : InMemoryAuditSink) (record : AuditRecord) : InMemoryAuditSink :=
  ⟨sink.records ++ [record]⟩

/-- `if (value) result = result.filter(...)`. -/
def filterGiven (value : Option String) (keep : String → AuditRecord → Bool) (result : List AuditRecord) :
    List AuditRecord :=
  match given value with
  | none => result
  | some value => result.filter (keep value)

/-- memory-sink.ts:11-27. -/
def InMemoryAuditSink.query (sink : InMemoryAuditSink) (filter : AuditQueryFilter) : List AuditRecord :=
  let result := sink.records
  let result := filterGiven filter.tenantId (fun tenantId r => r.tenantId = tenantId) result
  let result := filterGiven filter.resourceType (fun resourceType r => r.resourceType = resourceType) result
  let result := filterGiven filter.resourceId (fun resourceId r => r.resourceId = resourceId) result
  let result := filterGiven filter.since (fun since r => !Js.before r.timestamp since) result
  let limit := filter.limit.getD 100
  sliceFrom result (-limit)

/-! ## Histories of writes -/

def pushed (entries : List DeadLetterEntry) : Stores := entries.foldl .pushDeadLetter .empty

def written (records : List AuditRecord) : InMemoryAuditSink := records.foldl .write ⟨[]⟩

def saved (deliveries : List WebhookDelivery) : WebhookDeliveryStore := deliveries.foldl .save .empty

/-- Whether a record matches a filter: a condition that is absent or empty asks for nothing. -/
def AuditQueryFilter.matchesRecord (filter : AuditQueryFilter) (r : AuditRecord) : Bool :=
  ((given filter.tenantId).all fun tenantId => r.tenantId = tenantId) &&
    ((given filter.resourceType).all fun resourceType => r.resourceType = resourceType) &&
    ((given filter.resourceId).all fun resourceId => r.resourceId = resourceId) &&
    ((given filter.since).all fun since => !Js.before r.timestamp since)

/-- Each of the last `limit` deliveries that are stored was first written after all that are written before it. An id
that is written again counts by its last write, but keeps the place of its first. -/
def FirstWrittenLast (limit : Nat) (deliveries : List WebhookDelivery) : Prop :=
  ∀ before d after, InsertionMap.lastWritten WebhookDelivery.id deliveries = before ++ d :: after →
    after.length < limit → ∀ other ∈ before,
      (deliveries.map WebhookDelivery.id).idxOf other.id < (deliveries.map WebhookDelivery.id).idxOf d.id

/-- The last entries and no more than asked for. -/
def ListsLast {α : Type} (limit : Nat) (listed entries : List α) : Prop :=
  listed = lastOf limit entries ∧ listed.length ≤ limit

/-! ## The end of a list -/

section
variable {α : Type}

theorem sliceFrom_neg (xs : List α) {limit : Nat} (h : limit ≠ 0) : sliceFrom xs (-limit) = lastOf limit xs := by
  unfold sliceFrom lastOf
  rw [if_pos (by omega)]
  congr 1
  omega

theorem sliceFrom_neg_zero (xs : List α) : sliceFrom xs (-(0 : Nat)) = xs := rfl

/-- **The slice is the end of the list**, except for the limit 0. -/
theorem sliceFrom_neg_eq_iff (xs ys : List α) (limit : Nat) (hnil : ys = [] ↔ xs = []) :
    ListsLast limit (sliceFrom xs (-limit)) ys ↔ (limit ≠ 0 ∨ ys = []) ∧ lastOf limit xs = lastOf limit ys := by
  unfold ListsLast
  by_cases hlimit : limit = 0
  · subst hlimit
    rw [sliceFrom_neg_zero, Nat.le_zero, List.length_eq_zero_iff, hnil]
    simp only [ne_eq, not_true, false_or]
    refine ⟨fun h => ⟨h.2, ?_⟩, fun h => ⟨?_, h.1⟩⟩
    · rw [h.2, hnil.2 h.2]
    · rw [h.1, hnil.2 h.1]
      rfl
  · rw [sliceFrom_neg xs hlimit, length_lastOf]
    simp [hlimit]

end

/-! ## The three stores -/

theorem deadLetters_pushed (entries : List DeadLetterEntry) : (pushed entries).deadLetters = entries := by
  have happended := foldl_appends Stores.deadLetters id .pushDeadLetter (fun _ _ => rfl) .empty entries
  rwa [List.map_id] at happended

theorem records_written (records : List AuditRecord) : (written records).records = records := by
  have happended := foldl_appends InMemoryAuditSink.records id .write (fun _ _ => rfl) ⟨[]⟩ records
  rwa [List.map_id] at happended

theorem saved_eq (deliveries : List WebhookDelivery) :
    saved deliveries = InsertionMap.ofValues WebhookDelivery.id deliveries := by
  rw [InsertionMap.ofValues, InsertionMap.ofList, List.foldl_map]
  rfl

theorem filterGiven_eq (value : Option String) (keep : String → AuditRecord → Bool) (result : List AuditRecord) :
    filterGiven value keep result = result.filter fun r => (given value).all (keep · r) := by
  unfold filterGiven
  cases given value with
  | none => simp
  | some value => rfl

/-- A query is the end of what matches. -/
theorem query_eq (sink : InMemoryAuditSink) (filter : AuditQueryFilter) : sink.query filter =
    sliceFrom (sink.records.filter filter.matchesRecord) (-filter.limit.getD 100) := by
  simp only [InMemoryAuditSink.query, filterGiven_eq, List.filter_filter]
  congr 2
  funext r
  simp only [AuditQueryFilter.matchesRecord, Bool.and_comm, Bool.and_assoc]

/-- **Limited listings are the most recent entries**, exactly but for the limit 0, and, where deliveries are written
again, as long as those at the end were also first written last. -/
theorem limited_listings_iff (entries : List DeadLetterEntry) (records : List AuditRecord) (filter : AuditQueryFilter)
    (deliveries : List WebhookDelivery) (limit : Nat) :
    (ListsLast limit ((pushed entries).listDeadLetters (some limit)) entries ↔ limit ≠ 0 ∨ entries = []) ∧
    (ListsLast limit ((written records).query { filter with limit := some limit })
        (records.filter filter.matchesRecord) ↔ limit ≠ 0 ∨ records.filter filter.matchesRecord = []) ∧
    (ListsLast limit ((saved deliveries).list (some limit)) (InsertionMap.lastWritten WebhookDelivery.id deliveries) ↔
      (limit ≠ 0 ∨ deliveries = []) ∧ FirstWrittenLast limit deliveries) := by
  have hstored := InsertionMap.values_perm_lastWritten WebhookDelivery.id deliveries
  refine ⟨?_, ?_, ?_⟩
  · rw [Stores.listDeadLetters, deadLetters_pushed]
    exact (sliceFrom_neg_eq_iff entries entries limit Iff.rfl).trans (and_iff_left rfl)
  · rw [query_eq, records_written]
    exact (sliceFrom_neg_eq_iff _ _ limit Iff.rfl).trans (and_iff_left rfl)
  · rw [WebhookDeliveryStore.list, saved_eq]
    refine (sliceFrom_neg_eq_iff _ _ limit ?_).trans ?_
    · rw [← List.length_eq_zero_iff, ← hstored.length_eq, List.length_eq_zero_iff]
    · rw [InsertionMap.lastWritten_eq_nil, InsertionMap.recent_eq_iff]
      rfl

def deadLetterSample : DeadLetterEntry := ⟨"r1", .maxRetriesExceeded, "w1", "2026-01-01T00:00:00.000Z"⟩

def deliverySample (id : String) (status : DeliveryStatus) : WebhookDelivery :=
  ⟨id, "wh_1", .runFailed, [], status, 1, none, none⟩

/-- The delivery `whd_1` is written again. -/
def deliveriesSample : List WebhookDelivery :=
  [deliverySample "whd_1" .failed, deliverySample "whd_2" .failed, deliverySample "whd_1" .delivered]

/-- With the limit 0 the one dead letter is listed, and with the limit 1 the delivery that was written last is not. -/
theorem limited_listings_fail :
    ¬ ListsLast 0 ((pushed [deadLetterSample]).listDeadLetters (some 0)) [deadLetterSample] ∧
    ¬ ListsLast 1 ((saved deliveriesSample).list (some 1))
      (InsertionMap.lastWritten WebhookDelivery.id deliveriesSample) := by
  refine ⟨fun h => absurd h.2 (by decide), fun h => ?_⟩
  have hids := congrArg (List.map WebhookDelivery.id) h.1
  exact absurd hids (by decide)

end Jobflow
