import Mathlib.Data.List.Sort
import Jobflow.Stores

/-!
# Searching runs (src/query, src/utils/pagination.ts)

A search filters the runs of a job, sorts them and cuts one page out of them. `pages_partition` says that the pages
from the first to the last one put together are the sorted list, and that the pages after them are empty.
-/

namespace Js

/-- The UTF-16 code units of a string. -/
def codeUnits (s : String) : List Nat :=
  s.toList.flatMap fun c =>
    if c.toNat ≤ 0xFFFF then [c.toNat]
    else [0xD800 + (c.toNat - 0x10000) / 0x400, 0xDC00 + (c.toNat - 0x10000) % 0x400]

/-- `a < b` on strings. -/
def before (a b : String) : Bool := codeUnits a < codeUnits b

theorem not_before_trans {a b c : String} (hab : before a b = false) (hbc : before b c = false) :
    before a c = false := by
  simp only [before, decide_eq_false_iff_not, List.not_lt] at *
  exact List.le_trans hbc hab

theorem not_before_total (a b : String) : before a b = false ∨ before b a = false := by
  simp only [before, decide_eq_false_iff_not, List.not_lt]
  exact List.le_total _ _

end Js

namespace Jobflow

/-! ## `RunFilter` -/

structure RunFilter where
  status : Option (List WorkflowState)
  jobId : Option String
  triggerPrefix : Option String
  since : Option String
  /-- `until`. -/
  upTo : Option String

/-- A filter's text that is there and not empty. -/
def given (text : Option String) : Option String := text.filter (· ≠ "")

/-- The predicate of `filterRuns` (run-filter.ts:13-20). -/
def RunFilter.passes (filter : RunFilter) (r : JobRun) : Bool :=
  (filter.status.all fun states => states = [] || r.status ∈ states) &&
    ((given filter.jobId).all fun id => r.jobId = id) &&
    ((given filter.triggerPrefix).all fun p => r.trigger.startsWith p) &&
    ((given filter.since).all fun t => !Js.before r.startedAt t) &&
    ((given filter.upTo).all fun t => (given r.finishedAt).all fun finishedAt => !Js.before t finishedAt)

/-- `filterRuns` (run-filter.ts:12-21). -/
def filterRuns (runs : List JobRun) (filter : RunFilter) : List JobRun := runs.filter filter.passes

/-! ## `sortRuns` -/

inductive SortField where
  | startedAt | finishedAt

def SortField.value (field : SortField) (r : JobRun) : String :=
  match field with
  | .startedAt => r.startedAt
  | .finishedAt => r.finishedAt.getD ""

/-- `sortRuns` (run-filter.ts:23-29). -/
def sortRuns (localeCompare : String → String → Int) (runs : List JobRun) (field : SortField) (desc : Bool) :
    List JobRun :=
  runs.insertionSort fun a b =>
    (if desc then localeCompare (field.value b) (field.value a) else localeCompare (field.value a) (field.value b)) ≤ 0

/-! ## `paginate` -/

structure PageRequest where
  page : Int
  pageSize : Int

structure PageResult (α : Type) where
  items : List α
  page : Int
  pageSize : Int
  total : Nat
  totalPages : Int

/-- `items.slice(start, stop)`, neither of them negative. -/
def slice {α : Type} (items : List α) (start stop : Int) : List α := (items.take stop.toNat).drop start.toNat

/-- `paginate` (pagination.ts:14-26). -/
def paginate {α : Type} (items : List α) (req : PageRequest) : PageResult α :=
  let page := max 1 req.page
  let pageSize := min 100 (max 1 req.pageSize)
  let total := items.length
  let start := (page - 1) * pageSize
  -- the quotient, rounded up
  let totalPages := (total + pageSize - 1) / pageSize
  { items := slice items start (start + pageSize)
    page := page
    pageSize := pageSize
    total := total
    totalPages := if totalPages = 0 then 1 else totalPages }

/-- `InMemoryRunStore.listByJob` (run-store.ts:16-18). -/
def Stores.listByJob (s : Stores) (jobId : JobId) : List JobRun := s.runs.values.filter fun r => r.jobId = jobId

/-- `RunQueryService.search` (run-query-service.ts:9-13). -/
def RunQueryService.search (localeCompare : String → String → Int) (s : Stores) (jobId : JobId) (filter : RunFilter)
    (page : PageRequest) : PageResult JobRun :=
  paginate (sortRuns localeCompare (filterRuns (s.listByJob jobId) filter) .startedAt true) page

/-! ## Pages -/

/-- The items of the first `n` pages, put together. -/
def pagesUpTo {α : Type} (search : PageRequest → PageResult α) (pageSize : Int) (n : Nat) : List α :=
  (List.range n).flatMap fun (i : Nat) => (search ⟨i + 1, pageSize⟩).items

section
variable {α : Type} {items : List α} {pageSize page : Int}

/-- The first `n` pages are the first items, as many as there is room for. -/
theorem pagesUpTo_paginate (items : List α) (pageSize : Int) (n : Nat) :
    pagesUpTo (paginate items) pageSize n = items.take (n * (min 100 (max 1 pageSize)).toNat) := by
  obtain ⟨size, hsize⟩ : ∃ size : Nat, min 100 (max 1 pageSize) = size := Int.eq_ofNat_of_zero_le (by omega)
  rw [hsize, Int.toNat_natCast]
  induction n with
  | zero => simp [pagesUpTo]
  | succ n ih =>
    have hstart : (max 1 ((n : Int) + 1) - 1) * (size : Int) = ((n * size : Nat) : Int) := by
      rw [max_eq_right (by omega), Int.add_sub_cancel, Int.natCast_mul]
    have hpage : (paginate items ⟨n + 1, pageSize⟩).items = (items.take (n * size + size)).drop (n * size) := by
      simp only [paginate, slice, hsize, hstart]
      norm_cast
    rw [pagesUpTo, List.range_succ, List.flatMap_append, ← pagesUpTo, ih, List.flatMap_singleton, hpage, Nat.succ_mul]
    conv_rhs => rw [← List.take_append_drop (n * size) (items.take (n * size + size))]
    rw [List.take_take, min_eq_left (Nat.le_add_right _ _)]

/-- The pages have room for all items. -/
theorem length_le_pages (items : List α) (page pageSize : Int) :
    (items.length : Int) ≤ (paginate items ⟨page, pageSize⟩).totalPages * min 100 (max 1 pageSize) ∧
      1 ≤ (paginate items ⟨page, pageSize⟩).totalPages := by
  obtain ⟨size, hsize⟩ : ∃ size, size = min 100 (max 1 pageSize) := ⟨_, rfl⟩
  have hpos : 0 < size := by omega
  have hroom : (items.length : Int) + size - 1 < ((items.length + size - 1) / size + 1) * size :=
    Int.lt_ediv_add_one_mul_self _ hpos
  have hnonneg : 0 ≤ ((items.length : Int) + size - 1) / size := Int.ediv_nonneg (by omega) hpos.le
  rw [Int.add_mul, Int.one_mul] at hroom
  simp only [paginate, ← hsize]
  split
  · rename_i hzero
    rw [hzero] at hroom
    omega
  · omega

/-- The first item of a page after the last one would be one too many. -/
theorem items_beyond (items : List α) {page pageSize : Int}
    (h : (paginate items ⟨page, pageSize⟩).totalPages < page) : (paginate items ⟨page, pageSize⟩).items = [] := by
  obtain ⟨hroom, hpos⟩ := length_le_pages items page pageSize
  obtain ⟨size, hsize⟩ : ∃ size, size = min 100 (max 1 pageSize) := ⟨_, rfl⟩
  rw [← hsize] at hroom
  have hstart : (items.length : Int) ≤ (max 1 page - 1) * size := by
    refine hroom.trans (Int.mul_le_mul_of_nonneg_right ?_ ?_) <;> omega
  simp only [paginate, slice, ← hsize]
  refine List.drop_eq_nil_of_le ((List.length_take_le' _ _).trans ?_)
  omega

end

/-- The pages are the runs that pass the filter, each once, the last started first, and the others in the order of the
store; there is nothing after the last page. -/
structure PagesPartition (runs : List JobRun) (search : PageRequest → PageResult JobRun) (pageSize : Int)
    (totalPages : Nat) : Prop where
  total : ∀ page, (search ⟨page, pageSize⟩).totalPages = totalPages
  once : (pagesUpTo search pageSize totalPages).Perm runs
  sorted : (pagesUpTo search pageSize totalPages).Pairwise fun a b => Js.before a.startedAt b.startedAt = false
  ties : ∀ a b, [a, b].Sublist runs → a.startedAt = b.startedAt →
    [a, b].Sublist (pagesUpTo search pageSize totalPages)
  beyond : ∀ page > (totalPages : Int), (search ⟨page, pageSize⟩).items = []

/-- `localeCompare` puts these texts in the order of their code units. -/
def ComparesCodeUnits (localeCompare : String → String → Int) (texts : List String) : Prop :=
  ∀ a ∈ texts, ∀ b ∈ texts, localeCompare a b ≤ 0 ↔ Js.before b a = false

section
variable {localeCompare : String → String → Int} {runs : List JobRun}

/-- Later starts come first. -/
theorem sortRuns_eq (hlocale : ComparesCodeUnits localeCompare (runs.map (·.startedAt))) :
    sortRuns localeCompare runs .startedAt true =
      runs.insertionSort fun a b => Js.before a.startedAt b.startedAt = false := by
  have hsort := List.map_insertionSort (fun a b : JobRun => localeCompare b.startedAt a.startedAt ≤ 0)
    (s := fun a b : JobRun => Js.before a.startedAt b.startedAt = false) id runs fun a ha b hb =>
      hlocale _ (List.mem_map_of_mem hb) _ (List.mem_map_of_mem ha)
  rw [List.map_id, List.map_id] at hsort
  exact hsort

theorem pairwise_sortRuns (hlocale : ComparesCodeUnits localeCompare (runs.map (·.startedAt))) :
    (sortRuns localeCompare runs .startedAt true).Pairwise fun a b => Js.before a.startedAt b.startedAt = false := by
  let r : JobRun → JobRun → Prop := fun a b => Js.before a.startedAt b.startedAt = false
  have : Std.Total r := ⟨fun a b => Js.not_before_total a.startedAt b.startedAt⟩
  have : IsTrans JobRun r := ⟨fun _ _ _ => Js.not_before_trans⟩
  rw [sortRuns_eq hlocale]
  exact List.pairwise_insertionSort r _

/-- Runs that started at the same time stay in their order. -/
theorem sublist_sortRuns (hlocale : ComparesCodeUnits localeCompare (runs.map (·.startedAt))) {a b : JobRun}
    (hab : [a, b].Sublist runs) (h : a.startedAt = b.startedAt) :
    [a, b].Sublist (sortRuns localeCompare runs .startedAt true) := by
  rw [sortRuns_eq hlocale]
  refine List.pair_sublist_insertionSort ?_ hab
  rw [h]
  exact (Js.not_before_total _ _).elim id id

end

/-- **Pages partition the result** of every search, whatever the store holds and whatever size is asked for. -/
theorem pages_partition {localeCompare : String → String → Int} {s : Stores} (jobId : JobId) (filter : RunFilter)
    (pageSize : Int) (hlocale : ComparesCodeUnits localeCompare (s.runs.values.map (·.startedAt))) :
    ∃ totalPages, PagesPartition (filterRuns (s.listByJob jobId) filter)
      (RunQueryService.search localeCompare s jobId filter) pageSize totalPages := by
  obtain ⟨runs, hruns⟩ : ∃ runs, runs = filterRuns (s.listByJob jobId) filter := ⟨_, rfl⟩
  have hsub : runs.Sublist s.runs.values := by
    rw [hruns]
    exact List.filter_sublist.trans List.filter_sublist
  have hlocale' : ComparesCodeUnits localeCompare (runs.map (·.startedAt)) := fun a ha b hb =>
    hlocale a ((hsub.map _).subset ha) b ((hsub.map _).subset hb)
  obtain ⟨sorted, hsorted⟩ : ∃ sorted, sorted = sortRuns localeCompare runs .startedAt true := ⟨_, rfl⟩
  have hsearch : RunQueryService.search localeCompare s jobId filter = paginate sorted := by
    funext page
    rw [RunQueryService.search, ← hruns, ← hsorted]
  obtain ⟨hroom, hpos⟩ := length_le_pages sorted 1 pageSize
  obtain ⟨n, hn⟩ := Int.eq_ofNat_of_zero_le (Int.le_trans (by decide) hpos)
  have hpages : pagesUpTo (paginate sorted) pageSize n = sorted := by
    obtain ⟨size, hsize⟩ : ∃ size : Nat, min 100 (max 1 pageSize) = size := Int.eq_ofNat_of_zero_le (by omega)
    rw [pagesUpTo_paginate, hsize, Int.toNat_natCast]
    rw [hn, hsize] at hroom
    exact List.take_of_length_le (by exact_mod_cast hroom)
  have htotal (page : Int) : (paginate sorted ⟨page, pageSize⟩).totalPages = n := hn
  rw [← hruns, hsearch]
  refine ⟨n, htotal, ?_, ?_, fun a b hab h => ?_, fun page hpage => ?_⟩
  · rw [hpages, hsorted]
    exact List.perm_insertionSort _ _
  · rw [hpages, hsorted]
    exact pairwise_sortRuns hlocale'
  · rw [hpages, hsorted]
    exact sublist_sortRuns hlocale' hab h
  · exact items_beyond sorted (htotal page ▸ hpage)

/-- A comparison by code units. -/
def compareCodeUnits (a b : String) : Int := if Js.before a b then -1 else if Js.before b a then 1 else 0

theorem compareCodeUnits_spec (texts : List String) : ComparesCodeUnits compareCodeUnits texts := by
  intro a _ b _
  have htotal := Js.not_before_total a b
  unfold compareCodeUnits
  cases hab : Js.before a b <;> cases hba : Js.before b a <;> simp_all

/-- Three runs of a job, two of which started together. -/
def sampleRunStore : Stores :=
  let run (id startedAt : String) : JobRun := ⟨id, "job_1", "wf_1", .completed, startedAt, none, "manual", []⟩
  ((Stores.empty.saveRun (run "run_1" "2026-01-01T00:00:00.000Z")).saveRun
    (run "run_2" "2026-01-02T00:00:00.000Z")).saveRun (run "run_3" "2026-01-01T00:00:00.000Z")

/-- Of a page size of 0 one is made, so there are three pages. -/
theorem pages_partition_sample :
    (pagesUpTo (RunQueryService.search compareCodeUnits sampleRunStore "job_1" ⟨none, none, none, none, none⟩) 0 3).map
        (·.id) = ["run_2", "run_1", "run_3"] ∧
      ∃ totalPages, PagesPartition (filterRuns (sampleRunStore.listByJob "job_1") ⟨none, none, none, none, none⟩)
        (RunQueryService.search compareCodeUnits sampleRunStore "job_1" ⟨none, none, none, none, none⟩) 0 totalPages :=
  ⟨by decide +kernel, pages_partition "job_1" _ 0 (compareCodeUnits_spec _)⟩

end Jobflow
