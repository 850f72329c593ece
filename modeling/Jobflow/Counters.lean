import Jobflow.Lib.StableSort
import Jobflow.MetricsRegistry

/-!
# Counters and their labels (src/metrics/registry.ts)

`increment` files a counter under the key of its name and labels, and `snapshot` reads name and labels off the key
again. The separators are not escaped, so the labels survive only if they have none of them, and only if `localeCompare`
finds one order for them (`labels_survive_iff`).
-/

namespace Jobflow

open Js (Number)

namespace MetricsRegistry

/-- The registry after some calls. -/
def counted (localeCompare : Collation) (calls : List Increment) : MetricsRegistry :=
  calls.foldl (increment localeCompare) .empty

end MetricsRegistry

/-! ## What the snapshot is to say -/

/-- The name and the labels, in whatever order they are listed, are those of the call. -/
def Increment.OfSeries (c : Increment) (name : String) (labels : Labels) : Prop :=
  c.name = name ∧ c.labels.entries.Perm labels.entries

instance Increment.decidableOfSeries (c : Increment) (name : String) (labels : Labels) :
    Decidable (c.OfSeries name labels) :=
  inferInstanceAs (Decidable (_ ∧ _))

/-- What the calls of a series have added, one after the other. -/
def sumOf (calls : List Increment) (name : String) (labels : Labels) : Number :=
  (calls.filter fun c => c.OfSeries name labels).foldl (fun sum c => sum.add c.delta) (.finite 0)

/-- The snapshot has one counter for each name and labels that were used, and the sum of what was added. -/
structure LabelsSurvive (calls : List Increment) (counters : List CounterMetric) : Prop where
  once : ∀ c ∈ calls, counters.countP (fun e => c.OfSeries e.name e.labels) = 1
  sum : ∀ c ∈ calls, ∀ e ∈ counters, c.OfSeries e.name e.labels → e.value = sumOf calls c.name c.labels
  used : ∀ e ∈ counters, ∃ c ∈ calls, c.OfSeries e.name e.labels

/-- Labels whose names `localeCompare` ranks the same are listed in one order. -/
def Labels.SameTies (localeCompare : Collation) (labels labels' : Labels) : Prop :=
  ∀ tied, labels.entriesInOrder.filter (fun e => localeCompare tied e.1 ≤ 0 ∧ localeCompare e.1 tied ≤ 0) =
    labels'.entriesInOrder.filter fun e => localeCompare tied e.1 ≤ 0 ∧ localeCompare e.1 tied ≤ 0

/-- Names and labels that the encoding tells apart. -/
structure ToldApart (localeCompare : Collation) (calls : List Increment) : Prop where
  plain : ∀ c ∈ calls, '|' ∉ c.name.toList ∧ PlainLabels c.labels
  ties : ∀ c ∈ calls, ∀ c' ∈ calls, c.OfSeries c'.name c'.labels → c.labels.SameTies localeCompare c'.labels

/-- `localeCompare` is a consistent comparison. -/
structure Consistent (localeCompare : Collation) : Prop where
  total : ∀ a b, localeCompare a b ≤ 0 ∨ localeCompare b a ≤ 0
  trans : ∀ a b c, localeCompare a b ≤ 0 → localeCompare b c ≤ 0 → localeCompare a c ≤ 0

section
variable {localeCompare : Collation} {calls : List Increment} {c c' : Increment} {labels labels' : Labels}
  {key : String}

/-- Sorting depends on the labels, and on how those that are ranked the same are listed. -/
theorem Labels.sorted_eq_iff (hlocale : Consistent localeCompare) :
    labels.sorted localeCompare = labels'.sorted localeCompare ↔ labels.SameTies localeCompare labels' := by
  let r : String × String → String × String → Prop := fun a b => localeCompare a.1 b.1 ≤ 0
  have : Std.Total r := ⟨fun a b => hlocale.total a.1 b.1⟩
  have : IsTrans (String × String) r := ⟨fun a b c => hlocale.trans a.1 b.1 c.1⟩
  exact (StableSort.insertionSort_eq_iff (r := r)).trans ⟨fun h tied => h (tied, ""), fun h tied => h tied.1⟩

namespace MetricsRegistry

theorem counter_counted (calls : List Increment) (key : String) : (counted localeCompare calls).counters.get key =
    if calls.filter (fun c => c.key localeCompare = key) = [] then none
    else some ((calls.filter fun c => c.key localeCompare = key).foldl (fun sum c => sum.add c.delta) (.finite 0)) := by
  have hfold : (counted localeCompare calls).counters = calls.foldl (fun m c =>
      m.set (c.key localeCompare) (((m.get (c.key localeCompare)).getD (.finite 0)).add c.delta)) .empty := by
    refine (List.foldl_hom (fun m : MetricsRegistry => m.counters) fun m c => ?_).symm
    rfl
  rw [hfold]
  exact InsertionMap.get_foldl_update (·.key localeCompare) (.finite 0) (fun (sum : Number) c => sum.add c.delta) calls
    key

theorem mem_keys_counted :
    key ∈ (counted localeCompare calls).counters.keys ↔ ∃ c ∈ calls, c.key localeCompare = key := by
  have hget := @counter_counted localeCompare calls key
  have hnone : calls.filter (fun c => c.key localeCompare = key) = [] ↔ ¬ ∃ c ∈ calls, c.key localeCompare = key := by
    simp [List.filter_eq_nil_iff]
  rw [← not_iff_not, ← hnone, InsertionMap.keys, ← InsertionMap.lookupIn_eq_none]
  change (counted localeCompare calls).counters.get key = none ↔ _
  rw [hget]
  split <;> simp_all

/-- An entry of the snapshot is that of the key of a call. -/
theorem mem_counterMetrics {e : CounterMetric} : e ∈ (counted localeCompare calls).counterMetrics ↔ ∃ c ∈ calls,
    e = ⟨(MetricsRegistry.parseKey (c.key localeCompare)).1, (MetricsRegistry.parseKey (c.key localeCompare)).2,
      (calls.filter fun c' => c'.key localeCompare = c.key localeCompare).foldl (fun sum c => sum.add c.delta)
        (.finite 0)⟩ := by
  have hvalue (c : Increment) (hc : c ∈ calls) : (counted localeCompare calls).counters.get (c.key localeCompare) =
      some ((calls.filter fun c' => c'.key localeCompare = c.key localeCompare).foldl (fun sum c => sum.add c.delta)
        (.finite 0)) := by
    rw [counter_counted, if_neg]
    exact List.ne_nil_of_mem (List.mem_filter.2 ⟨hc, decide_eq_true rfl⟩)
  rw [counterMetrics, List.mem_map]
  constructor
  · rintro ⟨⟨key, value⟩, hmem, rfl⟩
    obtain ⟨c, hc, rfl⟩ := mem_keys_counted.1 (List.mem_map_of_mem hmem)
    have hget := InsertionMap.get_eq_some.2 hmem
    rw [hvalue c hc, Option.some.injEq] at hget
    exact ⟨c, hc, by rw [hget]⟩
  · rintro ⟨c, hc, rfl⟩
    exact ⟨_, InsertionMap.get_eq_some.1 (hvalue c hc), rfl⟩

end MetricsRegistry

/-- A plain call's key is read as its series. -/
theorem Increment.ofSeries_parseKey (hplain : '|' ∉ c.name.toList ∧ PlainLabels c.labels) :
    c.OfSeries (MetricsRegistry.parseKey (c.key localeCompare)).1
      (MetricsRegistry.parseKey (c.key localeCompare)).2 := by
  rw [key, MetricsRegistry.parseKey_seriesKey hplain.1 hplain.2]
  refine ⟨rfl, ?_⟩
  rw [Labels.entries_ofList_sorted]
  exact c.labels.perm_sorted.symm

/-- Plain calls have the same key if they have the same name and the same labels in the order of the key. -/
theorem Increment.key_eq_iff (hplain : '|' ∉ c.name.toList ∧ PlainLabels c.labels)
    (hplain' : '|' ∉ c'.name.toList ∧ PlainLabels c'.labels) : c.key localeCompare = c'.key localeCompare ↔
      c.name = c'.name ∧ c.labels.sorted localeCompare = c'.labels.sorted localeCompare := by
  constructor
  · intro hkey
    have hparse := congrArg MetricsRegistry.parseKey hkey
    rw [key, key, MetricsRegistry.parseKey_seriesKey hplain.1 hplain.2,
      MetricsRegistry.parseKey_seriesKey hplain'.1 hplain'.2] at hparse
    obtain ⟨hname, hlabels⟩ := Prod.mk.inj hparse
    refine ⟨hname, ?_⟩
    rw [← Labels.entries_ofList_sorted, hlabels, Labels.entries_ofList_sorted]
  · rintro ⟨hname, hsorted⟩
    rw [key, key, hname]
    exact MetricsRegistry.seriesKey_congr hsorted

/-- Calls that are told apart have the same key if they are of the same series. -/
theorem ToldApart.key_eq_iff (h : ToldApart localeCompare calls) (hlocale : Consistent localeCompare) (hc : c ∈ calls)
    (hc' : c' ∈ calls) : c.key localeCompare = c'.key localeCompare ↔ c.OfSeries c'.name c'.labels := by
  rw [Increment.key_eq_iff (h.plain c hc) (h.plain c' hc'), Labels.sorted_eq_iff hlocale]
  constructor
  · rintro ⟨hname, hties⟩
    refine ⟨hname, ?_⟩
    rw [← Labels.sorted_eq_iff hlocale] at hties
    exact c.labels.perm_sorted.symm.trans (hties ▸ c'.labels.perm_sorted)
  · exact fun hseries => ⟨hseries.1, h.ties c hc c' hc' hseries⟩

theorem Increment.OfSeries.trans {name : String} (h : c.OfSeries c'.name c'.labels) (h' : c'.OfSeries name labels) :
    c.OfSeries name labels := ⟨h.1.trans h'.1, h.2.trans h'.2⟩

theorem Increment.OfSeries.symm (h : c.OfSeries c'.name c'.labels) : c'.OfSeries c.name c.labels :=
  ⟨h.1.symm, h.2.symm⟩

/-- What is read off the key of a call is of the series of another one just if the two have the same key. -/
theorem ToldApart.ofSeries_parseKey_iff (h : ToldApart localeCompare calls) (hlocale : Consistent localeCompare)
    (hc : c ∈ calls) (hc' : c' ∈ calls) : c.OfSeries (MetricsRegistry.parseKey (c'.key localeCompare)).1
      (MetricsRegistry.parseKey (c'.key localeCompare)).2 ↔ c'.key localeCompare = c.key localeCompare := by
  have hread := @Increment.ofSeries_parseKey localeCompare c' (h.plain c' hc')
  rw [eq_comm, h.key_eq_iff hlocale hc hc']
  exact ⟨fun hseries => ⟨hseries.1.trans hread.1.symm, hseries.2.trans hread.2.symm⟩,
    fun hseries => hseries.trans hread⟩

theorem ToldApart.survive (h : ToldApart localeCompare calls) (hlocale : Consistent localeCompare) :
    LabelsSurvive calls (MetricsRegistry.counted localeCompare calls).counterMetrics := by
  refine ⟨fun c hc => ?_, fun c hc e he hseries => ?_, fun e he => ?_⟩
  · have hkey : c.key localeCompare ∈ (MetricsRegistry.counted localeCompare calls).counters.keys :=
      MetricsRegistry.mem_keys_counted.2 ⟨c, hc, rfl⟩
    rw [MetricsRegistry.counterMetrics, List.countP_map, ← InsertionMap.countP_entries hkey]
    refine List.countP_congr fun e he => ?_
    obtain ⟨c', hc', hkey'⟩ := MetricsRegistry.mem_keys_counted.1 (List.mem_map_of_mem he)
    simp only [Function.comp_apply, decide_eq_true_eq, ← hkey']
    exact h.ofSeries_parseKey_iff hlocale hc hc'
  · obtain ⟨c', hc', rfl⟩ := MetricsRegistry.mem_counterMetrics.1 he
    have hkey := (h.ofSeries_parseKey_iff hlocale hc hc').1 hseries
    have hsame : calls.filter (fun c₁ => c₁.key localeCompare = c'.key localeCompare) =
        calls.filter fun c₁ => c₁.OfSeries c.name c.labels := by
      refine List.filter_congr fun c₁ hc₁ => ?_
      rw [hkey, decide_eq_decide]
      exact h.key_eq_iff hlocale hc₁ hc
    dsimp only
    rw [hsame, sumOf]
  · obtain ⟨c, hc, rfl⟩ := MetricsRegistry.mem_counterMetrics.1 he
    exact ⟨c, hc, Increment.ofSeries_parseKey (h.plain c hc)⟩

/-- An entry that has the labels of a call is read off a key, so they are plain. -/
theorem LabelsSurvive.plain (h : LabelsSurvive calls (MetricsRegistry.counted localeCompare calls).counterMetrics)
    (hc : c ∈ calls) : '|' ∉ c.name.toList ∧ PlainLabels c.labels := by
  have hpos := h.once c hc ▸ Nat.one_pos
  obtain ⟨e, he, hseries⟩ := List.countP_pos_iff.1 hpos
  obtain ⟨hname, hlabels⟩ := of_decide_eq_true hseries
  obtain ⟨c', -, rfl⟩ := MetricsRegistry.mem_counterMetrics.1 he
  obtain ⟨hbar, hplain⟩ := MetricsRegistry.parseKey_plain (c'.key localeCompare)
  exact ⟨hname ▸ hbar, fun e he => hplain e (hlabels.subset he)⟩

/-- Two calls of one series with different keys would have two entries. -/
theorem LabelsSurvive.key_eq (h : LabelsSurvive calls (MetricsRegistry.counted localeCompare calls).counterMetrics)
    (hc : c ∈ calls) (hc' : c' ∈ calls) (hseries : c.OfSeries c'.name c'.labels) :
    c.key localeCompare = c'.key localeCompare := by
  have hread := @Increment.ofSeries_parseKey localeCompare c (h.plain hc)
  have hread' := hseries.trans (@Increment.ofSeries_parseKey localeCompare c' (h.plain hc'))
  have honce := h.once c hc
  rw [MetricsRegistry.counterMetrics, List.countP_map, List.countP_eq_length_filter] at honce
  obtain ⟨e, he⟩ := List.length_eq_one_iff.1 honce
  have honly : ∀ key ∈ (MetricsRegistry.counted localeCompare calls).counters.keys,
      c.OfSeries (MetricsRegistry.parseKey key).1 (MetricsRegistry.parseKey key).2 → key = e.1 := by
    intro key hkey hof
    obtain ⟨e', he', rfl⟩ := List.mem_map.1 hkey
    have hmem : e' ∈ [e] := he ▸ List.mem_filter.2 ⟨he', decide_eq_true hof⟩
    exact congrArg Prod.fst (List.mem_singleton.1 hmem)
  rw [honly _ (MetricsRegistry.mem_keys_counted.2 ⟨c, hc, rfl⟩) hread,
    honly _ (MetricsRegistry.mem_keys_counted.2 ⟨c', hc', rfl⟩) hread']

end

/-- **When labels survive the encoding**: after any calls of `increment` the snapshot has one counter for each name and
labels, with what was added to them, if and only if the calls are told apart. -/
theorem labels_survive_iff {localeCompare : Collation} (hlocale : Consistent localeCompare) (calls : List Increment) :
    LabelsSurvive calls (MetricsRegistry.counted localeCompare calls).counterMetrics ↔
      ToldApart localeCompare calls := by
  refine ⟨fun h => ⟨fun c hc => h.plain hc, fun c hc c' hc' hseries => ?_⟩, fun h => h.survive hlocale⟩
  rw [← Labels.sorted_eq_iff hlocale]
  exact ((Increment.key_eq_iff (h.plain hc) (h.plain hc')).1 (h.key_eq hc hc' hseries)).2

theorem byCharacters_consistent : Consistent byCharacters :=
  ⟨(byCharacters_orders .empty).total, (byCharacters_orders .empty).trans⟩

/-- A run of this job has started. -/
def sampleIncrement (jobId : String) : Increment where
  name := "jobflow_runs_started_total"
  labels := ⟨[("job_id", jobId)], by simp⟩
  delta := .finite 1

theorem labels_survive_sample :
    let calls := [sampleIncrement "nightly", sampleIncrement "hourly", sampleIncrement "nightly"]
    LabelsSurvive calls (MetricsRegistry.counted byCharacters calls).counterMetrics := by
  have hcalls : ∀ c ∈ [sampleIncrement "nightly", sampleIncrement "hourly", sampleIncrement "nightly"],
      ∃ jobId, c = sampleIncrement jobId := by
    simp
  refine (labels_survive_iff byCharacters_consistent _).2 ⟨by decide, fun c hc c' hc' hseries => ?_⟩
  obtain ⟨jobId, rfl⟩ := hcalls c hc
  obtain ⟨jobId', rfl⟩ := hcalls c' hc'
  have hsame : [("job_id", jobId)] = [("job_id", jobId')] := List.perm_singleton.1 hseries.2
  obtain rfl : jobId = jobId' := by simpa using hsame
  exact fun _ => rfl

/-- The job `nightly,eu` has no counter. -/
theorem comma_is_lost : ¬ ∀ (localeCompare : Collation) (calls : List Increment), Consistent localeCompare →
    LabelsSurvive calls (MetricsRegistry.counted localeCompare calls).counterMetrics := by
  intro h
  have honce := (h byCharacters [sampleIncrement "nightly,eu"] byCharacters_consistent).once _ List.mem_cons_self
  exact absurd honce (by decide +kernel)

end Jobflow
