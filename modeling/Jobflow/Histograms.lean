import Mathlib.Data.Rat.Floor
import Jobflow.Js.Order
import Jobflow.MetricsRegistry

/-!
# Histograms and their export (src/metrics/registry.ts, src/metrics/prometheus.ts)

The buckets of the registry count all values up to their bounds, and `formatPrometheus` adds them up once more. Where
both do something, the exported numbers are too large (`cumulative_once_iff`).
-/

namespace Jobflow

open Js (Number)

/-! ## `formatPrometheus` -/

/-- `escapeLabel` (prometheus.ts:36-38). The backslashes go first, so none is escaped twice. -/
def escapeLabel (v : String) : String :=
  String.ofList (v.toList.flatMap fun c =>
    if c = '\\' then ['\\', '\\'] else if c = '"' then ['\\', '"'] else if c = '\n' then ['\\', 'n'] else [c])

/-- `formatLabels` (prometheus.ts:29-34). -/
def formatLabels (labels : Labels) : String :=
  if labels.entriesInOrder = [] then ""
  else "\x7b" ++ ",".intercalate (labels.entriesInOrder.map fun e => e.1 ++ "=\"" ++ escapeLabel e.2 ++ "\"") ++ "\x7d"

/-- The lines of the buckets, with what the loop has added up so far. -/
def bucketLines (h : HistogramMetric) : Nat → List (Nat × Nat) → List String
  | _, [] => []
  | cumulative, (le, count) :: rest =>
    (h.name ++ "_bucket" ++ formatLabels (h.labels.set "le" (toString le)) ++ " " ++ toString (cumulative + count)) ::
      bucketLines h (cumulative + count) rest

def histogramLines (h : HistogramMetric) : List String :=
  bucketLines h 0 h.buckets ++
    [h.name ++ "_sum" ++ formatLabels h.labels ++ " " ++ h.sum.toText,
      h.name ++ "_count" ++ formatLabels h.labels ++ " " ++ toString h.count]

def counterLines (c : CounterMetric) : List String :=
  ["# TYPE " ++ c.name ++ " counter", c.name ++ formatLabels c.labels ++ " " ++ c.value.toText]

/-- `lines.join("\n") + "\n"` -/
def joinLines (lines : List String) : String := "\n".intercalate lines ++ "\n"

/-- `formatPrometheus` (prometheus.ts:3-27). -/
def formatPrometheus (m : MetricsRegistry) : String :=
  joinLines (m.counterMetrics.flatMap counterLines ++ m.histogramMetrics.flatMap histogramLines)

/-! ## Samples -/

/-- A line of a histogram. -/
inductive Sample where
  | bucket (name : String) (labels : Labels) (le value : Nat)
  | sum (name : String) (labels : Labels) (value : Number)
  | count (name : String) (labels : Labels) (value : Nat)

def Sample.text : Sample → String
  | .bucket name labels le value =>
    name ++ "_bucket" ++ formatLabels (labels.set "le" (toString le)) ++ " " ++ toString value
  | .sum name labels value => name ++ "_sum" ++ formatLabels labels ++ " " ++ value.toText
  | .count name labels value => name ++ "_count" ++ formatLabels labels ++ " " ++ toString value

/-- The partial sums of the counts, each with its bound. -/
def addedUp : Nat → List (Nat × Nat) → List (Nat × Nat)
  | _, [] => []
  | cumulative, (le, count) :: rest => (le, cumulative + count) :: addedUp (cumulative + count) rest

def HistogramMetric.samples (h : HistogramMetric) : List Sample :=
  (addedUp 0 h.buckets).map (fun b => .bucket h.name h.labels b.1 b.2) ++
    [.sum h.name h.labels h.sum, .count h.name h.labels h.count]

def MetricsRegistry.samples (m : MetricsRegistry) : List Sample := m.histogramMetrics.flatMap (·.samples)

theorem bucketLines_eq (h : HistogramMetric) : ∀ (buckets : List (Nat × Nat)) (cumulative : Nat),
    bucketLines h cumulative buckets =
      ((addedUp cumulative buckets).map fun b => .bucket h.name h.labels b.1 b.2).map Sample.text
  | [], _ => rfl
  | (_, count) :: buckets, cumulative =>
    congrArg₂ List.cons rfl (bucketLines_eq h buckets (cumulative + count))

theorem histogramLines_eq (h : HistogramMetric) : histogramLines h = h.samples.map Sample.text := by
  rw [histogramLines, HistogramMetric.samples, List.map_append, bucketLines_eq]
  rfl

/-- The text is that of the samples. -/
theorem formatPrometheus_eq (m : MetricsRegistry) :
    formatPrometheus m = joinLines (m.counterMetrics.flatMap counterLines ++ m.samples.map Sample.text) := by
  have hlines : histogramLines = fun h => h.samples.map Sample.text := funext histogramLines_eq
  rw [formatPrometheus, MetricsRegistry.samples, List.map_flatMap, hlines]

/-! ## What the samples are to say -/

/-- The observation is one of the series. -/
def Observation.OfSeries (o : Observation) (name : String) (labels : Labels) : Prop :=
  o.name = name ∧ o.labels.entries.Perm labels.entries

instance Observation.decidableOfSeries (o : Observation) (name : String) (labels : Labels) :
    Decidable (o.OfSeries name labels) :=
  inferInstanceAs (Decidable (_ ∧ _))

/-- The number of observations of a series. -/
def countOf (observations : List Observation) (name : String) (labels : Labels) : Nat :=
  observations.countP fun o => o.OfSeries name labels

/-- The number of those with a value up to `le`. -/
def countUpTo (observations : List Observation) (name : String) (labels : Labels) (le : Nat) : Nat :=
  observations.countP fun o => o.OfSeries name labels && o.value.le (.finite le)

/-- The buckets of the exported text are cumulative. -/
structure CumulativeOnce (observations : List Observation) (text : String) (samples : List Sample) : Prop where
  exported : text = joinLines (samples.map Sample.text)
  complete : ∀ o ∈ observations, ∀ le ∈ bounds, ∃ labels value,
    .bucket o.name labels le value ∈ samples ∧ o.labels.entries.Perm labels.entries
  buckets : ∀ name labels le value, .bucket name labels le value ∈ samples →
    value = countUpTo observations name labels le
  nondecreasing : ∀ name labels labels' le le' value value', .bucket name labels le value ∈ samples →
    .bucket name labels' le' value' ∈ samples → labels.entries.Perm labels'.entries → le ≤ le' → value ≤ value'
  belowCount : ∀ name labels labels' le value value', .bucket name labels le value ∈ samples →
    .count name labels' value' ∈ samples → labels.entries.Perm labels'.entries → value ≤ value'

/-- The registry after some observations. -/
def MetricsRegistry.observed (localeCompare : Collation) (observations : List Observation) : MetricsRegistry :=
  observations.foldl (observe localeCompare) .empty

/-- The values observed under a key. -/
def valuesOf (localeCompare : Collation) (observations : List Observation) (key : String) : List Number :=
  (observations.filter fun o => o.key localeCompare = key).map (·.value)

/-! ## What the registry holds -/

theorem Histogram.foldl_add_count (values : List Number) : (values.foldl add .new).count = values.length := by
  induction values using List.reverseRecOn with
  | nil => rfl
  | append_singleton values value ih => simp [add, ih]

/-- A bucket counts every value up to its bound, not only those above the bound before. -/
theorem Histogram.foldl_add_buckets (values : List Number) :
    (values.foldl add .new).buckets = bounds.map fun (b : Nat) => values.countP (·.le (.finite b)) := by
  induction values using List.reverseRecOn with
  | nil => rfl
  | append_singleton values value ih =>
    rw [List.foldl_append, List.foldl_cons, List.foldl_nil, add]
    dsimp only
    rw [ih, List.zipWith_map_right, List.zipWith_self]
    refine List.map_congr_left fun b _ => ?_
    rw [List.countP_append, List.countP_singleton]
    split <;> rfl

section
variable {localeCompare : Collation} {observations : List Observation} {o o' : Observation} {key name : String}
  {labels : Labels} {a b le value : Nat}

/-- A key has the histogram of the values observed under it. -/
theorem MetricsRegistry.histogram_observed (localeCompare : Collation) (observations : List Observation)
    (key : String) :
    (observed localeCompare observations).histograms.get key =
      if valuesOf localeCompare observations key = [] then none
      else some ((valuesOf localeCompare observations key).foldl .add .new) := by
  have hfold : (observed localeCompare observations).histograms = observations.foldl (fun m o =>
      m.set (o.key localeCompare) (((m.get (o.key localeCompare)).getD .new).add o.value)) .empty := by
    refine (List.foldl_hom (fun m : MetricsRegistry => m.histograms) fun m o => ?_).symm
    rfl
  have hvalues : (valuesOf localeCompare observations key).foldl Histogram.add .new =
      (observations.filter fun o => o.key localeCompare = key).foldl (fun (h : Histogram) o => h.add o.value) .new := by
    rw [valuesOf, List.foldl_map]
  rw [hfold, hvalues]
  refine (InsertionMap.get_foldl_update (·.key localeCompare) Histogram.new (fun h o => h.add o.value)
    observations key).trans ?_
  simp only [valuesOf, List.map_eq_nil_iff]

/-- Observations count no counter. -/
theorem MetricsRegistry.counterMetrics_observed (observations : List Observation) :
    (observed localeCompare observations).counterMetrics = [] := by
  have hcounters : (observed localeCompare observations).counters = .empty := by
    induction observations using List.reverseRecOn with
    | nil => rfl
    | append_singleton observations o ih =>
      rw [observed, List.foldl_append]
      exact ih
  rw [counterMetrics, hcounters]
  rfl

theorem valuesOf_ne_nil : valuesOf localeCompare observations key ≠ [] ↔
    ∃ o ∈ observations, o.key localeCompare = key := by
  simp [valuesOf, List.filter_eq_nil_iff]

/-- Observations that the keys preserve have the same key if they are of the same series. -/
theorem Observation.key_eq_iff (h : KeyPreserves localeCompare o.name o.labels)
    (h' : KeyPreserves localeCompare o'.name o'.labels) :
    o'.key localeCompare = o.key localeCompare ↔ o'.OfSeries o.name o.labels := by
  rw [key, key]
  constructor
  · intro hkey
    refine ⟨?_, ?_⟩
    · rw [← h'.sameName, hkey, h.sameName]
    · exact h'.sameLabels.symm.trans (hkey ▸ h.sameLabels)
  · rintro ⟨hname, hlabels⟩
    rw [hname]
    exact h.sameKey _ hlabels

/-! ## What the samples say -/

/-- The labels under which a series is exported. -/
def Observation.exportedLabels (localeCompare : Collation) (o : Observation) : Labels :=
  (MetricsRegistry.parseKey (o.key localeCompare)).2

/-- The histogram of the series of an observation. -/
def metricOf (localeCompare : Collation) (observations : List Observation) (o : Observation) : HistogramMetric :=
  MetricsRegistry.metric (o.key localeCompare)
    ((valuesOf localeCompare observations (o.key localeCompare)).foldl .add .new)

theorem MetricsRegistry.mem_samples {s : Sample} : s ∈ (observed localeCompare observations).samples ↔
    ∃ o ∈ observations, s ∈ (metricOf localeCompare observations o).samples := by
  simp only [samples, histogramMetrics, List.mem_flatMap, List.mem_map]
  constructor
  · rintro ⟨_, ⟨⟨key, h⟩, hmem, rfl⟩, hs⟩
    have hget := histogram_observed localeCompare observations key
    rw [InsertionMap.get_eq_some.2 hmem] at hget
    split at hget
    · cases hget
    · rename_i hvalues
      obtain ⟨o, ho, rfl⟩ := valuesOf_ne_nil.1 hvalues
      exact ⟨o, ho, by rwa [metricOf, ← Option.some.inj hget]⟩
  · rintro ⟨o, ho, hs⟩
    have hget := histogram_observed localeCompare observations (o.key localeCompare)
    rw [if_neg (valuesOf_ne_nil.2 ⟨o, ho, rfl⟩)] at hget
    exact ⟨_, ⟨⟨_, _⟩, InsertionMap.get_eq_some.1 hget, rfl⟩, hs⟩

/-- The histogram of a series counts its observations. -/
theorem metricOf_spec (hall : ∀ o ∈ observations, KeyPreserves localeCompare o.name o.labels) (ho : o ∈ observations) :
    (metricOf localeCompare observations o).name = o.name ∧
      (metricOf localeCompare observations o).count =
        countOf observations o.name (o.exportedLabels localeCompare) ∧
      (metricOf localeCompare observations o).buckets =
        bounds.map fun b => (b, countUpTo observations o.name (o.exportedLabels localeCompare) b) := by
  have hseries : ∀ o' ∈ observations, (o'.key localeCompare = o.key localeCompare ↔
      o'.OfSeries o.name (o.exportedLabels localeCompare)) := by
    intro o' ho'
    rw [Observation.key_eq_iff (hall o ho) (hall o' ho')]
    have hlabels := (hall o ho).sameLabels
    exact and_congr_right fun _ => ⟨fun h => h.trans hlabels.symm, fun h => h.trans hlabels⟩
  refine ⟨(hall o ho).sameName, ?_, ?_⟩
  · rw [metricOf, MetricsRegistry.metric, Histogram.foldl_add_count, valuesOf, List.length_map,
      ← List.countP_eq_length_filter]
    refine List.countP_congr fun o' ho' => ?_
    simpa using hseries o' ho'
  · rw [metricOf, MetricsRegistry.metric, Histogram.foldl_add_buckets]
    dsimp only
    rw [List.zip_map_right, List.zip_eq_zipWith, List.zipWith_self, List.map_map]
    refine List.map_congr_left fun b _ => Prod.ext rfl ?_
    simp only [Function.comp_apply, Prod.map_snd, valuesOf, List.countP_map, List.countP_filter]
    refine List.countP_congr fun o' ho' => ?_
    simp only [Bool.and_eq_true, decide_eq_true_eq, hseries o' ho']
    exact and_comm

/-- The bucket samples of a series are its counts, added up. -/
theorem MetricsRegistry.bucket_mem_iff (hall : ∀ o ∈ observations, KeyPreserves localeCompare o.name o.labels) :
    .bucket name labels le value ∈ (observed localeCompare observations).samples ↔
      ∃ o ∈ observations, name = o.name ∧ labels = o.exportedLabels localeCompare ∧
        (le, value) ∈ addedUp 0 (bounds.map fun b => (b, countUpTo observations name labels b)) := by
  rw [mem_samples]
  refine exists_congr fun o => and_congr_right fun ho => ?_
  obtain ⟨hname, -, hbuckets⟩ := metricOf_spec hall ho
  have hlabels : (metricOf localeCompare observations o).labels = o.exportedLabels localeCompare := rfl
  rw [HistogramMetric.samples, hbuckets, hname, hlabels]
  simp only [List.mem_append, List.mem_map, List.mem_cons, List.not_mem_nil, reduceCtorEq, or_false, Prod.exists,
    Sample.bucket.injEq]
  constructor
  · rintro ⟨_, _, hmem, rfl, rfl, rfl, rfl⟩
    exact ⟨rfl, rfl, hmem⟩
  · rintro ⟨rfl, rfl, hmem⟩
    exact ⟨le, value, hmem, rfl, rfl, rfl, rfl⟩

theorem MetricsRegistry.count_mem (hall : ∀ o ∈ observations, KeyPreserves localeCompare o.name o.labels)
    (h : .count name labels value ∈ (observed localeCompare observations).samples) :
    value = countOf observations name labels := by
  obtain ⟨o, ho, h⟩ := mem_samples.1 h
  obtain ⟨hname, hcount, -⟩ := metricOf_spec hall ho
  have hlabels : (metricOf localeCompare observations o).labels = o.exportedLabels localeCompare := rfl
  rw [HistogramMetric.samples, hcount, hname, hlabels] at h
  simp only [List.mem_append, List.mem_map, List.mem_cons, List.not_mem_nil, reduceCtorEq, or_false, false_or,
    and_false, exists_false, Sample.count.injEq] at h
  obtain ⟨rfl, rfl, rfl⟩ := h
  rfl

/-! ## Added up once -/

theorem countUpTo_mono (hab : a ≤ b) : countUpTo observations name labels a ≤ countUpTo observations name labels b := by
  refine List.countP_mono_left fun o _ h => ?_
  rw [Bool.and_eq_true] at h ⊢
  exact ⟨h.1, Number.le_finite_trans h.2 (by exact_mod_cast hab)⟩

theorem countUpTo_le_countOf : countUpTo observations name labels le ≤ countOf observations name labels :=
  List.countP_mono_left fun _ _ h => (Bool.and_eq_true_iff.1 h).1

/-- The order of the labels does not matter. -/
theorem Observation.ofSeries_congr {labels' : Labels} (h : labels.entries.Perm labels'.entries) :
    o.OfSeries name labels ↔ o.OfSeries name labels' :=
  and_congr_right fun _ => ⟨fun h' => h'.trans h, fun h' => h'.trans h.symm⟩

theorem addedUp_bounds (c : Nat → Nat) : addedUp 0 (bounds.map fun b => (b, c b)) =
    [(10, c 10), (50, c 10 + c 50), (100, c 10 + c 50 + c 100), (500, c 10 + c 50 + c 100 + c 500),
      (1000, c 10 + c 50 + c 100 + c 500 + c 1000)] := by
  simp [bounds, addedUp]

theorem exists_addedUp (c : Nat → Nat) (h : le ∈ bounds) :
    ∃ value, (le, value) ∈ addedUp 0 (bounds.map fun b => (b, c b)) := by
  rw [addedUp_bounds]
  simp only [bounds, List.mem_cons, List.not_mem_nil, or_false] at h
  rcases h with rfl | rfl | rfl | rfl | rfl <;> simp

/-- Nothing is added twice if all but the last bucket are empty. -/
theorem addedUp_of_zero {c : Nat → Nat} (hmono : ∀ {a b}, a ≤ b → c a ≤ c b) (hzero : c 500 = 0)
    (h : (le, value) ∈ addedUp 0 (bounds.map fun b => (b, c b))) : value = c le := by
  have h100 : c 100 ≤ c 500 := hmono (by decide)
  have h50 : c 50 ≤ c 500 := hmono (by decide)
  have h10 : c 10 ≤ c 500 := hmono (by decide)
  rw [addedUp_bounds] at h
  simp only [List.mem_cons, Prod.mk.injEq, List.not_mem_nil, or_false] at h
  rcases h with ⟨rfl, rfl⟩ | ⟨rfl, rfl⟩ | ⟨rfl, rfl⟩ | ⟨rfl, rfl⟩ | ⟨rfl, rfl⟩ <;> omega

/-- **When the export is cumulative once**: the buckets in the text of `formatPrometheus` count the observations up to
their bounds if and only if no value has been observed that the last bucket but one counts. -/
theorem cumulative_once_iff (hall : ∀ o ∈ observations, KeyPreserves localeCompare o.name o.labels) :
    CumulativeOnce observations (formatPrometheus (MetricsRegistry.observed localeCompare observations))
        (MetricsRegistry.observed localeCompare observations).samples ↔
      ∀ o ∈ observations, o.value.le (.finite 500) = false := by
  constructor
  · intro h o ho
    refine Bool.eq_false_iff.2 fun hle => ?_
    let c := countUpTo observations o.name (o.exportedLabels localeCompare)
    have hadded : (1000, c 10 + c 50 + c 100 + c 500 + c 1000) ∈ addedUp 0 (bounds.map fun b => (b, c b)) := by
      rw [addedUp_bounds]
      simp
    have hlast : c 10 + c 50 + c 100 + c 500 + c 1000 = c 1000 :=
      h.buckets _ _ _ _ ((MetricsRegistry.bucket_mem_iff hall).2 ⟨o, ho, rfl, rfl, hadded⟩)
    have hpos : 0 < c 500 := by
      refine List.countP_pos_iff.2 ⟨o, ho, Bool.and_eq_true_iff.2 ⟨?_, hle⟩⟩
      exact decide_eq_true ⟨rfl, (hall o ho).sameLabels.symm⟩
    omega
  · intro h
    have hzero (name : String) (labels : Labels) : countUpTo observations name labels 500 = 0 := by
      refine List.countP_eq_zero.2 fun o ho hcounted => ?_
      rw [Bool.and_eq_true, Nat.cast_ofNat, h o ho] at hcounted
      cases hcounted.2
    have hbuckets : ∀ name labels le value,
        .bucket name labels le value ∈ (MetricsRegistry.observed localeCompare observations).samples →
          value = countUpTo observations name labels le := by
      intro name labels le value hmem
      obtain ⟨o, ho, -, -, hadded⟩ := (MetricsRegistry.bucket_mem_iff hall).1 hmem
      exact addedUp_of_zero countUpTo_mono (hzero name labels) hadded
    have hsame {name : String} {labels labels' : Labels} (hperm : labels.entries.Perm labels'.entries) (le : Nat) :
        countUpTo observations name labels le = countUpTo observations name labels' le := by
      simp only [countUpTo, Observation.ofSeries_congr hperm]
    refine ⟨?_, ?_, hbuckets, ?_, ?_⟩
    · rw [formatPrometheus_eq, MetricsRegistry.counterMetrics_observed]
      rfl
    · intro o ho le hle
      obtain ⟨value, hadded⟩ := exists_addedUp (countUpTo observations o.name (o.exportedLabels localeCompare)) hle
      exact ⟨_, value, (MetricsRegistry.bucket_mem_iff hall).2 ⟨o, ho, rfl, rfl, hadded⟩,
        (hall o ho).sameLabels.symm⟩
    · intro name labels labels' le le' value value' hmem hmem' hperm hle
      rw [hbuckets _ _ _ _ hmem, hbuckets _ _ _ _ hmem', hsame hperm]
      exact countUpTo_mono hle
    · intro name labels labels' le value value' hmem hmem' hperm
      rw [hbuckets _ _ _ _ hmem, MetricsRegistry.count_mem hall hmem', hsame hperm]
      exact countUpTo_le_countOf

end

/-- An observation of the handler `invoice.fetch`. -/
def sampleObservation (value : Number) : Observation where
  name := "task_duration_ms"
  value := value
  labels := ⟨[("handler", "invoice.fetch")], by decide⟩

theorem sampleObservation_preserved (value : Number) :
    KeyPreserves byCharacters (sampleObservation value).name (sampleObservation value).labels := by
  have hname : '|' ∉ "task_duration_ms".toList := by decide
  refine keyPreserves_of_plain hname ?_ (byCharacters_orders _)
  intro e he
  rw [List.mem_singleton.1 he]
  decide

theorem cumulative_once_sample :
    let observations := [sampleObservation (.finite 750), sampleObservation (.finite 5000)]
    CumulativeOnce observations (formatPrometheus (MetricsRegistry.observed byCharacters observations))
      (MetricsRegistry.observed byCharacters observations).samples := by
  refine (cumulative_once_iff ?_).2 (by decide +kernel)
  simpa using ⟨sampleObservation_preserved _, sampleObservation_preserved _⟩

/-- One task of 42 ms is counted four times. -/
theorem buckets_are_added_twice : ¬ ∀ (localeCompare : Collation) (observations : List Observation),
    (∀ o ∈ observations, KeyPreserves localeCompare o.name o.labels) →
      CumulativeOnce observations (formatPrometheus (MetricsRegistry.observed localeCompare observations))
        (MetricsRegistry.observed localeCompare observations).samples := by
  intro h
  let o := sampleObservation (.finite 42)
  have hall : ∀ o' ∈ [o], KeyPreserves byCharacters o'.name o'.labels := by
    simpa using sampleObservation_preserved _
  have hlast : .bucket o.name (o.exportedLabels byCharacters) 1000 4 ∈
      (MetricsRegistry.observed byCharacters [o]).samples :=
    (MetricsRegistry.bucket_mem_iff hall).2 ⟨o, by simp, rfl, rfl, by decide +kernel⟩
  exact absurd ((h byCharacters [o] hall).buckets _ _ _ _ hlast) (by decide +kernel)

end Jobflow
