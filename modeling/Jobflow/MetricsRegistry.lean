import Jobflow.SeriesKeys

/-!
# The metrics registry (src/metrics/registry.ts)

Counters and histograms, each under the key of its series. `observe` counts a value in every bucket whose bound it does
not exceed, so a bucket counts all values up to its bound. `snapshot` reads the names and the labels off the keys.
-/

namespace Jobflow

open Js (Number)

structure Histogram where
  sum : Number
  count : Nat
  buckets : List Nat

/-- The bounds of the buckets. -/
def bounds : List Nat := [10, 50, 100, 500, 1000]

def Histogram.new : Histogram := ⟨.finite 0, 0, [0, 0, 0, 0, 0]⟩

/-- What `observe` does to the histogram of the series. -/
def Histogram.add (h : Histogram) (value : Number) : Histogram where
  sum := h.sum.add value
  count := h.count + 1
  buckets := List.zipWith (fun (b : Nat) n => if value.le (.finite b) then n + 1 else n) bounds h.buckets

structure MetricsRegistry where
  counters : InsertionMap String Number
  histograms : InsertionMap String Histogram

/-- A call of `increment`. -/
structure Increment where
  name : String
  labels : Labels
  delta : Number

/-- A call of `observe`. -/
structure Observation where
  name : String
  value : Number
  labels : Labels

structure CounterMetric where
  name : String
  labels : Labels
  value : Number

structure HistogramMetric where
  name : String
  labels : Labels
  sum : Number
  count : Nat
  /-- Bounds and counts. -/
  buckets : List (Nat × Nat)

def Increment.key (localeCompare : Collation) (c : Increment) : String :=
  MetricsRegistry.seriesKey localeCompare c.name c.labels

def Observation.key (localeCompare : Collation) (o : Observation) : String :=
  MetricsRegistry.seriesKey localeCompare o.name o.labels

namespace MetricsRegistry

def empty : MetricsRegistry := ⟨.empty, .empty⟩

/-- `increment` (registry.ts:7-10). -/
def increment (localeCompare : Collation) (m : MetricsRegistry) (c : Increment) : MetricsRegistry :=
  let key := c.key localeCompare
  { m with counters := m.counters.set key (((m.counters.get key).getD (.finite 0)).add c.delta) }

/-- `observe` (registry.ts:12-22). -/
def observe (localeCompare : Collation) (m : MetricsRegistry) (o : Observation) : MetricsRegistry :=
  let key := o.key localeCompare
  { m with histograms := m.histograms.set key (((m.histograms.get key).getD .new).add o.value) }

/-- The counters of `snapshot` (registry.ts:25-29). -/
def counterMetrics (m : MetricsRegistry) : List CounterMetric :=
  m.counters.entries.map fun e => ⟨(parseKey e.1).1, (parseKey e.1).2, e.2⟩

/-- A histogram as `snapshot` gives it. -/
def metric (key : String) (h : Histogram) : HistogramMetric :=
  ⟨(parseKey key).1, (parseKey key).2, h.sum, h.count, bounds.zip h.buckets⟩

/-- The histograms of `snapshot` (registry.ts:30-41). -/
def histogramMetrics (m : MetricsRegistry) : List HistogramMetric :=
  m.histograms.entries.map fun e => metric e.1 e.2

end MetricsRegistry

end Jobflow
