import Jobflow.Js.FloorDiv
import Jobflow.Js.Order
import Jobflow.Retention

/-!
# Time series (src/analytics/time-series.ts)

A buffer keeps the last points of each series, and `rollup` gathers them in buckets by the time that their text is read
back as. The buckets are those of integer arithmetic, although their starts are computed in binary64 (`bucketKey_eq`),
and each point counts in exactly one of them (`time_series_exact`).
-/

namespace Jobflow

open Js (Date Time Number)
open Js.Date

/-! ## The source -/

structure TimeSeriesPoint where
  ts : ISODateString
  value : Number
  deriving DecidableEq

structure TimeSeries where
  name : String
  points : List TimeSeriesPoint
  deriving DecidableEq

structure TimeSeriesBuffer where
  data : InsertionMap String (List TimeSeriesPoint)
  maxPoints : Nat

namespace TimeSeriesBuffer

/-- `record` (time-series.ts:19-24), with the time now for a text that is left out. -/
def record (buffer : TimeSeriesBuffer) (name : String) (value : Number) (ts : Option ISODateString) (now : Time) :
    TimeSeriesBuffer :=
  let list := (buffer.data.get name).getD []
  let list := list ++ [⟨ts.getD (isoString now), value⟩]
  let list := if list.length > buffer.maxPoints then list.drop 1 else list
  { buffer with data := buffer.data.set name list }

/-- time-series.ts:26-30. -/
def get (buffer : TimeSeriesBuffer) (name : String) (since : Option ISODateString) : TimeSeries :=
  let points := (buffer.data.get name).getD []
  match given since with
  | none => ⟨name, points⟩
  | some since => ⟨name, points.filter fun p => !Js.before p.ts since⟩

/-- `d.getTime()`. -/
def getTime (d : Date) : Number := d.elim .nan fun t => .ofInt t.ms

/-- `new Date(value)`. -/
def dateOfNumber : Number → Date
  | .finite q => Js.timeClip (if 0 ≤ q then q.floor else q.ceil)
  | .negZero => Js.timeClip 0
  | _ => none

/-- The start of the bucket of a date (time-series.ts:36). A map has one key for both zeros. -/
def bucketKey (bucketMs : Number) (d : Date) : Number :=
  match ((getTime d).div bucketMs).floor.mul bucketMs with
  | .negZero => .finite 0
  | key => key

/-- The sums and counts of the buckets (time-series.ts:34-41). -/
def buckets (readDate : ISODateString → Date) (bucketMs : Number) (points : List TimeSeriesPoint) :
    InsertionMap Number (Number × Nat) :=
  points.foldl (fun buckets p =>
    let key := bucketKey bucketMs (readDate p.ts)
    let b := (buckets.get key).getD (.finite 0, 0)
    buckets.set key (b.1.add p.value, b.2 + 1)) .empty

/-- `rollup` (time-series.ts:32-46); `none` is the `RangeError` of a bucket that begins at no valid date. -/
def rollup (readDate : ISODateString → Date) (buffer : TimeSeriesBuffer) (name : String) (bucketMs : Number) :
    Option TimeSeries :=
  let points := (buffer.data.get name).getD []
  -- a comparison that is `NaN` counts as 0
  let sorted := (buckets readDate bucketMs points).entries.insertionSort fun a b => !(Number.finite 0).lt (a.1.sub b.1)
  (sorted.mapM fun e => (toISOString (dateOfNumber e.1)).map fun ts => ⟨ts, e.2.1.div (.ofInt e.2.2)⟩).map fun rolled =>
    ⟨name ++ "_rollup", rolled⟩

end TimeSeriesBuffer

/-! ## By the clock -/

/-- A call of `record`: the time it is made, and the time it is made for where one is given. -/
structure Recording where
  name : String
  value : Number
  given : Option Time
  now : Time

def Recording.point (r : Recording) : Time × Number := (r.given.getD r.now, r.value)

def recordAll (maxPoints : Nat) (history : List Recording) : TimeSeriesBuffer :=
  history.foldl (fun buffer r => buffer.record r.name r.value (r.given.map isoString) r.now) ⟨.empty, maxPoints⟩

/-- The points that were recorded in a series. -/
def pointsOf (name : String) (history : List Recording) : List (Time × Number) :=
  (history.filter fun r => r.name = name).map Recording.point

def asPoint (p : Time × Number) : TimeSeriesPoint := ⟨isoString p.1, p.2⟩

def bucketStart (bucketMs : Int) (t : Time) : Int := t.ms / bucketMs * bucketMs

/-- Sum by number, the sum taken in order. -/
def mean (values : List Number) : Number := (values.foldl Number.add (.finite 0)).div (.ofInt values.length)

/-- The buckets, in the order of time: one for each multiple of the length of a bucket at which some point's bucket
begins, with the mean of all points in it. Each point is in one of them. -/
structure RollsUp (bucketMs : Int) (points rolled : List (Time × Number)) : Prop where
  increasing : rolled.Pairwise fun r s => r.1 < s.1
  starts : ∀ t, t ∈ rolled.map Prod.fst ↔ ∃ p ∈ points, t.ms = bucketStart bucketMs p.1
  means : ∀ r ∈ rolled,
    r.2 = mean ((points.filter fun p => r.1.ms ≤ p.1.ms ∧ p.1.ms < r.1.ms + bucketMs).map Prod.snd)

/-- What the series of a buffer of some size shows: the last points, those of them since a time, and their buckets,
unless one begins before all dates. -/
structure ShowsSeries (readDate : ISODateString → Date) (buffer : TimeSeriesBuffer) (name : String)
    (points : List (Time × Number)) : Prop where
  all : buffer.get name none = ⟨name, points.map asPoint⟩
  since : (∀ p ∈ points, ShortYear p.1) → ∀ t, yearOf t ≤ 9999 →
    buffer.get name (some (isoString t)) = ⟨name, (points.filter fun p => t ≤ p.1).map asPoint⟩
  rolled : ∀ bucketMs : Int, 0 < bucketMs → bucketMs ≤ 2 ^ 53 - Js.maxTime →
    (∀ p ∈ points, -Js.maxTime ≤ bucketStart bucketMs p.1) →
    ∃ rolled, buffer.rollup readDate name (.ofInt bucketMs) = some ⟨name ++ "_rollup", rolled.map asPoint⟩ ∧
      RollsUp bucketMs points rolled
  beyond : ∀ bucketMs : Int, 0 < bucketMs → bucketMs ≤ 2 ^ 53 - Js.maxTime →
    (∃ p ∈ points, bucketStart bucketMs p.1 < -Js.maxTime) →
    buffer.rollup readDate name (.ofInt bucketMs) = none

/-! ## The last points -/

theorem given_isoString (t : Time) : given (some (isoString t)) = some (isoString t) := by
  refine (Option.filter_eq_some_iff).2 ⟨rfl, decide_eq_true fun h => ?_⟩
  have hread := ofText_isoString (fun _ => none) t
  rw [h] at hread
  exact absurd hread nofun

theorem lastOf_append_one {α : Type} (m : Nat) (xs : List α) (x : α) :
    lastOf m (xs ++ [x]) =
      if (lastOf m xs ++ [x]).length > m then (lastOf m xs ++ [x]).drop 1 else lastOf m xs ++ [x] := by
  rw [List.length_append, length_lastOf, List.length_singleton]
  unfold lastOf
  rw [List.length_append, List.length_singleton]
  split_ifs with h
  · rw [← List.drop_append_of_le_length (Nat.sub_le _ _), List.drop_drop]
    congr 1
    omega
  · rw [← List.drop_append_of_le_length (Nat.sub_le _ _)]
    congr 1
    omega

theorem recordAll_data (maxPoints : Nat) (history : List Recording) (name : String) :
    ((recordAll maxPoints history).data.get name).getD [] = (lastOf maxPoints (pointsOf name history)).map asPoint ∧
      (recordAll maxPoints history).maxPoints = maxPoints := by
  induction history using List.reverseRecOn with
  | nil => exact ⟨by simp [recordAll, pointsOf, lastOf], rfl⟩
  | append_singleton history r ih =>
    obtain ⟨ih, hmax⟩ := ih
    have htext : (r.given.map isoString).getD (isoString r.now) = isoString (r.given.getD r.now) := by
      cases r.given <;> rfl
    rw [recordAll, List.foldl_append, List.foldl_cons, List.foldl_nil, ← recordAll, TimeSeriesBuffer.record, hmax,
      htext]
    refine ⟨?_, rfl⟩
    dsimp only
    rw [InsertionMap.get_set, pointsOf, List.filter_append, List.map_append, ← pointsOf]
    by_cases hname : r.name = name
    · subst hname
      have hone : (List.filter (fun s : Recording => s.name = r.name) [r]).map Recording.point = [r.point] := by simp
      rw [if_pos rfl, Option.getD_some, ih, hone, lastOf_append_one, apply_ite (List.map asPoint), List.map_drop,
        List.map_append, List.length_append, List.length_append, List.length_map]
      rfl
    · have hnone : List.filter (fun s : Recording => s.name = name) [r] = [] := by simp [hname]
      rw [if_neg hname, ih, hnone, List.map_nil, List.append_nil]

/-! ## The buckets -/

section
variable {bucketMs : Int}

theorem bucketStart_spec (hpos : 0 < bucketMs) (t : Time) :
    bucketStart bucketMs t ≤ t.ms ∧ t.ms < bucketStart bucketMs t + bucketMs := by
  have hlt := Int.lt_ediv_add_one_mul_self t.ms hpos
  rw [Int.add_mul, Int.one_mul] at hlt
  exact ⟨Int.ediv_mul_le t.ms hpos.ne', hlt⟩

/-- A time is in the bucket that begins at the start of some bucket just if it is its own. -/
theorem bucketStart_eq_iff (hpos : 0 < bucketMs) (t u : Time) : bucketStart bucketMs t = bucketStart bucketMs u ↔
    bucketStart bucketMs u ≤ t.ms ∧ t.ms < bucketStart bucketMs u + bucketMs := by
  constructor
  · intro h
    rw [← h]
    exact bucketStart_spec hpos t
  · rintro ⟨hle, hlt⟩
    unfold bucketStart at *
    have hlt : t.ms < (u.ms / bucketMs + 1) * bucketMs := by
      rw [Int.add_mul, Int.one_mul]
      exact hlt
    have h₁ : u.ms / bucketMs ≤ t.ms / bucketMs := (Int.le_ediv_iff_mul_le hpos).2 hle
    have h₂ : t.ms / bucketMs < u.ms / bucketMs + 1 := (Int.ediv_lt_iff_lt_mul hpos).2 hlt
    rw [show t.ms / bucketMs = u.ms / bucketMs by omega]

theorem bucketStart_bounds (hpos : 0 < bucketMs) (hle : bucketMs ≤ 2 ^ 53 - Js.maxTime) (t : Time) :
    (bucketStart bucketMs t).natAbs ≤ 2 ^ 53 := by
  have hspec := bucketStart_spec hpos t
  have hrange := t.inRange
  unfold Js.maxTime at *
  omega

/-- **The key of a bucket is its start**, although it is computed in binary64. -/
theorem bucketKey_eq (hpos : 0 < bucketMs) (hle : bucketMs ≤ 2 ^ 53 - Js.maxTime) (t : Time) :
    TimeSeriesBuffer.bucketKey (.ofInt bucketMs) (some t) = .finite (bucketStart bucketMs t) := by
  have hbound := bucketStart_bounds hpos hle t
  have hrange := t.inRange
  have hmax : Js.maxTime = 8640000000000000 := rfl
  unfold TimeSeriesBuffer.bucketKey TimeSeriesBuffer.getTime
  rw [Option.elim_some, Number.floor_div hpos (by omega) (by omega), Number.mul_ofInt hpos (by omega) hbound]
  rfl

theorem dateOfNumber_intCast (n : Int) : TimeSeriesBuffer.dateOfNumber (.finite n) = Js.timeClip n := by
  unfold TimeSeriesBuffer.dateOfNumber
  dsimp only
  rw [Rat.floor_intCast, Rat.ceil_intCast, ite_self]

end

/-! ## `rollup` -/

theorem mapM_eq_map {α β : Type} {f : α → Option β} {g : α → β} :
    ∀ {xs : List α}, (∀ x ∈ xs, f x = some (g x)) → xs.mapM f = some (xs.map g)
  | [], _ => rfl
  | x :: xs, h => by
    rw [List.mapM_cons, h x List.mem_cons_self, mapM_eq_map fun y hy => h y (List.mem_cons_of_mem x hy)]
    rfl

theorem mapM_eq_none {α β : Type} {f : α → Option β} {x : α} (hx : f x = none) :
    ∀ {xs : List α}, x ∈ xs → xs.mapM f = none
  | y :: xs, h => by
    rw [List.mapM_cons]
    rcases List.mem_cons.1 h with rfl | h
    · rw [hx]
      rfl
    · rw [mapM_eq_none hx h]
      cases f y <;> rfl

section
variable {readDate : ISODateString → Date} {bucketMs : Int} {points : List (Time × Number)}

/-- The sum and the count of the points of the bucket that begins at some time. -/
theorem get_buckets (hread : ∀ t, readDate (isoString t) = some t) (hpos : 0 < bucketMs)
    (hle : bucketMs ≤ 2 ^ 53 - Js.maxTime) (k : Number) :
    (TimeSeriesBuffer.buckets readDate (.ofInt bucketMs) (points.map asPoint)).get k =
      let values := (points.filter fun p => Number.finite (bucketStart bucketMs p.1) = k).map Prod.snd
      if values = [] then none else some (values.foldl Number.add (.finite 0), values.length) := by
  have hfold := InsertionMap.get_foldl_update
    (fun p : TimeSeriesPoint => TimeSeriesBuffer.bucketKey (.ofInt bucketMs) (readDate p.ts))
    ((.finite 0, 0) : Number × Nat) (fun b p => (b.1.add p.value, b.2 + 1)) (points.map asPoint) k
  have hpair (ps : List (Time × Number)) (b : Number × Nat) :
      (ps.map asPoint).foldl (fun b p => (b.1.add p.value, b.2 + 1)) b =
        ((ps.map Prod.snd).foldl Number.add b.1, b.2 + (ps.map Prod.snd).length) := by
    induction ps generalizing b with
    | nil => rfl
    | cons p ps ih =>
      rw [List.map_cons, List.foldl_cons, ih]
      refine Prod.ext rfl ?_
      simp only [List.map_cons, List.length_cons]
      omega
  have hkey (p : Time × Number) : TimeSeriesBuffer.bucketKey (.ofInt bucketMs) (readDate (asPoint p).ts) =
      .finite (bucketStart bucketMs p.1) := by
    rw [asPoint, hread, bucketKey_eq hpos hle]
  rw [TimeSeriesBuffer.buckets, hfold, List.filter_map]
  simp only [Function.comp_def, hkey, hpair, List.map_eq_nil_iff, Nat.zero_add]

/-- What an entry of the buckets says: where its bucket begins, and the mean of it. -/
structure IsBucket (bucketMs : Int) (points : List (Time × Number)) (e : Number × Number × Nat)
    (start : Int) : Prop where
  key : e.1 = .finite start
  point : ∃ p ∈ points, bucketStart bucketMs p.1 = start
  value : e.2.1.div (.ofInt e.2.2) =
    mean ((points.filter fun p => start ≤ p.1.ms ∧ p.1.ms < start + bucketMs).map Prod.snd)

theorem exists_isBucket (hread : ∀ t, readDate (isoString t) = some t) (hpos : 0 < bucketMs)
    (hle : bucketMs ≤ 2 ^ 53 - Js.maxTime) {e : Number × Number × Nat}
    (he : e ∈ (TimeSeriesBuffer.buckets readDate (.ofInt bucketMs) (points.map asPoint)).entries) :
    ∃ start, IsBucket bucketMs points e start := by
  have hget := InsertionMap.get_eq_some.2 he
  rw [get_buckets hread hpos hle] at hget
  dsimp only at hget
  split_ifs at hget with hnil
  obtain ⟨v, hv⟩ := List.exists_mem_of_ne_nil _ hnil
  obtain ⟨p, hp, rfl⟩ := List.mem_map.1 hv
  obtain ⟨hmem, hkey⟩ := List.mem_filter.1 hp
  have hkey : Number.finite (bucketStart bucketMs p.1) = e.1 := of_decide_eq_true hkey
  refine ⟨_, hkey.symm, ⟨p, hmem, rfl⟩, ?_⟩
  have hsame : (points.filter fun q => Number.finite (bucketStart bucketMs q.1) = e.1) =
      points.filter fun q => bucketStart bucketMs p.1 ≤ q.1.ms ∧ q.1.ms < bucketStart bucketMs p.1 + bucketMs := by
    refine List.filter_congr fun q _ => ?_
    rw [decide_eq_decide, ← bucketStart_eq_iff hpos, ← hkey, Number.finite.injEq, Int.cast_inj]
  rw [hsame] at hget
  rw [← Option.some.inj hget]
  rfl

theorem exists_bucket (hread : ∀ t, readDate (isoString t) = some t) (hpos : 0 < bucketMs)
    (hle : bucketMs ≤ 2 ^ 53 - Js.maxTime) {p : Time × Number} (hp : p ∈ points) :
    ∃ e ∈ (TimeSeriesBuffer.buckets readDate (.ofInt bucketMs) (points.map asPoint)).entries,
      e.1 = .finite (bucketStart bucketMs p.1) := by
  have hget := @get_buckets _ _ points hread hpos hle (.finite (bucketStart bucketMs p.1))
  have hne : (points.filter fun q => Number.finite (bucketStart bucketMs q.1) = .finite (bucketStart bucketMs p.1)).map
      Prod.snd ≠ [] := List.ne_nil_of_mem (List.mem_map_of_mem (List.mem_filter.2 ⟨hp, decide_eq_true rfl⟩))
  dsimp only at hget
  rw [if_neg hne] at hget
  exact ⟨_, InsertionMap.get_eq_some.1 hget, rfl⟩

/-- Where the bucket of a key begins. -/
def startOf (e : Number × Number × Nat) : Int := (e.1.toRat?.getD 0).floor

theorem IsBucket.startOf_eq {e : Number × Number × Nat} {start : Int} (h : IsBucket bucketMs points e start) :
    startOf e = start := by
  rw [startOf, h.key]
  exact Rat.floor_intCast start

/-- Sorted by their differences, the entries are in the order of their starts. -/
theorem sorted_buckets {es : List (Number × Number × Nat)} (hes : (es.map Prod.fst).Nodup)
    (h : ∀ e ∈ es, ∃ start, IsBucket bucketMs points e start) :
    (es.insertionSort fun a b => !(Number.finite 0).lt (a.1.sub b.1)).Pairwise fun a b => startOf a < startOf b := by
  let le : Number × Number × Nat → Number × Number × Nat → Prop := fun a b => startOf a ≤ startOf b
  have : Std.Total le := ⟨fun a b => Int.le_total (startOf a) (startOf b)⟩
  have : IsTrans (Number × Number × Nat) le := ⟨fun _ _ _ => Int.le_trans⟩
  have hsort := List.map_insertionSort (fun a b : Number × Number × Nat => (!(Number.finite 0).lt (a.1.sub b.1)) = true)
    (s := le) id es fun a ha b hb => by
      obtain ⟨m, hm⟩ := h a ha
      obtain ⟨n, hn⟩ := h b hb
      show _ ↔ startOf a ≤ startOf b
      rw [hm.startOf_eq, hn.startOf_eq, hm.key, hn.key, Number.lt_zero_sub, ← decide_not, decide_eq_true_eq]
      exact Int.not_lt
  rw [List.map_id, List.map_id] at hsort
  rw [hsort]
  have hnodup : ((es.insertionSort le).map Prod.fst).Nodup := ((List.perm_insertionSort le es).map _).nodup_iff.2 hes
  refine ((List.pairwise_insertionSort le es).and (List.pairwise_map.1 hnodup)).imp_of_mem ?_
  rintro a b ha hb ⟨hle, hne⟩
  obtain ⟨m, hm⟩ := h a ((List.perm_insertionSort le es).mem_iff.1 ha)
  obtain ⟨n, hn⟩ := h b ((List.perm_insertionSort le es).mem_iff.1 hb)
  refine lt_of_le_of_ne hle fun heq => hne ?_
  rw [hm.key, hn.key, ← hm.startOf_eq, ← hn.startOf_eq, heq]

theorem epoch_inRange : -Js.maxTime ≤ 0 ∧ 0 ≤ Js.maxTime := by decide

/-- The bucket of an entry, if it begins at a valid date. -/
def bucketOf (e : Number × Number × Nat) : Time × Number :=
  ((Js.timeClip (startOf e)).getD ⟨0, epoch_inRange⟩, e.2.1.div (.ofInt e.2.2))

theorem IsBucket.timeClip_eq {e : Number × Number × Nat} {start : Int} (h : IsBucket bucketMs points e start)
    (hpos : 0 < bucketMs) (hrange : -Js.maxTime ≤ start) :
    Js.timeClip start = some (bucketOf e).1 ∧ (bucketOf e).1.ms = startOf e := by
  obtain ⟨p, _, hp⟩ := h.point
  have hle : start ≤ Js.maxTime := hp ▸ Int.le_trans (bucketStart_spec hpos p.1).1 p.1.inRange.2
  have hclip : Js.timeClip start = some ⟨start, hrange, hle⟩ := Js.timeClip_eq_some.2 rfl
  rw [bucketOf, h.startOf_eq, hclip]
  exact ⟨rfl, rfl⟩

/-- Entries in order, all of which begin at valid dates. -/
theorem rollsUp_map {es : List (Number × Number × Nat)} (hpos : 0 < bucketMs)
    (hsorted : es.Pairwise fun a b => startOf a < startOf b)
    (hes : ∀ e ∈ es, ∃ start, IsBucket bucketMs points e start)
    (hpoints : ∀ p ∈ points, ∃ e ∈ es, e.1 = .finite (bucketStart bucketMs p.1))
    (hrange : ∀ p ∈ points, -Js.maxTime ≤ bucketStart bucketMs p.1) :
    RollsUp bucketMs points (es.map bucketOf) := by
  have hstart : ∀ e ∈ es, (bucketOf e).1.ms = startOf e := by
    intro e he
    obtain ⟨start, h⟩ := hes e he
    obtain ⟨p, hp, rfl⟩ := h.point
    exact (h.timeClip_eq hpos (hrange p hp)).2
  refine ⟨?_, ?_, ?_⟩
  · refine List.pairwise_map.2 (hsorted.imp_of_mem fun {a b} ha hb hlt => ?_)
    rw [Time.lt_def, hstart a ha, hstart b hb]
    exact hlt
  · intro t
    rw [List.map_map, List.mem_map]
    constructor
    · rintro ⟨e, he, rfl⟩
      obtain ⟨start, h⟩ := hes e he
      obtain ⟨p, hp, hpstart⟩ := h.point
      exact ⟨p, hp, by rw [Function.comp_apply, hstart e he, h.startOf_eq, hpstart]⟩
    · rintro ⟨p, hp, ht⟩
      obtain ⟨e, he, hkey⟩ := hpoints p hp
      obtain ⟨start, h⟩ := hes e he
      have hsame : start = bucketStart bucketMs p.1 := by
        rw [h.key, Number.finite.injEq, Int.cast_inj] at hkey
        exact hkey
      refine ⟨e, he, Time.eq_of_ms ?_⟩
      rw [Function.comp_apply, hstart e he, h.startOf_eq, hsame, ht]
  · intro r hr
    obtain ⟨e, he, rfl⟩ := List.mem_map.1 hr
    obtain ⟨start, h⟩ := hes e he
    rw [hstart e he, h.startOf_eq]
    exact h.value

end

section
variable {readDate : ISODateString → Date} {buffer : TimeSeriesBuffer} {name : String} {points : List (Time × Number)}

theorem get_since (hpoints : (buffer.data.get name).getD [] = points.map asPoint)
    (hyears : ∀ p ∈ points, ShortYear p.1) {t : Time} (ht : yearOf t ≤ 9999) :
    buffer.get name (some (isoString t)) = ⟨name, (points.filter fun p => t ≤ p.1).map asPoint⟩ := by
  rw [TimeSeriesBuffer.get, given_isoString, hpoints]
  dsimp only
  rw [List.filter_map]
  refine congrArg _ (congrArg _ (List.filter_congr fun p hp => ?_))
  rw [Function.comp_apply, asPoint, Js.before_isoString (hyears p hp) ht, ← decide_not, decide_eq_decide]
  exact Int.not_lt

theorem rollup_eq (hread : ∀ t, readDate (isoString t) = some t)
    (hpoints : (buffer.data.get name).getD [] = points.map asPoint) {bucketMs : Int} (hpos : 0 < bucketMs)
    (hle : bucketMs ≤ 2 ^ 53 - Js.maxTime) (hrange : ∀ p ∈ points, -Js.maxTime ≤ bucketStart bucketMs p.1) :
    ∃ rolled, buffer.rollup readDate name (.ofInt bucketMs) = some ⟨name ++ "_rollup", rolled.map asPoint⟩ ∧
      RollsUp bucketMs points rolled := by
  obtain ⟨es, hes⟩ : ∃ es, es = (TimeSeriesBuffer.buckets readDate (.ofInt bucketMs) (points.map asPoint)).entries :=
    ⟨_, rfl⟩
  have hbucket : ∀ e ∈ es, ∃ start, IsBucket bucketMs points e start := fun e he =>
    exists_isBucket hread hpos hle (hes ▸ he)
  have hnodup : (es.map Prod.fst).Nodup := hes ▸ InsertionMap.nodup _
  have hsorted := sorted_buckets hnodup hbucket
  obtain ⟨sorted, hsorted_eq⟩ : ∃ sorted, sorted = es.insertionSort fun a b => !(Number.finite 0).lt (a.1.sub b.1) :=
    ⟨_, rfl⟩
  rw [← hsorted_eq] at hsorted
  have hperm : sorted.Perm es := hsorted_eq ▸ List.perm_insertionSort _ _
  have hbucket' : ∀ e ∈ sorted, ∃ start, IsBucket bucketMs points e start := fun e he =>
    hbucket e (hperm.mem_iff.1 he)
  have hcover : ∀ p ∈ points, ∃ e ∈ sorted, e.1 = .finite (bucketStart bucketMs p.1) := by
    intro p hp
    obtain ⟨e, he, hkey⟩ := exists_bucket hread hpos hle hp
    exact ⟨e, hperm.mem_iff.2 (hes ▸ he), hkey⟩
  refine ⟨sorted.map bucketOf, ?_, rollsUp_map hpos hsorted hbucket' hcover hrange⟩
  rw [TimeSeriesBuffer.rollup, hpoints]
  rw [← hes, ← hsorted_eq, @mapM_eq_map _ _ _ (fun e => asPoint (bucketOf e)), Option.map_some, List.map_map]
  · rfl
  · intro e he
    obtain ⟨start, h⟩ := hbucket' e he
    obtain ⟨p, hp, hpstart⟩ := h.point
    rw [h.key, dateOfNumber_intCast, (h.timeClip_eq hpos (hpstart ▸ hrange p hp)).1]
    rfl

theorem rollup_eq_none (hread : ∀ t, readDate (isoString t) = some t)
    (hpoints : (buffer.data.get name).getD [] = points.map asPoint) {bucketMs : Int} (hpos : 0 < bucketMs)
    (hle : bucketMs ≤ 2 ^ 53 - Js.maxTime) {p : Time × Number} (hp : p ∈ points)
    (hbeyond : bucketStart bucketMs p.1 < -Js.maxTime) : buffer.rollup readDate name (.ofInt bucketMs) = none := by
  obtain ⟨e, he, hkey⟩ := exists_bucket hread hpos hle hp
  have hclip : Js.timeClip (bucketStart bucketMs p.1) = none := by
    rw [Js.timeClip, dif_neg fun h => absurd h.1 (Int.not_le.2 hbeyond)]
  rw [TimeSeriesBuffer.rollup, hpoints]
  rw [@mapM_eq_none _ _ _ e, Option.map_none]
  · rw [hkey, dateOfNumber_intCast, hclip]
    rfl
  · exact (List.perm_insertionSort _ _).mem_iff.2 he

end

/-- **A series shows its last points, and each in one bucket**, over every history of recordings in all series, for
every size of the buffer and every size of buckets. Whatever `Date` makes of other texts does not matter. -/
theorem time_series_exact (other : String → Date) (maxPoints : Nat) (history : List Recording) (name : String) :
    ShowsSeries (ofText other) (recordAll maxPoints history) name (lastOf maxPoints (pointsOf name history)) := by
  have hread := ofText_isoString other
  have hpoints := (recordAll_data maxPoints history name).1
  refine ⟨?_, fun hyears t ht => get_since hpoints hyears ht, fun bucketMs hpos hle => rollup_eq hread hpoints hpos hle,
    fun bucketMs hpos hle ⟨p, hp, hbeyond⟩ => rollup_eq_none hread hpoints hpos hle hp hbeyond⟩
  rw [TimeSeriesBuffer.get, given, hpoints]
  rfl

/-- Two points of one minute and one of the next, in a buffer of three. -/
def cpuSample : List Recording :=
  let noon : Int := 1767268800000
  let at_ (ms : Int) (value : Rat) : Recording := ⟨"cpu", .finite value, Js.timeClip ms, ⟨0, epoch_inRange⟩⟩
  [at_ noon 1, at_ (noon + 60000) 5, at_ noon 10, at_ (noon + 1000) 30]

example : ((recordAll 3 cpuSample).rollup (ofText fun _ => none) "cpu" (.finite 60000)) =
    some ⟨"cpu_rollup", [⟨"2026-01-01T12:00:00.000Z", .finite 20⟩, ⟨"2026-01-01T12:01:00.000Z", .finite 5⟩]⟩ := by
  decide +kernel

end Jobflow
