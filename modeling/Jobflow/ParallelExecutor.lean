import Mathlib.Data.Rat.Floor
import Jobflow.DagPlanner
import Jobflow.Lib.LevelPool
import Jobflow.Workers

/-!
# Executing a job level by level (src/engine/parallel-executor.ts)

`executeLevel` plans the tasks and works on the levels one after the other, each with a pool of workers that share an
index into the batch. A suspended `executeLevel` waits for the calls `executor.run(...)` in flight; a step settles one
of them, and its worker takes the next task at once. `ParallelCall.settle_refines`: the calls are handed out as by
the pool of `LevelPool`, whatever they return.

The executor never looks at a status, so `parallel_respects_iff` says for which inputs the tasks it hands out are those
that `TaskScheduler.nextRunnable` could choose.
-/

namespace Jobflow

open Js (Record)
open LevelPool (Pool)
open DependencyGraph (LevelSpec levelNumber)

structure ParallelExecuteOptions where
  maxConcurrency : Rat
  policy : RetryPolicy
  input : Record

/-- An element of a batch. -/
structure BatchEntry where
  definition : TaskDefinition
  run : TaskRun

abbrev TaskRunMap := InsertionMap String TaskRun

/-- The task executor the class is constructed with: what it reads of the container, and what the handler call for a
task id meets (`executeLevel` makes at most one call for each). -/
structure ParallelTaskExecutor where
  simulator : SimulatorConfig
  answer : String → SimulatorDraw

/-- `executor.run(current.run, current.def, policy, input)`, started and finished at these times. -/
def ParallelTaskExecutor.run (x : ParallelTaskExecutor) (options : ParallelExecuteOptions) (current : BatchEntry)
    (startedAt finishedAt : ISODateString) : ExecuteResult :=
  TaskExecutor.finish (TaskExecutor.start current.run startedAt) options.policy
    (TaskSimulator.execute x.simulator current.definition.handler options.input (x.answer current.definition.id))
    finishedAt

/-- A call of the executor in flight. -/
structure ExecutorCall where
  current : BatchEntry
  startedAt : ISODateString

/-- An entry handed to the executor, and the map at that moment. -/
structure HandOut where
  current : BatchEntry
  updated : TaskRunMap

/-- A suspended `executeLevel`: the levels after the current one, what is left of the batch, the calls in flight, the
map, and the calls made so far. -/
structure ParallelCall where
  levels : List (List String)
  queue : List BatchEntry
  inFlight : List ExecutorCall
  updated : TaskRunMap
  handed : List HandOut

/-- The batch of a level (parallel-executor.ts:27-33). -/
def ParallelTaskExecutor.batch (tasks : List TaskDefinition) (updated : TaskRunMap) (level : List String) :
    List BatchEntry :=
  level.filterMap fun id => do
    let definition ← tasks.find? fun t => t.id = id
    let run ← updated.get id
    some ⟨definition, run⟩

/-- `k` workers that are free take `batch[index]` (parallel-executor.ts:48-52). -/
def ParallelCall.take (now : ISODateString) : Nat → ParallelCall → ParallelCall
  | 0, s => s
  | k + 1, s =>
    match s.queue with
    | [] => s
    | current :: queue => ParallelCall.take now k
      { s with
        queue := queue
        inFlight := s.inFlight ++ [⟨current, now⟩]
        handed := s.handed ++ [⟨current, s.updated⟩] }

/-- `Array.from({ length: Math.min(maxConcurrency, batch.length) }, ...)` has this length. -/
def ParallelTaskExecutor.workers (options : ParallelExecuteOptions) (batch : List BatchEntry) : Nat :=
  (min options.maxConcurrency batch.length).floor.toNat

/-- The loop over the levels (parallel-executor.ts:26-37), up to the next await that waits for a call. -/
def ParallelTaskExecutor.runLevels (tasks : List TaskDefinition) (options : ParallelExecuteOptions)
    (now : ISODateString) : List (List String) → ParallelCall → ParallelCall
  | [], s => { s with levels := [] }
  | level :: levels, s =>
    let batch := batch tasks s.updated level
    let s' := ParallelCall.take now (workers options batch) { s with levels := levels, queue := batch }
    if s'.inFlight.isEmpty then runLevels tasks options now levels s' else s'

/-- `executeLevel` up to its first await. -/
def ParallelTaskExecutor.executeLevel (tasks : List TaskDefinition) (runs : TaskRunMap)
    (options : ParallelExecuteOptions) (now : ISODateString) : Except JobflowError ParallelCall := do
  let plan ← DagPlanner.plan tasks
  .ok (runLevels tasks options now plan.levels ⟨[], [], [], runs, []⟩)

/-- The `k`-th call in flight settles at time `now` (parallel-executor.ts:52-53). -/
structure Settles where
  k : Nat
  now : ISODateString

def ParallelTaskExecutor.settle (x : ParallelTaskExecutor) (tasks : List TaskDefinition)
    (options : ParallelExecuteOptions) (s : ParallelCall) (e : Settles) : Option ParallelCall :=
  (s.inFlight[e.k]?).map fun call =>
    let result := x.run options call.current call.startedAt e.now
    let s' := ParallelCall.take e.now 1
      { s with
        inFlight := s.inFlight.eraseIdx e.k
        updated := s.updated.set call.current.definition.id result.task }
    if s'.inFlight.isEmpty then runLevels tasks options e.now s'.levels s' else s'

/-! ## The calls are handed out as by a pool -/

section
variable {x : ParallelTaskExecutor} {tasks : List TaskDefinition} {runs : TaskRunMap}
  {options : ParallelExecuteOptions}

theorem mem_batch {updated : TaskRunMap} {level : List String} {b : BatchEntry}
    (h : b ∈ ParallelTaskExecutor.batch tasks updated level) :
    b.definition.id ∈ level ∧ tasks.find? (fun t => t.id = b.definition.id) = some b.definition ∧
      updated.get b.definition.id = some b.run := by
  obtain ⟨id, hid, hb⟩ := List.mem_filterMap.1 h
  obtain ⟨definition, hdef, hb⟩ := Option.bind_eq_some_iff.1 hb
  obtain ⟨run, hrun, hb⟩ := Option.bind_eq_some_iff.1 hb
  obtain rfl := Option.some.inj hb
  have heq : definition.id = id := by simpa using List.find?_some hdef
  subst heq
  exact ⟨hid, hdef, hrun⟩

theorem batch_ids (updated : TaskRunMap) (level : List String) :
    ((ParallelTaskExecutor.batch tasks updated level).map (·.definition.id)).Sublist level := by
  unfold ParallelTaskExecutor.batch
  induction level with
  | nil => simp
  | cons id level ih =>
    rw [List.filterMap_cons]
    split
    · exact ih.cons id
    · rename_i b hb
      obtain ⟨definition, hdef, hb⟩ := Option.bind_eq_some_iff.1 hb
      obtain ⟨run, _, hb⟩ := Option.bind_eq_some_iff.1 hb
      obtain rfl := Option.some.inj hb
      have heq : definition.id = id := by simpa using List.find?_some hdef
      rw [List.map_cons, heq]
      exact ih.cons_cons id

variable (x tasks runs options) in
/-- The map when the calls of `settled` have returned: their results, and the given runs otherwise. -/
structure Content (settled : List BatchEntry) (updated : TaskRunMap) : Prop where
  result : ∀ b ∈ settled, ∃ startedAt finishedAt,
    updated.get b.definition.id = some (x.run options b startedAt finishedAt).task
  given : ∀ id, (∀ b ∈ settled, b.definition.id ≠ id) → updated.get id = runs.get id

variable (x tasks runs options) in
/-- A suspended `executeLevel` does what a pool of batch entries does. -/
structure Refines (s : ParallelCall) (p : Pool BatchEntry) : Prop where
  levels : p.levels = s.levels.map (ParallelTaskExecutor.batch tasks runs)
  queue : p.queue = s.queue
  inFlight : p.inFlight = s.inFlight.map (·.current)
  updated : Content x runs options p.settled s.updated
  handed : List.Forall₂ (fun h e => h.current = e.1 ∧ Content x runs options e.2 h.updated) s.handed p.log
  fresh : ∀ id ∈ s.levels.flatten, ∀ b ∈ p.settled ++ p.inFlight ++ p.queue, b.definition.id ≠ id
  nodup : s.levels.flatten.Nodup
  once : ((p.settled ++ p.inFlight ++ p.queue).map (·.definition.id)).Nodup

theorem Refines.take (now : ISODateString) : ∀ (k : Nat) {s : ParallelCall} {p : Pool BatchEntry},
    Refines x tasks runs options s p → Refines x tasks runs options (s.take now k) (p.take k) := by
  intro k
  induction k with
  | zero => exact fun h => h
  | succ k ih =>
    intro s p h
    unfold ParallelCall.take Pool.take
    have hqueue := h.queue
    cases hq : s.queue with
    | nil =>
      rw [hq] at hqueue
      rw [hqueue]
      exact h
    | cons current queue =>
      rw [hq] at hqueue
      rw [hqueue]
      dsimp only
      refine ih ?_
      have hmoved : p.settled ++ (p.inFlight ++ [current]) ++ queue = p.settled ++ p.inFlight ++ p.queue := by
        rw [hqueue]
        simp
      exact
        { levels := h.levels
          queue := rfl
          inFlight := by
            simp [Pool.handOut, h.inFlight]
          updated := h.updated
          handed := List.rel_append h.handed (.cons ⟨rfl, h.updated⟩ .nil)
          fresh := by
            simp only [Pool.handOut, hmoved]
            exact h.fresh
          nodup := h.nodup
          once := by
            simp only [Pool.handOut, hmoved]
            exact h.once }

/-- No more workers than entries makes no difference: they find nothing to take. -/
theorem take_min (k : Nat) : ∀ p : Pool BatchEntry, p.take (min k p.queue.length) = p.take k := by
  induction k with
  | zero => simp
  | succ k ih =>
    intro p
    cases hq : p.queue with
    | nil => simp [Pool.take, hq]
    | cons b queue =>
      rw [List.length_cons, Nat.add_min_add_right, Pool.take, Pool.take, hq]
      exact ih ({ p with queue := queue }.handOut b)

/-- Workers that have found nothing to do have left nothing. -/
theorem take_idle {k : Nat} {p : Pool BatchEntry} (hk : 0 < k) (hidle : (p.take k).inFlight = []) :
    (p.take k).queue = [] := by
  have hgrows : ∀ (k : Nat) (p : Pool BatchEntry), p.inFlight ≠ [] → (p.take k).inFlight ≠ [] := by
    intro k
    induction k with
    | zero => exact fun _ h => h
    | succ k ih =>
      intro p h
      unfold Pool.take
      split
      · exact h
      · exact ih _ (by simp [Pool.handOut])
  obtain ⟨k, rfl⟩ : ∃ m, k = m + 1 := ⟨k - 1, by omega⟩
  unfold Pool.take at hidle ⊢
  cases hq : p.queue with
  | nil => exact hq
  | cons b queue =>
    rw [hq] at hidle
    exact absurd hidle (hgrows k _ (by simp [Pool.handOut]))

/-- The integer part of `maxConcurrency`. -/
def ParallelExecuteOptions.limit (options : ParallelExecuteOptions) : Nat := options.maxConcurrency.floor.toNat

theorem limit_pos (hc : 1 ≤ options.maxConcurrency) : 0 < options.limit := by
  have : 1 ≤ options.maxConcurrency.floor := Rat.le_floor_iff.2 (by exact_mod_cast hc)
  unfold ParallelExecuteOptions.limit
  omega

theorem workers_eq (hc : 1 ≤ options.maxConcurrency) (batch : List BatchEntry) :
    ParallelTaskExecutor.workers options batch = min options.limit batch.length := by
  unfold ParallelTaskExecutor.workers ParallelExecuteOptions.limit
  have hfloor : (min options.maxConcurrency batch.length).floor =
      min options.maxConcurrency.floor (batch.length : Int) := by
    rcases le_total options.maxConcurrency batch.length with h | h
    · have hle := Rat.floor_monotone h
      rw [← Int.cast_natCast, Rat.floor_intCast] at hle
      rw [min_eq_left h, min_eq_left hle]
    · have hle : (batch.length : Int) ≤ options.maxConcurrency.floor := Rat.le_floor_iff.2 (by exact_mod_cast h)
      rw [min_eq_right h, min_eq_right hle, ← Int.cast_natCast, Rat.floor_intCast]
  have hpos : 0 ≤ options.maxConcurrency.floor := Rat.le_floor_iff.2 (le_trans zero_le_one hc)
  rw [hfloor]
  omega

/-- The batch of a level that has not been begun is the one of the given map. -/
theorem batch_eq {updated : TaskRunMap} {level : List String}
    (h : ∀ id ∈ level, updated.get id = runs.get id) :
    ParallelTaskExecutor.batch tasks updated level = ParallelTaskExecutor.batch tasks runs level := by
  unfold ParallelTaskExecutor.batch
  refine List.filterMap_congr fun id hid => ?_
  rw [h id hid]

theorem Refines.takeWorkers (hc : 1 ≤ options.maxConcurrency) (now : ISODateString) {s : ParallelCall}
    {p : Pool BatchEntry} (h : Refines x tasks runs options s p) :
    Refines x tasks runs options (s.take now (ParallelTaskExecutor.workers options s.queue))
      (p.take options.limit) := by
  have htake := h.take now (ParallelTaskExecutor.workers options s.queue)
  have hp : p.take (ParallelTaskExecutor.workers options s.queue) = p.take options.limit := by
    rw [workers_eq hc, ← h.queue]
    exact take_min _ p
  rwa [hp] at htake

theorem ParallelCall.take_levels (now : ISODateString) : ∀ (k : Nat) (s : ParallelCall),
    (s.take now k).levels = s.levels := by
  intro k
  induction k with
  | zero => exact fun _ => rfl
  | succ k ih =>
    intro s
    unfold take
    split
    · rfl
    · rw [ih]

theorem Refines.idle_iff {s : ParallelCall} {p : Pool BatchEntry} (h : Refines x tasks runs options s p) :
    p.inFlight.isEmpty = s.inFlight.isEmpty := by
  rw [h.inFlight, List.isEmpty_map]

/-- The level has been begun, or the next ones are. -/
theorem Refines.runLevels (hc : 1 ≤ options.maxConcurrency) (now : ISODateString) :
    ∀ (levels : List (List String)) {s : ParallelCall} {p : Pool BatchEntry},
      Refines x tasks runs options s p → s.levels = levels → s.inFlight = [] → s.queue = [] →
      Refines x tasks runs options (ParallelTaskExecutor.runLevels tasks options now levels s)
        (p.begin options.limit (levels.map (ParallelTaskExecutor.batch tasks runs))) := by
  intro levels
  induction levels with
  | nil =>
    intro s p h hl _ _
    have hs : ParallelTaskExecutor.runLevels tasks options now [] s = s := by
      rw [ParallelTaskExecutor.runLevels, ← hl]
    have hp : p.begin options.limit [] = p := by
      have := h.levels
      rw [hl, List.map_nil] at this
      rw [Pool.begin, ← this]
    rw [List.map_nil, hs, hp]
    exact h
  | cons level levels ih =>
    intro s p h hl hidle hqueue
    have hpidle : p.inFlight = [] := by
      have := h.inFlight
      simpa [hidle] using this
    have hpqueue : p.queue = [] := h.queue.trans hqueue
    have hnodup : (level ++ levels.flatten).Nodup := by
      have := h.nodup
      rwa [hl, List.flatten_cons] at this
    have hfresh : ∀ id ∈ level ++ levels.flatten, ∀ b ∈ p.settled, b.definition.id ≠ id := by
      intro id hid b hb
      refine h.fresh id ?_ b (List.mem_append_left _ (List.mem_append_left _ hb))
      rwa [hl, List.flatten_cons]
    -- the tasks of the level have not been touched
    have hbatch : ParallelTaskExecutor.batch tasks s.updated level = ParallelTaskExecutor.batch tasks runs level :=
      batch_eq fun id hid => h.updated.given id (hfresh id (List.mem_append_left _ hid))
    have hlevel : Refines x tasks runs options
        { s with levels := levels, queue := ParallelTaskExecutor.batch tasks runs level }
        { p with
          levels := levels.map (ParallelTaskExecutor.batch tasks runs)
          queue := ParallelTaskExecutor.batch tasks runs level } :=
      { levels := rfl
        queue := rfl
        inFlight := h.inFlight
        updated := h.updated
        handed := h.handed
        fresh := fun id hid b hb => by
          simp only [hpidle, List.append_nil] at hb
          rcases List.mem_append.1 hb with hb | hb
          · exact hfresh id (List.mem_append_right _ hid) b hb
          · intro he
            exact (List.nodup_append.1 hnodup).2.2 _ (mem_batch hb).1 id hid he
        nodup := (List.nodup_append.1 hnodup).2.1
        once := by
          have hsettled := h.once
          simp only [hpidle, hpqueue, List.append_nil] at hsettled
          simp only [hpidle, List.append_nil, List.map_append]
          refine List.nodup_append.2 ⟨hsettled, (batch_ids runs level).nodup (List.nodup_append.1 hnodup).1, ?_⟩
          intro id hid id' hid' heq
          obtain ⟨b, hb, rfl⟩ := List.mem_map.1 hid
          exact hfresh id' (List.mem_append_left _ ((batch_ids runs level).subset hid')) b hb heq }
    have htake := hlevel.takeWorkers hc now
    unfold ParallelTaskExecutor.runLevels
    rw [List.map_cons]
    unfold Pool.begin
    rw [hbatch]
    dsimp only at htake ⊢
    rw [htake.idle_iff]
    split
    · rename_i hempty
      rw [List.isEmpty_iff] at hempty
      have hpempty := htake.inFlight
      rw [hempty, List.map_nil] at hpempty
      exact ih htake (ParallelCall.take_levels now _ _) hempty
        (htake.queue.symm.trans (take_idle (limit_pos hc) hpempty))
    · exact htake

/-- A call that settles frees its worker, which takes the next entry. -/
theorem Refines.settle (hc : 1 ≤ options.maxConcurrency) {s s' : ParallelCall} {p : Pool BatchEntry}
    (h : Refines x tasks runs options s p) {e : Settles} (hs : x.settle tasks options s e = some s') :
    ∃ p', p.settle options.limit e.k = some p' ∧ Refines x tasks runs options s' p' := by
  obtain ⟨call, hcall, rfl⟩ := Option.map_eq_some_iff.1 hs
  obtain ⟨hk, rfl⟩ := List.getElem?_eq_some_iff.1 hcall
  have hpk : p.inFlight[e.k]? = some s.inFlight[e.k].current := by
    rw [h.inFlight, List.getElem?_map, hcall, Option.map_some]
  have hperm : (p.settled ++ [s.inFlight[e.k].current] ++ p.inFlight.eraseIdx e.k ++ p.queue).Perm
      (p.settled ++ p.inFlight ++ p.queue) := by
    refine List.Perm.append_right _ ?_
    rw [List.append_assoc]
    refine List.Perm.append_left _ ?_
    obtain ⟨hpk, hpe⟩ := List.getElem?_eq_some_iff.1 hpk
    rw [← hpe]
    exact List.getElem_cons_eraseIdx_perm hpk
  have hother : ∀ b ∈ p.settled, b.definition.id ≠ s.inFlight[e.k].current.definition.id := by
    have hnodup := (hperm.map (·.definition.id)).nodup_iff.2 h.once
    rw [List.append_assoc, List.append_assoc, List.map_append] at hnodup
    intro b hb
    exact (List.nodup_append.1 hnodup).2.2 _ (List.mem_map_of_mem (f := (·.definition.id)) hb) _
      (by rw [List.singleton_append, List.map_cons]; exact List.mem_cons_self)
  have hfree : Refines x tasks runs options
      { s with
        inFlight := s.inFlight.eraseIdx e.k
        updated := s.updated.set s.inFlight[e.k].current.definition.id
          (x.run options s.inFlight[e.k].current s.inFlight[e.k].startedAt e.now).task }
      { p with
        inFlight := p.inFlight.eraseIdx e.k
        settled := p.settled ++ [s.inFlight[e.k].current] } :=
    { levels := h.levels
      queue := h.queue
      inFlight := by
        rw [h.inFlight, List.eraseIdx_map]
      updated :=
        { result := fun b hb => by
            rcases List.mem_append.1 hb with hb | hb
            · obtain ⟨startedAt, finishedAt, hget⟩ := h.updated.result b hb
              exact ⟨startedAt, finishedAt, by rw [InsertionMap.get_set_ne _ _ (Ne.symm (hother b hb)), hget]⟩
            · obtain rfl := List.mem_singleton.1 hb
              exact ⟨_, _, InsertionMap.get_set_self _ _ _⟩
          given := fun id hid => by
            rw [InsertionMap.get_set_ne _ _ (hid _ (List.mem_append_right _ (List.mem_singleton_self _)))]
            exact h.updated.given id fun b hb => hid b (List.mem_append_left _ hb) }
      handed := h.handed
      fresh := fun id hid b hb => h.fresh id hid b (hperm.mem_iff.1 hb)
      nodup := h.nodup
      once := (hperm.map _).nodup_iff.2 h.once }
  have htake := hfree.take e.now 1
  refine ⟨_, by rw [Pool.settle, hpk, Option.map_some], ?_⟩
  dsimp only
  rw [htake.idle_iff]
  split
  · rename_i hempty
    rw [List.isEmpty_iff] at hempty
    have hpempty := htake.inFlight
    rw [hempty, List.map_nil] at hpempty
    rw [htake.levels]
    exact htake.runLevels hc e.now _ rfl hempty (htake.queue.symm.trans (take_idle Nat.one_pos hpempty))
  · exact htake

/-- The state of `executeLevel` at its first await. -/
theorem executeLevel_refines (hc : 1 ≤ options.maxConcurrency) {plan : DagPlan}
    (hplan : DagPlanner.plan tasks = .ok plan) (hn : plan.levels.flatten.Nodup) (now : ISODateString) :
    ∃ s, ParallelTaskExecutor.executeLevel tasks runs options now = .ok s ∧ Refines x tasks runs options s
      (Pool.start options.limit (plan.levels.map (ParallelTaskExecutor.batch tasks runs))) := by
  have hstart : Refines x tasks runs options ⟨plan.levels, [], [], runs, []⟩
      ⟨plan.levels.map (ParallelTaskExecutor.batch tasks runs), [], [], [], []⟩ :=
    { levels := rfl
      queue := rfl
      inFlight := rfl
      updated := ⟨by simp, fun _ _ => rfl⟩
      handed := .nil
      fresh := by simp
      nodup := hn
      once := by simp }
  have hlevels := hstart.runLevels hc now plan.levels rfl rfl rfl
  unfold ParallelTaskExecutor.executeLevel
  rw [hplan]
  refine ⟨_, rfl, ?_⟩
  cases hl : plan.levels with
  | nil =>
    rw [hl] at hlevels
    exact hlevels
  | cons level levels =>
    rw [hl] at hlevels
    exact hlevels

/-- Runs of `executeLevel` are runs of the pool. -/
theorem Refines.exec (hc : 1 ≤ options.maxConcurrency) : ∀ {es : List Settles} {s s' : ParallelCall}
    {p : Pool BatchEntry}, Refines x tasks runs options s p →
    EventSystem.exec (x.settle tasks options) s es = some s' →
    ∃ p', EventSystem.exec (Pool.settle options.limit) p (es.map (·.k)) = some p' ∧
      Refines x tasks runs options s' p' := by
  intro es
  induction es with
  | nil =>
    intro s s' p h hs
    cases hs
    exact ⟨p, rfl, h⟩
  | cons e es ih =>
    intro s s' p h hs
    obtain ⟨m, hm, hs⟩ := EventSystem.exec_cons.1 hs
    obtain ⟨q, hq, hqm⟩ := h.settle hc hm
    obtain ⟨p', hp', hs'⟩ := ih hqm hs
    exact ⟨p', EventSystem.exec_cons.2 ⟨q, hq, hp'⟩, hs'⟩

/-- Every run of the pool is one of `executeLevel`, at any times. -/
theorem Refines.exec_of_pool (hc : 1 ≤ options.maxConcurrency) (now : ISODateString) : ∀ {ks : List Nat}
    {s : ParallelCall} {p p' : Pool BatchEntry}, Refines x tasks runs options s p →
    EventSystem.exec (Pool.settle options.limit) p ks = some p' →
    ∃ s', EventSystem.exec (x.settle tasks options) s (ks.map fun k => ⟨k, now⟩) = some s' ∧
      Refines x tasks runs options s' p' := by
  intro ks
  induction ks with
  | nil =>
    intro s p p' h hp
    cases hp
    exact ⟨s, rfl, h⟩
  | cons k ks ih =>
    intro s p p' h hp
    obtain ⟨q, hq, hp⟩ := EventSystem.exec_cons.1 hp
    obtain ⟨b, hb, _⟩ := Option.map_eq_some_iff.1 hq
    rw [h.inFlight, List.getElem?_map] at hb
    obtain ⟨call, hcall, _⟩ := Option.map_eq_some_iff.1 hb
    obtain ⟨m, hm⟩ : ∃ m, x.settle tasks options s ⟨k, now⟩ = some m := by
      unfold ParallelTaskExecutor.settle
      rw [hcall]
      exact ⟨_, rfl⟩
    obtain ⟨q', hq', hqm⟩ := h.settle hc hm
    rw [hq, Option.some.injEq] at hq'
    subst hq'
    obtain ⟨s', hs', href⟩ := ih hqm hp
    exact ⟨s', EventSystem.exec_cons.2 ⟨m, hm, hs'⟩, href⟩

end

/-! ## Which tasks are handed out -/

/-- A status that `nextRunnable` counts as done. -/
def TaskRun.Met (r : TaskRun) : Prop := r.status = .succeeded ∨ r.status = .skipped

/-- `nextRunnable` could have chosen the task at that moment. -/
def HandOut.Ready (h : HandOut) : Prop :=
  (∃ r, h.updated.get h.current.definition.id = some r ∧ ¬ r.Met) ∧
    ∀ dep ∈ h.current.definition.dependencies, ∃ r, h.updated.get dep = some r ∧ r.Met

/-- The handler call for the task succeeds. -/
def ParallelTaskExecutor.Succeeds (x : ParallelTaskExecutor) (options : ParallelExecuteOptions)
    (definition : TaskDefinition) : Prop :=
  ∃ result, TaskSimulator.execute x.simulator definition.handler options.input (x.answer definition.id) =
    .ok result ∧ result.success = true

/-- The call for `dep` has returned whenever `id` is handed out: it is in an earlier level, or there is only one worker
and it comes earlier. -/
def ParallelExecuteOptions.SettledBefore (options : ParallelExecuteOptions) (levels : List (List String))
    (dep id : String) : Prop :=
  levelNumber levels dep < levelNumber levels id ∨
    options.maxConcurrency < 2 ∧ levels.flatten.idxOf dep < levels.flatten.idxOf id

/-- Every planned task with a run is still to be done, and each of its dependencies is a planned task that settles
before it and succeeds, or is not planned and done from the start. -/
def ParallelTaskExecutor.Respected (x : ParallelTaskExecutor) (tasks : List TaskDefinition) (runs : TaskRunMap)
    (options : ParallelExecuteOptions) (levels : List (List String)) : Prop :=
  ∀ b ∈ ParallelTaskExecutor.batch tasks runs levels.flatten, ¬ b.run.Met ∧
    ∀ dep ∈ b.definition.dependencies, ∃ r, runs.get dep = some r ∧
      (dep ∉ levels.flatten → r.Met) ∧
      (dep ∈ levels.flatten → options.SettledBefore levels dep b.definition.id ∧
        ∀ d ∈ tasks.find? (fun t => t.id = dep), x.Succeeds options d)

section
variable {x : ParallelTaskExecutor} {tasks : List TaskDefinition} {runs : TaskRunMap}
  {options : ParallelExecuteOptions}

theorem run_met {b : BatchEntry} {startedAt finishedAt : ISODateString} :
    (x.run options b startedAt finishedAt).task.Met ↔ x.Succeeds options b.definition := by
  unfold ParallelTaskExecutor.run ParallelTaskExecutor.Succeeds TaskExecutor.finish TaskRun.Met
  have hfail : ∀ (message : String), ¬ ((TaskExecutor.handleFailure (TaskExecutor.start b.run startedAt)
      options.policy message finishedAt).task.status = .succeeded ∨ (TaskExecutor.handleFailure
        (TaskExecutor.start b.run startedAt) options.policy message finishedAt).task.status = .skipped) := by
    intro message
    unfold TaskExecutor.handleFailure
    dsimp only
    split <;> simp
  cases hx : TaskSimulator.execute x.simulator b.definition.handler options.input (x.answer b.definition.id) with
  | error message =>
    simp only [reduceCtorEq, false_and, exists_false, iff_false]
    exact hfail message
  | ok result =>
    cases hsuccess : result.success with
    | true => simp [hsuccess]
    | false => 
      simp only [Bool.not_false, if_true, Except.ok.injEq, hsuccess]
      simp [hfail, hsuccess]

theorem batch_flatten (levels : List (List String)) :
    (levels.map (ParallelTaskExecutor.batch tasks runs)).flatten =
      ParallelTaskExecutor.batch tasks runs levels.flatten := by
  unfold ParallelTaskExecutor.batch
  rw [List.filterMap_flatten]

theorem mem_batch_iff {level : List String} {b : BatchEntry} :
    b ∈ ParallelTaskExecutor.batch tasks runs level ↔ b.definition.id ∈ level ∧
      tasks.find? (fun t => t.id = b.definition.id) = some b.definition ∧
      runs.get b.definition.id = some b.run := by
  refine ⟨mem_batch, fun ⟨hid, hdef, hrun⟩ => ?_⟩
  refine List.mem_filterMap.2 ⟨b.definition.id, hid, ?_⟩
  simp [hdef, hrun]

/-- An id has one entry. -/
theorem batch_ext {level level' : List String} {b c : BatchEntry}
    (hb : b ∈ ParallelTaskExecutor.batch tasks runs level) (hc : c ∈ ParallelTaskExecutor.batch tasks runs level')
    (h : b.definition.id = c.definition.id) : b = c := by
  obtain ⟨_, hdb, hrb⟩ := mem_batch hb
  obtain ⟨_, hdc, hrc⟩ := mem_batch hc
  rw [h, hdc, Option.some.injEq] at hdb
  rw [h, hrc, Option.some.injEq] at hrb
  obtain ⟨definition, run⟩ := b
  obtain ⟨definition', run'⟩ := c
  dsimp only at hdb hrb
  rw [hdb, hrb]

theorem batch_nodup {level : List String} (hn : level.Nodup) :
    (ParallelTaskExecutor.batch tasks runs level).Nodup :=
  ((batch_ids runs level).nodup hn).of_map _

variable {levels : List (List String)}

/-- The entries before `b` are those of the ids before its id. -/
theorem batch_before (hn : levels.flatten.Nodup) {n : Nat} {level pre post : List String} {b : BatchEntry}
    {cur rest : List BatchEntry} (hl : levels[n]? = some level)
    (hbatch : ParallelTaskExecutor.batch tasks runs level = cur ++ b :: rest)
    (hsplit : levels.flatten = pre ++ b.definition.id :: post) :
    ParallelTaskExecutor.batch tasks runs pre =
      ParallelTaskExecutor.batch tasks runs (levels.take n).flatten ++ cur := by
  have hb : b ∈ ParallelTaskExecutor.batch tasks runs level := by
    rw [hbatch]
    exact List.mem_append_right _ List.mem_cons_self
  obtain ⟨_, hdef, hrun⟩ := mem_batch hb
  have hids : ParallelTaskExecutor.batch tasks runs levels.flatten =
      ParallelTaskExecutor.batch tasks runs pre ++ b :: ParallelTaskExecutor.batch tasks runs post := by
    rw [hsplit]
    simp [ParallelTaskExecutor.batch, hdef, hrun]
  have hlevels : ParallelTaskExecutor.batch tasks runs levels.flatten =
      (ParallelTaskExecutor.batch tasks runs (levels.take n).flatten ++ cur) ++
        b :: (rest ++ ParallelTaskExecutor.batch tasks runs (levels.drop (n + 1)).flatten) := by
    obtain ⟨hlt, rfl⟩ := List.getElem?_eq_some_iff.1 hl
    have hflat : levels.flatten = (levels.take n).flatten ++ (levels[n] ++ (levels.drop (n + 1)).flatten) := by
      conv_lhs => rw [← List.take_append_drop n levels, List.drop_eq_getElem_cons hlt]
      rw [List.flatten_append, List.flatten_cons]
    rw [hflat]
    unfold ParallelTaskExecutor.batch at hbatch ⊢
    rw [List.filterMap_append, List.filterMap_append, hbatch]
    simp [List.append_assoc]
  have hnodup := @batch_nodup tasks runs _ hn
  have hpre : b ∉ ParallelTaskExecutor.batch tasks runs pre := by
    rw [hids] at hnodup
    exact fun hmem => (List.nodup_append.1 hnodup).2.2 b hmem b List.mem_cons_self rfl
  have hpost : b ∉ ParallelTaskExecutor.batch tasks runs post := by
    rw [hids] at hnodup
    exact (List.nodup_cons.1 (List.nodup_append.1 hnodup).2.1).1
  exact ((List.append_cons_inj_of_notMem hpre hpost).1 (hids.symm.trans hlevels)).1

/-- What had settled when `b` was handed out, in terms of the plan. -/
theorem handOut_order (hn : levels.flatten.Nodup) {b : BatchEntry} {settled : List BatchEntry}
    (h : LevelPool.HandOutOk (levels.map (ParallelTaskExecutor.batch tasks runs)) options.limit b settled) :
    b ∈ ParallelTaskExecutor.batch tasks runs levels.flatten ∧
    (∀ c ∈ settled, c ∈ ParallelTaskExecutor.batch tasks runs levels.flatten ∧
      levels.flatten.idxOf c.definition.id < levels.flatten.idxOf b.definition.id) ∧
    (∀ c ∈ ParallelTaskExecutor.batch tasks runs levels.flatten,
      options.SettledBefore levels c.definition.id b.definition.id → c ∈ settled) ∧
    (∀ c ∈ settled, levelNumber levels c.definition.id < levelNumber levels b.definition.id ∨
      ∃ level ∈ levels, c ∈ ParallelTaskExecutor.batch tasks runs level ∧
        b ∈ ParallelTaskExecutor.batch tasks runs level) := by
  obtain ⟨n, cur, rest, waiting, hlevel, hperm, hcur, hlt⟩ := h
  obtain ⟨level, hl, hbatch⟩ : ∃ level, levels[n]? = some level ∧
      ParallelTaskExecutor.batch tasks runs level = cur ++ b :: rest := by
    rw [List.getElem?_map] at hlevel
    exact Option.map_eq_some_iff.1 hlevel
  have hbl : b ∈ ParallelTaskExecutor.batch tasks runs level := by
    rw [hbatch]
    exact List.mem_append_right _ List.mem_cons_self
  have hb : b ∈ ParallelTaskExecutor.batch tasks runs levels.flatten := by
    obtain ⟨hid, hrest⟩ := mem_batch hbl
    exact mem_batch_iff.2 ⟨List.mem_flatten.2 ⟨level, List.mem_of_getElem? hl, hid⟩, hrest⟩
  obtain ⟨pre, post, hsplit, hpre⟩ := List.eq_append_cons_of_mem (mem_batch hb).1
  have hbefore := batch_before hn hl hbatch hsplit
  rw [← List.map_take, batch_flatten, ← hbefore] at hperm
  have hindex : ∀ id, levels.flatten.idxOf id < levels.flatten.idxOf b.definition.id ↔ id ∈ pre := by
    intro id
    rw [hsplit, List.idxOf_append_of_notMem hpre, List.idxOf_cons_self, Nat.add_zero]
    by_cases hid : id ∈ pre
    · rw [List.idxOf_append_of_mem hid]
      exact iff_of_true (List.idxOf_lt_length_iff.2 hid) hid
    · rw [List.idxOf_append_of_notMem hid]
      exact iff_of_false (by omega) hid
  have hnumber : levelNumber levels b.definition.id = n := by
    refine DependencyGraph.levelNumber_of_mem hl (mem_batch hbl).1 fun hmem => ?_
    rw [← List.take_append_drop n levels, List.flatten_append] at hn
    refine (List.nodup_append.1 hn).2.2 _ hmem _ ?_ rfl
    refine List.mem_flatten.2 ⟨level, ?_, (mem_batch hbl).1⟩
    exact List.mem_of_getElem? (i := 0) (by rw [List.getElem?_drop, Nat.add_zero, hl])
  have hearlier : ∀ id ∈ pre, id ∈ levels.flatten := fun id hid => by
    rw [hsplit]
    exact List.mem_append_left _ hid
  have hin : ∀ c ∈ settled, c ∈ ParallelTaskExecutor.batch tasks runs pre := fun c hc =>
    hperm.mem_iff.1 (List.mem_append_left _ hc)
  refine ⟨hb, fun c hc => ?_, fun c hc hbefore' => ?_, fun c hc => ?_⟩
  · obtain ⟨hid, hrest⟩ := mem_batch (hin c hc)
    exact ⟨mem_batch_iff.2 ⟨hearlier _ hid, hrest⟩, (hindex _).2 hid⟩
  · obtain ⟨hid, hrest⟩ := mem_batch hc
    rcases hbefore' with hnum | ⟨htwo, hidx⟩
    · have hmem : c ∈ ParallelTaskExecutor.batch tasks runs (levels.take n).flatten :=
        mem_batch_iff.2 ⟨DependencyGraph.mem_of_levelNumber_lt hid (hnumber ▸ hnum), hrest⟩
      have hpre' : c ∈ ParallelTaskExecutor.batch tasks runs pre := by
        rw [hbefore]
        exact List.mem_append_left _ hmem
      refine (List.mem_append.1 (hperm.mem_iff.2 hpre')).resolve_right fun hwait => ?_
      have hnodup : (ParallelTaskExecutor.batch tasks runs pre).Nodup := by
        refine batch_nodup ?_
        rw [hsplit] at hn
        exact (List.nodup_append.1 hn).1
      rw [hbefore] at hnodup
      exact (List.nodup_append.1 hnodup).2.2 c hmem c (hcur c hwait) rfl
    · have hpre' : c ∈ ParallelTaskExecutor.batch tasks runs pre := mem_batch_iff.2 ⟨(hindex _).1 hidx, hrest⟩
      refine (List.mem_append.1 (hperm.mem_iff.2 hpre')).resolve_right fun hwait => ?_
      have hpos := List.length_pos_of_mem hwait
      have hfloor : options.maxConcurrency.floor < 2 := Rat.floor_lt_iff.2 (by exact_mod_cast htwo)
      unfold ParallelExecuteOptions.limit at hlt
      omega
  · have hpre' := hin c hc
    rw [hbefore] at hpre'
    rcases List.mem_append.1 hpre' with hmem | hmem
    · refine .inl ?_
      rw [hnumber]
      exact DependencyGraph.levelNumber_lt (mem_batch hmem).1
    · refine .inr ⟨level, List.mem_of_getElem? hl, ?_, hbl⟩
      rw [hbatch]
      exact List.mem_append_left _ hmem

/-- The map at a hand-out, in terms of what had settled. -/
theorem handed_spec {s : ParallelCall} {p : Pool BatchEntry} (h : Refines x tasks runs options s p) {a : HandOut}
    (ha : a ∈ s.handed) : ∃ settled, (a.current, settled) ∈ p.log ∧ Content x runs options settled a.updated := by
  obtain ⟨i, hi, rfl⟩ := List.mem_iff_getElem.1 ha
  have hlen := h.handed.length_eq
  have hi' : i < p.log.length := by omega
  obtain ⟨hcur, hcontent⟩ := List.forall₂_iff_get.1 h.handed |>.2 i hi hi'
  simp only [List.get_eq_getElem] at hcur hcontent
  refine ⟨p.log[i].2, ?_, hcontent⟩
  rw [hcur]
  exact List.getElem_mem hi'

theorem exists_handed {s : ParallelCall} {p : Pool BatchEntry} (h : Refines x tasks runs options s p)
    {e : BatchEntry × List BatchEntry} (he : e ∈ p.log) :
    ∃ a ∈ s.handed, a.current = e.1 ∧ Content x runs options e.2 a.updated := by
  obtain ⟨i, hi, rfl⟩ := List.mem_iff_getElem.1 he
  have hlen := h.handed.length_eq
  have hi' : i < s.handed.length := by omega
  obtain ⟨hcur, hcontent⟩ := List.forall₂_iff_get.1 h.handed |>.2 i hi' hi
  simp only [List.get_eq_getElem] at hcur hcontent
  exact ⟨_, List.getElem_mem hi', hcur, hcontent⟩

theorem exists_entry (hids : ∀ id ∈ levels.flatten, id ∈ tasks.map (·.id)) {id : String} (hid : id ∈ levels.flatten)
    {r : TaskRun} (hr : runs.get id = some r) : ∃ d, tasks.find? (fun t => t.id = id) = some d ∧ d.id = id ∧
      ⟨d, r⟩ ∈ ParallelTaskExecutor.batch tasks runs levels.flatten := by
  obtain ⟨t, ht, hti⟩ := List.mem_map.1 (hids id hid)
  obtain ⟨d, hd⟩ : ∃ d, tasks.find? (fun t => t.id = id) = some d := by
    refine Option.isSome_iff_exists.1 (List.find?_isSome.2 ⟨t, ht, ?_⟩)
    simpa using hti
  have hdid : d.id = id := by simpa using List.find?_some hd
  refine ⟨d, hd, hdid, mem_batch_iff.2 ⟨?_, ?_, ?_⟩⟩
  · rwa [hdid]
  · rwa [hdid]
  · rwa [hdid]

/-- The map has the run that is handed out. -/
theorem own_run (hn : levels.flatten.Nodup) {a : HandOut} {settled : List BatchEntry}
    (hok : LevelPool.HandOutOk (levels.map (ParallelTaskExecutor.batch tasks runs)) options.limit a.current settled)
    (hcontent : Content x runs options settled a.updated) :
    a.updated.get a.current.definition.id = some a.current.run := by
  obtain ⟨hb, hsettled, _⟩ := handOut_order hn hok
  obtain ⟨_, _, hget⟩ := mem_batch hb
  rw [hcontent.given _ fun c hc he => ?_, hget]
  have := (hsettled c hc).2
  rw [he] at this
  omega

/-- A hand-out at which the condition is met is one that the sequential scheduler could make. -/
theorem ready_of_respected (hids : ∀ id ∈ levels.flatten, id ∈ tasks.map (·.id)) (hn : levels.flatten.Nodup)
    (h : x.Respected tasks runs options levels) {a : HandOut} {settled : List BatchEntry}
    (hok : LevelPool.HandOutOk (levels.map (ParallelTaskExecutor.batch tasks runs)) options.limit a.current settled)
    (hcontent : Content x runs options settled a.updated) : a.Ready := by
  obtain ⟨hb, hsettled, hbefore, _⟩ := handOut_order hn hok
  obtain ⟨hrun, hdeps⟩ := h a.current hb
  refine ⟨⟨a.current.run, own_run hn hok hcontent, hrun⟩, fun dep hdep => ?_⟩
  obtain ⟨r, hr, hfree, hplanned⟩ := hdeps dep hdep
  by_cases hmem : dep ∈ levels.flatten
  · obtain ⟨hsb, hsucceeds⟩ := hplanned hmem
    obtain ⟨d, hd, rfl, hc⟩ := exists_entry hids hmem hr
    obtain ⟨startedAt, finishedAt, hresult⟩ := hcontent.result _ (hbefore _ hc hsb)
    exact ⟨_, hresult, run_met.2 (hsucceeds d hd)⟩
  · refine ⟨r, ?_, hfree hmem⟩
    rw [hcontent.given _ fun c hc he => ?_, hr]
    exact hmem (he ▸ (mem_batch (hsettled c hc).1).1)

/-- The result of a dependency counts only when its call has returned, and it would be handed out too. -/
theorem settled_of_ready (hids : ∀ id ∈ levels.flatten, id ∈ tasks.map (·.id)) {dep : String}
    (hmem : dep ∈ levels.flatten) {r : TaskRun} (hr : runs.get dep = some r) (hnot : ¬ r.Met)
    {a : HandOut} {settled : List BatchEntry} (hcontent : Content x runs options settled a.updated) (hready : a.Ready)
    (hsettled : ∀ c ∈ settled, c ∈ ParallelTaskExecutor.batch tasks runs levels.flatten)
    (hdep : dep ∈ a.current.definition.dependencies) :
    ∃ d, tasks.find? (fun t => t.id = dep) = some d ∧ d.id = dep ∧ ⟨d, r⟩ ∈ settled ∧ x.Succeeds options d := by
  obtain ⟨d, hd, rfl, hc⟩ := exists_entry hids hmem hr
  obtain ⟨r', hr', hmet⟩ := hready.2 d.id hdep
  have hin : (⟨d, r⟩ : BatchEntry) ∈ settled := by
    by_contra hout
    rw [hcontent.given d.id fun c hc' he => hout (batch_ext (hsettled c hc') hc he ▸ hc'), hr,
      Option.some.injEq] at hr'
    exact hnot (hr' ▸ hmet)
  obtain ⟨startedAt, finishedAt, hresult⟩ := hcontent.result _ hin
  rw [hresult, Option.some.injEq] at hr'
  subst hr'
  exact ⟨d, hd, rfl, hin, run_met.1 hmet⟩

/-- If every hand-out of every run of the pool is ready, nothing depends on a status. -/
theorem respected_of_ready (hids : ∀ id ∈ levels.flatten, id ∈ tasks.map (·.id)) (hn : levels.flatten.Nodup)
    (hc : 1 ≤ options.maxConcurrency)
    (h : ∀ ks p, EventSystem.exec (Pool.settle options.limit)
      (Pool.start options.limit (levels.map (ParallelTaskExecutor.batch tasks runs))) ks = some p →
      ∀ e ∈ p.log, ∃ a : HandOut, a.current = e.1 ∧ a.Ready ∧ Content x runs options e.2 a.updated) :
    x.Respected tasks runs options levels := by
  have hflat := @batch_flatten tasks runs levels
  obtain ⟨ks, p, hks, hhanded, _⟩ := LevelPool.exists_complete (J := fun _ => True) (limit_pos hc) (fun _ => 0)
    (fun _ hne => List.length_pos_of_ne_nil hne) (fun _ _ _ _ _ => trivial)
    (@LevelPool.inv_start _ (levels.map (ParallelTaskExecutor.batch tasks runs)) _ (limit_pos hc)) trivial
  rw [hflat] at hhanded
  -- in a complete run every entry is handed out
  have hlog : ∀ b ∈ ParallelTaskExecutor.batch tasks runs levels.flatten, ∃ settled, ∃ a : HandOut, a.current = b ∧
      a.Ready ∧ Content x runs options settled a.updated ∧ LevelPool.HandOutOk
        (levels.map (ParallelTaskExecutor.batch tasks runs)) options.limit a.current settled := by
    intro b hb
    rw [← hhanded] at hb
    obtain ⟨e, he, rfl⟩ := List.mem_map.1 hb
    obtain ⟨a, hcur, hready, hcontent⟩ := h ks p hks e he
    refine ⟨e.2, a, hcur, hready, hcontent, ?_⟩
    rw [hcur]
    exact LevelPool.handOut_spec (limit_pos hc) hks e he
  have hnot : ∀ b ∈ ParallelTaskExecutor.batch tasks runs levels.flatten, ¬ b.run.Met := by
    intro b hb
    obtain ⟨settled, a, rfl, hready, hcontent, hok⟩ := hlog b hb
    obtain ⟨r, hr, hmet⟩ := hready.1
    rw [own_run hn hok hcontent, Option.some.injEq] at hr
    exact hr ▸ hmet
  intro b hb
  refine ⟨hnot b hb, fun dep hdep => ?_⟩
  obtain ⟨settled, a, rfl, hready, hcontent, hok⟩ := hlog b hb
  obtain ⟨_, hsettled, _⟩ := handOut_order hn hok
  obtain ⟨r', hr', hmet⟩ := hready.2 dep hdep
  have hrun : ∃ r, runs.get dep = some r ∧ (dep ∉ levels.flatten → r.Met) := by
    by_cases hin : ∃ c ∈ settled, c.definition.id = dep
    · obtain ⟨c, hcs, rfl⟩ := hin
      obtain ⟨hid, _, hget⟩ := mem_batch (hsettled c hcs).1
      exact ⟨c.run, hget, fun hout => absurd hid hout⟩
    · rw [hcontent.given dep fun c hcs he => hin ⟨c, hcs, he⟩] at hr'
      exact ⟨r', hr', fun _ => hmet⟩
  obtain ⟨r, hr, hfree⟩ := hrun
  refine ⟨r, hr, hfree, fun hmem => ?_⟩
  obtain ⟨d, hd, rfl, hentry⟩ := exists_entry hids hmem hr
  have hsin : ∀ c ∈ settled, c ∈ ParallelTaskExecutor.batch tasks runs levels.flatten := fun c hcs => (hsettled c hcs).1
  obtain ⟨d', hd', _, hds, hsucceeds⟩ :=
    settled_of_ready hids hmem hr (hnot _ hentry) hcontent hready hsin hdep
  rw [hd, Option.some.injEq] at hd'
  subst hd'
  refine ⟨?_, fun e he => ?_⟩
  · by_cases htwo : options.maxConcurrency < 2
    · exact .inr ⟨htwo, (hsettled _ hds).2⟩
    · -- with two workers the dependency can be kept in flight while its whole level is handed out
      have hlimit : 2 ≤ options.limit := by
        have : 2 ≤ options.maxConcurrency.floor := Rat.le_floor_iff.2 (by exact_mod_cast le_of_not_gt htwo)
        unfold ParallelExecuteOptions.limit
        omega
      have hnodup : (levels.map (ParallelTaskExecutor.batch tasks runs)).flatten.Nodup := by
        rw [hflat]
        exact batch_nodup hn
      obtain ⟨level, hlevel, hin⟩ : ∃ level ∈ levels.map (ParallelTaskExecutor.batch tasks runs), ⟨d, r⟩ ∈ level := by
        rw [← hflat] at hentry
        exact List.mem_flatten.1 hentry
      obtain ⟨m, hm⟩ := List.mem_iff_getElem?.1 hlevel
      obtain ⟨ks', p', hks', hhanded', havoid⟩ := LevelPool.exists_avoiding hlimit hnodup hm hin
      rw [hflat] at hhanded'
      rw [← hhanded'] at hb
      obtain ⟨e, he, hcur⟩ := List.mem_map.1 hb
      obtain ⟨a', hcur', hready', hcontent'⟩ := h ks' p' hks' e he
      have hok' := LevelPool.handOut_spec (limit_pos hc) hks' e he
      obtain ⟨_, hsettled', _, hlevels'⟩ := handOut_order hn hok'
      obtain ⟨d', hd', _, hds', _⟩ := settled_of_ready hids hmem hr (hnot _ hentry) hcontent' hready'
        (fun c hcs => (hsettled' c hcs).1) (by rwa [hcur', hcur])
      rw [hd, Option.some.injEq] at hd'
      subst hd'
      rw [← hcur]
      rcases hlevels' _ hds' with hlt | ⟨l, hl, hcl, hbl⟩
      · exact .inl hlt
      · obtain ⟨n, hln⟩ := List.mem_iff_getElem?.1 hl
        have hbatch : (levels.map (ParallelTaskExecutor.batch tasks runs))[n]? =
            some (ParallelTaskExecutor.batch tasks runs l) := by
          rw [List.getElem?_map, hln, Option.map_some]
        have hsame := LevelPool.level_unique hnodup hm hbatch hin hcl
        exact absurd hds' (havoid e he (hsame ▸ hbl))
  · rw [hd, Option.mem_some_iff] at he
    exact he ▸ hsucceeds

end

/-- `executeLevel` hands out only tasks that the sequential scheduler could choose, in every interleaving, exactly when
the tasks to be run and what their dependencies return are such that no status has to be looked at. -/
theorem parallel_respects_iff {x : ParallelTaskExecutor} {tasks : List TaskDefinition} {runs : TaskRunMap}
    {options : ParallelExecuteOptions} (hacyclic : DagPlanner.Acyclic tasks) (hc : 1 ≤ options.maxConcurrency) :
    ∃ plan, DagPlanner.plan tasks = .ok plan ∧
      ((∀ now s₀ es s, ParallelTaskExecutor.executeLevel tasks runs options now = .ok s₀ →
        EventSystem.exec (x.settle tasks options) s₀ es = some s → ∀ a ∈ s.handed, a.Ready) ↔
      x.Respected tasks runs options plan.levels) := by
  obtain ⟨plan, hplan, hspec⟩ := DagPlanner.plan_acyclic hacyclic
  have hn : plan.levels.flatten.Nodup := by simpa using hspec.nodup List.nodup_nil
  have hids := DagPlanner.planned_ids hspec
  refine ⟨plan, hplan, fun h => ?_, fun h now s₀ es s hstart hes a ha => ?_⟩
  · refine respected_of_ready hids hn hc fun ks p hks e he => ?_
    obtain ⟨s₀, hstart, href⟩ := @executeLevel_refines x _ runs _ hc _ hplan hn ""
    obtain ⟨s, hs, hrefines⟩ := href.exec_of_pool hc "" hks
    obtain ⟨a, ha, hcur, hcontent⟩ := exists_handed hrefines he
    exact ⟨a, hcur, h "" s₀ _ s hstart hs a ha, hcontent⟩
  · obtain ⟨s₁, hs₁, href⟩ := @executeLevel_refines x _ runs _ hc _ hplan hn now
    rw [hstart, Except.ok.injEq] at hs₁
    subst hs₁
    obtain ⟨p, hp, hrefines⟩ := href.exec hc hes
    obtain ⟨settled, hlog, hcontent⟩ := handed_spec hrefines ha
    exact ready_of_respected hids hn h (LevelPool.handOut_spec (limit_pos hc) hp _ hlog) hcontent

def sampleOptions : ParallelExecuteOptions := ⟨2, DEFAULT_RETRY_POLICY, []⟩

/-- The handlers of the tasks in `fails` throw. -/
def sampleExecutor (fails : List String) : ParallelTaskExecutor where
  simulator := ⟨["reconcile.extract", "report.aggregate"], 0⟩
  answer := fun id => ⟨if id ∈ fails then .throws "down" else .returns ⟨true, []⟩, 0, "t"⟩

/-- A queued run for each task of `extract` and `report`, which depends on it. -/
def sampleRuns : TaskRunMap :=
  InsertionMap.ofList ((sampleRepeated ["extract"]).tasks.map fun t =>
    (t.id, createTaskRun ("task_" ++ t.id) "run_1" t.id t.handler))

theorem parallel_respects_iff_sample : ∃ plan, DagPlanner.plan (sampleRepeated ["extract"]).tasks = .ok plan ∧
    ((∀ now s₀ es s, ParallelTaskExecutor.executeLevel (sampleRepeated ["extract"]).tasks sampleRuns sampleOptions now =
        .ok s₀ → EventSystem.exec ((sampleExecutor []).settle (sampleRepeated ["extract"]).tasks sampleOptions) s₀ es =
        some s → ∀ a ∈ s.handed, a.Ready) ↔
      (sampleExecutor []).Respected (sampleRepeated ["extract"]).tasks sampleRuns sampleOptions plan.levels) :=
  parallel_respects_iff (checkedTasks (by decide) (by decide)).acyclic (by decide)

/-- The handler of `extract` throws, and `report` is handed to the executor all the same. -/
theorem failed_dependency_ignored : DagPlanner.Acyclic (sampleRepeated ["extract"]).tasks ∧
    1 ≤ sampleOptions.maxConcurrency ∧
    ¬ ∀ now s₀ es s, ParallelTaskExecutor.executeLevel (sampleRepeated ["extract"]).tasks sampleRuns sampleOptions now =
        .ok s₀ → EventSystem.exec ((sampleExecutor ["extract"]).settle (sampleRepeated ["extract"]).tasks sampleOptions)
        s₀ es = some s → ∀ a ∈ s.handed, a.Ready := by
  refine ⟨(checkedTasks (by decide) (by decide)).acyclic, by decide, fun h => ?_⟩
  obtain ⟨s₀, s, a, hstart, hes, ha, hdeps, hstatus⟩ : ∃ s₀ s a,
      ParallelTaskExecutor.executeLevel (sampleRepeated ["extract"]).tasks sampleRuns sampleOptions "t" = .ok s₀ ∧
      EventSystem.exec ((sampleExecutor ["extract"]).settle (sampleRepeated ["extract"]).tasks sampleOptions) s₀
        [⟨0, "t"⟩] = some s ∧ s.handed.getLast? = some a ∧ a.current.definition.dependencies = ["extract"] ∧
        (a.updated.get "extract").map TaskRun.status = some .retrying :=
    ⟨_, _, _, rfl, rfl, rfl, rfl, by decide⟩
  obtain ⟨r, hr, hmet⟩ := (h "t" s₀ _ s hstart hes a (List.mem_of_getLast? ha)).2 "extract" (by simp [hdeps])
  rw [hr, Option.map_some, Option.some.injEq] at hstatus
  unfold TaskRun.Met at hmet
  rw [hstatus] at hmet
  simp at hmet

end Jobflow
