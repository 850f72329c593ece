import Jobflow.ParallelExecutor

/-!
# What a parallel execution does (src/engine/parallel-executor.ts)

Every planned task with a run is handed to the executor once, with no more than `maxConcurrency` calls at a time and
level by level, and the map that `executeLevel` returns has the result of each call under its task (`executes_once`).
The calls that have returned are read off a run (`returned`); the rest is what the pool of `LevelPool` keeps.
-/

namespace Jobflow

open LevelPool (Pool)
open DependencyGraph (levelNumber)

/-- A call that has returned, and when. -/
structure Returned where
  call : ExecutorCall
  finishedAt : ISODateString

def Returned.id (r : Returned) : String := r.call.current.definition.id

/-- The call that an event settles. -/
def ParallelCall.returning (s : ParallelCall) (e : Settles) : Option Returned :=
  (s.inFlight[e.k]?).map fun call => ⟨call, e.now⟩

/-- The calls that return in a run, in this order. -/
def ParallelTaskExecutor.returned (x : ParallelTaskExecutor) (tasks : List TaskDefinition)
    (options : ParallelExecuteOptions) (s : ParallelCall) (es : List Settles) : List Returned :=
  EventSystem.trace (x.settle tasks options) ParallelCall.returning s es

/-- The task run that the call's own result holds. -/
def ParallelTaskExecutor.resultOf (x : ParallelTaskExecutor) (options : ParallelExecuteOptions) (r : Returned) :
    TaskRun :=
  (x.run options r.call.current r.call.startedAt r.finishedAt).task

/-- What holds of an `executeLevel` at any moment, `returned` being the calls that have returned; it has returned itself
when no call is in flight. -/
structure ExecutesOnce (x : ParallelTaskExecutor) (tasks : List TaskDefinition) (runs : TaskRunMap)
    (options : ParallelExecuteOptions) (levels : List (List String)) (returned : List Returned) (s : ParallelCall) :
    Prop where
  /-- Only planned tasks with a run are handed out, with their definition and this run. -/
  planned : ∀ a ∈ s.handed, a.current.definition.id ∈ levels.flatten ∧
    tasks.find? (fun t => t.id = a.current.definition.id) = some a.current.definition ∧
    runs.get a.current.definition.id = some a.current.run
  /-- No task is handed out twice. -/
  once : (s.handed.map (·.current.definition.id)).Nodup
  /-- In the end every planned task with a run has been handed out. -/
  complete : s.inFlight = [] → ∀ id ∈ levels.flatten, (runs.get id).isSome →
    ∃ a ∈ s.handed, a.current.definition.id = id
  /-- What has been handed out has returned or is in flight. -/
  calls : (returned.map (·.call.current) ++ s.inFlight.map (·.current)).Perm (s.handed.map (·.current))
  width : (s.inFlight.length : Rat) ≤ options.maxConcurrency
  /-- While a task is in flight, all tasks of earlier levels have returned. -/
  order : ∀ call ∈ s.inFlight, ∀ id ∈ levels.flatten, (runs.get id).isSome →
    levelNumber levels id < levelNumber levels call.current.definition.id → ∃ r ∈ returned, r.id = id
  /-- The map has the result of each call that has returned. -/
  own : ∀ r ∈ returned, s.updated.get r.id = some (x.resultOf options r)
  /-- Everything else in the map is as given. -/
  others : ∀ id, (∀ r ∈ returned, r.id ≠ id) → s.updated.get id = runs.get id

section
variable {x : ParallelTaskExecutor} {tasks : List TaskDefinition} {runs : TaskRunMap}
  {options : ParallelExecuteOptions}

/-! ## The map -/

theorem ParallelCall.take_updated (now : ISODateString) : ∀ (k : Nat) (s : ParallelCall),
    (s.take now k).updated = s.updated := by
  intro k
  induction k with
  | zero => exact fun _ => rfl
  | succ k ih =>
    intro s
    unfold take
    split
    · rfl
    · rw [ih]

theorem ParallelTaskExecutor.runLevels_updated (now : ISODateString) : ∀ (levels : List (List String))
    (s : ParallelCall), (runLevels tasks options now levels s).updated = s.updated := by
  intro levels
  induction levels with
  | nil => exact fun _ => rfl
  | cons level levels ih =>
    intro s
    unfold runLevels
    dsimp only
    split
    · rw [ih, ParallelCall.take_updated]
    · rw [ParallelCall.take_updated]

/-- `updated.set(current.def.id, result.task)`, and nothing else. -/
theorem ParallelTaskExecutor.settle_updated {s s' : ParallelCall} {e : Settles}
    (h : x.settle tasks options s e = some s') : ∃ r, s.returning e = some r ∧
      s'.updated = s.updated.set r.id (x.resultOf options r) := by
  obtain ⟨call, hcall, rfl⟩ := Option.map_eq_some_iff.1 h
  refine ⟨⟨call, e.now⟩, by rw [ParallelCall.returning, hcall, Option.map_some], ?_⟩
  dsimp only
  split
  · rw [runLevels_updated, ParallelCall.take_updated]
    rfl
  · rw [ParallelCall.take_updated]
    rfl

variable (x options) in
/-- The results of the calls that have returned, and the pool's account of them. -/
structure Results (returned : List Returned) (p : Pool BatchEntry) (updated : TaskRunMap) : Prop where
  settled : p.settled = returned.map (·.call.current)
  own : ∀ r ∈ returned, updated.get r.id = some (x.resultOf options r)

theorem Refines.settle_results (hc : 1 ≤ options.maxConcurrency) {s s' : ParallelCall} {p : Pool BatchEntry}
    {returned : List Returned} (h : Refines x tasks runs options s p)
    (hresults : Results x options returned p s.updated)
    {e : Settles} (hs : x.settle tasks options s e = some s') :
    ∃ p', p.settle options.limit e.k = some p' ∧ Refines x tasks runs options s' p' ∧
      Results x options (returned ++ (s.returning e).toList) p' s'.updated := by
  obtain ⟨p', hp', hrefines⟩ := h.settle hc hs
  obtain ⟨r, hr, hupdated⟩ := ParallelTaskExecutor.settle_updated hs
  obtain ⟨b, hb, hextends⟩ := LevelPool.settle_extends hp'
  obtain ⟨call, hcall, rfl⟩ := Option.map_eq_some_iff.1 hr
  have hbr : b = call.current := by
    rw [h.inFlight, List.getElem?_map, hcall, Option.map_some, Option.some.injEq] at hb
    exact hb.symm
  have hsettled : p'.settled = returned.map (·.call.current) ++ [call.current] := by
    rw [hextends.settled, hresults.settled, hbr]
  rw [hr, Option.toList_some]
  refine ⟨p', hp', hrefines, by simp [hsettled], fun r' hr' => ?_⟩
  rw [hupdated]
  rcases List.mem_append.1 hr' with hr' | hr'
  · -- another call, so another task
    have honce := hrefines.once
    rw [hsettled, List.map_append, List.map_append, List.map_append, List.append_assoc, List.append_assoc] at honce
    have hne : r'.id ≠ Returned.id ⟨call, e.now⟩ :=
      (List.nodup_append.1 honce).2.2 r'.id (by simpa using ⟨r', hr', rfl⟩) _ (by simp [Returned.id])
    rw [InsertionMap.get_set_ne _ _ (Ne.symm hne)]
    exact hresults.own r' hr'
  · obtain rfl := List.mem_singleton.1 hr'
    exact InsertionMap.get_set_self _ _ _

theorem Refines.exec_results (hc : 1 ≤ options.maxConcurrency) : ∀ {es : List Settles} {s s' : ParallelCall}
    {p : Pool BatchEntry} {returned : List Returned}, Refines x tasks runs options s p →
    Results x options returned p s.updated → EventSystem.exec (x.settle tasks options) s es = some s' →
    ∃ p', EventSystem.exec (Pool.settle options.limit) p (es.map (·.k)) = some p' ∧
      Refines x tasks runs options s' p' ∧
      Results x options (returned ++ x.returned tasks options s es) p' s'.updated := by
  intro es
  induction es with
  | nil =>
    intro s s' p returned h hresults hs
    cases hs
    rw [ParallelTaskExecutor.returned, EventSystem.trace, List.append_nil]
    exact ⟨p, rfl, h, hresults⟩
  | cons e es ih =>
    intro s s' p returned h hresults hs
    obtain ⟨m, hm, hs⟩ := EventSystem.exec_cons.1 hs
    obtain ⟨q, hq, hqm, hresults'⟩ := h.settle_results hc hresults hm
    obtain ⟨p', hp', hrest⟩ := ih hqm hresults' hs
    refine ⟨p', EventSystem.exec_cons.2 ⟨q, hq, hp'⟩, ?_⟩
    rw [List.append_assoc] at hrest
    simpa only [ParallelTaskExecutor.returned, EventSystem.trace, hm] using hrest

/-! ## Every task once -/

variable {levels : List (List String)}

/-- Where a task in flight stands: everything of the levels before its own has settled. -/
theorem Refines.earlier_settled {s : ParallelCall} {p : Pool BatchEntry} (h : Refines x tasks runs options s p)
    (hn : levels.flatten.Nodup)
    (hinv : LevelPool.Inv (levels.map (ParallelTaskExecutor.batch tasks runs)) options.limit p)
    {call : ExecutorCall} (hcall : call ∈ s.inFlight) {c : BatchEntry}
    (hc : c ∈ ParallelTaskExecutor.batch tasks runs levels.flatten)
    (hlt : levelNumber levels c.definition.id < levelNumber levels call.current.definition.id) : c ∈ p.settled := by
  have hflight : call.current ∈ p.inFlight := h.inFlight ▸ List.mem_map_of_mem hcall
  have hnodup : (levels.map (ParallelTaskExecutor.batch tasks runs)).flatten.Nodup := by
    rw [batch_flatten]
    exact batch_nodup hn
  obtain ⟨n, batch, hbatch, hmem, hearlier⟩ := hinv.earlier_settled hnodup hflight
  rw [List.getElem?_map] at hbatch
  obtain ⟨level, hlevel, rfl⟩ := Option.map_eq_some_iff.1 hbatch
  have hnumber : levelNumber levels call.current.definition.id = n := by
    refine DependencyGraph.levelNumber_of_mem hlevel (mem_batch hmem).1 fun hbefore => ?_
    rw [← List.take_append_drop n levels, List.flatten_append] at hn
    have hdrop : level ∈ levels.drop n :=
      List.mem_of_getElem? (i := 0) (by rw [List.getElem?_drop, Nat.add_zero, hlevel])
    exact (List.nodup_append.1 hn).2.2 _ hbefore _ (List.mem_flatten.2 ⟨level, hdrop, (mem_batch hmem).1⟩) rfl
  refine hearlier c ?_
  rw [← List.map_take, batch_flatten]
  obtain ⟨hid, hrest⟩ := mem_batch hc
  exact mem_batch_iff.2 ⟨DependencyGraph.mem_of_levelNumber_lt hid (hnumber ▸ hlt), hrest⟩

theorem Refines.executesOnce (hc : 1 ≤ options.maxConcurrency) {s : ParallelCall} {p : Pool BatchEntry}
    {returned : List Returned} (h : Refines x tasks runs options s p)
    (hresults : Results x options returned p s.updated)
    (hids : ∀ id ∈ levels.flatten, id ∈ tasks.map (·.id)) (hn : levels.flatten.Nodup)
    (hinv : LevelPool.Inv (levels.map (ParallelTaskExecutor.batch tasks runs)) options.limit p) :
    ExecutesOnce x tasks runs options levels returned s := by
  have hhanded : s.handed.map (·.current) = p.handed := by
    rw [Pool.handed, ← List.forall₂_eq_eq_eq, List.forall₂_map_left_iff, List.forall₂_map_right_iff]
    exact h.handed.imp fun _ _ hcur => hcur.1
  have hhand := hinv.handed_prefix
  rw [batch_flatten, ← hhanded] at hhand
  exact
    { planned := fun a ha => mem_batch (hhand.subset (List.mem_map_of_mem ha))
      once := by
        have hsub := hhand.sublist.map (·.definition.id)
        rw [List.map_map] at hsub
        exact hsub.nodup ((batch_ids runs levels.flatten).nodup hn)
      complete := fun hidle id hid hrun => by
        obtain ⟨r, hr⟩ := Option.isSome_iff_exists.1 hrun
        obtain ⟨d, -, rfl, hmem⟩ := exists_entry hids hid hr
        have hall := hinv.handed_of_idle (by rw [h.inFlight, hidle, List.map_nil])
        rw [batch_flatten, ← hhanded] at hall
        rw [← hall] at hmem
        obtain ⟨a, ha, hcur⟩ := List.mem_map.1 hmem
        exact ⟨a, ha, congrArg (·.definition.id) hcur⟩
      calls := by
        rw [hhanded, ← hresults.settled, ← h.inFlight]
        exact hinv.settled_perm
      width := by
        have hwidth := hinv.width
        rw [h.inFlight, List.length_map] at hwidth
        have hfloor : (s.inFlight.length : Int) ≤ options.maxConcurrency.floor := by
          have := limit_pos hc
          unfold ParallelExecuteOptions.limit at hwidth this
          omega
        exact_mod_cast Rat.le_floor_iff.1 hfloor
      order := fun call hcall id hid hrun hlt => by
        obtain ⟨r, hr⟩ := Option.isSome_iff_exists.1 hrun
        obtain ⟨d, -, rfl, hmem⟩ := exists_entry hids hid hr
        have hsettled := h.earlier_settled hn hinv hcall hmem hlt
        rw [hresults.settled] at hsettled
        obtain ⟨r', hr', hcur⟩ := List.mem_map.1 hsettled
        exact ⟨r', hr', congrArg (·.definition.id) hcur⟩
      own := hresults.own
      others := fun id hother => by
        refine h.updated.given id fun b hb => ?_
        rw [hresults.settled] at hb
        obtain ⟨r, hr, rfl⟩ := List.mem_map.1 hb
        exact hother r hr }

end

/-- **Each task once**: for every acyclic task list, map of runs and order in which calls return, `executeLevel` hands
out each planned task that has a run once, at most `maxConcurrency` at a time and level by level, keeps the result of
each call, and comes to its end after as many returns as there are such tasks. -/
theorem executes_once {x : ParallelTaskExecutor} {tasks : List TaskDefinition} {runs : TaskRunMap}
    {options : ParallelExecuteOptions} (hacyclic : DagPlanner.Acyclic tasks) (hc : 1 ≤ options.maxConcurrency) :
    ∃ plan, DagPlanner.plan tasks = .ok plan ∧ ∀ now, ∃ s₀,
      ParallelTaskExecutor.executeLevel tasks runs options now = .ok s₀ ∧
      ∀ es s, EventSystem.exec (x.settle tasks options) s₀ es = some s →
        ExecutesOnce x tasks runs options plan.levels (x.returned tasks options s₀ es) s ∧
        es.length + s.inFlight.length ≤ plan.levels.flatten.length := by
  obtain ⟨plan, hplan, hspec⟩ := DagPlanner.plan_acyclic hacyclic
  have hn : plan.levels.flatten.Nodup := by simpa using hspec.nodup List.nodup_nil
  refine ⟨plan, hplan, fun now => ?_⟩
  obtain ⟨s₀, hstart, href⟩ := @executeLevel_refines x _ runs _ hc _ hplan hn now
  refine ⟨s₀, hstart, fun es s hes => ?_⟩
  have hresults : Results x options [] (Pool.start options.limit
      (plan.levels.map (ParallelTaskExecutor.batch tasks runs))) s₀.updated :=
    ⟨(LevelPool.begin_extends _ _).settled, by simp⟩
  obtain ⟨p, hp, hrefines, hresults'⟩ := href.exec_results hc hresults hes
  have hinv := LevelPool.inv_of_exec (limit_pos hc) hp
  rw [List.nil_append] at hresults'
  have honce := hrefines.executesOnce hc hresults' (DagPlanner.planned_ids hspec) hn hinv
  have hreturned : (x.returned tasks options s₀ es).length = es.length := by
    refine EventSystem.length_trace (fun s e s' hs => ?_) hes
    obtain ⟨r, hr, -⟩ := ParallelTaskExecutor.settle_updated hs
    exact hr ▸ rfl
  have hcalls := honce.calls.length_eq
  have hplanned := (honce.once.subperm fun id hid => by
    obtain ⟨a, ha, rfl⟩ := List.mem_map.1 hid
    exact (honce.planned a ha).1 : List.Subperm _ plan.levels.flatten).length_le
  simp only [List.length_append, List.length_map] at hcalls hplanned
  exact ⟨honce, by omega⟩

theorem executes_once_sample : ∃ plan, DagPlanner.plan (sampleRepeated ["extract"]).tasks = .ok plan ∧ ∀ now, ∃ s₀,
    ParallelTaskExecutor.executeLevel (sampleRepeated ["extract"]).tasks sampleRuns sampleOptions now = .ok s₀ ∧
    ∀ es s, EventSystem.exec ((sampleExecutor []).settle (sampleRepeated ["extract"]).tasks sampleOptions) s₀ es =
      some s → ExecutesOnce (sampleExecutor []) (sampleRepeated ["extract"]).tasks sampleRuns sampleOptions plan.levels
        ((sampleExecutor []).returned (sampleRepeated ["extract"]).tasks sampleOptions s₀ es) s ∧
      es.length + s.inFlight.length ≤ plan.levels.flatten.length :=
  executes_once (checkedTasks (by decide) (by decide)).acyclic (by decide)

end Jobflow
