import Jobflow.Lineage
import Jobflow.Reregistration

/-!
# Runs that are taken up from a checkpoint (src/persistence/recovery-service.ts, src/services/execution-service.ts)

`restoreToCheckpoint` stores the checkpointed instance again, whatever its tasks were doing. `executeRun` goes on from
there, and makes the next attempt of every task that is queued or has failed; a task that was waiting for its next
attempt stays `retrying`, which `nextRunnable` passes over.
-/

namespace Jobflow

open Js (Record)

/-- The next attempt of task `c` succeeds, when that attempt has been made `earlier` times before. -/
def World.NextSucceeds (world : World) (r : RunId) (context : Record) (c : TaskDefinition) (t : TaskRun)
    (earlier : Nat) : Prop :=
  match TaskSimulator.execute world.simulator c.handler context
      (world.answer r t.definitionTaskId (t.attempt + 1) earlier) with
  | .ok result => result.success = true
  | .error _ => False

instance (world : World) (r : RunId) (context : Record) (c : TaskDefinition) (t : TaskRun) (earlier : Nat) :
    Decidable (world.NextSucceeds r context c t earlier) :=
  match h : TaskSimulator.execute world.simulator c.handler context
      (world.answer r t.definitionTaskId (t.attempt + 1) earlier) with
  | .ok result => decidable_of_iff (result.success = true) (by simp [World.NextSucceeds, h])
  | .error _ => isFalse (by simp [World.NextSucceeds, h])

/-- `d` has the tasks that the run was created with. -/
def JobDefinition.SameTasks (d : JobDefinition) (w : WorkflowInstance) : Prop :=
  ∀ id, id ∈ d.tasks.map (·.id) ↔ id ∈ w.tasks.map (·.definitionTaskId)

/-! ## How far the run has come since the checkpoint -/

/-- A task has succeeded, or is as it was in the checkpoint `w₁`; no task that was retrying has got any further. -/
structure Resumed (w₁ : WorkflowInstance) (log₁ : List Invocation) (w : WorkflowInstance) (log : List Invocation) :
    Prop where
  later : Later w₁ w
  tasks : ∀ t ∈ w.tasks, t ∈ w₁.tasks ∧ earlierCalls log t = earlierCalls log₁ t ∨ t.status = .succeeded ∧
    ∀ u ∈ w₁.tasks, u.definitionTaskId = t.definitionTaskId → u.status ≠ .retrying

/-- The execution has come to its end. -/
inductive Ended (d : JobDefinition) (w₁ w : WorkflowInstance) : Prop where
  | completed (hs : w.state = .completed) (hall : ∀ t ∈ w.tasks, t.status = .succeeded) (hb : ¬ Blocked d w)
  | stopped (hs : w.state ≠ .completed) (hn : Blocked d w ∨ ∃ t ∈ w₁.tasks, t.status = .retrying)

def resumedCourse (d : JobDefinition) (w₁ : WorkflowInstance) (log₁ : List Invocation) : Course where
  before := fun w log => Resumed w₁ log₁ w log ∧ (w.state = .pending ∨ w.state = .running ∨ Ended d w₁ w)
  looping := Resumed w₁ log₁
  retrying := fun _ _ _ => False
  exhausted := fun _ _ => False
  after := fun w log => Resumed w₁ log₁ w log ∧ Ended d w₁ w

section
variable {world : World} {r : RunId} {d₀ d : JobDefinition} {w₁ w : WorkflowInstance} {log₁ log : List Invocation}
  {c : TaskDefinition} {t t' u : TaskRun} {event : String} {target : WorkflowState} {actor : String}
  {note : Option String} {now : ISODateString}

/-- A later instance was created from the same definition. -/
theorem Later.instantiates {w₀ : WorkflowInstance} (hi₀ : Instantiates d₀ w₀) (h : Later w₀ w) :
    Instantiates d₀ w := by
  refine ⟨?_, h.ids_nodup hi₀⟩
  have hsame := congrArg (List.map Prod.snd) h.identity
  rw [List.map_map, List.map_map] at hsame
  exact hsame.trans hi₀.tasks

/-- The task that `nextRunnable` picks is queued or has failed. -/
theorem nextRunnable_status {tasks : List TaskRun} {definitions : List TaskDefinition}
    (hn : (tasks.map (·.definitionTaskId)).Nodup) (h : TaskScheduler.nextRunnable tasks definitions = some c)
    (ht : t ∈ tasks) (htc : t.definitionTaskId = c.id) : t.status = .queued ∨ t.status = .failed := by
  have hrunnable := List.find?_some h
  unfold TaskScheduler.runnable at hrunnable
  rw [← htc, statusByDef_get hn ht] at hrunnable
  cases hs : t.status with
  | queued => exact .inl rfl
  | failed => exact .inr rfl
  | running | succeeded | skipped | retrying => simp [hs] at hrunnable

theorem Resumed.moved (h : Resumed w₁ log₁ w log) : Resumed w₁ log₁ (w.moved event target actor note now) log :=
  ⟨h.later.moved, h.tasks⟩

/-- The log of other tasks does not matter. -/
theorem earlierCalls_handlerCall (hne : u.definitionTaskId ≠ t.definitionTaskId) :
    earlierCalls (log ++ [handlerCall r w c t]) u = earlierCalls log u := by
  unfold earlierCalls
  rw [List.countP_append, List.countP_singleton, if_neg, Nat.add_zero]
  intro hcall
  exact hne (of_decide_eq_true hcall).1.symm

/-- A later instance has the tasks of the checkpoint. -/
theorem Later.mem_definitionTaskIds (h : Later w₁ w) (id : String) :
    (∃ t ∈ w.tasks, t.definitionTaskId = id) ↔ ∃ t ∈ w₁.tasks, t.definitionTaskId = id := by
  have hids : w.tasks.map (·.definitionTaskId) = w₁.tasks.map (·.definitionTaskId) := by
    have := congrArg (List.map fun x => x.2.1) h.identity
    rwa [List.map_map, List.map_map] at this
  simp only [← List.mem_map, hids]

/-- Every task of the definition has a task run. -/
theorem Resumed.exists_taskRun (hsame : d.SameTasks w₁) (h : Resumed w₁ log₁ w log) (hc : c ∈ d.tasks) :
    ∃ t ∈ w.tasks, t.definitionTaskId = c.id := by
  rw [h.later.mem_definitionTaskIds, ← List.mem_map, ← hsame]
  exact List.mem_map_of_mem (f := (·.id)) hc

/-- No task is skipped. -/
theorem Resumed.succeeded (hstatus : ∀ t ∈ w₁.tasks, t.status ≠ .running ∧ t.status ≠ .skipped)
    (h : Resumed w₁ log₁ w log) (hall : ∀ t ∈ w.tasks, t.status = .succeeded ∨ t.status = .skipped) :
    ∀ t ∈ w.tasks, t.status = .succeeded := by
  intro t ht
  rcases hall t ht with hs | hs
  · exact hs
  · rcases h.tasks t ht with ⟨ht₁, _⟩ | ⟨hs', _⟩
    · exact absurd hs (hstatus t ht₁).2
    · exact hs'

/-- What the executor makes of a call that succeeds. -/
theorem World.NextSucceeds.answered {earlier : Nat} (h : world.NextSucceeds r w.context c t earlier)
    (began now : ISODateString) :
    ∃ output, ExecutionService.answered world r d w c (TaskExecutor.start t began) earlier now =
      { task := { TaskExecutor.start t began with status := .succeeded, finishedAt := some now, output := some output }
        retryAfterMs := none } := by
  unfold World.NextSucceeds at h
  unfold ExecutionService.answered TaskExecutor.finish TaskExecutor.start
  dsimp only
  split at h
  · rename_i result hresult
    rw [hresult]
    exact ⟨result.output, by simp [h]⟩
  · exact h.elim

variable (ha₀ : Accepted d₀) (hi₁ : Instantiates d₀ w₁)
include ha₀ hi₁

/-- A task that was retrying still is. -/
theorem Resumed.stays (h : Resumed w₁ log₁ w log) (hu : u ∈ w₁.tasks) (hs : u.status = .retrying) : u ∈ w.tasks := by
  obtain ⟨t, ht, htu⟩ := (h.later.mem_definitionTaskIds u.definitionTaskId).2 ⟨u, hu, rfl⟩
  rcases h.tasks t ht with ⟨ht₁, _⟩ | ⟨_, hnot⟩
  · rwa [Later.eq_of_definitionTaskId ha₀ hi₁ ⟨rfl, rfl⟩ hu ht₁ htu.symm]
  · exact absurd hs (hnot u hu htu.symm)

/-- The selected task has succeeded. -/
theorem Resumed.finish (h : Resumed w₁ log₁ w log) (hsel : Selects d w c t) (hid : t'.identity = t.identity)
    (hs : t'.status = .succeeded) (now : ISODateString) :
    Resumed w₁ log₁ (ExecutionService.updateTask w t' now) (log ++ [handlerCall r w c t]) := by
  have hopen := nextRunnable_status (h.later.definitionTaskIds_nodup ha₀ hi₁) hsel.next hsel.mem hsel.definition
  refine ⟨h.later.updateTask hi₁ hsel.mem hid now, fun x hx => ?_⟩
  rcases (updateTask_mem ha₀ hi₁ h.later hsel.mem hid now x).1 hx with rfl | ⟨hx, hne⟩
  · refine .inr ⟨hs, fun u hu hux hretrying => ?_⟩
    have hut : u.definitionTaskId = t.definitionTaskId := hux.trans (congrArg (fun x => x.2.1) hid)
    have hmem := h.stays ha₀ hi₁ hu hretrying
    rw [h.later.eq_of_definitionTaskId ha₀ hi₁ hmem hsel.mem hut] at hretrying
    simp [hretrying] at hopen
  · refine (h.tasks x hx).imp_left fun ⟨hx₁, hcalls⟩ => ⟨hx₁, ?_⟩
    rw [earlierCalls_handlerCall hne, hcalls]

theorem resumedCourse_bounded : (resumedCourse d w₁ log₁).Bounded d
    { d with retryPolicy := { d.retryPolicy with maxAttempts := (w₁.tasks.map (·.attempt)).sum + 3 } } where
  ids := fun h => Later.ids_nodup hi₁ (Resumed.later h)
  attempt := fun {w log c t} h hsel => by
    have hopen := nextRunnable_status (Later.definitionTaskIds_nodup ha₀ hi₁ (Resumed.later h)) hsel.next hsel.mem
      hsel.definition
    have hs : t.status ≠ .succeeded := fun hs => by simp [hs] at hopen
    refine ⟨hs, ?_⟩
    rcases Resumed.tasks h t hsel.mem with ⟨ht₁, _⟩ | ⟨hs', _⟩
    · have hle : t.attempt ≤ (w₁.tasks.map (·.attempt)).sum :=
        List.le_sum_of_mem (List.mem_map_of_mem (f := (·.attempt)) ht₁)
      simp only [allowedAttempts]
      omega
    · exact absurd hs' hs
  retrying := fun h => h.elim

variable (hstatus : ∀ t ∈ w₁.tasks, t.status ≠ .running ∧ t.status ≠ .skipped) (ha : Accepted d)
  (hsame : d.SameTasks w₁)
include hstatus ha hsame

/-- Once no task is runnable, every task has succeeded, unless one was retrying in the checkpoint. -/
theorem Resumed.all_succeeded (h : Resumed w₁ log₁ w log) (hnext : TaskScheduler.nextRunnable w.tasks d.tasks = none)
    (hnone : ∀ t ∈ w₁.tasks, t.status ≠ .retrying) : ∀ t ∈ w.tasks, t.status = .succeeded := by
  have hn := h.later.definitionTaskIds_nodup ha₀ hi₁
  let done := (w.tasks.filter fun t => t.status = .succeeded).map (·.definitionTaskId)
  have hdone : ∀ id, id ∈ done ↔ ∃ t ∈ w.tasks, t.definitionTaskId = id ∧ t.status = .succeeded := fun id => by
    simp only [done, List.mem_map, List.mem_filter, decide_eq_true_eq]
    exact ⟨fun ⟨t, ⟨ht, hs⟩, htid⟩ => ⟨t, ht, htid, hs⟩, fun ⟨t, ht, htid, hs⟩ => ⟨t, ⟨ht, hs⟩, htid⟩⟩
  have hunique : ∀ t ∈ w.tasks, t.definitionTaskId ∈ done → t.status = .succeeded := fun t ht hmem => by
    obtain ⟨x, hx, hxt, hs⟩ := (hdone _).1 hmem
    rwa [h.later.eq_of_definitionTaskId ha₀ hi₁ ht hx hxt.symm]
  rw [@nextRunnable_eq_ready _ _ hn done (fun id hid => ?_) hunique fun t ht hnot => ?_] at hnext
  · intro t ht
    obtain ⟨u, hu, hut⟩ := (h.later.mem_definitionTaskIds t.definitionTaskId).1 ⟨t, ht, rfl⟩
    have hmem : t.definitionTaskId ∈ d.tasks.map (·.id) :=
      (hsame _).2 (hut ▸ List.mem_map_of_mem (f := (·.definitionTaskId)) hu)
    obtain ⟨c, hc, hct⟩ := List.mem_map.1 hmem
    exact hunique t ht (hct ▸ ha.all_done hnext c hc)
  · obtain ⟨t, ht, htid, _⟩ := (hdone id).1 hid
    exact ⟨t, ht, htid⟩
  · have hs : t.status ≠ .succeeded := fun hs => hnot ((hdone _).2 ⟨t, ht, rfl, hs⟩)
    rcases h.tasks t ht with ⟨ht₁, _⟩ | ⟨hs', _⟩
    · obtain ⟨hrunning, hskipped⟩ := hstatus t ht₁
      have hretrying := hnone t ht₁
      cases hst : t.status <;> simp_all
    · exact absurd hs' hs

/-- The execution takes the run to its end. -/
theorem resumedCourse_kept (hsucc : ∀ t ∈ w₁.tasks, t.status = .queued ∨ t.status = .failed → ∀ c ∈ d.tasks,
      c.id = t.definitionTaskId → world.NextSucceeds r w₁.context c t (earlierCalls log₁ t)) :
    (resumedCourse d w₁ log₁).Kept world r d where
  again := fun ⟨h, hend⟩ => ⟨h, .inr (.inr hend)⟩
  start := fun _ ⟨h, _⟩ _ => h.moved
  enter := fun ⟨h, _⟩ _ => h
  idle := fun ⟨h, hend⟩ hp hr => ⟨h, (hend.resolve_left hp).resolve_left hr⟩
  known := fun h _ hnext => Resumed.exists_taskRun hsame h (List.mem_of_find?_eq_some hnext)
  answered := by
    rintro w log c t began now h hsel result hresult
    have hopen := nextRunnable_status (h.later.definitionTaskIds_nodup ha₀ hi₁) hsel.next hsel.mem hsel.definition
    have hc : c ∈ d.tasks := List.mem_of_find?_eq_some hsel.next
    obtain ⟨ht₁, hcalls⟩ : t ∈ w₁.tasks ∧ earlierCalls log t = earlierCalls log₁ t := by
      rcases h.tasks t hsel.mem with hold | ⟨hs, _⟩
      · exact hold
      · simp [hs] at hopen
    have hnext := hsucc t ht₁ hopen c hc hsel.definition.symm
    rw [← h.later.context, ← hcalls] at hnext
    obtain ⟨output, hanswer⟩ := hnext.answered began now (d := d)
    rw [hanswer] at hresult
    subst hresult
    refine .inr (.inr ⟨rfl, by simp, ?_⟩)
    show Resumed w₁ log₁ (ExecutionService.updateTask w _ now) _
    exact h.finish ha₀ hi₁ hsel (by rfl) (by rfl) now
  requeued := fun _ h => h.elim
  fail := fun _ h => h.elim
  deadLetter := fun now ⟨h, hend⟩ hs => by
    refine ⟨Resumed.moved h, .stopped (by simp [WorkflowInstance.moved]) ?_⟩
    cases hend with
    | completed hs' => simp [hs] at hs'
    | stopped _ hn => exact hn
  complete := fun {w log} now h _ hall hb => by
    have hsucceeded : ∀ t ∈ w.tasks, t.status = .succeeded := Resumed.succeeded hstatus h hall
    exact ⟨h.moved, .completed rfl hsucceeded hb⟩
  stopped := fun {w log} h hs hnext _ hstop => by
    refine ⟨h, .stopped (by simp [hs]) ?_⟩
    rcases hstop with hb | ⟨t, ht, hne, _⟩
    · exact .inl hb
    · by_contra hno
      push Not at hno
      exact hne (h.all_succeeded ha₀ hi₁ hstatus ha hsame hnext hno.2 t ht)
  await := fun {w log} now h _ hnext hdone => by
    refine ⟨h.moved, .stopped (by simp [WorkflowInstance.moved]) (.inr ?_)⟩
    by_contra hno
    push Not at hno
    have hall := h.all_succeeded ha₀ hi₁ hstatus ha hsame hnext hno
    rw [show TaskScheduler.allDone w.tasks d.tasks = true from ?_] at hdone
    · cases hdone
    simp only [TaskScheduler.allDone, List.all_eq_true, List.mem_filter]
    rintro c ⟨hc, _⟩
    obtain ⟨t, ht, htc⟩ := h.exists_taskRun hsame hc
    rw [← htc, statusByDef_get (h.later.definitionTaskIds_nodup ha₀ hi₁) ht, hall t ht]
    rfl

end

/-! ## A call of `executeRun` for a run at rest -/

/-- `executeRun` gets the locks and starts to read. -/
theorem OnRun.opened {k : Nat} {r : RunId} {d : JobDefinition} {I : Option ExecPc → RunRecord → Prop} {s : System}
    (hc : s.Coherent) (hd : s.stores.jobs.get d.id = some d) (hk : ∃ id, s.stores.workflowOfRun.get r = some id)
    (hrest : (s.view r).AtRest) (hlocal : (k, r) ∉ s.stores.localLocks) (hfree : ¬ s.stores.LockedByOther r)
    (hI : I (some (.runRead (s.stores.record r).run)) (s.stores.record r)) : OnRun k r d I (s.execute k r) := by
  have hcoh := hc.execute k r
  have hloc : s.stores.hasLocalLock k r = false := by simpa [Stores.hasLocalLock] using hlocal
  obtain ⟨_, hother⟩ | ⟨hacquire, _⟩ := Stores.acquire_owner s.stores r k
  · exact absurd hother hfree
  have hx : ExecutionService.executeRun k r s.stores =
      ({ s.stores.addLocalLock k r with runLocks := s.stores.runLocks.set r ExecutionService.owner },
        .runRead (s.stores.record r).run) := by
    simp only [ExecutionService.executeRun, hloc, hacquire]
    rfl
  have hexecuting : (s.execute k r).executing r = [.runRead (s.stores.record r).run] := by
    rw [System.execute, executing_spawn, show s.executing r = [] from hrest.executing, hx]
    simp [Call.executing, ExecPc.running]
  refine ⟨hcoh, ?_, ?_, fun c hmem => ?_, ?_⟩
  · rw [System.execute, hx]
    exact hd
  · rw [System.execute, hx]
    exact hk
  · rcases mem_calls_spawn hmem with hmem | rfl
    · exact hrest.calm k c hmem
    · exact fun hd => hd.2.1 rfl
  · rw [hexecuting, System.execute, hx]
    have hmine : (k, r) ∈ (s.stores.addLocalLock k r).localLocks := by simp [Stores.addLocalLock]
    exact .busy ⟨hmine, InsertionMap.get_set_self _ _ _⟩ hI

/-- `restoreToCheckpoint` finds `snap`, and service `k` can take the run up from there: no call concerns the run, its
locks are free, the registered definition has its tasks, and the handlers that are called succeed. -/
structure Resumable (world : World) (k : Nat) (r : RunId) (d : JobDefinition) (version : Option Nat)
    (snap : RunSnapshot) (s : System) : Prop where
  reachable : System.Reachable world s
  atRest : (s.view r).AtRest
  run : ∃ run, s.stores.runs.get r = some run ∧ s.stores.jobs.get run.jobId = some d
  unlocked : (k, r) ∉ s.stores.localLocks ∧ ¬ s.stores.LockedByOther r
  found : s.stores.findSnapshot r version = some snap
  state : snap.workflow.state = .pending ∨ snap.workflow.state = .running
  tasks : d.SameTasks snap.workflow
  succeeds : ∀ t ∈ snap.workflow.tasks, t.status = .queued ∨ t.status = .failed → ∀ c ∈ d.tasks,
    c.id = t.definitionTaskId → world.NextSucceeds r snap.workflow.context c t
      (s.stores.timesInvoked r t.definitionTaskId (t.attempt + 1))

/-- Capture a checkpoint at any moment while the run is pending or running, restore it when no call concerns the run,
and execute the run again. The execution settles, and unless a `block` constraint is violated it ends with the workflow
completed if and only if no task of the checkpoint was waiting for its next attempt. -/
theorem checkpoint_completes_iff {world : World} (hw : world.Wired) {k : Nat} {r : RunId} {d : JobDefinition}
    {version : Option Nat} {snap : RunSnapshot} {now : ISODateString} {s s' : System} {events : List Event}
    (h : Resumable world k r d version snap s) (hok : ∀ e ∈ events, e.Undisturbed k r d.id)
    (hs : EventSystem.exec (System.step world) s (.restoreToCheckpoint r version now :: .executeRun k r :: events) =
      some s') : s'.Settles world k r ∧ (s'.executing r = [] → ∃ w, s'.stores.getByRunId r = some w ∧
        (¬ Blocked d w → (w.state = .completed ↔ ∀ t ∈ snap.workflow.tasks, t.status ≠ .retrying))) := by
  obtain ⟨m, hm, hs⟩ := EventSystem.exec_cons.1 hs
  obtain ⟨m', hm', hs⟩ := EventSystem.exec_cons.1 hs
  have hc := h.reachable.coherent
  have hcm : m.Coherent := hc.step hm
  obtain rfl := Option.some.inj hm'
  obtain ⟨run, hrun, hjob⟩ := h.run
  obtain ⟨hid, ha⟩ := hc.stores.jobs _ _ hjob
  have hsnap := Stores.findSnapshot_mem h.found
  have hown := hc.stores.snapshots r snap hsnap
  obtain ⟨w, hw₀, _⟩ := hc.stores.getByRunId_isSome hown.2
  obtain ⟨d₀, w₀, ha₀, hi₀, hl⟩ := h.reachable.lineage hw₀
  obtain ⟨hlater, hstatus⟩ := hl.snapshots snap hsnap
  have hi₁ := hlater.instantiates hi₀
  -- the restored instance is the one of the checkpoint with another time stamp
  let restored : WorkflowInstance := { snap.workflow with updatedAt := now }
  obtain rfl : m = { s with stores := s.stores.saveWorkflow restored } := by
    obtain rfl := Option.some.inj hm
    rw [restoreToCheckpoint_findSnapshot, h.found]
  have hrec : (s.stores.saveWorkflow restored).record r = { s.stores.record r with workflow := some restored } :=
    record_saveWorkflow hc.stores ⟨hown.1, hown.2⟩
  have hknown : (s.stores.saveWorkflow restored).workflowOfRun.get r = some restored.id :=
    (hcm.stores.getByRunId_owns (congrArg RunRecord.workflow hrec)).2
  have hrest : (({ s with stores := s.stores.saveWorkflow restored } : System).view r).AtRest :=
    ⟨h.atRest.executing, h.atRest.uses, h.atRest.creating, h.atRest.replaying⟩
  have hkept := resumedCourse_kept ha₀ hi₁ hstatus ha h.tasks
    (fun t ht hopen c hc hct => timesInvoked_eq s.stores r t ▸ h.succeeds t ht hopen c hc hct)
  have hon : OnRun k r d (CourseInv (resumedCourse d snap.workflow (s.stores.record r).invocations) r d)
      (System.execute { s with stores := s.stores.saveWorkflow restored } k r) := by
    refine OnRun.opened hcm (hid ▸ hjob) ⟨_, hknown⟩ hrest h.unlocked.1 h.unlocked.2 ?_
    dsimp only
    rw [hrec]
    refine .runRead (w := restored) ⟨rfl, run, hrun, hid.symm⟩ ?_
    exact ⟨⟨⟨rfl, rfl⟩, fun t ht => .inl ⟨ht, rfl⟩⟩, h.state.elim .inl fun hs => .inr (.inl hs)⟩
  have hon' := (hkept.closed (k := k) hw.quiet).exec hon hok hs
  refine ⟨(hkept.closed hw.quiet).settles (resumedCourse_bounded ha₀ hi₁).lowers hon', fun hidle => ?_⟩
  cases hon'.rest hidle with
  | @rest _ w hrec hafter =>
    obtain ⟨hresumed, hend⟩ := hafter
    refine ⟨w, hrec.workflow, fun hb => ?_⟩
    cases hend with
    | completed hcompleted hall _ =>
      refine iff_of_true hcompleted fun t ht hretrying => ?_
      rw [hall t (hresumed.stays ha₀ hi₁ ht hretrying)] at hretrying
      cases hretrying
    | stopped hne hn =>
      obtain ⟨t, ht, hretrying⟩ := hn.resolve_left hb
      exact iff_of_false hne fun hnone => hnone t ht hretrying

/-! ## One checkpoint from before and one from after the end of a backoff -/

/-- The first attempt of every task fails. -/
def sampleFlaky : World := sampleWorld fun _ attempt => attempt = 1

/-- A checkpoint is captured after `n` segments of the execution, which then goes on to its end. -/
def sampleCapture (n : Nat) : List Event :=
  sampleEvents sampleOne n ++ .use "run_1" (.captureCheckpoint none) :: .resume 2 (sampleReply sampleOne) ::
    List.replicate (17 - n) (.resume 1 (sampleReply sampleOne))

def sampleCaptured (n : Nat) : Option System :=
  EventSystem.exec (System.step sampleFlaky) (firstRun sampleOne [] (sampleReply sampleOne)) (sampleCapture n)

/-- The checkpoint is restored, and the run is executed for `n` segments. -/
def sampleTakenUp (n : Nat) : List Event :=
  .restoreToCheckpoint "run_1" none "t" :: .executeRun 0 "run_1" ::
    List.replicate n (.resume 3 (sampleReply sampleOne))

/-- Nothing is in flight, and there is a checkpoint of the running workflow in which `a` has `status`. -/
def sampleRestorable (status : TaskStatus) (s : System) : Bool :=
  ((s.view "run_1").executing.isEmpty && (s.view "run_1").uses.isEmpty) &&
    ((s.view "run_1").creating.isEmpty && (s.view "run_1").replaying.isEmpty) &&
    decide ((0, "run_1") ∉ s.stores.localLocks ∧ ¬ s.stores.LockedByOther "run_1") &&
    (s.stores.runs.get "run_1").any (fun run => run.jobId = "job") &&
    (s.stores.findSnapshot "run_1" none).any fun snap => snap.workflow.state = .running ∧
      snap.workflow.tasks.map (fun t => (t.definitionTaskId, t.status)) = [("a", status)] ∧
      ∀ t ∈ snap.workflow.tasks, ∀ c ∈ sampleOne.tasks, sampleFlaky.NextSucceeds "run_1" snap.workflow.context c t
        (s.stores.timesInvoked "run_1" t.definitionTaskId (t.attempt + 1))

theorem sample_resumable (n : Nat) (status : TaskStatus)
    (hjob : (sampleCaptured n).bind (·.stores.jobs.get "job") = some sampleOne)
    (h : (sampleCaptured n).any (sampleRestorable status) = true) :
    ∃ s snap, sampleCaptured n = some s ∧ Resumable sampleFlaky 0 "run_1" sampleOne none snap s ∧
      snap.workflow.tasks.map (·.status) = [status] ∧
      ∀ t ∈ snap.workflow.tasks, ∀ c ∈ sampleOne.tasks, sampleFlaky.NextSucceeds "run_1" snap.workflow.context c t
        (s.stores.timesInvoked "run_1" t.definitionTaskId (t.attempt + 1)) := by
  obtain ⟨s, hs, hp⟩ := (Option.any_eq_true _ _).1 h
  simp only [sampleRestorable, Bool.and_eq_true, List.isEmpty_iff, decide_eq_true_eq] at hp
  obtain ⟨⟨⟨⟨⟨he, hu⟩, hc, hr⟩, hlocks⟩, hrun⟩, hsnap⟩ := hp
  obtain ⟨run, hrun, hid⟩ := (Option.any_eq_true _ _).1 hrun
  obtain ⟨snap, hsnap, hchecks⟩ := (Option.any_eq_true _ _).1 hsnap
  obtain ⟨hstate, htasks, hnext⟩ := of_decide_eq_true hchecks
  rw [hs] at hjob
  have hreach : System.Reachable sampleFlaky s :=
    (sample_newRun _ (d := sampleOne) (by decide +kernel)).reachable.exec hs
  have hids : snap.workflow.tasks.map (·.definitionTaskId) = ["a"] := by
    have := congrArg (List.map Prod.fst) htasks
    rwa [List.map_map] at this
  refine ⟨s, snap, hs, ⟨hreach, ⟨he, hu, hc, hr⟩, ⟨run, hrun, ?_⟩, hlocks, hsnap, .inr hstate, fun id => ?_,
    fun t ht _ c hc _ => hnext t ht c hc⟩, ?_, hnext⟩
  · rw [of_decide_eq_true hid]
    exact hjob
  · rw [hids]
    exact Iff.rfl
  · have := congrArg (List.map Prod.snd) htasks
    rwa [List.map_map] at this

theorem sampleOne_not_blocked (w : WorkflowInstance) : ¬ Blocked sampleOne w := by
  simp [Blocked, ConstraintValidator.blocked, sampleOne, sampleJob]

theorem sampleTakenUp_undisturbed (n : Nat) :
    ∀ e ∈ List.replicate n (Event.resume 3 (sampleReply sampleOne)), e.Undisturbed 0 "run_1" sampleOne.id := by
  intro e he
  rw [List.eq_of_mem_replicate he]
  trivial

/-- The checkpoint from after the backoff. -/
theorem checkpoint_completes_iff_sample : ∃ s s' w, sampleCaptured 10 = some s ∧
    EventSystem.exec (System.step sampleFlaky) s (sampleTakenUp 10) = some s' ∧ s'.executing "run_1" = [] ∧
      s'.stores.getByRunId "run_1" = some w ∧ w.state = .completed := by
  obtain ⟨s, snap, hs, hr, hstatus, _⟩ := sample_resumable 10 .queued rfl (by decide +kernel)
  have hend : (sampleCaptured 10).any (fun s =>
      (EventSystem.exec (System.step sampleFlaky) s (sampleTakenUp 10)).any fun s' =>
        (s'.executing "run_1").isEmpty) = true := by decide +kernel
  rw [hs, Option.any_some] at hend
  obtain ⟨s', hs', hidle⟩ := (Option.any_eq_true _ _).1 hend
  obtain ⟨w, hw, hiff⟩ := (checkpoint_completes_iff (sampleWorld_wired _) hr (sampleTakenUp_undisturbed 10) hs').2
    (List.isEmpty_iff.1 hidle)
  refine ⟨s, s', w, hs, hs', List.isEmpty_iff.1 hidle, hw, (hiff (sampleOne_not_blocked w)).2 fun t ht => ?_⟩
  have hmem : t.status ∈ [TaskStatus.queued] := hstatus ▸ List.mem_map_of_mem (f := (·.status)) ht
  rw [List.mem_singleton.1 hmem]
  decide

/-- The checkpoint from the backoff: every further attempt would succeed, but none is made, and the run is left
waiting. -/
theorem backoff_checkpoint_waits : ∃ s snap s' w, sampleCaptured 9 = some s ∧
    Resumable sampleFlaky 0 "run_1" sampleOne none snap s ∧
    (∀ t ∈ snap.workflow.tasks, ∀ c ∈ sampleOne.tasks, sampleFlaky.NextSucceeds "run_1" snap.workflow.context c t
      (s.stores.timesInvoked "run_1" t.definitionTaskId (t.attempt + 1))) ∧
    EventSystem.exec (System.step sampleFlaky) s (sampleTakenUp 8) = some s' ∧ s'.executing "run_1" = [] ∧
    s'.stores.getByRunId "run_1" = some w ∧ ¬ Blocked sampleOne w ∧ w.state = .waiting := by
  obtain ⟨s, snap, hs, hr, _, hnext⟩ := sample_resumable 9 .retrying rfl (by decide +kernel)
  have hend : (sampleCaptured 9).any (fun s =>
      (EventSystem.exec (System.step sampleFlaky) s (sampleTakenUp 8)).any fun s' =>
        (s'.executing "run_1").isEmpty && (s'.stores.getByRunId "run_1").any fun w => w.state = .waiting) = true := by
    decide +kernel
  rw [hs, Option.any_some] at hend
  obtain ⟨s', hs', hp⟩ := (Option.any_eq_true _ _).1 hend
  obtain ⟨hidle, hw⟩ := Bool.and_eq_true_iff.1 hp
  obtain ⟨w, hw, hstate⟩ := (Option.any_eq_true _ _).1 hw
  exact ⟨s, snap, s', w, hs, hr, hnext, hs', List.isEmpty_iff.1 hidle, hw, sampleOne_not_blocked w,
    of_decide_eq_true hstate⟩

end Jobflow
