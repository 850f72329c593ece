import Jobflow.TakenRuns

/-!
# The outcome of a batch (src/batch/coordinator.ts, src/services)

`execute` counts an item as completed when `executeRun` returns, and `executeRun` returns whenever the run has come to
an end, well or badly. So a batch tells the truth about its runs exactly when none of them ends badly
(`batch_truthful_iff`).
-/

namespace Jobflow

open Js (Record)

/-- Nothing else has to do with the runs of the batch, and the jobs of the items that it starts are not registered
again. -/
structure BatchSystem.Apart (s : BatchSystem) (events : List BatchSystemEvent) (x : Batch) : Prop where
  unheard : ∀ r ∈ x.progress.runIds, Unheard s.system r
  aside : ∀ r ∈ x.progress.runIds, ∀ e, .inner e ∈ events → e.Aside r
  jobs : ∀ item ∈ x.started, ∀ e, .inner e ∈ events → e.Keeps item.jobId

/-- What is stored of run `r` is completed. -/
def System.completes (s : System) (r : RunId) : Bool := (s.stores.getByRunId r).any fun w => w.state = .completed

/-- What is stored of run `r` is not left in `running`. -/
def System.stops (s : System) (r : RunId) : Bool := (s.stores.getByRunId r).any fun w => w.state ≠ .running

/-- Worker `i` of batch `b` is about to go on with an item whose run could not be created or has not completed. -/
inductive BatchSystem.Loses (s : BatchSystem) (b i : Nat) (item : BatchJobItem) : Prop where
  | notCreated {n : Nat} {jobId : JobId} {trigger : String} {input : Record} {e : JobflowError}
      (h : s.Slot b i (.creating item) n)
      (hcall : s.system.calls[n]? = some (.create jobId trigger input (.settled (.error e)))) : Loses s b i item
  | ended {n k : Nat} {r runId : RunId} {result : Except JobflowError Unit} (h : s.Slot b i (.executing item runId) n)
      (hcall : s.system.calls[n]? = some (.execute k r (.settled result))) (hw : s.system.completes runId = false) :
      Loses s b i item

/-- The counters of batch `b` say what has become of its items, and nothing is started after an item that must not fail
has failed. -/
structure BatchSystem.Truthful (world : World) (service : Nat) (s : BatchSystem) (events : List BatchSystemEvent)
    (s' : BatchSystem) (b : Nat) (x : Batch) : Prop where
  completed : x.progress.completed = x.progress.runIds.countP s'.system.completes
  failed : x.progress.failed =
    x.started.length - x.progress.runIds.length + x.progress.runIds.countP fun r => !s'.system.completes r
  started : ∀ before i now after m y item, events = before ++ .resumeWorker b i now :: after →
    EventSystem.exec (BatchSystem.step world service) s before = some m → m.batches[b]? = some y →
    m.Loses b i item → item.continueOnError ≠ some true → x.started = y.batch.started

/-- Every task of a run that batch `b` takes up succeeds on one of the attempts it is allowed. -/
def BatchSystem.TakesUpSucceeding (world : World) (b : Nat) (s : BatchSystem) (e : BatchSystemEvent)
    (_ : BatchSystem) : Prop :=
  ∀ i n item run w d, s.TakesUp b i n item run e → s.system.stores.getByRunId run.id = some w →
    s.system.stores.jobs.get item.jobId = some d →
    ∀ c ∈ d.tasks, world.SucceedsWithin w c (allowedAttempts d.retryPolicy)

section
variable {world : World} {N service : Nat} {r : RunId} {s s' : BatchSystem} {events : List BatchSystemEvent}
  {b i n : Nat} {x : BatchRun}

theorem BatchSystem.Apart.before {before after : List BatchSystemEvent} {x y : Batch}
    (h : s.Apart (before ++ after) x) (hgrows : y.Grows x) : s.Apart before y where
  unheard := fun r hr => h.unheard r (hgrows.runIds.subset hr)
  aside := fun r hr e he => h.aside r (hgrows.runIds.subset hr) e (List.mem_append_left _ he)
  jobs := fun item hitem e he => h.jobs item (hgrows.started.subset hitem) e (List.mem_append_left _ he)

theorem BatchSystem.Apart.events_aside {y : Batch} (h : s.Apart events y) (hr : r ∈ y.progress.runIds) :
    ∀ e ∈ events, e.Aside (fun j => ∃ item ∈ y.started, item.jobId = j) r := by
  intro e he
  cases e with
  | inner e =>
    refine ⟨h.aside r hr e he, ?_⟩
    rintro j ⟨item, hitem, rfl⟩
    exact h.jobs item hitem e he
  | execute | resumeWorker => trivial

/-- What the call that executes a run has come to, in terms of the step at which the run was taken up. -/
theorem BatchSystem.Apart.outcome {before after : List BatchSystemEvent} {e : BatchSystemEvent} {m m' : BatchSystem}
    {item : BatchJobItem} {run : JobRun} (hq : world.Quiet) (hreach : System.Reachable world s.system)
    (hnone : s.batches = []) (h : s.Apart (before ++ e :: after) x.batch)
    (hm : EventSystem.exec (BatchSystem.step world service) s before = some m) (ht : m.TakesUp b i n item run e)
    (hstep : m.step world service e = some m')
    (hafter : EventSystem.exec (BatchSystem.step world service) m' after = some s') (hx : s'.batches[b]? = some x)
    {c : Nat} {result : Except JobflowError Unit} (hN : s.system.calls.length ≤ c)
    (hcall : s'.system.calls[c]? = some (.execute service run.id (.settled result))) :
    ∃ w₀ d w, m.system.stores.getByRunId run.id = some w₀ ∧ m.system.stores.jobs.get item.jobId = some d ∧
      s'.system.stores.getByRunId run.id = some w ∧ (result.isOk = true ↔ w.state ≠ .running) ∧
      ((∀ t ∈ d.tasks, world.SucceedsWithin w₀ t (allowedAttempts d.retryPolicy)) ↔
        w.state = .running ∨ w.state = .completed) := by
  have hk : s.Kept world s.system.calls.length service := BatchSystem.kept hreach hnone
  have hr : run.id ∈ x.batch.progress.runIds := by
    obtain ⟨x', hx', hr⟩ := (ht.taken hstep).2.1.exec hafter
    cases hx.symm.trans hx'
    exact hr
  have hnotcreated : ¬ s.Created run.id := by
    rintro ⟨b', y, hy, -⟩
    rw [hnone] at hy
    cases hy
  have hunheard := h.unheard _ hr
  have hst : s.system.Stage world (fun j => ∃ item ∈ x.batch.started, item.jobId = j) s.system.calls.length service
      run.id none := by
    refine .unheard hunheard.dormant (fun n _ _ _ _ hn _ hcall => ?_) fun n pc hn hcall => ?_
    · rw [List.getElem?_eq_none hn] at hcall
      cases hcall
    · rw [List.getElem?_eq_none hn] at hcall
      cases hcall
  obtain ⟨B, hworkflow, hdefinition, hstage⟩ := BatchSystem.TakesUp.made hq hk hnotcreated hst (h.events_aside hr) hm ht
    hstep hafter hx fun item hitem => ⟨item, hitem, rfl⟩
  have hk' := hk.exec (EventSystem.exec_append.2 ⟨m, hm, EventSystem.exec_cons.2 ⟨m', hstep, hafter⟩⟩)
  obtain ⟨n', B', w, ho, hw, hresult, hall⟩ := hstage.outcome hk'.reachable.coherent hN hcall
  cases ho
  exact ⟨B.workflow, B.definition, w, hworkflow, hdefinition, hw, hresult, hall⟩

theorem System.stops_eq {m : System} {w : WorkflowInstance} (hw : m.stores.getByRunId r = some w) :
    m.stops r = true ↔ w.state ≠ .running := by
  simp [System.stops, hw]

theorem System.completes_eq {m : System} {w : WorkflowInstance} (hw : m.stores.getByRunId r = some w) :
    m.completes r = true ↔ w.state = .completed := by
  simp [System.completes, hw]

/-- A call that has settled has returned if the run has come to an end, and thrown if it has been left in `running`. If
every run is let succeed, the end is a good one. -/
theorem BatchSystem.Apart.settled (hq : world.Quiet) (hreach : System.Reachable world s.system)
    (hnone : s.batches = []) (h : s.Apart events x.batch)
    (hs : EventSystem.exec (BatchSystem.step world service) s events = some s') (hx : s'.batches[b]? = some x)
    (hr : r ∈ x.batch.progress.runIds) {c : Nat} {result : Except JobflowError Unit}
    (hN : s.system.calls.length ≤ c) (hcall : s'.system.calls[c]? = some (.execute service r (.settled result))) :
    result.isOk = s'.system.stops r ∧
      (EventSystem.Along (BatchSystem.step world service) (BatchSystem.TakesUpSucceeding world b) s events →
        result.isOk = s'.system.completes r) := by
  have hnotcreated : ¬ s.Created r := by
    rintro ⟨b', y, hy, -⟩
    rw [hnone] at hy
    cases hy
  obtain ⟨before, e, after, m, m', rfl, hm, hstep, hafter, i, n, item, run, ht, rfl⟩ :=
    BatchSystem.exists_takesUp hnotcreated hs ⟨x, hx, hr⟩
  obtain ⟨w₀, d, w, hw₀, hd, hw, hresult, hall⟩ := h.outcome hq hreach hnone hm ht hstep hafter hx hN hcall
  refine ⟨?_, fun hC => ?_⟩
  · rw [Bool.eq_iff_iff, hresult, System.stops_eq hw]
  · have hsucceeds := (EventSystem.along_iff_forall hs).1 hC before e after m m' rfl hm hstep
    have hstate := hall.1 (hsucceeds i n item run w₀ d ht hw₀ hd)
    rw [Bool.eq_iff_iff, hresult, System.completes_eq hw]
    rcases hstate with hstate | hstate <;> simp [hstate]

/-- The counters in terms of what is stored in the end. -/
theorem BatchSystem.Apart.tallied (hq : world.Quiet) (hreach : System.Reachable world s.system)
    (hnone : s.batches = []) (h : s.Apart events x.batch)
    (hs : EventSystem.exec (BatchSystem.step world service) s events = some s') (hx : s'.batches[b]? = some x) :
    x.batch.Tallied s'.system.stops := by
  refine (EventSystem.exec_toward (I := fun (m : BatchSystem) => m.Kept world s.system.calls.length service ∧
    ∀ y, m.batches[b]? = some y → y.batch.Tallied s'.system.stops)
    (fun m e m' es hm hstep hrest => ?_) ⟨BatchSystem.kept hreach hnone, fun y hy => ?_⟩ hs).2 x hx
  · obtain ⟨hk, htallied⟩ := hm
    refine ⟨hk.step hstep, fun y' hy' => ?_⟩
    rcases BatchSystem.step_batches hstep hy' with ⟨y, hy, rfl | ⟨event, htold, hevent⟩⟩ | ⟨manifest, hnew⟩
    · exact htallied y' hy
    · refine (htallied y hy).step (fun i result item runId heq hworker => ?_) hevent
      subst heq
      cases htold with
      | executed hslot hcall =>
        -- what the worker is told is what the call has come to in the end
        cases hslot.worker.symm.trans hworker
        obtain ⟨hN, pc, hcall'⟩ := hk.served.executing ⟨y, hy, hslot⟩
        cases hcall.symm.trans hcall'
        have htail := EventSystem.exec_cons.2 ⟨m', hstep, hrest⟩
        obtain ⟨es', hes'⟩ := BatchSystem.exec_system htail
        obtain ⟨pc', hend, hsame⟩ := System.exec_execute hcall hes'
        rw [hsame result rfl] at hend
        have hrun := (hk.manned hy).runIds item runId (List.mem_of_getElem? hworker)
        obtain ⟨x', hx', hr⟩ := BatchSystem.Holds.exec ⟨y, hy, hrun⟩ htail
        cases hx.symm.trans hx'
        exact (h.settled hq hreach hnone hs hx hr hN hend).1
    · rw [hnew]
      exact (BatchCoordinator.execute_tallied _ manifest).2
  · rw [hnone] at hy
    cases hy

/-- A worker that goes on with an item that must not fail after its call has thrown clears the queue. -/
theorem BatchSystem.step_throws {x : BatchRun} {now : ISODateString} {pc : WorkerPc} {item : BatchJobItem}
    (hx : s.batches[b]? = some x) (hslot : x.Slot i pc n)
    (hcall : (pc = .creating item ∧ ∃ jobId trigger input e,
        s.system.calls[n]? = some (.create jobId trigger input (.settled (.error e)))) ∨
      ∃ runId k r e, pc = .executing item runId ∧ s.system.calls[n]? = some (.execute k r (.settled (.error e))))
    (hitem : item.continueOnError ≠ some true) (h : s.step world service (.resumeWorker b i now) = some s') :
    ∃ x', s'.batches[b]? = some x' ∧ x'.batch.queue = [] ∧ x'.batch.started = x.batch.started := by
  have hawaited : ∀ {call}, s.system.calls[n]? = some call → x.awaited s.system i = some call := fun hcall =>
    Option.bind_eq_some_iff.2 ⟨n, hslot.call, hcall⟩
  have hcleared : ∃ x', (s.goOn b (BatchRun.release s.system { x with batch := x.batch.caught item } i)).batches[b]? =
      some x' ∧ x'.batch.queue = [] ∧ x'.batch.started = x.batch.started := by
    refine ⟨_, List.getElem?_set_self (List.getElem?_eq_some_iff.1 hx).1, ?_⟩
    rw [BatchRun.release_batch]
    refine Batch.loop_of_nil ?_ i
    simp [Batch.caught, hitem]
  cases BatchSystem.step_cases h with
  | created hy hi hcall' | notCreated hy hi hcall' | completed hy hi hcall' | failed hy hi hcall' =>
    cases hx.symm.trans hy
    cases hslot.worker.symm.trans hi
    rcases hcall with ⟨hpc, _, _, _, _, hcall⟩ | ⟨_, _, _, _, hpc, hcall⟩
    · cases hpc <;> cases (hawaited hcall).symm.trans hcall' <;> exact hcleared
    · cases hpc <;> cases (hawaited hcall).symm.trans hcall' <;> exact hcleared

theorem BatchSystem.started_of_nil (hx : s.batches[b]? = some x) (hnil : x.batch.queue = [])
    (hs : EventSystem.exec (BatchSystem.step world service) s events = some s') {x' : BatchRun}
    (hx' : s'.batches[b]? = some x') : x'.batch.started = x.batch.started := by
  obtain ⟨y, hy, -, hsame⟩ := EventSystem.exec_invariant
    (I := fun (m : BatchSystem) => ∃ y, m.batches[b]? = some y ∧ y.batch.queue = [] ∧ y.batch.started = x.batch.started)
    (fun m e m' hm (_ : True) hstep => by
      obtain ⟨y, hy, hnil, hsame⟩ := hm
      obtain ⟨y', hy', rfl | ⟨event, -, hevent⟩⟩ := BatchSystem.step_told hy hstep
      · exact ⟨y', hy', hnil, hsame⟩
      · obtain ⟨hnil', hsame'⟩ := Batch.step_of_nil hnil hevent
        exact ⟨y', hy', hnil', hsame'.trans hsame⟩)
    ⟨x, hx, hnil, rfl⟩ (fun _ _ => trivial) hs
  cases hx'.symm.trans hy
  exact hsame

end

/-- In every run of the system in which nothing else has to do with the runs of a batch, whatever the handlers answer:
when the batch has resolved, it has been truthful exactly when every task of every run that it took up succeeds on one
of the attempts it is allowed. -/
theorem batch_truthful_iff {world : World} (hw : world.Wired) {service : Nat} {s s' : BatchSystem}
    {events : List BatchSystemEvent} (hreach : System.Reachable world s.system) (hnone : s.batches = [])
    (hs : EventSystem.exec (BatchSystem.step world service) s events = some s') {b : Nat} {x : BatchRun}
    (hx : s'.batches[b]? = some x) (hresolved : x.batch.Resolved) (hapart : s.Apart events x.batch) :
    BatchSystem.Truthful world service s events s' b x.batch ↔
      EventSystem.Along (BatchSystem.step world service) (BatchSystem.TakesUpSucceeding world b) s events := by
  have hq := hw.quiet
  have hk : s.Kept world s.system.calls.length service := BatchSystem.kept hreach hnone
  have hidle : ∀ p : WorkerPc → Bool, p .returned = false → x.batch.workers.countP p = 0 := by
    intro p hp
    rw [List.countP_eq_zero]
    intro pc hpc
    rw [hresolved pc hpc, hp]
    simp
  obtain ⟨hcompleted, hcounted⟩ := hapart.tallied hq hreach hnone hs hx
  rw [hidle _ rfl] at hcompleted hcounted
  have hsum : x.batch.progress.completed + x.batch.progress.failed = x.batch.started.length := by
    obtain ⟨manifest, steps, hsteps⟩ := BatchSystem.batch_reached hnone hs hx
    have hcount : x.batch.Counted manifest := EventSystem.exec_invariant
      (fun _ _ _ hb (_ : True) hstep => Batch.Counted.step hb hstep) (BatchCoordinator.execute_counted manifest)
      (fun _ _ => trivial) hsteps
    have hsum := hcount.sum
    rw [hcount.running, hidle _ rfl] at hsum
    exact hsum
  -- the call of every run has settled
  have hend : ∀ r ∈ x.batch.progress.runIds, ∃ c result, s.system.calls.length ≤ c ∧
      s'.system.calls[c]? = some (.execute service r (.settled result)) := by
    intro r hr
    rcases (hk.exec hs).executed ⟨x, hx, hr⟩ with ⟨i, item, c, x', hx', hslot⟩ | hsettled
    · cases hx.symm.trans hx'
      cases hresolved _ (List.mem_of_getElem? hslot.worker)
    · exact hsettled
  have hstops : ∀ r ∈ x.batch.progress.runIds, s'.system.completes r = true → s'.system.stops r = true := by
    intro r _ hr
    obtain ⟨w, hw, hstate⟩ := (Option.any_eq_true _ _).1 hr
    rw [System.stops_eq hw]
    simp [of_decide_eq_true hstate]
  constructor
  · intro ht
    have hall : ∀ r ∈ x.batch.progress.runIds, s'.system.stops r = true → s'.system.completes r = true :=
      (countP_eq_iff hstops).1 (ht.completed.symm.trans hcompleted)
    refine (EventSystem.along_iff_forall hs).2 ?_
    rintro before e after m m' rfl hm hstep i n item run w d htakes hw hd
    obtain ⟨m₁, hm₁, hafter⟩ := EventSystem.exec_append.1 hs
    cases hm.symm.trans hm₁
    obtain ⟨m₂, hm₂, hafter⟩ := EventSystem.exec_cons.1 hafter
    cases hstep.symm.trans hm₂
    obtain ⟨x', hx', hr⟩ := (htakes.taken hstep).2.1.exec hafter
    cases hx.symm.trans hx'
    obtain ⟨c, result, hN, hcall⟩ := hend run.id hr
    obtain ⟨w₀, d', w', hw₀, hd', hw', -, hiff⟩ :=
      hapart.outcome hq hreach hnone hm htakes hstep hafter hx hN hcall
    cases hw.symm.trans hw₀
    cases hd.symm.trans hd'
    refine hiff.2 ?_
    by_cases hrunning : w'.state = .running
    · exact .inl hrunning
    · exact .inr ((System.completes_eq hw').1 (hall run.id hr ((System.stops_eq hw').2 hrunning)))
  · intro hC
    have hall : ∀ r ∈ x.batch.progress.runIds, s'.system.stops r = true → s'.system.completes r = true := by
      intro r hr hstop
      obtain ⟨c, result, hN, hcall⟩ := hend r hr
      obtain ⟨hresult, hresult'⟩ := hapart.settled hq hreach hnone hs hx hr hN hcall
      rw [← hresult' hC, hresult]
      exact hstop
    have hcount := (countP_eq_iff hstops).2 hall
    refine ⟨hcompleted.trans hcount.symm, ?_, ?_⟩
    · have hlength := List.length_eq_countP_add_countP (l := x.batch.progress.runIds) s'.system.completes
      simp only [Bool.not_eq_true, Bool.decide_eq_false] at hlength
      omega
    · rintro before i now after m y item rfl hm hy hloses hitem
      obtain ⟨m₁, hm₁, hafter⟩ := EventSystem.exec_append.1 hs
      cases hm.symm.trans hm₁
      obtain ⟨m', hstep, hafter⟩ := EventSystem.exec_cons.1 hafter
      have hthrows : ∀ {n pc}, y.Slot i pc n → _ → x.batch.started = y.batch.started := fun hslot hcall => by
        obtain ⟨y', hy', hnil, hsame⟩ := BatchSystem.step_throws hy hslot hcall hitem hstep
        exact (BatchSystem.started_of_nil hy' hnil hafter hx).trans hsame
      cases hloses with
      | @notCreated n jobId trigger input err hslot hcall =>
        obtain ⟨y', hy', hslot⟩ := hslot
        cases hy.symm.trans hy'
        exact hthrows hslot (.inl ⟨rfl, jobId, trigger, input, err, hcall⟩)
      | @ended n k r runId result hslot hcall hlost =>
        have hkm := hk.exec hm
        obtain ⟨hN, pc, hcall'⟩ := hkm.served.executing hslot
        cases hcall.symm.trans hcall'
        obtain ⟨y', hy', hslot⟩ := hslot
        cases hy.symm.trans hy'
        -- with the handlers on its side, a run that has not completed has been left in `running`
        have hgrows : y.batch.Grows x.batch := by
          obtain ⟨x', hx', hgrows⟩ := BatchSystem.grows hy (EventSystem.exec_cons.2 ⟨m', hstep, hafter⟩)
          cases hx.symm.trans hx'
          exact hgrows
        have hr := (hkm.manned hy).runIds item _ (List.mem_of_getElem? hslot.worker)
        have hbefore := (EventSystem.along_append.1 hC).1
        have hresult := ((hapart.before hgrows).settled hq hreach hnone hm hy hr hN hcall).2 hbefore
        rw [hlost] at hresult
        cases result with
        | ok => cases hresult
        | error err => exact hthrows hslot (.inr ⟨_, _, _, err, rfl, hcall⟩)

/-! ## Two items for one worker -/

def sampleLine : BatchManifest := { samplePair with maxParallel := some 1 }

/-- The worker takes up both runs, one after the other; each call of `executeRun` takes `n` segments. -/
def sampleLineEvents (n : Nat) : List BatchSystemEvent :=
  .execute sampleLine :: sampleSegments 0 "1" 3 ++ .resumeWorker 0 0 "t" :: sampleSegments 1 "" n ++
    .resumeWorker 0 0 "t" :: sampleSegments 2 "2" 3 ++ .resumeWorker 0 0 "t" :: sampleSegments 3 "" n ++
      [.resumeWorker 0 0 "t"]

theorem sampleWorld_succeeds (w : WorkflowInstance) (c : TaskDefinition) (policy : RetryPolicy) :
    (sampleWorld fun _ _ => false).SucceedsWithin w c (allowedAttempts policy) := by
  refine World.succeedsWithin_iff.2 ⟨1, Nat.le_refl 1, allowedAttempts_pos policy, ?_⟩
  by_cases hc : c.handler = "report.aggregate" <;>
    simp [World.Succeeds, World.attemptOutput, sampleWorld, createContainer, TaskSimulator.execute,
      TaskSimulator.shouldFail, hc]

theorem sampleBatches_reachable (fails : String → Nat → Bool) (concurrency : Nat) :
    System.Reachable (sampleWorld fails) (sampleBatches [sampleOne] concurrency).system := by
  have hd : JobService.register BUILTIN_HANDLERS sampleOne.input "t" = .ok sampleOne := by decide +kernel
  have hhandlers : (sampleWorld fails).handlers = BUILTIN_HANDLERS := rfl
  refine ⟨[.register sampleOne.input "t"], ?_⟩
  rw [EventSystem.exec, System.step, hhandlers, hd]
  rfl

theorem sampleBatches_unheard (concurrency : Nat) (r : RunId) :
    Unheard (sampleBatches [sampleOne] concurrency).system r := by
  refine ⟨rfl, ?_, ?_, rfl, ?_, ?_⟩ <;> exact fun x hx => absurd hx List.not_mem_nil

theorem sampleLine_resumes {n : Nat} {e : Event} (h : .inner e ∈ sampleLineEvents n) :
    ∃ i reply, e = .resume i reply := by
  have hsegments : ∀ {call uuid m}, .inner e ∈ sampleSegments call uuid m → ∃ i reply, e = .resume i reply := by
    intro call uuid m hmem
    cases List.eq_of_mem_replicate hmem
    exact ⟨_, _, rfl⟩
  simp only [sampleLineEvents, List.cons_append, List.append_assoc, List.mem_cons, List.mem_append,
    List.not_mem_nil, reduceCtorEq, false_or, or_false] at h
  rcases h with h | h | h | h <;> exact hsegments h

/-- Both runs succeed, and the batch says so. -/
theorem batch_truthful_sample : ∃ s' x,
    sampleBatchRun (fun _ _ => false) (sampleBatches [sampleOne] 1) (sampleLineEvents 13) = some s' ∧
      s'.batches[0]? = some x ∧ x.batch.progress.completed = 2 ∧
      BatchSystem.Truthful (sampleWorld fun _ _ => false) 0 (sampleBatches [sampleOne] 1) (sampleLineEvents 13) s' 0
        x.batch := by
  have hrun : (sampleBatchRun (fun _ _ => false) (sampleBatches [sampleOne] 1) (sampleLineEvents 13)).any (fun s =>
      s.batches[0]?.any fun x => decide (x.batch.Resolved ∧ x.batch.progress.completed = 2)) = true := by
    decide +kernel
  obtain ⟨s', hs, h⟩ := (Option.any_eq_true _ _).1 hrun
  obtain ⟨x, hx, h⟩ := (Option.any_eq_true _ _).1 h
  obtain ⟨hresolved, hcompleted⟩ := of_decide_eq_true h
  have hapart : (sampleBatches [sampleOne] 1).Apart (sampleLineEvents 13) x.batch := by
    refine ⟨fun r _ => sampleBatches_unheard 1 r, fun r _ e he => ?_, fun item _ e he => ?_⟩
    · obtain ⟨i, reply, rfl⟩ := sampleLine_resumes he
      trivial
    · obtain ⟨i, reply, rfl⟩ := sampleLine_resumes he
      simp [Event.Keeps]
  refine ⟨s', x, hs, hx, hcompleted, (batch_truthful_iff (sampleWorld_wired _) (sampleBatches_reachable _ 1) rfl hs hx
    hresolved hapart).2 ?_⟩
  refine (EventSystem.along_iff_forall hs).2 fun _ _ _ _ _ _ _ _ _ _ _ _ w d _ _ _ c _ => ?_
  exact sampleWorld_succeeds w c d.retryPolicy

/-- Every attempt fails. The first run ends as `failed`, is counted as completed, and the second item is started. -/
theorem batch_counts_failed_as_completed : ∃ s' x,
    sampleBatchRun (fun _ _ => true) (sampleBatches [sampleOne] 1) (sampleLineEvents 17) = some s' ∧
      s'.batches[0]? = some x ∧ x.batch.Resolved ∧ x.batch.progress.completed = 2 ∧ x.batch.progress.failed = 0 ∧
      x.batch.started.length = 2 ∧ x.batch.progress.runIds.countP s'.system.completes = 0 ∧
      ¬ BatchSystem.Truthful (sampleWorld fun _ _ => true) 0 (sampleBatches [sampleOne] 1) (sampleLineEvents 17) s' 0
        x.batch := by
  have hrun : (sampleBatchRun (fun _ _ => true) (sampleBatches [sampleOne] 1) (sampleLineEvents 17)).any (fun s =>
      s.batches[0]?.any fun x => decide (x.batch.Resolved ∧ x.batch.progress.completed = 2 ∧
        x.batch.progress.failed = 0 ∧ x.batch.started.length = 2 ∧
          x.batch.progress.runIds.countP s.system.completes = 0)) = true := by
    decide +kernel
  obtain ⟨s', hs, h⟩ := (Option.any_eq_true _ _).1 hrun
  obtain ⟨x, hx, h⟩ := (Option.any_eq_true _ _).1 h
  obtain ⟨hresolved, hcompleted, hfailed, hstarted, hnone⟩ := of_decide_eq_true h
  refine ⟨s', x, hs, hx, hresolved, hcompleted, hfailed, hstarted, hnone, fun htruthful => ?_⟩
  have hsame := htruthful.completed
  omega

end Jobflow
