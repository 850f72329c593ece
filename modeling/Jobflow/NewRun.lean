import Jobflow.RunInvariant

/-!
# Runs fresh from `createRun`

`NewRun` describes a state in which `createRun` has made a run of a registered definition and nobody has
executed it yet; `createRun_newRun` says that `createRun` leads there. From such a state on the invariant of
`RunInvariant` holds for as long as the run is left to one service (`NewRun.onRun`).
-/

namespace Jobflow

open Js (Record)

/-- The run that starts as `w₀` has been created from the registered definition `d`, and has not been executed. -/
structure NewRun (world : World) (k : Nat) (d : JobDefinition) (w₀ : WorkflowInstance) (s : System) : Prop where
  reachable : System.Reachable world s
  registered : s.stores.jobs.get d.id = some d
  created : ∃ trigger input uuids now, uuids.tasks.length = d.tasks.length ∧ uuids.tasks.Nodup ∧
    w₀ = WorkflowService.newWorkflow d d.id input uuids now ∧
    s.stores.record w₀.runId = ⟨some w₀, some (WorkflowService.newRun d.id trigger input uuids now), [], []⟩
  unlocked : s.stores.Unlocked k w₀.runId
  idle : s.executing w₀.runId = []
  calm : ∀ c ∈ s.calls, ¬ c.Disturbs k w₀.runId

/-! ## The instance `createRun` makes -/

section
variable {world : World} {d : JobDefinition} {jobId : JobId} {input : Record} {uuids : Uuids} {now : ISODateString}

theorem newTaskId_injective : Function.Injective newTaskId := fun _ _ h => (String.append_right_inj _).1 h

theorem map_zipWith_left {α β γ δ : Type} (f : γ → δ) (g : α → β → γ) (h : α → δ) (hf : ∀ a b, f (g a b) = h a) :
    ∀ (l : List α) (m : List β), m.length = l.length → (List.zipWith g l m).map f = l.map h
  | [], _, _ => rfl
  | a :: l, b :: m, hl => by
    simp [hf, map_zipWith_left f g h hf l m (by simpa using hl)]

theorem map_zipWith_right {α β γ δ : Type} (f : γ → δ) (g : α → β → γ) (h : β → δ) (hf : ∀ a b, f (g a b) = h b) :
    ∀ (l : List α) (m : List β), m.length = l.length → (List.zipWith g l m).map f = m.map h
  | [], [], _ => rfl
  | a :: l, b :: m, hl => by
    simp [hf, map_zipWith_right f g h hf l m (by simpa using hl)]

theorem newWorkflow_instantiates (hl : uuids.tasks.length = d.tasks.length) (hn : uuids.tasks.Nodup) :
    Instantiates d (WorkflowService.newWorkflow d jobId input uuids now) := by
  have hids : (WorkflowService.newWorkflow d jobId input uuids now).tasks.map (·.id) =
    uuids.tasks.map newTaskId := by
    rw [WorkflowService.newWorkflow]
    exact map_zipWith_right TaskRun.id _ newTaskId (fun _ _ => rfl) _ _ hl
  refine ⟨?_, by rw [hids]; exact hn.map newTaskId_injective⟩
  rw [WorkflowService.newWorkflow]
  exact map_zipWith_left _ _ (fun c : TaskDefinition => (c.id, c.handler)) (fun _ _ => rfl) _ _ hl

theorem newWorkflow_untouched : ∀ t ∈ (WorkflowService.newWorkflow d jobId input uuids now).tasks, Untouched t := by
  intro t ht
  simp only [WorkflowService.newWorkflow, List.mem_iff_getElem, List.length_zipWith, List.getElem_zipWith] at ht
  obtain ⟨i, _, rfl⟩ := ht
  exact ⟨rfl, rfl, rfl⟩

/-- A run that has not been executed is where the executor starts from. -/
theorem newWorkflow_settled (ha : Accepted d) :
    Settled world d (WorkflowService.newWorkflow d d.id input uuids now)
      (WorkflowService.newWorkflow d d.id input uuids now) [] := by
  have hu : ∀ t ∈ (WorkflowService.newWorkflow d d.id input uuids now).tasks, Untouched t := newWorkflow_untouched
  refine .pending rfl ?_ hu rfl
  cases hr : TaskScheduler.ready d.tasks [] with
  | none =>
    obtain ⟨t, ht⟩ := List.exists_mem_of_ne_nil _ ha.nonempty
    simpa using ha.all_done hr t ht
  | some c =>
    have hbusy : Busy world d (WorkflowService.newWorkflow d d.id input uuids now) [] c .queued 0
        (WorkflowService.newWorkflow d d.id input uuids now) :=
      ⟨⟨rfl, rfl⟩, .nil, hr, fun _ _ h => by simp at h,
        fun t ht _ => ⟨(hu t ht).status, (hu t ht).attempt, (hu t ht).output⟩, fun a h₁ h₂ => by omega,
        fun t ht _ _ => hu t ht⟩
    exact .busy hbusy (allowedAttempts_pos _)

end

/-! ## The invariant holds from there on -/

section
variable {world : World} {k : Nat} {d : JobDefinition} {w₀ : WorkflowInstance} {s : System}

theorem NewRun.accepted (h : NewRun world k d w₀ s) : Accepted d :=
  (h.reachable.coherent.stores.jobs d.id d h.registered).2

theorem NewRun.instantiates (h : NewRun world k d w₀ s) : Instantiates d w₀ := by
  obtain ⟨_, input, uuids, now, hl, hn, rfl, _⟩ := h.created
  exact newWorkflow_instantiates hl hn

theorem NewRun.onRun (h : NewRun world k d w₀ s) : OnRun k w₀.runId d (RunInv world d w₀) s := by
  have hc := h.reachable.coherent
  have ha := h.accepted
  obtain ⟨trigger, input, uuids, now, hl, hn, rfl, hrec⟩ := h.created
  have hwf := congrArg RunRecord.workflow hrec
  refine ⟨hc, h.registered, ⟨_, (hc.stores.getByRunId_owns hwf).2⟩, h.calm, ?_⟩
  rw [h.idle]
  refine .rest h.unlocked (.rest ⟨_, ⟨hwf, ?_, fun t ht => ?_⟩, ?_⟩)
  · exact ⟨_, congrArg RunRecord.run hrec, rfl, rfl⟩
  · rw [congrArg RunRecord.invocations hrec, (newWorkflow_untouched t ht).attempt]
    rfl
  · rw [congrArg RunRecord.deadLetters hrec]
    exact newWorkflow_settled ha

/-- The invariant along every list of events that leaves the run to service `k`. -/
theorem NewRun.exec (hq : world.Quiet) (h : NewRun world k d w₀ s) {events : List Event} {s' : System}
    (hok : ∀ e ∈ events, e.Undisturbed k w₀.runId d.id)
    (hs : EventSystem.exec (System.step world) s events = some s') : OnRun k w₀.runId d (RunInv world d w₀) s' :=
  (runInv_closed hq h.accepted h.instantiates).exec h.onRun hok hs

/-! ## `createRun` leads there -/

/-- Nothing in `s` has to do with run `r`. -/
structure Unheard (s : System) (r : RunId) : Prop where
  workflow : s.stores.workflowOfRun.get r = none
  deadLetters : ∀ e ∈ s.stores.deadLetters, e.runId ≠ r
  invocations : ∀ i ∈ s.stores.invocations, i.runId ≠ r
  runLocks : s.stores.runLocks.get r = none
  localLocks : ∀ l ∈ s.stores.localLocks, l.2 ≠ r
  calls : ∀ c ∈ s.calls, c.executing r = none ∧ ∀ k, ¬ c.Disturbs k r

/-- `s` after a complete `createRun` of `d`. -/
def System.withRun (s : System) (d : JobDefinition) (trigger : String) (input : Record) (reply : Reply) : System :=
  let run := WorkflowService.newRun d.id trigger input reply.uuids reply.now
  ⟨(s.stores.saveWorkflow (WorkflowService.newWorkflow d d.id input reply.uuids reply.now)).saveRun run,
    s.calls ++ [.create d.id trigger input (.settled (.ok run))]⟩

theorem createRun_newRun {trigger : String} {input : Record} {reply₁ reply₂ reply₃ : Reply}
    (hs : System.Reachable world s) (hd : s.stores.jobs.get d.id = some d) (hf : reply₁.uuids.Fresh s.stores d)
    (hr : Unheard s (newRunId reply₁.uuids.run)) :
    EventSystem.exec (System.step world) s
        [.createRun d.id trigger input, .resume s.calls.length reply₁, .resume s.calls.length reply₂,
          .resume s.calls.length reply₃] = some (s.withRun d trigger input reply₁) ∧
      NewRun world k d (WorkflowService.newWorkflow d d.id input reply₁.uuids reply₁.now)
        (s.withRun d trigger input reply₁) := by
  let w₀ := WorkflowService.newWorkflow d d.id input reply₁.uuids reply₁.now
  let run := WorkflowService.newRun d.id trigger input reply₁.uuids reply₁.now
  let s' := s.withRun d trigger input reply₁
  have hexec : EventSystem.exec (System.step world) s
      [.createRun d.id trigger input, .resume s.calls.length reply₁, .resume s.calls.length reply₂,
        .resume s.calls.length reply₃] = some s' := by
    simp [EventSystem.exec, System.step, System.resume, System.spawn, System.suspend, WorkflowService.resume, hd,
      hf,
      s', System.withRun]
  refine ⟨hexec, ⟨hs.exec hexec, hd, ⟨trigger, input, reply₁.uuids, reply₁.now, hf.2.2.1, hf.2.2.2, rfl, ?_⟩,
    ⟨fun hl => hr.localLocks _ hl rfl, hr.runLocks⟩, ?_, ?_⟩⟩
  · have hget := s.stores.getByRunId_saveWorkflow_self w₀ (newWorkflowId_ne_empty _)
    have hdl : s.stores.deadLetters.filter (fun e => e.runId = w₀.runId) = [] :=
      List.filter_eq_nil_iff.2 fun e he => fun hx => hr.deadLetters e he (of_decide_eq_true hx)
    have hinv : s.stores.invocations.filter (fun i => i.runId = w₀.runId) = [] :=
      List.filter_eq_nil_iff.2 fun i hi => fun hx => hr.invocations i hi (of_decide_eq_true hx)
    simp only [Stores.record]
    rw [show s'.stores.getByRunId w₀.runId = some w₀ from hget,
      show s'.stores.runs.get w₀.runId = some run from InsertionMap.get_set_self _ _ _,
      show s'.stores.deadLetters = s.stores.deadLetters from rfl, hdl,
      show s'.stores.invocations = s.stores.invocations from rfl, hinv]
  · have hnone : s.calls.filterMap (Call.executing w₀.runId) = [] :=
      List.filterMap_eq_nil_iff.2 fun c hc => (hr.calls c hc).1
    simp only [System.executing, System.withRun, List.filterMap_append]
    rw [hnone]
    rfl
  · intro c hc
    rcases List.mem_append.1 hc with hc | hc
    · exact (hr.calls c hc).2 k
    · rw [List.mem_singleton.1 hc]
      exact id

/-- A system in which one job has been registered and one run of it created. -/
def firstRun (d : JobDefinition) (input : Record) (reply : Reply) : System :=
  System.withRun ⟨Stores.empty.saveJob d, []⟩ d "manual" input reply

/-- Every definition that can be registered has a new run. -/
theorem firstRun_newRun {jobInput : JobDefinitionInput} {input : Record} {now : ISODateString} {reply : Reply}
    (hd : JobService.register world.handlers jobInput now = .ok d) (hl : reply.uuids.tasks.length = d.tasks.length)
    (hn : reply.uuids.tasks.Nodup) :
    NewRun world k d (WorkflowService.newWorkflow d d.id input reply.uuids reply.now)
      (firstRun d input reply) := by
  have hreach : System.Reachable world ⟨Stores.empty.saveJob d, []⟩ :=
    ⟨[.register jobInput now], by simp [EventSystem.exec, System.step, hd, System.empty]⟩
  have hunheard : Unheard ⟨Stores.empty.saveJob d, []⟩ (newRunId reply.uuids.run) := by
    refine ⟨rfl, ?_, ?_, rfl, ?_, ?_⟩ <;> exact fun x hx => absurd hx List.not_mem_nil
  exact (@createRun_newRun _ _ _ _ _ _ reply reply reply hreach (InsertionMap.get_set_self _ _ _)
    ⟨rfl, rfl, hl, hn⟩ hunheard).2

end

/-! ## A small job

Its tasks share one handler, whose calls fail where `fails` says so. -/

def sampleTask (id : String) (dependsOn : List String) (optional : Option Bool) : TaskDefinition where
  id := id
  name := id
  handler := "report.aggregate"
  timeoutMs := .finite 1000
  optional := optional
  dependsOn := some dependsOn

def sampleJob (maxAttempts : Int) (constraints : List JobConstraint) (tasks : List TaskDefinition) :
    JobDefinition where
  id := "job"
  name := "job"
  version := 1
  tasks := tasks
  constraints := constraints
  retryPolicy := { DEFAULT_RETRY_POLICY with maxAttempts := maxAttempts }
  createdAt := "t"
  updatedAt := "t"

/-- Two tasks, the second declared first. -/
def sampleChain : JobDefinition := sampleJob 3 [] [sampleTask "b" ["a"] none, sampleTask "a" [] none]

/-- One task. -/
def sampleOne : JobDefinition := sampleJob 3 [] [sampleTask "a" [] none]

/-- What `d` is registered with. -/
def JobDefinition.input (d : JobDefinition) : JobDefinitionInput where
  id := d.id
  name := d.name
  version := d.version
  tasks := d.tasks
  constraints := d.constraints
  retryPolicy := some d.retryPolicy

def sampleWorld (fails : String → Nat → Bool) : World :=
  createContainer BUILTIN_HANDLERS ⟨["report.aggregate"], 0⟩ [] fun _ taskId attempt _ =>
    { outcome := if fails taskId attempt then .throws "down" else .returns ⟨true, [("from", .string taskId)]⟩
      roll := 0
      processedAt := "t" }

theorem sampleWorld_wired (fails : String → Nat → Bool) : (sampleWorld fails).Wired := ⟨_, _, _, _, rfl⟩

def sampleReply (d : JobDefinition) : Reply := ⟨"t", ⟨"1", "1", d.tasks.map (·.id)⟩⟩

/-- The first run of `d`. -/
def sampleRun (d : JobDefinition) : WorkflowInstance :=
  WorkflowService.newWorkflow d d.id [] (sampleReply d).uuids "t"

/-- A call of `executeRun` for that run, and its first `n` segments. -/
def sampleEvents (d : JobDefinition) (n : Nat) : List Event :=
  .executeRun 0 "run_1" :: List.replicate n (.resume 1 (sampleReply d))

/-- The system after these events. -/
def sampleAfter (fails : String → Nat → Bool) (d : JobDefinition) (n : Nat) : Option System :=
  EventSystem.exec (System.step (sampleWorld fails)) (firstRun d [] (sampleReply d)) (sampleEvents d n)

theorem sample_newRun (fails : String → Nat → Bool) {d : JobDefinition}
    (hd : JobService.register BUILTIN_HANDLERS d.input "t" = .ok d) :
    NewRun (sampleWorld fails) 0 d (sampleRun d) (firstRun d [] (sampleReply d)) :=
  firstRun_newRun hd (by simp [sampleReply]) (JobService.register_accepted hd).1.nodup

theorem sampleEvents_undisturbed (d : JobDefinition) (n : Nat) :
    ∀ e ∈ sampleEvents d n, e.Undisturbed 0 (sampleRun d).runId d.id := by
  intro e he
  rcases List.mem_cons.1 he with rfl | he
  · exact fun _ => rfl
  · rw [List.eq_of_mem_replicate he]
    trivial

end Jobflow
