import Jobflow.Ownership

/-!
# Transitions that are cut short

`applyTransition` saves the workflow and the run before it calls the listeners, and nothing undoes the writes when a
listener throws: the caller then sees a rejection, and the stores hold the target state. `allOrNothing_iff` says for
which calls a rejection leaves everything as it was and a return means that everything was done.
-/

namespace Jobflow

open WorkflowOrchestrator (emitFrom updateRun)

/-! ## A call alone -/

/-- How a suspended `applyTransition` ends when nothing else runs. -/
inductive TransitionCall.Settles (world : World) :
    Stores → TransitionCall → Stores → Except JobflowError WorkflowInstance → Prop where
  | threw {s s' : Stores} {t : TransitionCall} {now : ISODateString} {e : JobflowError} :
      t.resume world s now = (s', .threw e) → Settles world s t s' (.error e)
  | returned {s s' : Stores} {t : TransitionCall} {now : ISODateString} {next : WorkflowInstance} :
      t.resume world s now = (s', .returned next) → Settles world s t s' (.ok next)
  | step {s s₁ s' : Stores} {t t₁ : TransitionCall} {now : ISODateString}
      {result : Except JobflowError WorkflowInstance} :
      t.resume world s now = (s₁, .suspended t₁) → Settles world s₁ t₁ s' result → Settles world s t s' result

/-- How a call of `applyTransition` ends when nothing else runs; the clock may say anything at each reading. -/
inductive Applies (world : World) (s : Stores) (inst : WorkflowInstance) (event : String) (target : WorkflowState)
    (actor : String) : Stores → Except JobflowError WorkflowInstance → Prop where
  | refused {now : ISODateString} {e : JobflowError} :
      WorkflowOrchestrator.applyTransition s inst event target actor now = .error e →
      Applies world s inst event target actor s (.error e)
  | begun {s₁ s' : Stores} {t : TransitionCall} {now : ISODateString} {result : Except JobflowError WorkflowInstance} :
      WorkflowOrchestrator.applyTransition s inst event target actor now = .ok (s₁, t) →
      t.Settles world s₁ s' result → Applies world s inst event target actor s' result

/-- The guard and the rules let the transition through. -/
def Allowed (inst : WorkflowInstance) (event : String) (target : WorkflowState) : Prop :=
  TransitionGuard.evaluate inst event target = .ok () ∧
    (⟨inst.state, target, event⟩ : TransitionRule) ∈ DEFAULT_TRANSITION_RULES

/-- What the listeners are told. -/
def announcement (inst : WorkflowInstance) (event : String) (target : WorkflowState) (time : ISODateString) :
    DomainEvent :=
  .workflowTransitioned inst.runId inst.state target event time

/-- The stores after both writes, and the calls `emit` makes. -/
def applied (world : World) (s : Stores) (inst : WorkflowInstance) (event : String) (target : WorkflowState)
    (actor : String) (now runNow time : ISODateString) : Stores :=
  let s := updateRun (s.saveWorkflow (inst.moved event target actor none now)) inst.runId target runNow
  { s with heard := s.heard ++ (emitFrom 0 world.listeners (announcement inst event target time)).1 }

/-- What the caller sees. -/
def emitted (world : World) (next : WorkflowInstance) (announced : DomainEvent) :
    Except JobflowError WorkflowInstance :=
  match (emitFrom 0 world.listeners announced).2 with
  | some e => .error e
  | none => .ok next

section
variable {world : World} {s s' : Stores} {inst : WorkflowInstance} {event : String} {target : WorkflowState}
  {actor : String} {result : Except JobflowError WorkflowInstance}

theorem settles_iff {t : TransitionCall} : t.Settles world s s' result ↔
    ∃ now, match t.resume world s now with
      | (s₁, .suspended t₁) => t₁.Settles world s₁ s' result
      | (s₁, .threw e) => s' = s₁ ∧ result = .error e
      | (s₁, .returned next) => s' = s₁ ∧ result = .ok next := by
  constructor
  · intro h
    cases h with
    | @threw s s' t now e hr => exact ⟨now, by rw [hr]; exact ⟨rfl, rfl⟩⟩
    | @returned s s' t now next hr => exact ⟨now, by rw [hr]; exact ⟨rfl, rfl⟩⟩
    | @step s s₁ s' t t₁ now result hr h => exact ⟨now, by rw [hr]; exact h⟩
  · rintro ⟨now, h⟩
    cases hr : t.resume world s now with
    | mk s₁ outcome =>
      rw [hr] at h
      cases outcome with
      | suspended t₁ => exact .step hr h
      | threw e =>
        obtain ⟨rfl, rfl⟩ := h
        exact .threw hr
      | returned next =>
        obtain ⟨rfl, rfl⟩ := h
        exact .returned hr

theorem settles_returned {t : TransitionCall} (hstage : t.stage = .returned) :
    t.Settles world s s' result ↔ s' = s ∧ result = .ok t.next := by
  simp [settles_iff, TransitionCall.resume, hstage]

/-- From the listeners to the end. -/
theorem settles_announce {t : TransitionCall} (hstage : t.stage = .runRead false ∨ t.stage = .runSaved) :
    t.Settles world s s' result ↔ ∃ time,
      s' = { s with heard := s.heard ++
        (emitFrom 0 world.listeners (.workflowTransitioned t.next.runId t.fromState t.target t.event time)).1 } ∧
      result = emitted world t.next (.workflowTransitioned t.next.runId t.fromState t.target t.event time) := by
  have hresume : ∀ now, t.resume world s now = WorkflowOrchestrator.announce world s t now := by
    intro now
    rcases hstage with h | h <;> simp [TransitionCall.resume, h]
  rw [settles_iff]
  refine exists_congr fun now => ?_
  rw [hresume, WorkflowOrchestrator.announce]
  cases hemit : (emitFrom 0 world.listeners
    (.workflowTransitioned t.next.runId t.fromState t.target t.event now)).2 with
  | some e => simp [emitted, hemit]
  | none => simp [emitted, hemit, settles_returned]

/-- From the write of the workflow to the end. -/
theorem settles_saved {t : TransitionCall} (hstage : t.stage = .workflowSaved) :
    t.Settles world s s' result ↔ ∃ runNow time,
      s' = { updateRun s t.next.runId t.target runNow with heard := s.heard ++
        (emitFrom 0 world.listeners (.workflowTransitioned t.next.runId t.fromState t.target t.event time)).1 } ∧
      result = emitted world t.next (.workflowTransitioned t.next.runId t.fromState t.target t.event time) := by
  have hread : t.Settles world s s' result ↔
      ({ t with stage := .runRead (s.runs.has t.next.runId) } : TransitionCall).Settles world s s' result := by
    rw [settles_iff]
    simp [TransitionCall.resume, hstage]
  rw [hread]
  cases hrun : s.runs.get t.next.runId with
  | none =>
    have hsame : ∀ runNow, updateRun s t.next.runId t.target runNow = s := fun runNow => by simp [updateRun, hrun]
    simp only [InsertionMap.has, hrun, Option.isSome_none, hsame]
    rw [settles_announce (.inl rfl)]
    simp
  | some run =>
    have hheard : ∀ runNow, (updateRun s t.next.runId t.target runNow).heard = s.heard := fun runNow => by
      simp [updateRun, hrun, Stores.saveRun]
    simp only [InsertionMap.has, hrun, Option.isSome_some]
    rw [settles_iff]
    refine exists_congr fun runNow => ?_
    simp only [TransitionCall.resume]
    rw [settles_announce (.inr rfl), hheard]

theorem updateRun_heard (s : Stores) (r : RunId) (target : WorkflowState) (now : ISODateString) :
    (updateRun s r target now).heard = s.heard := by
  obtain ⟨runs, hruns⟩ := updateRun_runs s r target now
  rw [hruns]

theorem applyTransition_error (h : ¬ Allowed inst event target) (now : ISODateString) :
    ∃ e, WorkflowOrchestrator.applyTransition s inst event target actor now = .error e := by
  cases happly : WorkflowOrchestrator.applyTransition s inst event target actor now with
  | error e => exact ⟨e, rfl⟩
  | ok r =>
    obtain ⟨hguard, hrule, -⟩ := WorkflowOrchestrator.applyTransition_ok.1 happly
    exact absurd ⟨hguard, hrule⟩ h

/-- A refused call has done nothing. -/
theorem Applies.refused_eq (h : Applies world s inst event target actor s' result) (hno : ¬ Allowed inst event target) :
    s' = s ∧ ∃ e, result = .error e := by
  cases h with
  | @refused now e happly => exact ⟨rfl, e, rfl⟩
  | @begun s₁ s' t now result happly _ =>
    obtain ⟨e, he⟩ := applyTransition_error (s := s) hno now
    rw [he] at happly
    cases happly

/-- A call that is let through does both writes and then calls the listeners. -/
theorem applies_iff (h : Allowed inst event target) : Applies world s inst event target actor s' result ↔
    ∃ now runNow time, s' = applied world s inst event target actor now runNow time ∧
      result = emitted world (inst.moved event target actor none now) (announcement inst event target time) := by
  have hbegin : ∀ now, WorkflowOrchestrator.applyTransition s inst event target actor now =
      .ok (s.saveWorkflow (inst.moved event target actor none now),
        ⟨inst.state, event, target, inst.moved event target actor none now, .workflowSaved⟩) :=
    fun now => WorkflowOrchestrator.applyTransition_ok.2 ⟨h.1, h.2, rfl, rfl⟩
  constructor
  · intro happlies
    cases happlies with
    | @refused now e happly =>
      rw [hbegin] at happly
      cases happly
    | @begun s₁ s' t now result happly hsettles =>
      rw [hbegin] at happly
      cases happly
      obtain ⟨runNow, time, hs, hresult⟩ := (settles_saved rfl).1 hsettles
      refine ⟨now, runNow, time, ?_, hresult⟩
      rw [hs, applied, updateRun_heard]
      rfl
  · rintro ⟨now, runNow, time, rfl, hresult⟩
    refine .begun (hbegin now) ((settles_saved rfl).2 ⟨runNow, time, ?_, hresult⟩)
    rw [applied, updateRun_heard]
    rfl

/-! ## What the listeners do -/

theorem emitFrom_calls {listeners : List DomainEventListener} {announced : DomainEvent}
    (h : ∀ l ∈ listeners, l announced = none) (n : Nat) :
    (emitFrom n listeners announced).1 = (List.range' n listeners.length).map fun i => (i, announced) := by
  induction listeners generalizing n with
  | nil => rfl
  | cons l ls ih =>
    simp only [emitFrom, h l List.mem_cons_self, List.length_cons, List.range'_succ, List.map_cons]
    rw [ih fun l' hl' => h l' (List.mem_cons_of_mem _ hl')]

theorem emitFrom_throws {listeners : List DomainEventListener} {announced : DomainEvent}
    (h : ¬ ∀ l ∈ listeners, l announced = none) (n : Nat) : ∃ e, (emitFrom n listeners announced).2 = some e := by
  induction listeners generalizing n with
  | nil => simp at h
  | cons l ls ih =>
    rw [List.forall_mem_cons, not_and_or] at h
    cases hl : l announced with
    | some e => exact ⟨e, by simp [emitFrom, hl]⟩
    | none =>
      obtain ⟨e, he⟩ := ih (h.resolve_left (not_not.2 hl)) (n + 1)
      exact ⟨e, by simp [emitFrom, hl, he]⟩

/-! ## All or nothing -/

/-- After a rejection the stored workflow and run are those from before the call; after a return both hold the target
state, and every listener has been called once with the transition. -/
def AllOrNothing (world : World) (s : Stores) (inst : WorkflowInstance) (event : String) (target : WorkflowState)
    (s' : Stores) : Except JobflowError WorkflowInstance → Prop
  | .error _ => s'.workflows.get inst.id = s.workflows.get inst.id ∧ s'.runs.get inst.runId = s.runs.get inst.runId
  | .ok _ => (∃ w, s'.workflows.get inst.id = some w ∧ w.state = target) ∧
      (∃ run, s'.runs.get inst.runId = some run ∧ run.status = target) ∧
      ∃ time, s'.heard = s.heard ++ (List.range world.listeners.length).map fun i =>
        (i, announcement inst event target time)

theorem applied_workflow (now runNow time : ISODateString) :
    (applied world s inst event target actor now runNow time).workflows.get inst.id =
      some (inst.moved event target actor none now) := by
  obtain ⟨runs, hruns⟩ := updateRun_runs (s.saveWorkflow (inst.moved event target actor none now)) inst.runId target
    runNow
  rw [applied, hruns]
  exact InsertionMap.get_set_self _ _ _

/-- The run store keeps each run under its own id. -/
def Stores.RunsById (s : Stores) : Prop := ∀ r run, s.runs.get r = some run → run.id = r

theorem applied_run (hruns : s.RunsById) {run : JobRun} (hrun : s.runs.get inst.runId = some run)
    (now runNow time : ISODateString) : ∃ run',
      (applied world s inst event target actor now runNow time).runs.get inst.runId = some run' ∧
        run'.status = target := by
  have hid : run.id = inst.runId := hruns _ _ hrun
  have hrun' : (s.saveWorkflow (inst.moved event target actor none now)).runs.get inst.runId = some run := hrun
  simp only [applied, updateRun, hrun', Stores.saveRun, hid, InsertionMap.get_set_self]
  exact ⟨_, rfl, rfl⟩

theorem applied_no_run (hrun : s.runs.get inst.runId = none) (now runNow time : ISODateString) :
    (applied world s inst event target actor now runNow time).runs.get inst.runId = none := by
  have hrun' : (s.saveWorkflow (inst.moved event target actor none now)).runs.get inst.runId = none := hrun
  simp only [applied, updateRun, hrun']

theorem emitted_of_quiet {next : WorkflowInstance} {announced : DomainEvent}
    (h : ∀ l ∈ world.listeners, l announced = none) : emitted world next announced = .ok next := by
  simp only [emitted, WorkflowOrchestrator.emitFrom_quiet h 0]

theorem emitted_of_throw (next : WorkflowInstance) {announced : DomainEvent}
    (h : ¬ ∀ l ∈ world.listeners, l announced = none) : ∃ e, emitted world next announced = .error e := by
  obtain ⟨e, he⟩ := emitFrom_throws h 0
  exact ⟨e, by simp only [emitted, he]⟩

/-- A listener that throws is heard after the writes, so the rejection leaves the new instance in the store. -/
theorem exists_torn (h : Allowed inst event target) {time : ISODateString}
    (hthrow : ¬ ∀ l ∈ world.listeners, l (announcement inst event target time) = none) : ∃ s' e,
      Applies world s inst event target actor s' (.error e) ∧
        s'.workflows.get inst.id ≠ s.workflows.get inst.id := by
  have htorn : ∀ now, ∃ s' e, Applies world s inst event target actor s' (.error e) ∧
      s'.workflows.get inst.id = some (inst.moved event target actor none now) := by
    intro now
    obtain ⟨e, he⟩ := emitted_of_throw (inst.moved event target actor none now) hthrow
    exact ⟨_, e, (applies_iff h).2 ⟨now, "", time, rfl, he.symm⟩, applied_workflow now "" time⟩
  -- two readings of the clock save two instances, and the store held one of them at most
  by_cases hbefore : s.workflows.get inst.id = some (inst.moved event target actor none "")
  · obtain ⟨s', e, happlies, hget⟩ := htorn "later"
    refine ⟨s', e, happlies, ?_⟩
    rw [hget, hbefore]
    intro heq
    have hclock := congrArg WorkflowInstance.updatedAt (Option.some.inj heq)
    exact absurd hclock (by decide : ("later" : ISODateString) ≠ "")
  · obtain ⟨s', e, happlies, hget⟩ := htorn ""
    exact ⟨s', e, happlies, by rw [hget]; exact fun heq => hbefore heq.symm⟩

/-- When nothing throws, everything is done. -/
theorem applied_done (hruns : s.RunsById) (hhas : s.runs.has inst.runId = true) {now runNow time : ISODateString}
    (hquiet : ∀ l ∈ world.listeners, l (announcement inst event target time) = none) (next : WorkflowInstance) :
    AllOrNothing world s inst event target (applied world s inst event target actor now runNow time) (.ok next) := by
  obtain ⟨run, hrun⟩ := Option.isSome_iff_exists.1 hhas
  refine ⟨⟨_, applied_workflow now runNow time, rfl⟩, applied_run hruns hrun now runNow time, time, ?_⟩
  rw [List.range_eq_range', ← emitFrom_calls hquiet 0, applied, updateRun_heard]
  rfl

end

/-- `applyTransition` is all or nothing if and only if it is refused, or no listener throws at what it is told and the
run is stored. -/
theorem allOrNothing_iff (world : World) {s : Stores} (hruns : s.RunsById) (inst : WorkflowInstance) (event : String)
    (target : WorkflowState) (actor : String) :
    (∀ s' result, Applies world s inst event target actor s' result →
      AllOrNothing world s inst event target s' result) ↔
    ¬ Allowed inst event target ∨
      (∀ time, ∀ l ∈ world.listeners, l (announcement inst event target time) = none) ∧
        s.runs.has inst.runId = true := by
  by_cases hallowed : Allowed inst event target
  · rw [or_iff_right (not_not.2 hallowed)]
    constructor
    · intro hall
      have hquiet : ∀ time, ∀ l ∈ world.listeners, l (announcement inst event target time) = none := by
        intro time
        by_contra hthrow
        obtain ⟨s', e, happlies, hne⟩ := exists_torn (s := s) hallowed hthrow
        exact hne (hall s' _ happlies).1
      refine ⟨hquiet, ?_⟩
      have happlies : Applies world s inst event target actor (applied world s inst event target actor "" "" "")
          (.ok (inst.moved event target actor none "")) :=
        (applies_iff hallowed).2 ⟨"", "", "", rfl, (emitted_of_quiet (hquiet "")).symm⟩
      obtain ⟨-, ⟨run, hrun, -⟩, -⟩ := hall _ _ happlies
      cases hget : s.runs.get inst.runId with
      | none =>
        rw [applied_no_run hget] at hrun
        cases hrun
      | some _ => simp [InsertionMap.has, hget]
    · rintro ⟨hquiet, hhas⟩ s' result happlies
      obtain ⟨now, runNow, time, rfl, rfl⟩ := (applies_iff hallowed).1 happlies
      rw [emitted_of_quiet (hquiet time)]
      exact applied_done hruns hhas (hquiet time) _
  · refine iff_of_true (fun s' result happlies => ?_) (.inl hallowed)
    obtain ⟨rfl, e, rfl⟩ := happlies.refused_eq hallowed
    exact ⟨rfl, rfl⟩

/-- A workflow that waits to be run, with its run. -/
def samplePending : WorkflowInstance where
  id := "wf_1"
  jobId := "job_1"
  runId := "run_1"
  state := .pending
  context := []
  tasks := []
  history := []
  version := 1
  createdAt := "2024-01-01T00:00:00.000Z"
  updatedAt := "2024-01-01T00:00:00.000Z"

def samplePendingStores : Stores :=
  (Stores.empty.saveWorkflow samplePending).saveRun
    { id := "run_1", jobId := "job_1", workflowId := "wf_1", status := .pending,
      startedAt := "2024-01-01T00:00:00.000Z", finishedAt := none, trigger := "manual", input := [] }

/-- Orchestrators with the given listeners. -/
def sampleListening (listeners : List DomainEventListener) : World where
  handlers := []
  simulator := ⟨[], 0⟩
  listeners := listeners
  answer _ _ _ _ := ⟨.returns ⟨true, []⟩, 0, ""⟩

theorem samplePendingStores_runsById : samplePendingStores.RunsById := by
  intro r run h
  have hmem : (r, run) ∈ samplePendingStores.runs.entries := InsertionMap.get_eq_some.1 h
  obtain ⟨rfl, rfl⟩ := Prod.mk.inj (List.mem_singleton.1 hmem)
  rfl

/-- The only listener returns, and the call leaves both in the target state. -/
theorem allOrNothing_iff_sample : ∃ s' result,
    Applies (sampleListening [fun _ => none]) samplePendingStores samplePending "start" .running "system" s' result ∧
      AllOrNothing (sampleListening [fun _ => none]) samplePendingStores samplePending "start" .running s' result := by
  have hallowed : Allowed samplePending "start" .running := ⟨rfl, by decide⟩
  refine ⟨_, _, (applies_iff hallowed).2 ⟨"", "", "", rfl, rfl⟩, ?_⟩
  exact (allOrNothing_iff (sampleListening [fun _ => none]) samplePendingStores_runsById samplePending "start" .running
    "system").2 (.inr ⟨fun _ l hl => by rw [List.mem_singleton.1 hl], rfl⟩) _ _
      ((applies_iff hallowed).2 ⟨"", "", "", rfl, rfl⟩)

/-- The only listener throws, and the rejected call leaves a running workflow and a running run. -/
theorem rejected_transition_saved : ∃ s' e,
    Applies (sampleListening [fun _ => some (.exception (.error "down"))]) samplePendingStores samplePending "start"
        .running "system" s' (.error e) ∧
      ¬ AllOrNothing (sampleListening [fun _ => some (.exception (.error "down"))]) samplePendingStores samplePending
        "start" .running s' (.error e) ∧
      (s'.workflows.get "wf_1").map (·.state) = some .running ∧
      (s'.runs.get "run_1").map (·.status) = some .running := by
  refine ⟨_, _, (applies_iff ⟨rfl, by decide⟩).2 ⟨"", "", "", rfl, rfl⟩, fun h => ?_, rfl, rfl⟩
  have hstate := congrArg (Option.map WorkflowInstance.state) h.1
  cases hstate

end Jobflow
