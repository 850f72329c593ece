import Mathlib.Data.List.Chain
import Jobflow.NewRun

/-!
# Histories

A property of workflow instances that every new run has, and that transitions and task updates keep,
holds of every instance in every reachable state: stored, checkpointed or held by a suspended call,
however stale. That a history is a faithful trace is such a property.
-/

namespace Jobflow

/-! ## Properties of all instances -/

/-- `P` holds of every workflow instance in the stores. -/
def Stores.All (P : WorkflowInstance → Prop) (s : Stores) : Prop :=
  (∀ id w, s.workflows.get id = some w → P w) ∧ ∀ r, ∀ snap ∈ s.listSnapshots r, P snap.workflow

/-- `P` holds of every workflow instance anywhere. -/
def System.All (P : WorkflowInstance → Prop) (s : System) : Prop :=
  s.stores.All P ∧ ∀ c ∈ s.calls, ∀ w ∈ c.instances, P w

section
variable {P : WorkflowInstance → Prop}

theorem Stores.All.save {s : Stores} (h : s.All P) {w : WorkflowInstance} (hw : P w) :
    (s.saveWorkflow w).All P := by
  refine ⟨fun id x hx => ?_, h.2⟩
  simp only [saveWorkflow, InsertionMap.get_set] at hx
  split at hx
  · cases hx
    exact hw
  · exact h.1 id x hx

theorem Stores.All.found {s : Stores} (h : s.All P) {r : RunId} {w : WorkflowInstance}
    (hw : s.getByRunId r = some w) : P w := by
  obtain ⟨id, _, hid⟩ := Option.bind_eq_some_iff.1 hw
  split at hid
  · cases hid
  · exact h.1 id w hid

theorem Stores.All.found_mem {s : Stores} (h : s.All P) (r : RunId) : ∀ w ∈ (s.getByRunId r).toList, P w :=
  fun _ hw => h.found (Option.mem_toList.1 hw)

theorem Stores.All.capture {s : Stores} (h : s.All P) {r : RunId} {w : WorkflowInstance} (hw : P w)
    (label : Option String) (now : ISODateString) : (s.captureCheckpoint r w label now).All P := by
  refine ⟨h.1, fun a snap hs => ?_⟩
  rcases listSnapshots_capture hs with hs | ⟨_, rfl⟩
  · exact h.2 a snap hs
  · exact hw

variable (hderived : ∀ w₀ w, P w₀ → Derived w₀ w → P w)
include hderived

/-- A segment keeps `P` everywhere. -/
theorem Effect.all {s s' : Stores} {k : Nat} {r : RunId} {seg : Segment} {held ws : List WorkflowInstance}
    (he : Effect k r held s seg s' ws) (hs : s.All P) (hheld : ∀ w ∈ held, P w) : s'.All P ∧ ∀ w ∈ ws, P w := by
  cases he with
  | keep h => exact ⟨hs, fun w hw => hheld w (h w hw)⟩
  | read h => exact ⟨hs, fun w hw => (h w hw).elim (hheld w) hs.found⟩
  | save h hd hws =>
    have hw := hderived _ _ (hheld _ h) hd
    exact ⟨hs.save hw, fun x hx => by rw [hws x hx]; exact hw⟩
  | resave h => exact ⟨hs.save (hheld _ h), by simp⟩
  | @updateRun w target now _ _ hws =>
    obtain ⟨runs, he⟩ := updateRun_runs s w.runId target now
    rw [he]
    exact ⟨hs, fun x hx => hheld x (hws x hx)⟩
  | hear hws => exact ⟨hs, fun x hx => hheld x (hws x hx)⟩
  | invoke _ hws => exact ⟨hs, fun x hx => hheld x (hws x hx)⟩
  | pushDeadLetter _ => exact ⟨hs, by simp⟩
  | capture h => exact ⟨hs.capture (hheld _ h) _ _, by simp⟩
  | begin h =>
    rw [acquire_ok h]
    exact ⟨hs, by simp⟩
  | leak => exact ⟨hs, by simp⟩
  | refuse => exact ⟨hs, by simp⟩
  | settle =>
    obtain ⟨locks, hl, _⟩ := release_eq (s.deleteLocalLock k r) r ExecutionService.owner
    rw [hl]
    exact ⟨hs, by simp⟩

theorem System.All.execute {s : System} (h : s.All P) (k : Nat) (r : RunId) : (s.execute k r).All P := by
  obtain ⟨hs, hw⟩ := (ExecutionService.executeRun_effect k r s.stores).all
    hderived h.1 (by simp)
  refine ⟨hs, fun c hc w hcw => ?_⟩
  rcases List.mem_append.1 hc with hc | hc
  · exact h.2 c hc w hcw
  · rw [List.mem_singleton.1 hc] at hcw
    exact hw w hcw

omit hderived in
theorem System.All.suspend {s : System} (h : s.All P) {i : Nat} {stores : Stores} {call : Call}
    (hs : stores.All P) (hcall : ∀ w ∈ call.instances, P w) : (s.suspend i stores call).All P := by
  refine ⟨hs, fun c hc w hw => ?_⟩
  rcases List.mem_or_eq_of_mem_set hc with hc | rfl
  · exact h.2 c hc w hw
  · exact hcall w hw

omit hderived in
theorem System.All.spawn {s : System} (h : s.All P) {call : Call} (hcall : ∀ w ∈ call.instances, P w) :
    (s.spawn s.stores call).All P := by
  refine ⟨h.1, fun c hc w hw => ?_⟩
  rcases List.mem_append.1 hc with hc | hc
  · exact h.2 c hc w hw
  · rw [List.mem_singleton.1 hc] at hw
    exact hcall w hw

variable (hnew : ∀ d jobId input uuids now, P (WorkflowService.newWorkflow d jobId input uuids now))
include hnew

/-- Every event keeps `P` everywhere. -/
theorem System.All.step {world : World} {s s' : System} (h : s.All P) {e : Event} (he : s.step world e = some s') :
    s'.All P := by
  cases System.step_cases he with
  | registered | notRegistered | notRestored | acquired | notAcquired | released => exact h
  | createCalled => exact h.spawn (by simp [Call.instances])
  | executeCalled => exact h.execute hderived _ _
  | useCalled | replayCalled => exact h.spawn (h.1.found_mem _)
  | @restored r _ now snap hsnap =>
    have hold : P snap.workflow := h.1.2 r snap (Stores.findSnapshot_mem hsnap)
    exact ⟨h.1.save (hderived _ _ hold (.retasked now fun _ => .inl)), h.2⟩
  | executed hi hx =>
    obtain ⟨hs, hw⟩ := (ExecutionService.resume_effect hx).all hderived h.1 (h.2 _ (List.mem_of_getElem? hi))
    exact h.suspend hs hw
  | created hi hx =>
    refine h.suspend ?_ (by simp [Call.instances])
    cases hx with
    | missing | runSaved | returned => exact h.1
    | workflowSaved => exact h.1.save (hnew _ _ _ _ _)
  | used hi hx =>
    obtain ⟨hs, hw⟩ := (Use.resume_effect (k := 0) hx).all hderived h.1 (h.2 _ (List.mem_of_getElem? hi))
    exact h.suspend hs hw
  | replayed hi _ _ hinst =>
    refine h.suspend h.1 fun w hw => ?_
    rcases hinst w hw with hheld | hfound
    · exact h.2 _ (List.mem_of_getElem? hi) w hheld
    · exact h.1.found hfound
  | @replayExecutes _ _ k r before hi =>
    have hread : ∀ w ∈ (Call.replay k r (.read (some before))).instances, P w := h.2 _ (List.mem_of_getElem? hi)
    have hheld : ∀ w ∈ (Call.replay k r (.executing before s.calls.length)).instances, P w := hread
    exact (h.suspend h.1 hheld).execute hderived k r

/-- Every instance in every reachable state has `P`. -/
theorem System.Reachable.all {world : World} {s : System} (h : System.Reachable world s) : s.All P := by
  refine EventSystem.Reachable.invariant ?_ (fun _ _ _ hs => hs.step hderived hnew) h
  exact ⟨⟨by simp [System.empty, Stores.empty], by simp [System.empty, Stores.empty, Stores.listSnapshots]⟩,
    by simp [System.empty]⟩

end

/-! ## The history is a faithful trace -/

structure FaithfulTrace (w : WorkflowInstance) : Prop where
  first : ∀ entry ∈ w.history.head?, entry.fromState = .pending
  connected : w.history.IsChain fun a b => b.fromState = a.toState
  allowed : ∀ entry ∈ w.history,
    (⟨entry.fromState, entry.toState, entry.event⟩ : TransitionRule) ∈ DEFAULT_TRANSITION_RULES
  last : w.state = (w.history.getLast?.map (·.toState)).getD .pending
  version : w.version = 1 + w.history.length

theorem newWorkflow_faithful (d : JobDefinition) (jobId : JobId) (input : Js.Record) (uuids : Uuids)
    (now : ISODateString) : FaithfulTrace (WorkflowService.newWorkflow d jobId input uuids now) :=
  ⟨by simp [WorkflowService.newWorkflow], by simp [WorkflowService.newWorkflow],
    by simp [WorkflowService.newWorkflow], rfl, rfl⟩

/-- A transition appends one entry, which leaves the state the last one reached. -/
theorem FaithfulTrace.moved {w : WorkflowInstance} (h : FaithfulTrace w) {event : String} {target : WorkflowState}
    {actor : String} {note : Option String} {now : ISODateString}
    (rule : (⟨w.state, target, event⟩ : TransitionRule) ∈ DEFAULT_TRANSITION_RULES) :
    FaithfulTrace (w.moved event target actor note now) := by
  have hfirst := h.first
  have hlast := h.last
  unfold WorkflowInstance.moved
  refine ⟨?_, ?_, ?_, by simp, ?_⟩
  · cases hh : w.history with
    | nil => simpa [hh] using hlast
    | cons x xs =>
      rw [hh] at hfirst
      simpa using hfirst
  · refine List.isChain_append.2 ⟨h.connected, by simp, fun a ha b hb => ?_⟩
    simp only [Option.mem_def] at ha
    simp only [List.head?_cons, Option.mem_def, Option.some.injEq] at hb
    rw [← hb, hlast, ha]
    rfl
  · intro entry hentry
    rcases List.mem_append.1 hentry with hentry | hentry
    · exact h.allowed entry hentry
    · rw [List.mem_singleton.1 hentry]
      exact rule
  · have := h.version
    simp only [List.length_append, List.length_singleton]
    omega

theorem FaithfulTrace.derived {w₀ w : WorkflowInstance} (h : FaithfulTrace w₀) (hd : Derived w₀ w) :
    FaithfulTrace w := by
  cases hd with
  | moved rule => exact h.moved rule
  | retasked => exact ⟨h.first, h.connected, h.allowed, h.last, h.version⟩

/-- In every run of the system the history of every stored workflow instance is a faithful trace. -/
theorem stored_history_faithful {world : World} {events : List Event} {s : System} {id : WorkflowId}
    {w : WorkflowInstance} (hrun : EventSystem.exec (System.step world) .empty events = some s)
    (hw : s.stores.workflows.get id = some w) : FaithfulTrace w :=
  (System.Reachable.all (fun _ _ h hd => h.derived hd) newWorkflow_faithful ⟨events, hrun⟩).1.1 id w hw

/-- A job of one task: its completed run has two entries. -/
theorem stored_history_faithful_sample : ∃ events s w,
    EventSystem.exec (System.step (sampleWorld fun _ _ => false)) .empty events = some s ∧
    s.stores.workflows.get "wf_1" = some w ∧ w.history.map (·.event) = ["start", "complete"] ∧
      FaithfulTrace w := by
  have hnew := sample_newRun (fun _ _ => false) (d := sampleJob 1 [] [sampleTask "a" [] none]) (by decide +kernel)
  obtain ⟨setup, hsetup⟩ := hnew.reachable
  have hevents : ((sampleAfter (fun _ _ => false) (sampleJob 1 [] [sampleTask "a" [] none]) 13).bind
      fun s => (s.stores.workflows.get "wf_1").map fun w => w.history.map (·.event)) =
        some ["start", "complete"] := by
    decide +kernel
  obtain ⟨s, hs, hw⟩ := Option.bind_eq_some_iff.1 hevents
  obtain ⟨w, hw, hhistory⟩ := Option.map_eq_some_iff.1 hw
  have hrun := EventSystem.exec_append.2 ⟨_, hsetup, hs⟩
  exact ⟨_, s, w, hrun, hw, hhistory, stored_history_faithful hrun hw⟩

end Jobflow
