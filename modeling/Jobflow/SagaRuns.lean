import Jobflow.Saga

/-!
# What a saga runs, and what it undoes

`executeForward_ends` says where the forward loop stops and in which state, `compensates_ok` what the turns of the
compensation loop do. From both follow the calls of a whole run (`saga_order`) and how far a saga that is reported
compensated has been compensated (`saga_compensated_iff`).
-/

namespace Jobflow

open Js (Record)

/-! ## What is planned -/

def HandlerOutcome.succeeds : HandlerOutcome → Bool
  | .returns result => result.success
  | .throws _ => false

def HandlerOutcome.output : HandlerOutcome → Record
  | .returns result => result.output
  | .throws _ => []

section
variable (w : SagaWorld) (d : SagaDefinition) (runId : RunId) (input : Record)

/-- The forward handler of the `i`-th step is there, and its call succeeds. -/
def SagaWorld.Succeeds (i : Nat) : Prop :=
  ∃ step, d.steps[i]? = some step ∧ step.forward ∈ w.registered ∧ (w.forward i).succeeds = true

/-- The outputs of the first `i` steps. -/
def SagaWorld.priorOutputs : Nat → InsertionMap String Record
  | 0 => .empty
  | i + 1 =>
    match d.steps[i]? with
    | none => priorOutputs i
    | some step => (priorOutputs i).set step.id (w.forward i).output

/-- The forward call of the `i`-th step, if its handler is registered. -/
def SagaWorld.forwardCall (i : Nat) : Option SagaCall :=
  (d.steps[i]?.filter fun step => step.forward ∈ w.registered).map
    (SagaCoordinator.forwardCall runId input (w.priorOutputs d i) i)

/-- The handler that compensates the `i`-th step: one that it names and that is registered. -/
def SagaWorld.compensation (i : Nat) : Option String :=
  d.steps[i]?.bind fun step => step.compensation.filter (· ∈ w.registered)

/-- The compensation of the `i`-th step, with the output of the step itself. -/
def SagaWorld.compensateCall (i : Nat) : Option SagaCall :=
  d.steps[i]?.bind fun step => (step.compensation.filter (· ∈ w.registered)).map
    (SagaCoordinator.compensateCall runId (some (w.forward i).output) i step)

end

/-! ## The forward loop -/

@[simp] theorem SagaState.setStep_getElem? (s : SagaState) (i x : Nat) (f : SagaStepState → SagaStepState) :
    (s.setStep i f).saga.steps[x]? = (s.saga.steps[x]?).map fun t => if i = x then f t else t :=
  List.getElem?_modify ..

/-- The states of the steps are those of the definition's steps, in order. -/
def SagaState.StatesOf (d : SagaDefinition) (s : SagaState) : Prop :=
  s.saga.steps.map (·.stepId) = d.steps.map (·.id)

theorem SagaState.StatesOf.setStep {d : SagaDefinition} {s : SagaState} (h : s.StatesOf d) {i : Nat}
    {f : SagaStepState → SagaStepState} (hf : ∀ t, (f t).stepId = t.stepId) : (s.setStep i f).StatesOf d := by
  rw [SagaState.StatesOf, ← h]
  refine List.ext_getElem? fun x => ?_
  rw [List.getElem?_map, List.getElem?_map, setStep_getElem?, Option.map_map]
  congr 1
  funext t
  dsimp only [Function.comp]
  split
  · exact hf t
  · rfl

theorem SagaState.StatesOf.getElem? {d : SagaDefinition} {s : SagaState} (h : s.StatesOf d) {i : Nat}
    {step : SagaStepDefinition} (hi : d.steps[i]? = some step) :
    ∃ t, s.saga.steps[i]? = some t ∧ t.stepId = step.id := by
  have hmap := congrArg (·[i]?) h
  simp only [List.getElem?_map, hi, Option.map_some, Option.map_eq_some_iff] at hmap
  exact hmap

/-- A run whose first `k` steps have completed, with the `k`-th in status `now` and the calls `calls` behind it. -/
structure SagaState.Reached (w : SagaWorld) (d : SagaDefinition) (runId : RunId) (k : Nat) (now : SagaStepStatus)
    (calls : List SagaCall) (s : SagaState) : Prop where
  states : s.StatesOf d
  completed : ∀ i < k, ∀ t, s.saga.steps[i]? = some t → t.status = .completed ∧ t.output = some (w.forward i).output
  current : ∀ t, s.saga.steps[k]? = some t → t.status = now
  later : ∀ i t, k < i → s.saga.steps[i]? = some t → t.status = .pending
  stack : s.stack = List.range k
  runId : s.saga.runId = runId
  calls : s.calls = calls

section
variable {w : SagaWorld} {d : SagaDefinition} {runId : RunId} {k : Nat} {now : SagaStepStatus} {calls : List SagaCall}
  {s : SagaState}

theorem SagaState.Reached.setStep (h : s.Reached w d runId k now calls) {f : SagaStepState → SagaStepState}
    (hid : ∀ t, (f t).stepId = t.stepId) {now' : SagaStepStatus} (hf : ∀ t, (f t).status = now') :
    (s.setStep k f).Reached w d runId k now' calls where
  states := h.states.setStep hid
  completed i hi t ht := by
    rw [setStep_getElem?, Option.map_eq_some_iff] at ht
    obtain ⟨u, hu, rfl⟩ := ht
    rw [if_neg (by omega)]
    exact h.completed i hi u hu
  current t ht := by
    rw [setStep_getElem?, Option.map_eq_some_iff] at ht
    obtain ⟨u, hu, rfl⟩ := ht
    rw [if_pos rfl]
    exact hf u
  later i t hi ht := by
    rw [setStep_getElem?, Option.map_eq_some_iff] at ht
    obtain ⟨u, hu, rfl⟩ := ht
    rw [if_neg (by omega)]
    exact h.later i u hi hu
  stack := h.stack
  runId := h.runId
  calls := h.calls

theorem SagaState.Reached.call (h : s.Reached w d runId k now calls) (c : SagaCall) :
    (s.call c).Reached w d runId k now (calls ++ [c]) where
  states := h.states
  completed := h.completed
  current := h.current
  later := h.later
  stack := h.stack
  runId := h.runId
  calls := congrArg (· ++ [c]) h.calls

theorem SagaState.Reached.setStatus (h : s.Reached w d runId k now calls) (status : SagaStatus) :
    (s.setStatus status).Reached w d runId k now calls :=
  ⟨h.states, h.completed, h.current, h.later, h.stack, h.runId, h.calls⟩

theorem SagaState.Reached.tick (h : s.Reached w d runId k now calls) : s.tick.Reached w d runId k now calls :=
  ⟨h.states, h.completed, h.current, h.later, h.stack, h.runId, h.calls⟩

theorem SagaState.Reached.begin (h : s.Reached w d runId k now calls) :
    (SagaCoordinator.begin w k s).Reached w d runId k .running calls := by
  refine SagaState.Reached.tick (h.setStep ?_ ?_)
  · exact fun _ => rfl
  · exact fun _ => rfl

/-- A step that succeeded goes onto the stack. -/
theorem SagaState.Reached.complete (h : s.Reached w d runId k now calls) {step : SagaStepDefinition}
    (hk : d.steps[k]? = some step) :
    (SagaCoordinator.complete w k step (w.forward k).output s).Reached w d runId (k + 1) .pending calls := by
  obtain ⟨u, hu, _⟩ := h.states.getElem? hk
  let f : SagaStepState → SagaStepState := fun t =>
    { t with status := .completed, output := some (w.forward k).output, finishedAt := some (w.clock s.readings) }
  have hf : ∀ t, (f t).stepId = t.stepId ∧ (f t).status = .completed := fun _ => ⟨rfl, rfl⟩
  have h' : (s.setStep k f).Reached w d runId k .completed calls := h.setStep (fun t => (hf t).1) fun t => (hf t).2
  have hstatus : ((s.setStep k f).saga.steps[k]?).map (·.status) = some .completed := by
    simp [hu, (hf u).2]
  have hpush : SagaCoordinator.complete w k step (w.forward k).output s =
      { (s.setStep k f).tick with
        priorOutputs := s.priorOutputs.set step.id (w.forward k).output, stack := s.stack ++ [k] } :=
    if_pos hstatus
  rw [hpush]
  refine ⟨h'.states, ?_, ?_, ?_, ?_, h'.runId, h'.calls⟩
  · intro i hi t ht
    rcases Nat.lt_succ_iff_lt_or_eq.1 hi with hi | rfl
    · exact h'.completed i hi t ht
    · refine ⟨h'.current t ht, ?_⟩
      have ht' : (s.setStep i f).saga.steps[i]? = some t := ht
      simp only [setStep_getElem?, hu, Option.map_some, if_true] at ht'
      exact (Option.some.inj ht') ▸ rfl
  · intro t ht
    exact h'.later (k + 1) t (Nat.lt_succ_self k) ht
  · intro i t hi ht
    exact h'.later i t (by omega) ht
  · change s.stack ++ [k] = List.range (k + 1)
    rw [h.stack, List.range_succ]

/-- The forward calls of the first `n` steps. -/
def SagaWorld.forwardCalls (w : SagaWorld) (d : SagaDefinition) (runId : RunId) (input : Record) (n : Nat) :
    List SagaCall :=
  (List.range n).filterMap (w.forwardCall d runId input)

theorem SagaWorld.forwardCalls_succ (w : SagaWorld) {d : SagaDefinition} (runId : RunId) (input : Record) {k : Nat}
    {step : SagaStepDefinition} (hk : d.steps[k]? = some step) :
    w.forwardCalls d runId input (k + 1) = w.forwardCalls d runId input k ++
      if step.forward ∈ w.registered then
        [SagaCoordinator.forwardCall runId input (w.priorOutputs d k) k step] else [] := by
  rw [forwardCalls, List.range_succ, List.filterMap_append, forwardCalls]
  congr 1
  by_cases hr : step.forward ∈ w.registered <;> simp [SagaWorld.forwardCall, hk, hr, Option.filter]

theorem SagaCoordinator.fail_eq (message : String) (h : s.Reached w d runId k now calls) :
    ∃ s', s'.Reached w d runId k .failed calls ∧ fail w d k message s = persist w (compensate w d s') := by
  refine ⟨_, ?_, rfl⟩
  refine SagaState.Reached.setStatus (h.setStep ?_ ?_) _
  · exact fun _ => rfl
  · exact fun _ => rfl

theorem SagaCoordinator.forwardResult_of_succeeds {o : HandlerOutcome} (h : o.succeeds = true) :
    forwardResult o = .ok o.output := by
  cases o with
  | throws message => cases h
  | returns result => exact if_pos h

theorem SagaCoordinator.succeeds_of_forwardResult {o : HandlerOutcome} {output : Record}
    (h : forwardResult o = .ok output) : o.succeeds = true ∧ o.output = output := by
  cases o with
  | throws message => cases h
  | returns result =>
    unfold forwardResult at h
    dsimp only at h
    split at h
    · rename_i hsuccess
      exact ⟨hsuccess, Except.ok.inj h⟩
    · split at h <;> cases h

theorem SagaCoordinator.complete_priorOutputs (step : SagaStepDefinition) (output : Record) :
    (complete w k step output s).priorOutputs = s.priorOutputs.set step.id output := by
  unfold complete SagaState.push
  dsimp only
  split <;> rfl

/-- The run ended behind the first `n` steps, which succeeded: completed if there is no other step, else with the
compensations. -/
def SagaState.EndsBehind (w : SagaWorld) (d : SagaDefinition) (runId : RunId) (input : Record) (n : Nat)
    (r : SagaState) : Prop :=
  n ≤ d.steps.length ∧ (∀ i < n, w.Succeeds d i) ∧ ¬ w.Succeeds d n ∧ ∃ now s,
    s.Reached w d runId n now (w.forwardCalls d runId input (n + 1)) ∧ (n < d.steps.length → now = .failed) ∧
    r = SagaCoordinator.persist w
      (if n = d.steps.length then s.setStatus .completed else SagaCoordinator.compensate w d s)

/-- Behind the last step there is nothing left to do. -/
theorem SagaState.Reached.endsBehind_last {input : Record}
    (h : s.Reached w d runId k .pending (w.forwardCalls d runId input k)) (hk : k = d.steps.length)
    (hall : ∀ i < k, w.Succeeds d i) :
    (SagaCoordinator.persist w (s.setStatus .completed)).EndsBehind w d runId input k := by
  have hnone : d.steps[k]? = none := List.getElem?_eq_none (by omega)
  refine ⟨Nat.le_of_eq hk, hall, ?_, .pending, s, ?_, fun hlt => absurd hlt (by omega), (if_pos hk).symm ▸ rfl⟩
  · rintro ⟨step, hstep, -⟩
    rw [hnone] at hstep
    cases hstep
  · have hsame : w.forwardCalls d runId input (k + 1) = w.forwardCalls d runId input k := by
      simp [SagaWorld.forwardCalls, List.range_succ, SagaWorld.forwardCall, hnone]
    rwa [hsame]

/-- A step that does not get through ends the saga. -/
theorem SagaState.Reached.endsBehind_fail {input : Record}
    (h : s.Reached w d runId k now (w.forwardCalls d runId input (k + 1))) (hk : k < d.steps.length)
    (hall : ∀ i < k, w.Succeeds d i) (hnot : ¬ w.Succeeds d k) (message : String) :
    (SagaCoordinator.fail w d k message s).EndsBehind w d runId input k := by
  obtain ⟨s', hs', hfail⟩ := SagaCoordinator.fail_eq message h
  refine ⟨Nat.le_of_lt hk, hall, hnot, .failed, s', hs', fun _ => rfl, ?_⟩
  rw [hfail, if_neg (Nat.ne_of_lt hk)]

/-- The loop goes through the steps as long as they succeed. -/
theorem SagaCoordinator.executeForward_ends (input : Record) : ∀ (steps : List SagaStepDefinition) {k : Nat}
    {s : SagaState}, s.Reached w d runId k .pending (w.forwardCalls d runId input k) →
      s.priorOutputs = w.priorOutputs d k → steps = d.steps.drop k → k ≤ d.steps.length →
      (∀ i < k, w.Succeeds d i) → ∃ n, (executeForward w d input steps k s).EndsBehind w d runId input n
  | [], k, s, h, _, hsteps, hk, hall => by
    have hlength : d.steps.length ≤ k := List.drop_eq_nil_iff.1 hsteps.symm
    exact ⟨k, h.endsBehind_last (by omega) hall⟩
  | step :: steps, k, s, h, hprior, hsteps, hk, hall => by
    have hstep : d.steps[k]? = some step := by
      rw [← List.head?_drop, ← hsteps]
      rfl
    have hlt : k < d.steps.length := (List.getElem?_eq_some_iff.1 hstep).1
    have hrest : steps = d.steps.drop (k + 1) := by
      rw [← List.tail_drop, ← hsteps]
      rfl
    have hb := h.begin
    have hcalls := w.forwardCalls_succ runId input hstep
    by_cases hr : step.forward ∈ w.registered
    · rw [if_pos hr] at hcalls
      have hc := hb.call (forwardCall runId input (w.priorOutputs d k) k step)
      rw [← hcalls] at hc
      have hcall : forwardCall (begin w k s).saga.runId input (begin w k s).priorOutputs k step =
          forwardCall runId input (w.priorOutputs d k) k step := by
        rw [hb.runId]
        exact congrArg (forwardCall runId input · k step) hprior
      rw [executeForward]
      dsimp only
      rw [if_neg (not_not.2 hr), hcall]
      cases hresult : forwardResult (w.forward k) with
      | error message =>
        refine ⟨k, hc.endsBehind_fail hlt hall ?_ message⟩
        rintro ⟨u, hu, -, hsucceeds⟩
        rw [forwardResult_of_succeeds hsucceeds] at hresult
        cases hresult
      | ok output =>
        obtain ⟨hsucceeds, rfl⟩ := succeeds_of_forwardResult hresult
        have hpriors : (complete w k step (w.forward k).output
            ((begin w k s).call (forwardCall runId input (w.priorOutputs d k) k step))).priorOutputs =
              w.priorOutputs d (k + 1) := by
          rw [complete_priorOutputs, SagaWorld.priorOutputs, hstep]
          exact congrArg (·.set step.id (w.forward k).output) hprior
        refine executeForward_ends input steps (hc.complete hstep) hpriors hrest hlt fun i hi => ?_
        rcases Nat.lt_succ_iff_lt_or_eq.1 hi with hi | rfl
        · exact hall i hi
        · exact ⟨step, hstep, hr, hsucceeds⟩
    · rw [if_neg hr, List.append_nil] at hcalls
      rw [executeForward]
      dsimp only
      rw [if_pos hr]
      refine ⟨k, (hcalls ▸ hb).endsBehind_fail hlt hall ?_ _⟩
      rintro ⟨u, hu, hreg, -⟩
      rw [hstep] at hu
      cases hu
      exact hr hreg

end

/-! ## The turns of the compensation -/

/-- What the turn of the `i`-th step compensates: the first step with its id, and the registered handler that step
names. -/
def SagaWorld.target (w : SagaWorld) (d : SagaDefinition) (i : Nat) : Option (Nat × SagaStepDefinition × String) :=
  d.steps[i]?.bind fun step => (d.steps.findIdx? fun t => t.id = step.id).bind fun j =>
    d.steps[j]?.bind fun stepDef => (stepDef.compensation.filter (· ∈ w.registered)).map fun c => (j, stepDef, c)

/-- The call of the turn. -/
def SagaWorld.turnCall (w : SagaWorld) (d : SagaDefinition) (runId : RunId) (i : Nat) : Option SagaCall :=
  (w.target d i).map fun r =>
    SagaCoordinator.compensateCall runId (some (w.forward i).output) i r.2.1 r.2.2

/-- The status in which the call of the turn leaves a step. -/
def SagaWorld.settled (w : SagaWorld) (i : Nat) : SagaStepStatus :=
  match w.compensate i with
  | .throws _ => .compensating
  | .returns _ => .compensated

/-- What the turn makes of the status of the `x`-th step. -/
def SagaWorld.turnStatus (w : SagaWorld) (d : SagaDefinition) (x : Nat) (status : SagaStepStatus) (i : Nat) :
    SagaStepStatus :=
  if (w.target d i).map (·.1) = some x then w.settled i else status

section
variable {w : SagaWorld} {d : SagaDefinition} {runId : RunId} {s : SagaState}

theorem SagaCoordinator.compensateStep_eq (hs : s.StatesOf d) {i : Nat} {t : SagaStepState}
    (ht : s.saga.steps[i]? = some t) :
    compensateStep w d s i =
      match w.target d i with
      | none => s
      | some (j, stepDef, c) =>
        let s := (s.setStep j fun t => { t with status := .compensating }).call
          (compensateCall s.saga.runId t.output i stepDef c)
        match w.compensate i with
        | .throws _ => s
        | .returns _ => s.setStep j fun t => { t with status := .compensated } := by
  have hmap := congrArg (·[i]?) hs
  simp only [List.getElem?_map, ht, Option.map_some, eq_comm (a := some t.stepId), Option.map_eq_some_iff] at hmap
  obtain ⟨step, hstep, hid⟩ := hmap
  have hfind : s.saga.steps.findIdx? (fun u => u.stepId = step.id) = d.steps.findIdx? fun u => u.id = step.id := by
    have hcomp := congrArg (List.findIdx? fun id => id = step.id) hs
    rw [List.findIdx?_map, List.findIdx?_map] at hcomp
    exact hcomp
  unfold compensateStep SagaWorld.target
  simp only [ht, hstep, ← hid, hfind, Option.bind_some, List.find?_eq_bind_findIdx?_getElem?]
  cases hj : d.steps.findIdx? fun u => u.id = step.id with
  | none => simp
  | some j =>
    simp only [Option.bind_some]
    cases hdef : d.steps[j]? with
    | none => simp
    | some stepDef =>
      simp only [Option.bind_some]
      cases hc : stepDef.compensation with
      | none => simp
      | some c => by_cases hr : c ∈ w.registered <;> simp [Option.filter, hr]; rfl

/-- A run after some turns of the compensation, from a state with the statuses `before` and the calls `calls`. -/
structure SagaState.Turned (w : SagaWorld) (d : SagaDefinition) (runId : RunId) (k : Nat)
    (before : Nat → SagaStepStatus) (calls : List SagaCall) (turns : List Nat) (s : SagaState) : Prop where
  states : s.StatesOf d
  outputs : ∀ i < k, ∀ t, s.saga.steps[i]? = some t → t.output = some (w.forward i).output
  status : ∀ x t, s.saga.steps[x]? = some t → t.status = turns.foldl (w.turnStatus d x) (before x)
  calls : s.calls = calls ++ turns.filterMap (w.turnCall d runId)
  runId : s.saga.runId = runId

/-- What a change of the status of one step does to the others. -/
theorem SagaState.setStep_status {j : Nat} {status : SagaStepStatus} {x : Nat} {t : SagaStepState}
    (h : (s.setStep j fun t => { t with status }).saga.steps[x]? = some t) :
    ∃ u, s.saga.steps[x]? = some u ∧ t.output = u.output ∧ t.status = if j = x then status else u.status := by
  rw [setStep_getElem?, Option.map_eq_some_iff] at h
  obtain ⟨u, hu, rfl⟩ := h
  refine ⟨u, hu, ?_⟩
  split <;> exact ⟨rfl, rfl⟩

theorem SagaState.Turned.turn {k : Nat} {before : Nat → SagaStepStatus} {calls : List SagaCall} {turns : List Nat}
    (h : s.Turned w d runId k before calls turns) {i : Nat} (hi : i < k) (hlength : k ≤ d.steps.length) :
    (SagaCoordinator.compensateStep w d s i).Turned w d runId k before calls (turns ++ [i]) := by
  obtain ⟨step, hstep⟩ : ∃ step, d.steps[i]? = some step := ⟨_, List.getElem?_eq_getElem (by omega)⟩
  obtain ⟨t, ht, _⟩ := h.states.getElem? hstep
  have houtput := h.outputs i hi t ht
  rw [SagaCoordinator.compensateStep_eq h.states ht]
  cases htarget : w.target d i with
  | none =>
    refine ⟨h.states, h.outputs, ?_, ?_, h.runId⟩
    · intro x u hu
      rw [List.foldl_append, ← h.status x u hu]
      simp [SagaWorld.turnStatus, htarget]
    · rw [h.calls]
      simp [SagaWorld.turnCall, htarget]
  | some r =>
    obtain ⟨j, stepDef, c⟩ := r
    have hcalls : s.calls ++ [SagaCoordinator.compensateCall s.saga.runId t.output i stepDef c] =
        calls ++ (turns ++ [i]).filterMap (w.turnCall d runId) := by
      rw [h.calls, h.runId, houtput]
      simp [SagaWorld.turnCall, htarget]
    have hsettled : ∀ x (before : SagaStepStatus), (turns ++ [i]).foldl (w.turnStatus d x) before =
        if j = x then w.settled i else turns.foldl (w.turnStatus d x) before := by
      intro x before
      simp [SagaWorld.turnStatus, htarget]
    have hstates : ∀ s : SagaState, s.StatesOf d → ∀ j status,
        (s.setStep j fun t => { t with status }).StatesOf d := fun s hs j status => hs.setStep fun _ => rfl
    dsimp only
    cases houtcome : w.compensate i with
    | throws message =>
      refine ⟨hstates _ h.states _ _, ?_, ?_, hcalls, h.runId⟩
      · intro x hx u hu
        obtain ⟨v, hv, hout, -⟩ := SagaState.setStep_status hu
        rw [hout]
        exact h.outputs x hx v hv
      · intro x u hu
        obtain ⟨v, hv, -, hst⟩ := SagaState.setStep_status hu
        rw [hsettled, hst, h.status x v hv]
        simp [SagaWorld.settled, houtcome]
    | returns result =>
      refine ⟨hstates _ (hstates _ h.states _ _) _ _, ?_, ?_, hcalls, h.runId⟩
      · intro x hx u hu
        obtain ⟨v, hv, hout, -⟩ := SagaState.setStep_status hu
        obtain ⟨v', hv', hout', -⟩ := SagaState.setStep_status hv
        rw [hout, hout']
        exact h.outputs x hx v' hv'
      · intro x u hu
        obtain ⟨v, hv, -, hst⟩ := SagaState.setStep_status hu
        obtain ⟨v', hv', -, hst'⟩ := SagaState.setStep_status hv
        rw [hsettled, hst, hst', h.status x v' hv']
        by_cases hj : j = x <;> simp [hj, SagaWorld.settled, houtcome]

/-- All turns of a compensation. -/
theorem SagaState.Turned.all {k : Nat} {before : Nat → SagaStepStatus} {calls : List SagaCall}
    (hlength : k ≤ d.steps.length) : ∀ (rest turns : List Nat) {s : SagaState},
      s.Turned w d runId k before calls turns → (∀ i ∈ rest, i < k) →
      (rest.foldl (SagaCoordinator.compensateStep w d) s).Turned w d runId k before calls (turns ++ rest)
  | [], turns, s, h, _ => by simpa using h
  | i :: rest, turns, s, h, hrest => by
    have hi := h.turn (hrest i List.mem_cons_self) hlength
    rw [List.foldl_cons, List.append_cons]
    exact SagaState.Turned.all hlength rest (turns ++ [i]) hi fun j hj => hrest j (List.mem_cons_of_mem _ hj)

/-- The status of the `x`-th step when the forward loop has stopped behind `n` steps. -/
def stoppedStatus (n x : Nat) : SagaStepStatus :=
  if x < n then .completed else if x = n then .failed else .pending

/-- What `compensate` makes of a run that has stopped behind `n` steps: their turns, in reverse. -/
theorem SagaCoordinator.compensates_ok {n : Nat} {calls : List SagaCall} (h : s.Reached w d runId n .failed calls)
    (hn : n ≤ d.steps.length) :
    (compensate w d s).Turned w d runId n (stoppedStatus n) calls (List.range n).reverse ∧
      (compensate w d s).saga.status = .compensated := by
  have hstart : s.Turned w d runId n (stoppedStatus n) calls [] := by
    refine ⟨h.states, fun i hi t ht => (h.completed i hi t ht).2, ?_, by simp [h.calls], h.runId⟩
    intro x t ht
    unfold stoppedStatus
    split
    · exact (h.completed x ‹_› t ht).1
    split
    · subst_vars
      exact h.current t ht
    · exact h.later x t (by omega) ht
  have hall := hstart.all hn (List.range n).reverse [] fun i hi => by simpa using hi
  rw [compensate, h.stack]
  exact ⟨⟨hall.states, hall.outputs, hall.status, hall.calls, hall.runId⟩, rfl⟩

/-! ## Which step a turn is for -/

theorem SagaWorld.target_le {i j : Nat} {stepDef : SagaStepDefinition} {c : String}
    (h : w.target d i = some (j, stepDef, c)) :
    j ≤ i ∧ d.steps[j]? = some stepDef ∧ stepDef.compensation = some c ∧ c ∈ w.registered := by
  simp only [SagaWorld.target, Option.bind_eq_some_iff, Option.map_eq_some_iff, Option.filter_eq_some_iff] at h
  obtain ⟨step, hstep, j', hj, stepDef', hdef, c', ⟨hc, hr⟩, heq⟩ := h
  cases heq
  obtain ⟨hi, rfl⟩ := List.getElem?_eq_some_iff.1 hstep
  obtain ⟨hlt, -, hfirst⟩ := List.findIdx?_eq_some_iff_getElem.1 hj
  refine ⟨?_, hdef, hc, by simpa using hr⟩
  by_contra hgt
  exact hfirst i (by omega) (by simp)

/-- A step that a turn compensates is compensated by its own turn. -/
theorem SagaWorld.target_self {i j : Nat} (h : (w.target d i).map (·.1) = some j) :
    (w.target d j).map (·.1) = some j := by
  obtain ⟨⟨j, stepDef, c⟩, htarget, rfl⟩ := Option.map_eq_some_iff.1 h
  simp only [SagaWorld.target, Option.bind_eq_some_iff, Option.map_eq_some_iff] at htarget ⊢
  obtain ⟨step, hstep, j', hj, stepDef', hdef, c', hc, heq⟩ := htarget
  cases heq
  have hid : stepDef.id = step.id := by
    obtain ⟨hlt, hp, -⟩ := List.findIdx?_eq_some_iff_getElem.1 hj
    obtain ⟨_, rfl⟩ := List.getElem?_eq_some_iff.1 hdef
    simpa using hp
  exact ⟨_, ⟨stepDef, hdef, j, by rw [hid]; exact hj, stepDef, hdef, c, hc, rfl⟩, rfl⟩

/-- No step before the `i`-th has its id. -/
def SagaDefinition.FirstOfId (d : SagaDefinition) (i : Nat) (step : SagaStepDefinition) : Prop :=
  ∀ j < i, ∀ other, d.steps[j]? = some other → other.id ≠ step.id

theorem SagaDefinition.firstOfId_iff {i : Nat} {step : SagaStepDefinition} (hi : d.steps[i]? = some step) :
    d.FirstOfId i step ↔ d.steps.findIdx? (fun t => t.id = step.id) = some i := by
  obtain ⟨hlt, rfl⟩ := List.getElem?_eq_some_iff.1 hi
  rw [List.findIdx?_eq_some_iff_getElem]
  constructor
  · intro h
    refine ⟨hlt, by simp, fun j hj => ?_⟩
    simpa using h j hj _ (List.getElem?_eq_getElem (by omega))
  · rintro ⟨_, _, h⟩ j hj other hother
    obtain ⟨_, rfl⟩ := List.getElem?_eq_some_iff.1 hother
    simpa using h j hj

theorem SagaDefinition.firstOfId_of_nodup (hd : (d.steps.map (·.id)).Nodup) {i : Nat} {step : SagaStepDefinition}
    (hi : d.steps[i]? = some step) : d.FirstOfId i step := by
  intro j hj other hother hid
  have hsame : (d.steps.map (·.id))[j]? = (d.steps.map (·.id))[i]? := by simp [hi, hother, hid]
  have hlt : i < (d.steps.map (·.id)).length := by simpa using (List.getElem?_eq_some_iff.1 hi).1
  exact absurd ((List.getElem?_inj (by omega) hd).1 hsame) (by omega)

/-- The turn of a step that is the first with its id is for itself. -/
theorem SagaWorld.target_of_first {i : Nat} {step : SagaStepDefinition} (hi : d.steps[i]? = some step)
    (hfirst : d.FirstOfId i step) :
    w.target d i = (step.compensation.filter (· ∈ w.registered)).map fun c => (i, step, c) := by
  simp only [SagaWorld.target, hi, (SagaDefinition.firstOfId_iff hi).1 hfirst, Option.bind_some]

/-- A turn that is for itself is that of a step that is the first with its id. -/
theorem SagaWorld.target_eq_self {i : Nat} {step : SagaStepDefinition} (hi : d.steps[i]? = some step)
    (h : (w.target d i).map (·.1) = some i) :
    d.FirstOfId i step ∧ ∃ c, step.compensation = some c ∧ c ∈ w.registered := by
  obtain ⟨⟨j, stepDef, c⟩, htarget, rfl⟩ := Option.map_eq_some_iff.1 h
  obtain ⟨-, hdef, hc, hr⟩ := SagaWorld.target_le htarget
  rw [hi] at hdef
  cases hdef
  refine ⟨(SagaDefinition.firstOfId_iff hi).2 ?_, c, hc, hr⟩
  simp only [SagaWorld.target, Option.bind_eq_some_iff, Option.map_eq_some_iff] at htarget
  obtain ⟨step', hstep', j', hj, stepDef', -, c', -, heq⟩ := htarget
  cases heq
  rw [hi] at hstep'
  cases hstep'
  exact hj

/-- How a step stands after the turns of the first `n` steps, in reverse: its own turn is the last one for it. -/
theorem SagaWorld.foldl_turnStatus {x : Nat} : ∀ (n : Nat) (before : SagaStepStatus),
    (List.range n).reverse.foldl (w.turnStatus d x) before =
      if x < n ∧ (w.target d x).map (·.1) = some x then w.settled x else before
  | 0, before => by simp
  | n + 1, before => by
    rw [List.range_succ, List.reverse_append, List.reverse_singleton, List.singleton_append, List.foldl_cons,
      SagaWorld.foldl_turnStatus n]
    by_cases hself : (w.target d x).map (·.1) = some x
    · rcases Nat.lt_trichotomy x n with hlt | rfl | hgt
      · rw [if_pos ⟨hlt, hself⟩, if_pos ⟨by omega, hself⟩]
      · rw [if_neg (by omega), if_pos ⟨by omega, hself⟩, SagaWorld.turnStatus, if_pos hself]
      · rw [if_neg (by omega), if_neg (by omega), SagaWorld.turnStatus, if_neg]
        intro htarget
        obtain ⟨⟨j, stepDef, c⟩, hsome, rfl⟩ := Option.map_eq_some_iff.1 htarget
        have := (SagaWorld.target_le hsome).1
        dsimp only at hgt
        omega
    · rw [if_neg (fun h => hself h.2), if_neg (fun h => hself h.2), SagaWorld.turnStatus, if_neg]
      exact fun htarget => hself (SagaWorld.target_self htarget)

end

/-! ## Whole runs -/

section
variable {w : SagaWorld} {definitions : InsertionMap String SagaDefinition} {definitionId : String} {d : SagaDefinition}

theorem SagaCoordinator.newInstance_reached (w : SagaWorld) (d : SagaDefinition) (definitionId : String)
    (runId : RunId) (input : Record) :
    (newInstance w d definitionId runId).Reached w d runId 0 .pending (w.forwardCalls d runId input 0) where
  states := by
    simp only [SagaState.StatesOf, newInstance, List.map_map]
    rfl
  completed i hi := absurd hi (Nat.not_lt_zero i)
  current t ht := by
    simp only [newInstance, List.getElem?_map, Option.map_eq_some_iff] at ht
    obtain ⟨step, _, rfl⟩ := ht
    rfl
  later i t _ ht := by
    simp only [newInstance, List.getElem?_map, Option.map_eq_some_iff] at ht
    obtain ⟨step, _, rfl⟩ := ht
    rfl
  stack := rfl
  runId := rfl
  calls := rfl

/-- `start` answers for a registered definition, and its run ends behind some of the steps. -/
theorem SagaCoordinator.start_ends (hdef : definitions.get definitionId = some d) (runId : RunId) (input : Record) :
    ∃ r n, start w definitions definitionId runId input = .ok r ∧ r.EndsBehind w d runId input n := by
  obtain ⟨n, hn⟩ := executeForward_ends input d.steps (newInstance_reached w d definitionId runId input) rfl rfl
    (Nat.zero_le _) fun i hi => absurd hi (Nat.not_lt_zero i)
  exact ⟨_, n, by rw [start, hdef], hn⟩

/-- The handlers of a saga whose steps have different ids: the forward handlers in order up to the first step that does
not succeed, and then, if there is one, the registered compensations of the steps before it in reverse, each with the
output of its own step. -/
theorem saga_order (hdef : definitions.get definitionId = some d) (hd : (d.steps.map (·.id)).Nodup) (runId : RunId)
    (input : Record) :
    ∃ r n, SagaCoordinator.start w definitions definitionId runId input = .ok r ∧
      n ≤ d.steps.length ∧ (∀ i < n, w.Succeeds d i) ∧ ¬ w.Succeeds d n ∧
      r.calls = w.forwardCalls d runId input (n + 1) ++
        (if n = d.steps.length then [] else (List.range n).reverse.filterMap (w.compensateCall d runId)) ∧
      (r.saga.status = .completed ↔ ∀ i < d.steps.length, w.Succeeds d i) := by
  obtain ⟨r, n, hr, hn, hall, hnot, now, s, hs, hnow, rfl⟩ := SagaCoordinator.start_ends hdef runId input
  refine ⟨_, n, hr, hn, hall, hnot, ?_⟩
  by_cases hend : n = d.steps.length
  · rw [if_pos hend, if_pos hend, List.append_nil]
    refine ⟨hs.calls, ⟨fun _ i hi => hall i (by omega), fun _ => rfl⟩⟩
  · rw [if_neg hend, if_neg hend]
    obtain rfl := hnow (by omega)
    obtain ⟨hturned, hstatus⟩ := SagaCoordinator.compensates_ok hs hn
    have hcalls : ∀ i ∈ (List.range n).reverse, w.turnCall d runId i = w.compensateCall d runId i := by
      intro i hi
      have hlt : i < n := by simpa using hi
      have hstep : d.steps[i]? = some d.steps[i] := List.getElem?_eq_getElem (by omega)
      have hfirst := SagaDefinition.firstOfId_of_nodup hd hstep
      rw [SagaWorld.turnCall, SagaWorld.target_of_first hstep hfirst, SagaWorld.compensateCall, hstep, Option.map_map,
        Option.bind_some]
      rfl
    refine ⟨?_, ?_⟩
    · rw [← List.filterMap_congr hcalls]
      exact hturned.calls
    · constructor
      · intro hcompleted
        rw [show (SagaCoordinator.persist w (SagaCoordinator.compensate w d s)).saga.status = .compensated from hstatus]
          at hcompleted
        cases hcompleted
      · exact fun h => absurd (h n (by omega)) hnot

end

/-- A saga that reserves and then charges; only the reservation can be undone. -/
def orderSaga : SagaDefinition where
  id := "order"
  name := "Order"
  steps := [⟨"reserve", "Reserve", "stock.reserve", some "stock.release", .finite 1000⟩,
    ⟨"charge", "Charge", "card.charge", none, .finite 1000⟩]

/-- The charge is declined; the compensation settles as `undo`. -/
def declinedCharge (undo : HandlerOutcome) : SagaWorld where
  registered := ["stock.reserve", "stock.release", "card.charge"]
  forward i := if i = 0 then .returns ⟨true, [("reservation", .string "r1")]⟩ else .throws "declined"
  compensate _ := undo
  clock _ := "2024-01-01T00:00:00.000Z"

theorem saga_order_sample :
    ∃ r, SagaCoordinator.start (declinedCharge (.throws "down")) (.ofList [("order", orderSaga)]) "order" "run_1" [] =
      .ok r ∧ r.saga.status ≠ .completed := by
  have hdef : (InsertionMap.ofList [("order", orderSaga)]).get "order" = some orderSaga := rfl
  obtain ⟨r, n, hr, -, -, -, -, hstatus⟩ :=
    saga_order (w := declinedCharge (.throws "down")) hdef (by decide) "run_1" []
  refine ⟨r, hr, fun hcompleted => ?_⟩
  obtain ⟨step, -, -, hsucceeds⟩ := hstatus.1 hcompleted 1 (by decide)
  cases hsucceeds

/-! ## Sagas that are reported compensated -/

section
variable {w : SagaWorld} {definitions : InsertionMap String SagaDefinition} {definitionId : String} {d : SagaDefinition}

/-- What a saga that is reported compensated should be: each step that completed and names a compensation had it run
and report success, and is compensated; and no step is left in between. -/
def SagaState.FullyCompensated (w : SagaWorld) (d : SagaDefinition) (r : SagaState) : Prop :=
  r.saga.status = .compensated →
    (∀ i step c, d.steps[i]? = some step → (∀ j ≤ i, w.Succeeds d j) → step.compensation = some c →
      (∃ call ∈ r.calls, call.phase = .compensate ∧ call.step = i ∧ call.handler = c ∧
        (w.compensate i).succeeds = true) ∧
      ∃ t, r.saga.steps[i]? = some t ∧ t.status = .compensated) ∧
    ∀ t ∈ r.saga.steps, t.status ≠ .compensating ∧ t.status ≠ .running

/-- Either all steps succeed, or each step before the first that does not, if it names a compensation, is the first with
its id and has that compensation registered and succeed. -/
def SagaWorld.Compensable (w : SagaWorld) (d : SagaDefinition) : Prop :=
  (∃ i < d.steps.length, ¬ w.Succeeds d i) →
    ∀ i step c, d.steps[i]? = some step → (∀ j ≤ i, w.Succeeds d j) → step.compensation = some c →
      d.FirstOfId i step ∧ c ∈ w.registered ∧ (w.compensate i).succeeds = true

theorem SagaWorld.settled_of_succeeds {i : Nat} (h : (w.compensate i).succeeds = true) :
    w.settled i = .compensated := by
  unfold SagaWorld.settled
  cases houtcome : w.compensate i with
  | throws message =>
    rw [houtcome] at h
    cases h
  | returns result => rfl

section
variable {s : SagaState} {runId : RunId} {n i : Nat} {calls : List SagaCall} {step : SagaStepDefinition} {c : String}

/-- How the steps of a run that has stopped behind `n` steps stand after its compensation. -/
theorem SagaCoordinator.compensate_status (hs : s.Reached w d runId n .failed calls) (hn : n ≤ d.steps.length)
    {x : Nat} {t : SagaStepState} (ht : (compensate w d s).saga.steps[x]? = some t) :
    t.status = if x < n ∧ (w.target d x).map (·.1) = some x then w.settled x else stoppedStatus n x := by
  rw [(compensates_ok hs hn).1.status x t ht, SagaWorld.foldl_turnStatus]

/-- A completed step that ends up compensated has had its own turn. -/
theorem SagaCoordinator.own_turn_of_compensated (hs : s.Reached w d runId n .failed calls) (hn : n ≤ d.steps.length)
    (hi : d.steps[i]? = some step) (hlt : i < n) (hc : step.compensation = some c) {t : SagaStepState}
    (ht : (compensate w d s).saga.steps[i]? = some t) (hcompensated : t.status = .compensated) :
    d.FirstOfId i step ∧ c ∈ w.registered := by
  rw [compensate_status hs hn ht] at hcompensated
  split at hcompensated
  · rename_i hself
    obtain ⟨hfirst, c', hc', hregistered⟩ := SagaWorld.target_eq_self hi hself.2
    rw [hc] at hc'
    cases hc'
    exact ⟨hfirst, hregistered⟩
  · rw [stoppedStatus, if_pos hlt] at hcompensated
    cases hcompensated

/-- The turn of a step that is the first with its id runs its compensation, and compensates it where that succeeds. -/
theorem SagaCoordinator.compensated_of_own_turn (hs : s.Reached w d runId n .failed calls) (hn : n ≤ d.steps.length)
    (hi : d.steps[i]? = some step) (hlt : i < n) (hc : step.compensation = some c) (hfirst : d.FirstOfId i step)
    (hregistered : c ∈ w.registered) (hsuccess : (w.compensate i).succeeds = true) :
    (∃ call ∈ (compensate w d s).calls, call.phase = .compensate ∧ call.step = i ∧ call.handler = c) ∧
      ∃ t, (compensate w d s).saga.steps[i]? = some t ∧ t.status = .compensated := by
  obtain ⟨hturned, -⟩ := compensates_ok hs hn
  have htarget : w.target d i = some (i, step, c) := by
    simp [SagaWorld.target_of_first hi hfirst, hc, Option.filter, hregistered]
  constructor
  · let call := compensateCall runId (some (w.forward i).output) i step c
    have hcall : w.turnCall d runId i = some call := by simp [SagaWorld.turnCall, htarget, call]
    refine ⟨call, ?_, rfl, rfl, rfl⟩
    rw [hturned.calls]
    exact List.mem_append_right _ (List.mem_filterMap.2 ⟨i, by simpa using hlt, hcall⟩)
  · obtain ⟨t, ht, -⟩ := hturned.states.getElem? hi
    refine ⟨t, ht, ?_⟩
    rw [compensate_status hs hn ht, if_pos ⟨hlt, by simp [htarget]⟩, SagaWorld.settled_of_succeeds hsuccess]

/-- No step is left in between where every compensation that has had its own turn has succeeded. -/
theorem SagaCoordinator.compensate_leaves_none (hs : s.Reached w d runId n .failed calls) (hn : n ≤ d.steps.length)
    (hsuccess : ∀ i step c, d.steps[i]? = some step → i < n → step.compensation = some c →
      (w.compensate i).succeeds = true) :
    ∀ t ∈ (compensate w d s).saga.steps, t.status ≠ .compensating ∧ t.status ≠ .running := by
  intro t ht
  obtain ⟨x, hx⟩ := List.getElem?_of_mem ht
  rw [compensate_status hs hn hx]
  split
  · rename_i hself
    obtain ⟨hlt, hself⟩ := hself
    have hstep : d.steps[x]? = some d.steps[x] := List.getElem?_eq_getElem (by omega)
    obtain ⟨-, c, hc, -⟩ := SagaWorld.target_eq_self hstep hself
    simp [SagaWorld.settled_of_succeeds (hsuccess x _ c hstep hlt hc)]
  · unfold stoppedStatus
    split
    · simp
    · split <;> simp

end

/-- A saga that is reported compensated is so exactly under this condition. -/
theorem saga_compensated_iff (hdef : definitions.get definitionId = some d) (runId : RunId) (input : Record) :
    ∃ r, SagaCoordinator.start w definitions definitionId runId input = .ok r ∧
      (r.FullyCompensated w d ↔ w.Compensable d) := by
  obtain ⟨r, n, hr, hn, hall, hnot, now, s, hs, hnow, rfl⟩ := SagaCoordinator.start_ends hdef runId input
  refine ⟨_, hr, ?_⟩
  by_cases hend : n = d.steps.length
  · -- all steps succeeded: neither side says anything
    rw [if_pos hend]
    constructor
    · rintro - ⟨i, hi, hfailed⟩
      exact absurd (hall i (by omega)) hfailed
    · intro _ hcompensated
      cases hcompensated
  · rw [if_neg hend]
    obtain rfl := hnow (by omega)
    have hcompleted : ∀ {i}, (∀ j ≤ i, w.Succeeds d j) ↔ i < n := by
      intro i
      constructor
      · intro h
        by_contra hge
        exact hnot (h n (by omega))
      · exact fun h j hj => hall j (by omega)
    constructor
    · intro hfull _ i step c hi hsucceeds hc
      obtain ⟨hsteps, -⟩ := hfull (SagaCoordinator.compensates_ok hs hn).2
      obtain ⟨⟨call, -, -, -, -, hsuccess⟩, t, ht, hcompensated⟩ := hsteps i step c hi hsucceeds hc
      obtain ⟨hfirst, hregistered⟩ :=
        SagaCoordinator.own_turn_of_compensated hs hn hi (hcompleted.1 hsucceeds) hc ht hcompensated
      exact ⟨hfirst, hregistered, hsuccess⟩
    · intro hcond _
      have hcond := hcond ⟨n, by omega, hnot⟩
      constructor
      · intro i step c hi hsucceeds hc
        obtain ⟨hfirst, hregistered, hsuccess⟩ := hcond i step c hi hsucceeds hc
        obtain ⟨⟨call, hmem, hphase, hstep, hhandler⟩, hcompensated⟩ :=
          SagaCoordinator.compensated_of_own_turn hs hn hi (hcompleted.1 hsucceeds) hc hfirst hregistered hsuccess
        exact ⟨⟨call, hmem, hphase, hstep, hhandler, hsuccess⟩, hcompensated⟩
      · exact SagaCoordinator.compensate_leaves_none hs hn fun i step c hi hlt hc =>
          (hcond i step c hi (hcompleted.2 hlt) hc).2.2

end

theorem saga_compensated_iff_sample :
    ∃ r, SagaCoordinator.start (declinedCharge (.returns ⟨true, []⟩)) (.ofList [("order", orderSaga)]) "order" "run_1"
      [] = .ok r ∧ r.FullyCompensated (declinedCharge (.returns ⟨true, []⟩)) orderSaga := by
  have hdef : (InsertionMap.ofList [("order", orderSaga)]).get "order" = some orderSaga := rfl
  obtain ⟨r, hr, hiff⟩ := saga_compensated_iff (w := declinedCharge (.returns ⟨true, []⟩)) hdef "run_1" []
  refine ⟨r, hr, hiff.2 ?_⟩
  rintro - i step c hi - hc
  match i, hi with
  | 0, hi =>
    cases hi
    cases hc
    exact ⟨fun j hj => absurd hj (Nat.not_lt_zero j), by decide, rfl⟩
  | 1, hi =>
    cases hi
    cases hc

/-- The compensation throws: the saga is reported compensated with the step left `compensating`. -/
theorem thrown_compensation_reported :
    ∃ r, SagaCoordinator.start (declinedCharge (.throws "down")) (.ofList [("order", orderSaga)]) "order" "run_1" [] =
      .ok r ∧ ¬ r.FullyCompensated (declinedCharge (.throws "down")) orderSaga := by
  refine ⟨_, rfl, fun hfull => ?_⟩
  obtain ⟨-, hstatus⟩ := hfull rfl
  exact (hstatus _ List.mem_cons_self).1 rfl

end Jobflow
