import Jobflow.System

/-!
# What a step can do

`Effect` lists, once and for all, what the segment of a call between two awaits can do to the stores
and which workflow instances the call still holds afterwards; `SystemStep` lists what an event can do
to the system. Everything that is proved about all interleavings (which run owns an instance, that
calls of other runs leave a run alone, the shape of histories) is proved from these lists.
-/

namespace Jobflow

open Js (Record)

/-! ## The instances a call holds -/

def ExecPc.instances : ExecPc → List WorkflowInstance
  | .workflowRead _ found => found.toList
  | .started _ w => [w]
  | .transition _ _ t => [t.next]
  | .handler _ w _ _ _ => [w]
  | .taskSaved _ w _ => [w]
  | .sleeping _ w _ => [w]
  | .requeued _ w _ => [w]
  | .runRead _ | .definitionRead _ _ | .deadLetterPushed | .rejected _ | .settled _ => []

def UsePc.instances : UsePc → List WorkflowInstance
  | .read found => found.toList
  | .transition t => [t.next]
  | .saved | .settled _ => []

def ReplayPc.instances : ReplayPc → List WorkflowInstance
  | .read found => found.toList
  | .executing before _ => [before]
  | .readAgain before found => before :: found.toList
  | .settled (.ok (before, after)) => [before, after]
  | .settled (.error _) => []

def Call.instances : Call → List WorkflowInstance
  | .execute _ _ pc => pc.instances
  | .create _ _ _ _ => []
  | .use _ _ pc => pc.instances
  | .replay _ _ pc => pc.instances

/-! ## The list of effects -/

/-- How the code makes a new instance from an old one: a transition the rules allow, or an update of
the tasks and the time stamp. No task is ever written back as running. -/
inductive Derived (w₀ : WorkflowInstance) : WorkflowInstance → Prop where
  | moved {event : String} {target : WorkflowState} {actor : String} {note : Option String} {now : ISODateString}
      (rule : (⟨w₀.state, target, event⟩ : TransitionRule) ∈ DEFAULT_TRANSITION_RULES) :
      Derived w₀ (w₀.moved event target actor note now)
  | retasked {tasks : List TaskRun} (now : ISODateString)
      (h : ∀ t ∈ tasks, t ∈ w₀.tasks ∨ t.status ≠ .running) : Derived w₀ { w₀ with tasks := tasks, updatedAt := now }

theorem Derived.id_eq {w₀ w : WorkflowInstance} (h : Derived w₀ w) : w.id = w₀.id := by cases h <;> rfl

theorem Derived.runId_eq {w₀ w : WorkflowInstance} (h : Derived w₀ w) : w.runId = w₀.runId := by cases h <;> rfl

/-- Where a segment stands in its call: the locks are taken in the first and given back in the last. -/
inductive Segment where
  | opening | inner | closing
  deriving DecidableEq

/-- What a segment of a call of service `k` on run `r` that holds the instances `held` does to `s`. -/
inductive Effect (k : Nat) (r : RunId) (held : List WorkflowInstance) (s : Stores) :
    Segment → Stores → List WorkflowInstance → Prop where
  | keep {ws : List WorkflowInstance} (h : ∀ w ∈ ws, w ∈ held) : Effect k r held s .inner s ws
  | read {ws : List WorkflowInstance} (h : ∀ w ∈ ws, w ∈ held ∨ s.getByRunId r = some w) :
      Effect k r held s .inner s ws
  | save {w₀ w : WorkflowInstance} {ws : List WorkflowInstance} (h : w₀ ∈ held) (hd : Derived w₀ w)
      (hws : ∀ x ∈ ws, x = w) : Effect k r held s .inner (s.saveWorkflow w) ws
  | resave {w : WorkflowInstance} (h : w ∈ held) : Effect k r held s .inner (s.saveWorkflow w) []
  | updateRun {w : WorkflowInstance} {target : WorkflowState} {now : ISODateString} {ws : List WorkflowInstance}
      (h : w ∈ held) (hws : ∀ w ∈ ws, w ∈ held) :
      Effect k r held s .inner (WorkflowOrchestrator.updateRun s w.runId target now) ws
  | hear {heard : List (Nat × DomainEvent)} {ws : List WorkflowInstance} (hws : ∀ w ∈ ws, w ∈ held) :
      Effect k r held s .inner { s with heard := heard } ws
  | invoke {i : Invocation} {ws : List WorkflowInstance} (hi : i.runId = r) (hws : ∀ w ∈ ws, w ∈ held) :
      Effect k r held s .inner { s with invocations := s.invocations ++ [i] } ws
  | pushDeadLetter {entry : DeadLetterEntry} (h : entry.runId = r) :
      Effect k r held s .inner (s.pushDeadLetter entry) []
  | capture {w : WorkflowInstance} {label : Option String} {now : ISODateString} (h : w ∈ held) :
      Effect k r held s .inner (s.captureCheckpoint r w label now) []
  | begin {s' : Stores} (h : (s.addLocalLock k r).acquire r ExecutionService.owner = .ok s') :
      Effect k r held s .opening s' []
  | leak : Effect k r held s .opening (s.addLocalLock k r) []
  | refuse : Effect k r held s .opening s []
  | settle : Effect k r held s .closing ((s.deleteLocalLock k r).release r ExecutionService.owner) []

theorem WorkflowOrchestrator.applyTransition_ok {s s' : Stores} {w : WorkflowInstance} {event : String}
    {target : WorkflowState} {actor : String} {now : ISODateString} {t : TransitionCall} :
    applyTransition s w event target actor now = .ok (s', t) ↔
      TransitionGuard.evaluate w event target = .ok () ∧
        (⟨w.state, target, event⟩ : TransitionRule) ∈ DEFAULT_TRANSITION_RULES ∧
        s' = s.saveWorkflow (w.moved event target actor none now) ∧
        t = ⟨w.state, event, target, w.moved event target actor none now, .workflowSaved⟩ := by
  unfold applyTransition
  cases hg : TransitionGuard.evaluate w event target with
  | error e => simp [bind, Except.bind]
  | ok _ =>
    cases ht : WorkflowStateMachine.transition w event target actor none now with
    | error e =>
      have hno : ¬ (⟨w.state, target, event⟩ : TransitionRule) ∈ DEFAULT_TRANSITION_RULES := by
        intro hr
        have := WorkflowStateMachine.transition_ok.2 ⟨hr, rfl⟩ |>.symm.trans ht
        cases this
      simp [bind, Except.bind, hno]
    | ok next =>
      obtain ⟨hr, rfl⟩ := WorkflowStateMachine.transition_ok.1 ht
      simp [bind, Except.bind, hr, eq_comm]

/-! ## Every segment is on the list -/

/-- What `applyTransition` still holds after a segment. -/
def TransitionOutcome.instances : TransitionOutcome → List WorkflowInstance
  | .suspended t => [t.next]
  | .threw _ => []
  | .returned next => [next]

section
variable {world : World} {k : Nat} {r : RunId} {held : List WorkflowInstance} {s : Stores} {d : JobDefinition}
  {w : WorkflowInstance} {now : ISODateString}

theorem announce_effect {t : TransitionCall} (ht : t.next ∈ held) :
    Effect k r held s .inner (WorkflowOrchestrator.announce world s t now).1
      (WorkflowOrchestrator.announce world s t now).2.instances := by
  unfold WorkflowOrchestrator.announce
  cases hx : (WorkflowOrchestrator.emitFrom 0 world.listeners
    (.workflowTransitioned t.next.runId t.fromState t.target t.event now)).2 with
  | some e => simp only [hx]; exact .hear (by simp [TransitionOutcome.instances])
  | none => simp only [hx]; exact .hear (by simpa [TransitionOutcome.instances] using ht)

theorem TransitionCall.resume_effect (world : World) (k : Nat) (r : RunId) (s : Stores) (now : ISODateString)
    {t : TransitionCall} (ht : t.next ∈ held) :
    Effect k r held s .inner (t.resume world s now).1 (t.resume world s now).2.instances := by
  have hone : ∀ x ∈ [t.next], x ∈ held := by simpa using ht
  unfold TransitionCall.resume
  split
  · exact .keep hone
  · exact .updateRun ht hone
  · exact announce_effect ht
  · exact announce_effect ht
  · exact .keep hone

/-- Only the last segment returns, and it does nothing else. -/
theorem TransitionCall.resume_returned {t : TransitionCall} {s' : Stores} {next : WorkflowInstance}
    (h : t.resume world s now = (s', .returned next)) : s' = s ∧ next = t.next := by
  unfold TransitionCall.resume WorkflowOrchestrator.announce at h
  split at h
  · cases h
  · cases h
  · dsimp only at h
    split at h <;> cases h
  · dsimp only at h
    split at h <;> cases h
  · cases h
    exact ⟨rfl, rfl⟩

def ExecPc.segment : ExecPc → Segment
  | .settled _ => .closing
  | _ => .inner

/-- The effect of a segment of `executeRun` that ends in `x`. -/
abbrev ExecEffect (k : Nat) (r : RunId) (held : List WorkflowInstance) (s : Stores) (x : Stores × ExecPc) : Prop :=
  Effect k r held s x.2.segment x.1 x.2.instances

namespace ExecutionService

theorem transition_effect {purpose : Purpose} {event : String} {target : WorkflowState} {actor : String}
    (hw : w ∈ held) :
    ExecEffect k r held s (transition s purpose d w event target actor now) := by
  unfold transition
  cases h : WorkflowOrchestrator.applyTransition s w event target actor now with
  | error e => exact .keep (by simp [ExecPc.instances])
  | ok st =>
    obtain ⟨_, hrule, hs, ht⟩ := WorkflowOrchestrator.applyTransition_ok.1 h
    simp only [hs, ht]
    exact .save hw (.moved hrule) (by simp [ExecPc.instances])

theorem settle_effect {result : Except JobflowError Unit} :
    ExecEffect k r held s (settle k r s result) := .settle

theorem afterLoop_effect (hw : w ∈ held) :
    ExecEffect k r held s (afterLoop k r s d w now) := by
  unfold afterLoop
  split
  · exact transition_effect hw
  · exact settle_effect

theorem loop_effect (hw : w ∈ held) :
    ExecEffect k r held s (loop k r s d w now) := by
  unfold loop
  split
  · exact afterLoop_effect hw
  split
  · split
    · split
      · exact settle_effect
      · exact transition_effect hw
    · exact transition_effect hw
  · split
    · exact .keep (by simp [ExecPc.instances])
    · exact .invoke rfl (by simpa [ExecPc.instances, invoke] using hw)

theorem afterTask_effect {result : ExecuteResult} (hw : w ∈ held) :
    ExecEffect k r held s (afterTask k r s d w result now) := by
  unfold afterTask
  split
  · exact transition_effect hw
  · exact loop_effect hw

theorem afterTransition_effect {purpose : Purpose} (hw : w ∈ held) :
    ExecEffect k r held s (afterTransition k r s purpose d w now) := by
  cases purpose with
  | start => exact loop_effect hw
  | complete | await | fail => exact afterLoop_effect hw
  | deadLetter => exact .pushDeadLetter rfl

/-- The executor never hands a task back as running. -/
theorem finish_status {running : TaskRun} {policy : RetryPolicy} {answer : Except String SimulatedResult} :
    (TaskExecutor.finish running policy answer now).task.status ≠ .running := by
  have hfail : ∀ message, (TaskExecutor.handleFailure running policy message now).task.status ≠ .running := by
    intro message
    unfold TaskExecutor.handleFailure
    dsimp only
    split <;> simp
  unfold TaskExecutor.finish
  split
  · exact hfail _
  · split
    · exact hfail _
    · simp

theorem updateTask_derived {task : TaskRun} (h : task.status ≠ .running) : Derived w (updateTask w task now) := by
  refine .retasked now fun t ht => ?_
  obtain ⟨u, hu, rfl⟩ := List.mem_map.1 ht
  split
  · exact .inr h
  · exact .inl hu

theorem updateTask_effect {task : TaskRun} {ws : List WorkflowInstance} (hw : w ∈ held)
    (ht : task.status ≠ .running) (hws : ∀ x ∈ ws, x = updateTask w task now) : Effect k r held s .inner
    (s.saveWorkflow (updateTask w task now)) ws :=
  .save hw (updateTask_derived ht) hws

/-- The first segment of `executeRun`. -/
theorem executeRun_effect (k : Nat) (r : RunId) (s : Stores) :
    Effect k r [] s .opening (executeRun k r s).1 (executeRun k r s).2.instances := by
  unfold executeRun
  split
  · exact .refuse
  · cases h : (s.addLocalLock k r).acquire r owner with
    | error e => simpa only [h] using .leak
    | ok s' => simpa only [h] using .begin h

/-- A segment of `applyTransition` inside `executeRun`. -/
theorem resume_transition_effect {purpose : Purpose} {t : TransitionCall} {x : Stores × ExecPc}
    (h : resume world k r s now (.transition purpose d t) = some x) : ExecEffect k r [t.next] s x := by
  have he := TransitionCall.resume_effect world k r s now (List.mem_singleton_self t.next)
  cases hres : t.resume world s now with
  | mk s₁ out =>
    simp only [resume, hres] at h
    rw [hres] at he
    cases out with
    | suspended t' =>
      cases h
      exact he
    | threw e =>
      cases h
      exact he
    | returned next =>
      obtain ⟨rfl, rfl⟩ := TransitionCall.resume_returned hres
      obtain rfl := Option.some.inj h
      exact afterTransition_effect (by simp)

/-- Every later segment of `executeRun`. -/
theorem resume_effect {pc : ExecPc} {x : Stores × ExecPc} (h : resume world k r s now pc = some x) :
    ExecEffect k r pc.instances s x := by
  cases pc with
  | runRead found =>
    cases found <;> cases h
    · exact settle_effect
    · exact .keep (by simp [ExecPc.instances])
  | definitionRead jobId found =>
    cases found <;> cases h
    · exact settle_effect
    · exact .read (by simp [ExecPc.instances])
  | workflowRead d found =>
    cases found with
    | none => cases h; exact settle_effect
    | some w =>
      simp only [resume] at h
      split at h
      · obtain rfl := Option.some.inj h
        exact transition_effect (by simp [ExecPc.instances])
      · obtain rfl := Option.some.inj h
        exact .keep (by simp [ExecPc.instances])
  | started d w =>
    obtain rfl := Option.some.inj h
    exact loop_effect (by simp [ExecPc.instances])
  | transition purpose d t => exact resume_transition_effect h
  | handler d w nextDef running earlier =>
    obtain rfl := Option.some.inj h
    exact updateTask_effect (by simp [ExecPc.instances]) finish_status (by simp [ExecPc.instances])
  | taskSaved d w result =>
    simp only [resume] at h
    split at h
    · obtain rfl := Option.some.inj h
      exact .keep (by simp [ExecPc.instances])
    · obtain rfl := Option.some.inj h
      exact afterTask_effect (by simp [ExecPc.instances])
  | sleeping d w result =>
    obtain rfl := Option.some.inj h
    exact updateTask_effect (by simp [ExecPc.instances]) (by simp) (by simp [ExecPc.instances])
  | requeued d w result =>
    obtain rfl := Option.some.inj h
    exact afterTask_effect (by simp [ExecPc.instances])
  | deadLetterPushed =>
    obtain rfl := Option.some.inj h
    exact settle_effect
  | rejected e =>
    obtain rfl := Option.some.inj h
    exact settle_effect
  | settled result => cases h

end ExecutionService

/-- Every segment of a caller that uses the workflow it has read. -/
theorem Use.resume_effect {use : Use} {pc : UsePc} {x : Stores × UsePc}
    (h : use.resume world r s now pc = some x) :
    Effect k r pc.instances s .inner x.1 x.2.instances := by
  cases pc with
  | read found =>
    cases found with
    | none =>
      cases h
      exact .keep (by simp [UsePc.instances])
    | some w =>
      cases use with
      | applyTransition event target actor =>
        simp only [Use.resume] at h
        cases ha : WorkflowOrchestrator.applyTransition s w event target actor now with
        | error e =>
          rw [ha] at h
          cases h
          exact .keep (by simp [UsePc.instances])
        | ok st =>
          obtain ⟨_, hrule, hs, ht⟩ := WorkflowOrchestrator.applyTransition_ok.1 ha
          rw [ha] at h
          cases h
          rw [hs, ht]
          exact .save (by simp [UsePc.instances]) (.moved hrule) (by simp [UsePc.instances])
      | captureCheckpoint label =>
        cases h
        exact .capture (by simp [UsePc.instances])
      | snapshot =>
        cases h
        exact .resave (by simp [UsePc.instances])
  | transition t =>
    have he := TransitionCall.resume_effect world k r s now (List.mem_singleton_self t.next)
    cases hres : t.resume world s now with
    | mk s₁ out =>
      simp only [Use.resume, hres] at h
      rw [hres] at he
      cases out with
      | suspended t' =>
        cases h
        exact he
      | threw e =>
        cases h
        exact he
      | returned next =>
        obtain ⟨rfl, rfl⟩ := TransitionCall.resume_returned hres
        cases h
        exact .keep (by simp [UsePc.instances])
  | saved =>
    cases h
    exact .keep (by simp [UsePc.instances])
  | settled result => cases h

end

/-! ## What an event does -/

theorem acquire_ok {s s' : Stores} {r : RunId} {owner : String} (h : s.acquire r owner = .ok s') :
    s' = { s with runLocks := s.runLocks.set r owner } := by
  unfold Stores.acquire at h
  split at h
  · split at h <;> cases h
    rfl
  · cases h
    rfl

/-- Nobody else holds a run that is acquired. -/
theorem acquire_free {s s' : Stores} {r : RunId} {owner current : String} (h : s.acquire r owner = .ok s')
    (hcurrent : s.runLocks.get r = some current) : current = "" ∨ current = owner := by
  simp only [Stores.acquire, hcurrent] at h
  split at h
  · cases h
  · rename_i hfree
    rwa [not_and_or, not_not, not_not] at hfree

theorem release_eq (s : Stores) (r : RunId) (owner : String) :
    ∃ locks, s.release r owner = { s with runLocks := locks } ∧
      ∀ r', locks.get r' = if r = r' ∧ s.runLocks.get r = some owner then none else s.runLocks.get r' := by
  unfold Stores.release
  split
  · rename_i h
    exact ⟨_, rfl, fun r' => by simp [InsertionMap.get_delete, h]⟩
  · rename_i h
    exact ⟨s.runLocks, rfl, fun r' => by simp [h]⟩

/-- The checkpoint that `restoreToCheckpoint` restores (recovery-service.ts:16-19). -/
def Stores.findSnapshot (s : Stores) (runId : RunId) : Option Nat → Option RunSnapshot
  | some v => (s.listSnapshots runId).find? fun (snap : RunSnapshot) => snap.version = v
  | none => (s.listSnapshots runId).getLast?

theorem Stores.findSnapshot_mem {s : Stores} {r : RunId} {version : Option Nat} {snap : RunSnapshot}
    (h : s.findSnapshot r version = some snap) : snap ∈ s.listSnapshots r := by
  cases version with
  | none => exact List.mem_of_getLast? h
  | some v => exact List.mem_of_find?_eq_some h

theorem restoreToCheckpoint_findSnapshot (s : Stores) (r : RunId) (version : Option Nat) (now : ISODateString) :
    (s.restoreToCheckpoint r version now).1 =
      match s.findSnapshot r version with
      | none => s
      | some snap => s.saveWorkflow { snap.workflow with updatedAt := now } := by
  unfold Stores.restoreToCheckpoint Stores.findSnapshot
  cases version with
  | none => cases h : (s.listSnapshots r).getLast? <;> simp [h]
  | some v => cases h : (s.listSnapshots r).find? fun (snap : RunSnapshot) => snap.version = v <;> simp [h]

/-- A segment of `createRun`. -/
inductive CreateStep (jobId : JobId) (trigger : String) (input : Record) (s : Stores) (reply : Reply) :
    CreatePc → Stores → CreatePc → Prop where
  | missing : CreateStep jobId trigger input s reply (.definitionRead none) s
      (.settled (.error (.notFoundError "JobDefinition" jobId)))
  | workflowSaved {definition : JobDefinition} (h : reply.uuids.Fresh s definition) :
      CreateStep jobId trigger input s reply (.definitionRead (some definition))
        (s.saveWorkflow (WorkflowService.newWorkflow definition jobId input reply.uuids reply.now))
        (.workflowSaved (WorkflowService.newRun jobId trigger input reply.uuids reply.now))
  | runSaved {run : JobRun} :
      CreateStep jobId trigger input s reply (.workflowSaved run) (s.saveRun run) (.runSaved run)
  | returned {run : JobRun} : CreateStep jobId trigger input s reply (.runSaved run) s (.settled (.ok run))

theorem WorkflowService.resume_step {s : Stores} {jobId : JobId} {trigger : String} {input : Record} {reply : Reply}
    {pc : CreatePc} {x : Stores × CreatePc} (h : resume jobId trigger input s reply pc = some x) :
    CreateStep jobId trigger input s reply pc x.1 x.2 := by
  cases pc with
  | definitionRead found =>
    cases found with
    | none =>
      cases h
      exact .missing
    | some definition =>
      simp only [resume] at h
      split at h
      · rename_i hfresh
        cases h
        exact .workflowSaved hfresh
      · cases h
  | workflowSaved run =>
    cases h
    exact .runSaved
  | runSaved run =>
    cases h
    exact .returned
  | settled result => cases h

/-- What an event does to the system, with everything that was checked for it. -/
inductive SystemStep (world : World) (s : System) : Event → System → Prop where
  | registered {input : JobDefinitionInput} {now : ISODateString} {definition : JobDefinition}
      (h : JobService.register world.handlers input now = .ok definition) :
      SystemStep world s (.register input now) { s with stores := s.stores.saveJob definition }
  | notRegistered {input : JobDefinitionInput} {now : ISODateString} : SystemStep world s (.register input now) s
  | createCalled {jobId : JobId} {trigger : String} {input : Record} :
      SystemStep world s (.createRun jobId trigger input)
        (s.spawn s.stores (.create jobId trigger input (.definitionRead (s.stores.jobs.get jobId))))
  | executeCalled {k : Nat} {r : RunId} : SystemStep world s (.executeRun k r) (s.execute k r)
  | useCalled {r : RunId} {use : Use} :
      SystemStep world s (.use r use) (s.spawn s.stores (.use r use (.read (s.stores.getByRunId r))))
  | replayCalled {k : Nat} {r : RunId} :
      SystemStep world s (.replay k r) (s.spawn s.stores (.replay k r (.read (s.stores.getByRunId r))))
  | restored {r : RunId} {version : Option Nat} {now : ISODateString} {snap : RunSnapshot}
      (h : s.stores.findSnapshot r version = some snap) :
      SystemStep world s (.restoreToCheckpoint r version now)
        { s with stores := s.stores.saveWorkflow { snap.workflow with updatedAt := now } }
  | notRestored {r : RunId} {version : Option Nat} {now : ISODateString} :
      SystemStep world s (.restoreToCheckpoint r version now) s
  | acquired {r : RunId} {owner : String}
      (h : ∀ current, s.stores.runLocks.get r = some current → current = "" ∨ current = owner) :
      SystemStep world s (.acquire r owner)
        { s with stores := { s.stores with runLocks := s.stores.runLocks.set r owner } }
  | notAcquired {r : RunId} {owner : String} : SystemStep world s (.acquire r owner) s
  | released {r : RunId} {owner : String} {locks : InsertionMap RunId String}
      (h : ∀ r', locks.get r' =
        if r = r' ∧ s.stores.runLocks.get r = some owner then none else s.stores.runLocks.get r') :
      SystemStep world s (.release r owner) { s with stores := { s.stores with runLocks := locks } }
  | executed {i : Nat} {reply : Reply} {k : Nat} {r : RunId} {pc : ExecPc} {x : Stores × ExecPc}
      (hi : s.calls[i]? = some (.execute k r pc))
      (hx : ExecutionService.resume world k r s.stores reply.now pc = some x) :
      SystemStep world s (.resume i reply) (s.suspend i x.1 (.execute k r x.2))
  | created {i : Nat} {reply : Reply} {jobId : JobId} {trigger : String} {input : Record} {pc pc' : CreatePc}
      {st : Stores} (hi : s.calls[i]? = some (.create jobId trigger input pc))
      (hx : CreateStep jobId trigger input s.stores reply pc st pc') :
      SystemStep world s (.resume i reply) (s.suspend i st (.create jobId trigger input pc'))
  | used {i : Nat} {reply : Reply} {r : RunId} {use : Use} {pc : UsePc} {x : Stores × UsePc}
      (hi : s.calls[i]? = some (.use r use pc)) (hx : use.resume world r s.stores reply.now pc = some x) :
      SystemStep world s (.resume i reply) (s.suspend i x.1 (.use r use x.2))
  /-- A segment of `replay` that does not call `executeRun`. -/
  | replayed {i : Nat} {reply : Reply} {k : Nat} {r : RunId} {pc pc' : ReplayPc}
      (hi : s.calls[i]? = some (.replay k r pc)) (hpc : ∀ result, pc ≠ .settled result)
      (hread : ∀ before, pc ≠ .read (some before))
      (hinst : ∀ w ∈ pc'.instances, w ∈ pc.instances ∨ s.stores.getByRunId r = some w) :
      SystemStep world s (.resume i reply) (s.suspend i s.stores (.replay k r pc'))
  | replayExecutes {i : Nat} {reply : Reply} {k : Nat} {r : RunId} {before : WorkflowInstance}
      (hi : s.calls[i]? = some (.replay k r (.read (some before)))) :
      SystemStep world s (.resume i reply)
        ((s.suspend i s.stores (.replay k r (.executing before s.calls.length))).execute k r)

section
variable {world : World} {s s' : System}

theorem System.resumeReplay_step {i k : Nat} {r : RunId} {pc : ReplayPc} {reply : Reply}
    (hi : s.calls[i]? = some (.replay k r pc)) (h : s.resumeReplay i k r pc = some s') :
    SystemStep world s (.resume i reply) s' := by
  cases pc with
  | read found =>
    cases found <;> cases h
    · exact .replayed hi (by simp) (by simp) (by simp [ReplayPc.instances])
    · exact .replayExecutes hi
  | executing before call =>
    simp only [System.resumeReplay] at h
    split at h
    · cases h
      exact .replayed hi (by simp) (by simp) (by simp [ReplayPc.instances])
    · cases h
      refine .replayed hi (by simp) (by simp) fun w hw => ?_
      rcases List.mem_cons.1 hw with rfl | hw
      · exact .inl (List.mem_singleton_self w)
      · exact .inr (Option.mem_toList.1 hw)
    · cases h
  | readAgain before found =>
    cases found <;> cases h
    · exact .replayed hi (by simp) (by simp) (by simp [ReplayPc.instances])
    · exact .replayed hi (by simp) (by simp) fun w hw => .inl hw
  | settled result => cases h

theorem System.resume_step {i : Nat} {reply : Reply} (h : s.resume world i reply = some s') :
    SystemStep world s (.resume i reply) s' := by
  unfold System.resume at h
  split at h
  · cases h
  · rename_i hi
    obtain ⟨x, hx, rfl⟩ := Option.map_eq_some_iff.1 h
    exact .executed hi hx
  · rename_i hi
    obtain ⟨x, hx, rfl⟩ := Option.map_eq_some_iff.1 h
    exact .created hi (WorkflowService.resume_step hx)
  · rename_i hi
    obtain ⟨x, hx, rfl⟩ := Option.map_eq_some_iff.1 h
    exact .used hi hx
  · rename_i hi
    exact System.resumeReplay_step hi h

/-- Every step is on the list. -/
theorem System.step_cases {e : Event} (h : s.step world e = some s') : SystemStep world s e s' := by
  cases e with
  | register input now =>
    simp only [System.step] at h
    split at h
    · rename_i hr
      cases h
      exact .registered hr
    · cases h
      exact .notRegistered
  | createRun jobId trigger input =>
    cases h
    exact .createCalled
  | executeRun k r =>
    cases h
    exact .executeCalled
  | use r use =>
    cases h
    exact .useCalled
  | replay k r =>
    cases h
    exact .replayCalled
  | restoreToCheckpoint r version now =>
    cases h
    rw [restoreToCheckpoint_findSnapshot]
    cases hsnap : s.stores.findSnapshot r version with
    | none => exact .notRestored
    | some snap => exact .restored hsnap
  | acquire r owner =>
    simp only [System.step] at h
    split at h
    · rename_i hst
      cases h
      rw [acquire_ok hst]
      exact .acquired fun _ => acquire_free hst
    · cases h
      exact .notAcquired
  | release r owner =>
    cases h
    obtain ⟨locks, hl, hget⟩ := release_eq s.stores r owner
    rw [hl]
    exact .released hget
  | resume i reply => exact System.resume_step h

end

end Jobflow
