import Jobflow.Sharing

/-!
# Cancelling a run that is being executed (src/services/execution-service.ts, src/engine/orchestrator.ts)

`applyTransition` checks the instance it is handed, and `executeRun` saves its own copy whole. So a `cancel` that is
saved while `executeRun` still has something to save is overwritten, and the run goes on. Otherwise a terminal state is
never left: `terminal_absorbing`.
-/

namespace Jobflow

/-- The caller applies `cancel`. -/
def Use.Cancels : Use → Prop
  | .applyTransition event target _ => event = "cancel" ∧ target = .cancelled
  | _ => False

instance : DecidablePred Use.Cancels
  | .applyTransition event target _ => inferInstanceAs (Decidable (event = "cancel" ∧ target = .cancelled))
  | .captureCheckpoint _ | .snapshot => inferInstanceAs (Decidable False)

/-- The event is a step of `executeRun` for run `r`. -/
def Event.Executes (s : System) (r : RunId) : Event → Prop
  | .executeRun _ r' => r' = r
  | .resume i _ =>
    match s.calls[i]? with
    | some (.execute _ r' _) => r' = r
    | _ => False
  | _ => False

/-- The event lets a caller save the transition it has asked for with the workflow of run `r`: the guard and the rules
accept the instance that it has read. -/
def Event.Transitions (s : System) (r : RunId) : Event → Prop
  | .resume i _ =>
    match s.calls[i]? with
    | some (.use r' (.applyTransition event target _) (.read (some w))) =>
      r' = r ∧ TransitionGuard.evaluate w event target = .ok () ∧
        (⟨w.state, target, event⟩ : TransitionRule) ∈ DEFAULT_TRANSITION_RULES
    | _ => False
  | _ => False

/-- What the step does not do: change the stored workflow of a run in a terminal state, or call a handler for it, if it
is a step of `executeRun`. -/
def System.Absorbs (r : RunId) (s : System) (e : Event) (s' : System) : Prop :=
  e.Executes s r → ∀ w, s.stores.getByRunId r = some w → WorkflowStateMachine.isTerminal w.state = true →
    s'.stores.getByRunId r = some w ∧ (s'.stores.record r).invocations = (s.stores.record r).invocations

/-- A transition is saved only when no execution of the run will save the workflow or call a handler any more. -/
def System.TransitionsSpent (r : RunId) (s : System) (e : Event) : Prop :=
  e.Transitions s r → ∀ pc ∈ s.executing r, pc.Spent

instance (s : System) (r : RunId) : (e : Event) → Decidable (e.Executes s r)
  | .executeRun _ r' => inferInstanceAs (Decidable (r' = r))
  | .resume i reply =>
    match hi : s.calls[i]? with
    | some (.execute _ r' _) => decidable_of_iff (r' = r) (by simp [Event.Executes, hi])
    | some (.create _ _ _ _) | some (.use _ _ _) | some (.replay _ _ _) | none =>
      isFalse (by simp [Event.Executes, hi])
  | .register _ _ | .createRun _ _ _ | .use _ _ | .replay _ _ | .restoreToCheckpoint _ _ _ | .acquire _ _
  | .release _ _ => isFalse id

instance (s : System) (r : RunId) : (e : Event) → Decidable (e.Transitions s r)
  | .resume i reply =>
    match hi : s.calls[i]? with
    | some (.use r' (.applyTransition event target actor) (.read (some w))) =>
      decidable_of_iff (r' = r ∧ TransitionGuard.evaluate w event target = .ok () ∧
        (⟨w.state, target, event⟩ : TransitionRule) ∈ DEFAULT_TRANSITION_RULES) (by simp [Event.Transitions, hi])
    | some (.use _ (.applyTransition _ _ _) (.read none)) | some (.use _ (.applyTransition _ _ _) (.transition _))
    | some (.use _ (.applyTransition _ _ _) .saved) | some (.use _ (.applyTransition _ _ _) (.settled _))
    | some (.use _ (.captureCheckpoint _) _) | some (.use _ .snapshot _) | some (.execute _ _ _)
    | some (.create _ _ _ _) | some (.replay _ _ _) | none => isFalse (by simp [Event.Transitions, hi])
  | .register _ _ | .createRun _ _ _ | .executeRun _ _ | .use _ _ | .replay _ _ | .restoreToCheckpoint _ _ _
  | .acquire _ _ | .release _ _ => isFalse id

instance (r : RunId) (s : System) (e : Event) : Decidable (s.TransitionsSpent r e) :=
  inferInstanceAs (Decidable (_ → ∀ pc ∈ _, _))

section
variable {world : World} {k : Nat} {r : RunId} {s s' : System} {e : Event}

/-- Once the stored workflow is in a terminal state, every execution of the run is spent. -/
structure CancelInv (k : Nat) (r : RunId) (s : System) : Prop where
  shared : Shared k r Use.Cancels s
  spent : ∀ w, s.stores.getByRunId r = some w → WorkflowStateMachine.isTerminal w.state = true →
    ∀ pc ∈ s.executing r, pc.Spent

/-- A segment of `executeRun`. -/
theorem CancelInv.executed (hq : world.Quiet) (h : CancelInv k r s) {pc : ExecPc} {now : ISODateString}
    {x : Stores × ExecPc} (hx : ExecutionService.resume world k r s.stores now pc = some x)
    (hown : ∀ w ∈ pc.instances, s.stores.Owns r w) (hpc : pc ∈ s.executing r) :
    (∀ w, s.stores.getByRunId r = some w → WorkflowStateMachine.isTerminal w.state = true →
      x.1.getByRunId r = some w ∧ (x.1.record r).invocations = (s.stores.record r).invocations) ∧
    ∀ w, x.1.getByRunId r = some w → WorkflowStateMachine.isTerminal w.state = true → x.2.Spent := by
  have hwf := h.shared.wellFormed pc hpc
  have hwf' := ExecutionService.resume_wellFormed hwf hx
  cases ExecutionService.resume_kind hq hwf hx with
  | saved w₀ w hnot hw₀ hd hs hwritten hi =>
    refine ⟨fun v hv hterm => absurd (h.spent v hv hterm pc hpc) hnot, fun v hv hterm => ?_⟩
    have hget : x.1.getByRunId r = some w := by
      rw [hs]
      have hsaved := record_saveWorkflow h.shared.coherent.stores (hd.owns (hown w₀ (by simp [hw₀])))
      exact congrArg RunRecord.workflow hsaved
    rw [hget, Option.some.injEq] at hv
    subst hv
    exact hwf'.spent_of_terminal hterm (.inl hwritten)
  | quiet hrec hwritten hi hspent hinv =>
    have hget : x.1.getByRunId r = s.stores.getByRunId r := hrec
    refine ⟨fun v hv hterm => ⟨hget.trans hv, hinv (h.spent v hv hterm pc hpc)⟩, fun v hv hterm => ?_⟩
    rw [hget] at hv
    exact hspent.2 (h.spent v hv hterm pc hpc)
  | read d hspent hx' =>
    rw [hx'] at hwf' ⊢
    refine ⟨fun v hv hterm => ⟨hv, rfl⟩, fun v hv hterm => ?_⟩
    exact hwf'.spent_of_terminal hterm (.inr ⟨d, by rw [hv]⟩)

/-- A segment of a caller that cancels. -/
theorem Use.Cancels.resume {wanted : Use} {pc : UsePc} {reply : Reply} {x : Stores × UsePc} {i : Nat}
    (hc : wanted.Cancels) (hx : wanted.resume world r s.stores reply.now pc = some x)
    (hi : s.calls[i]? = some (.use r wanted pc)) :
    x.1.getByRunId r = s.stores.getByRunId r ∨ (Event.resume i reply).Transitions s r := by
  rcases Use.resume_workflow hx with hsame | ⟨w, rfl⟩
  · exact .inl hsame
  cases wanted with
  | applyTransition event target actor =>
    simp only [Use.resume] at hx
    cases ha : WorkflowOrchestrator.applyTransition s.stores w event target actor reply.now with
    | error err =>
      rw [ha] at hx
      cases hx
      exact .inl rfl
    | ok st =>
      obtain ⟨hguard, hrule, _, _⟩ := WorkflowOrchestrator.applyTransition_ok.1 ha
      refine .inr ?_
      unfold Event.Transitions
      simp only [hi]
      exact ⟨trivial, hguard, hrule⟩
  | captureCheckpoint label | snapshot => exact absurd hc id

theorem CancelInv.step (hq : world.Quiet) (h : CancelInv k r s) (he : e.Shares k r Use.Cancels)
    (hs : s.step world e = some s') (hc : s.TransitionsSpent r e) : s.Absorbs r e s' ∧ CancelInv k r s' := by
  obtain ⟨hstep, hshared⟩ := h.shared.step he hs
  cases hstep with
  | idle pcs hn hrec hexec hpcs =>
    have hget : s'.stores.getByRunId r = s.stores.getByRunId r := congrArg RunRecord.workflow hrec
    refine ⟨fun _ w hw _ => ⟨hget.trans hw, congrArg RunRecord.invocations hrec⟩, hshared,
      fun w hw hterm pc hpc => ?_⟩
    rw [hget] at hw
    rw [hexec] at hpc
    rcases List.mem_append.1 hpc with hold | hnew
    · exact h.spent w hw hterm pc hold
    · obtain ⟨run, rfl⟩ := hpcs pc hnew
      trivial
  | executed i pc now x he' hx hown hpcs hexec hrec =>
    have hget : s'.stores.getByRunId r = x.1.getByRunId r := congrArg RunRecord.workflow hrec
    obtain ⟨habsorb, hspent⟩ := h.executed hq hx hown (by rw [hpcs]; exact List.mem_cons_self)
    refine ⟨fun _ w hw hterm => ?_, hshared, fun w hw hterm pc' hpc' => ?_⟩
    · obtain ⟨hw', hinv⟩ := habsorb w hw hterm
      exact ⟨hget.trans hw', (congrArg RunRecord.invocations hrec).trans hinv⟩
    · rw [hget] at hw
      rw [hexec] at hpc'
      rcases ExecPc.running_segment x.2 with ⟨hrun, _⟩ | ⟨hrun, _⟩ <;> rw [hrun] at hpc'
      · rw [List.mem_singleton.1 hpc']
        exact hspent w hw hterm
      · cases hpc'
  | used i reply wanted pc x he' hi hx hown hmem hexec hrec =>
    have hget : s'.stores.getByRunId r = x.1.getByRunId r := congrArg RunRecord.workflow hrec
    subst he'
    refine ⟨fun hexecutes => ?_, hshared, fun w hw hterm pc' hpc' => ?_⟩
    · unfold Event.Executes at hexecutes
      simp only [hi] at hexecutes
    · rw [hexec] at hpc'
      rcases Use.Cancels.resume (h.shared.uses _ hmem) hx hi with hsame | hmoves
      · rw [hget, hsame] at hw
        exact h.spent w hw hterm pc' hpc'
      · exact hc hmoves pc' hpc'

end

/-- Start with no unsettled call for run `r`; then let one service execute it and any callers cancel it, in any
interleaving. As long as a `cancel` is saved only when the execution has nothing left to save or to call, no step of
`executeRun` changes the workflow once it is stored in a terminal state, or calls a handler. -/
theorem terminal_absorbing {world : World} (hw : world.Wired) {k : Nat} {r : RunId} {s : System}
    (hs : System.Reachable world s) (hrest : (s.view r).AtRest) (hk : ∃ w, s.stores.getByRunId r = some w)
    {events : List Event} (hok : ∀ e ∈ events, e.Shares k r Use.Cancels)
    (hspent : EventSystem.Along (System.step world) (fun s e _ => s.TransitionsSpent r e) s events) :
    EventSystem.Along (System.step world) (fun s e s' => s.Absorbs r e s') s events := by
  have hstart : CancelInv k r s := ⟨hrest.shared hs.coherent hk, fun _ _ _ pc hpc => by
    have hnil : s.executing r = [] := hrest.executing
    rw [hnil] at hpc
    cases hpc⟩
  refine EventSystem.Along.of_invariant (fun s e s' h he hs hc => ?_) hstart hok hspent
  exact h.step hw.quiet he hs hc

/-- The first run of a registered job, before anything has been done with it. -/
theorem sample_atRest (d : JobDefinition) : ((firstRun d [] (sampleReply d)).view "run_1").AtRest :=
  ⟨rfl, rfl, rfl, rfl⟩

/-- `executeRun` as far as its first read, and a caller that cancels meanwhile; then the rest of both calls. -/
def sampleEarlyCancel : List Event :=
  sampleEvents sampleChain 1 ++ .use "run_1" (.applyTransition "cancel" .cancelled "operator") ::
    List.replicate 5 (.resume 2 (sampleReply sampleChain)) ++ List.replicate 3 (.resume 1 (sampleReply sampleChain))

/-- What `executeRun` reads is cancelled already. -/
theorem terminal_absorbing_sample :
    EventSystem.Along (System.step (sampleWorld fun _ _ => false)) (fun s e s' => s.Absorbs "run_1" e s')
        (firstRun sampleChain [] (sampleReply sampleChain)) sampleEarlyCancel ∧
      (EventSystem.exec (System.step (sampleWorld fun _ _ => false)) (firstRun sampleChain [] (sampleReply sampleChain))
        sampleEarlyCancel).any (fun s => (s.stores.getByRunId "run_1").map (·.state) = some .cancelled) = true := by
  have hnew := sample_newRun (fun _ _ => false) (d := sampleChain) (by decide +kernel)
  have hfinal : (EventSystem.exec (System.step (sampleWorld fun _ _ => false))
      (firstRun sampleChain [] (sampleReply sampleChain)) sampleEarlyCancel).any
        (fun s => (s.stores.getByRunId "run_1").map (·.state) = some .cancelled) = true := by decide +kernel
  refine ⟨terminal_absorbing (k := 0) (sampleWorld_wired _) hnew.reachable (sample_atRest _) ⟨_, rfl⟩ ?_ ?_, hfinal⟩
  · decide
  · decide +kernel

/-- The handler of `a` is in flight; a caller cancels the run, and then the handler answers. -/
def sampleLateCancel : List Event :=
  sampleEvents sampleChain 7 ++ [.use "run_1" (.applyTransition "cancel" .cancelled "operator"),
    .resume 2 (sampleReply sampleChain)]

/-- The answer brings the cancelled run back to life. -/
theorem cancel_overwritten : (∀ e ∈ sampleLateCancel, e.Shares 0 "run_1" Use.Cancels) ∧ ∃ s s',
    EventSystem.exec (System.step (sampleWorld fun _ _ => false)) (firstRun sampleChain [] (sampleReply sampleChain))
        sampleLateCancel = some s ∧
      s.step (sampleWorld fun _ _ => false) (.resume 1 (sampleReply sampleChain)) = some s' ∧
      (s.stores.getByRunId "run_1").map (·.state) = some .cancelled ∧
      (s'.stores.getByRunId "run_1").map (·.state) = some .running ∧
      ¬ s.Absorbs "run_1" (.resume 1 (sampleReply sampleChain)) s' := by
  refine ⟨by decide, ?_⟩
  have h : (EventSystem.exec (System.step (sampleWorld fun _ _ => false))
      (firstRun sampleChain [] (sampleReply sampleChain)) sampleLateCancel).any (fun s =>
        (s.step (sampleWorld fun _ _ => false) (.resume 1 (sampleReply sampleChain))).any fun s' =>
          (s.stores.getByRunId "run_1").map (·.state) = some .cancelled ∧
            (s'.stores.getByRunId "run_1").map (·.state) = some .running ∧
            (Event.resume 1 (sampleReply sampleChain)).Executes s "run_1") = true := by decide +kernel
  obtain ⟨s, hs, hp⟩ := (Option.any_eq_true _ _).1 h
  obtain ⟨s', hs', hp'⟩ := (Option.any_eq_true _ _).1 hp
  obtain ⟨hcancelled, hrunning, hexecutes⟩ := of_decide_eq_true hp'
  refine ⟨s, s', hs, hs', hcancelled, hrunning, fun habsorb => ?_⟩
  obtain ⟨w, hw, hstate⟩ := Option.map_eq_some_iff.1 hcancelled
  obtain ⟨hw', _⟩ := habsorb hexecutes w hw (by rw [hstate]; rfl)
  rw [hw', Option.map_some, hstate] at hrunning
  cases hrunning

end Jobflow
