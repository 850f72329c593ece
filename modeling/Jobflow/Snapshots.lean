import Jobflow.Cancellation

/-!
# Snapshots of a run that is being executed (src/replay/replayer.ts)

`snapshot` reads the workflow and saves the instance it has read, with an `await` in between. What `executeRun` has
saved meanwhile is overwritten by the older instance, and stays lost unless `executeRun` saves once more.
-/

namespace Jobflow

/-- The instance of run `r` that the event makes `executeRun` save. -/
def Event.written (world : World) (r : RunId) (s : System) : Event → Option WorkflowInstance
  | .resume i reply =>
    match s.calls[i]? with
    | some (.execute k r' pc) =>
      if r' = r then (ExecutionService.resume world k r s.stores reply.now pc).bind fun x => x.2.written else none
    | _ => none
  | _ => none

/-- The instance of run `r` that `executeRun` has saved last along the events; `last` if it has saved none. -/
def System.lastWritten (world : World) (r : RunId) (s : System) (last : Option WorkflowInstance) :
    List Event → Option WorkflowInstance
  | [] => last
  | e :: es =>
    match s.step world e with
    | none => last
    | some s' => s'.lastWritten world r ((e.written world r s).or last) es

def Use.Snapshots (wanted : Use) : Prop :=
  match wanted with
  | .snapshot => True
  | _ => False

instance : DecidablePred Use.Snapshots
  | .snapshot => isTrue trivial
  | .applyTransition _ _ _ | .captureCheckpoint _ => isFalse id

/-- The version of the workflow stored for run `r` does not go down. -/
def System.KeepsVersion (r : RunId) (s s' : System) : Prop :=
  ∀ w w', s.stores.getByRunId r = some w → s'.stores.getByRunId r = some w' → w.version ≤ w'.version

/-- The event lets `snapshot` save `w`, which it has read of run `r`. -/
def Event.Resaves (s : System) (r : RunId) (w : WorkflowInstance) : Event → Prop
  | .resume i _ => s.calls[i]? = some (.use r .snapshot (.read (some w)))
  | _ => False

/-- What `snapshot` saves is the stored workflow, or has its version while an execution is still going to save. -/
def System.SnapshotSafe (r : RunId) (s : System) (e : Event) : Prop :=
  ∀ w, e.Resaves s r w → ∀ stored, s.stores.getByRunId r = some stored →
    w = stored ∨ w.version = stored.version ∧ ∃ pc ∈ s.executing r, ¬ pc.Spent

section
variable {world : World} {k : Nat} {r : RunId} {s s' : System} {e : Event} {last : WorkflowInstance}

theorem Derived.version_le {w₀ w : WorkflowInstance} (h : Derived w₀ w) : w₀.version ≤ w.version := by
  cases h with
  | moved rule => exact Nat.le_succ _
  | retasked now htasks => exact Nat.le_refl _

/-- The execution works on what it has written last; an older instance is stored only while the execution is still
going to save. -/
structure SnapshotInv (k : Nat) (r : RunId) (last : WorkflowInstance) (s : System) : Prop where
  shared : Shared k r Use.Snapshots s
  copy : ∀ pc ∈ s.executing r, ∀ w ∈ pc.instances, w = last
  stored : ∃ w, s.stores.getByRunId r = some w ∧ w.version = last.version ∧
    (w = last ∨ ∃ pc ∈ s.executing r, ¬ pc.Spent)

theorem Event.written_eq_none (hn : ∀ k i pc now, ¬ e.Resumes s r k i pc now) : e.written world r s = none := by
  cases e with
  | resume i reply =>
    unfold Event.written
    dsimp only
    split
    · rename_i k r' pc hi
      split
      · rename_i hr
        exact absurd ⟨reply, rfl, rfl, hr ▸ hi⟩ (hn k i pc reply.now)
      · rfl
    · rfl
  | _ => rfl

theorem Event.Resumes.written {i : Nat} {pc : ExecPc} {now : ISODateString} {x : Stores × ExecPc}
    (he : e.Resumes s r k i pc now) (hx : ExecutionService.resume world k r s.stores now pc = some x) :
    e.written world r s = x.2.written := by
  obtain ⟨reply, rfl, rfl, hi⟩ := he
  unfold Event.written
  simp only [hi, if_true, hx, Option.bind_some]

/-- A segment of `executeRun`. -/
theorem SnapshotInv.executed (hq : world.Quiet) (h : SnapshotInv k r last s) (hshared : Shared k r Use.Snapshots s')
    {pc : ExecPc} {now : ISODateString} {x : Stores × ExecPc}
    (hx : ExecutionService.resume world k r s.stores now pc = some x)
    (hown : ∀ w ∈ pc.instances, s.stores.Owns r w) (hpcs : s.executing r = [pc])
    (hexec : s'.executing r = x.2.running.toList) (hget : s'.stores.getByRunId r = x.1.getByRunId r) :
    ∃ last', x.2.written.or (some last) = some last' ∧ SnapshotInv k r last' s' ∧ s.KeepsVersion r s' := by
  have hpc : pc ∈ s.executing r := by
    rw [hpcs]
    exact List.mem_cons_self
  have hcopy := h.copy pc hpc
  obtain ⟨stored, hstored, hversion, hlast⟩ := h.stored
  rw [hpcs] at hlast
  have hrunning : ∀ pc' ∈ s'.executing r, pc' = x.2 := fun pc' hpc' => by
    rw [hexec] at hpc'
    rcases ExecPc.running_segment x.2 with ⟨hrun, _⟩ | ⟨hrun, _⟩ <;> rw [hrun] at hpc'
    · exact List.mem_singleton.1 hpc'
    · cases hpc'
  cases ExecutionService.resume_kind hq (h.shared.wellFormed pc hpc) hx with
  | saved w₀ w hnot hw₀ hd hs hwritten hi =>
    obtain rfl : w₀ = last := hcopy w₀ (by simp [hw₀])
    have hsaved : s'.stores.getByRunId r = some w := by
      rw [hget, hs]
      exact congrArg RunRecord.workflow (record_saveWorkflow h.shared.coherent.stores
        (hd.owns (hown w₀ (by simp [hw₀]))))
    refine ⟨w, by rw [hwritten]; rfl, ⟨hshared, fun pc' hpc' v hv => ?_, w, hsaved, rfl, .inl rfl⟩,
      fun v v' hv hv' => ?_⟩
    · rw [hrunning pc' hpc', hi] at hv
      exact List.mem_singleton.1 hv
    · rw [hstored] at hv
      rw [hsaved] at hv'
      cases hv
      cases hv'
      rw [hversion]
      exact hd.version_le
  | quiet hrec hwritten hi hspent hinv =>
    have hsame : s'.stores.getByRunId r = some stored := (hget.trans hrec).trans hstored
    refine ⟨last, by rw [hwritten]; rfl, ⟨hshared, fun pc' hpc' v hv => ?_, stored, hsame, hversion, ?_⟩,
      fun v v' hv hv' => ?_⟩
    · rw [hrunning pc' hpc'] at hv
      exact hcopy v (hi v hv)
    · rcases hlast with hlast | ⟨pc', hpc', hnot⟩
      · exact .inl hlast
      · rw [List.mem_singleton.1 hpc'] at hnot
        refine .inr ⟨x.2, ?_, fun hx₂ => hnot (hspent.1 hx₂)⟩
        rw [hexec]
        rcases ExecPc.running_segment x.2 with ⟨hrun, _⟩ | ⟨hrun, _⟩
        · simp [hrun]
        · -- a call that has settled is spent
          refine absurd (hspent.1 ?_) hnot
          cases hx₂ : x.2 with
          | settled result => trivial
          | _ =>
            rw [hx₂] at hrun
            cases hrun
    · rw [hstored] at hv
      rw [hsame] at hv'
      cases hv
      cases hv'
      exact Nat.le_refl _
  | read d hspent hx' =>
    have hsame : s'.stores.getByRunId r = some stored := by
      rw [hget, hx']
      exact hstored
    have hfresh : stored = last := by
      rcases hlast with hlast | ⟨pc', hpc', hnot⟩
      · exact hlast
      · rw [List.mem_singleton.1 hpc'] at hnot
        exact absurd hspent hnot
    refine ⟨last, by rw [hx']; rfl, ⟨hshared, fun pc' hpc' v hv => ?_, stored, hsame, hversion, .inl hfresh⟩,
      fun v v' hv hv' => ?_⟩
    · rw [hrunning pc' hpc', hx', hstored] at hv
      rw [← hfresh]
      simpa [ExecPc.instances] using hv
    · rw [hstored] at hv
      rw [hsame] at hv'
      cases hv
      cases hv'
      exact Nat.le_refl _

/-- A segment of `snapshot`. -/
theorem Use.Snapshots.resume {wanted : Use} {pc : UsePc} {reply : Reply} {x : Stores × UsePc} {i : Nat}
    (hw : wanted.Snapshots) (hc : s.stores.Coherent) (hown : ∀ w ∈ pc.instances, s.stores.Owns r w)
    (hx : wanted.resume world r s.stores reply.now pc = some x) (hi : s.calls[i]? = some (.use r wanted pc)) :
    x.1.getByRunId r = s.stores.getByRunId r ∨
      ∃ w, (Event.resume i reply).Resaves s r w ∧ x.1.getByRunId r = some w := by
  rcases Use.resume_workflow hx with hsame | ⟨w, rfl⟩
  · exact .inl hsame
  cases wanted with
  | snapshot =>
    cases hx
    exact .inr ⟨w, hi, congrArg RunRecord.workflow (record_saveWorkflow hc (hown w (by simp [UsePc.instances])))⟩
  | applyTransition event target actor | captureCheckpoint label => exact absurd hw id

theorem SnapshotInv.step (hq : world.Quiet) (h : SnapshotInv k r last s) (he : e.Shares k r Use.Snapshots)
    (hs : s.step world e = some s') (hsafe : s.SnapshotSafe r e) :
    ∃ last', (e.written world r s).or (some last) = some last' ∧ SnapshotInv k r last' s' ∧ s.KeepsVersion r s' := by
  obtain ⟨hstep, hshared⟩ := h.shared.step he hs
  obtain ⟨stored, hstored, hversion, hlast⟩ := h.stored
  cases hstep with
  | idle pcs hn hrec hexec hpcs =>
    have hget : s'.stores.getByRunId r = some stored := (congrArg RunRecord.workflow hrec).trans hstored
    refine ⟨last, by rw [Event.written_eq_none hn]; rfl, ⟨hshared, fun pc hpc w hw => ?_, stored, hget, hversion, ?_⟩,
      fun v v' hv hv' => ?_⟩
    · rw [hexec] at hpc
      rcases List.mem_append.1 hpc with hold | hnew
      · exact h.copy pc hold w hw
      · obtain ⟨run, rfl⟩ := hpcs pc hnew
        cases hw
    · refine hlast.imp_right fun ⟨pc, hpc, hnot⟩ => ⟨pc, ?_, hnot⟩
      rw [hexec]
      exact List.mem_append_left _ hpc
    · rw [hstored] at hv
      rw [hget] at hv'
      cases hv
      cases hv'
      exact Nat.le_refl _
  | executed i pc now x he' hx hown hpcs hexec hrec =>
    rw [he'.written hx]
    exact h.executed hq hshared hx hown hpcs hexec (congrArg RunRecord.workflow hrec)
  | used i reply wanted pc x he' hi hx hown hmem hexec hrec =>
    have hget : s'.stores.getByRunId r = x.1.getByRunId r := congrArg RunRecord.workflow hrec
    subst he'
    have hn : ∀ k j pc now, ¬ (Event.resume i reply).Resumes s r k j pc now := fun _ _ _ _ =>
      Event.not_resumes_call hi fun k pc h => by cases h
    have hcopy : ∀ pc ∈ s'.executing r, ∀ w ∈ pc.instances, w = last := by
      rw [hexec]
      exact h.copy
    -- the workflow that is stored now
    obtain ⟨w, hw, hwversion, hwlast⟩ : ∃ w, s'.stores.getByRunId r = some w ∧ w.version = stored.version ∧
        (w = last ∨ ∃ pc ∈ s.executing r, ¬ pc.Spent) := by
      rcases (h.shared.uses _ hmem).resume h.shared.coherent.stores hown hx hi with hsame | ⟨w, hresaves, hw⟩
      · exact ⟨stored, (hget.trans hsame).trans hstored, rfl, hlast⟩
      · rcases hsafe w hresaves stored hstored with rfl | ⟨heq, hbusy⟩
        · exact ⟨w, hget.trans hw, rfl, hlast⟩
        · exact ⟨w, hget.trans hw, heq, .inr hbusy⟩
    refine ⟨last, by rw [Event.written_eq_none hn]; rfl,
      ⟨hshared, hcopy, w, hw, hwversion.trans hversion, by rw [hexec]; exact hwlast⟩, fun v v' hv hv' => ?_⟩
    rw [hstored] at hv
    rw [hw] at hv'
    cases hv
    cases hv'
    exact Nat.le_of_eq hwversion.symm

/-- Along a run whose snapshots are safe. -/
theorem SnapshotInv.exec (hq : world.Quiet) {events : List Event} :
    ∀ {s : System} {last : WorkflowInstance}, SnapshotInv k r last s → (∀ e ∈ events, e.Shares k r Use.Snapshots) →
      EventSystem.Along (System.step world) (fun s e _ => s.SnapshotSafe r e) s events →
      EventSystem.Along (System.step world) (fun s _ s' => s.KeepsVersion r s') s events ∧
        ∀ s', EventSystem.exec (System.step world) s events = some s' →
          ∃ last', s.lastWritten world r (some last) events = some last' ∧ SnapshotInv k r last' s' := by
  induction events with
  | nil =>
    intro s last h _ _
    refine ⟨trivial, fun s' hs => ?_⟩
    cases hs
    exact ⟨last, rfl, h⟩
  | cons e es ih =>
    intro s last h hok hsafe
    unfold EventSystem.Along at hsafe ⊢
    cases hstep : s.step world e with
    | none =>
      refine ⟨trivial, fun s' hs => ?_⟩
      obtain ⟨m, hm, _⟩ := EventSystem.exec_cons.1 hs
      rw [hstep] at hm
      cases hm
    | some m =>
      rw [hstep] at hsafe
      obtain ⟨last', hlast, h', hkeeps⟩ := h.step hq (hok e List.mem_cons_self) hstep hsafe.1
      obtain ⟨halong, hend⟩ := ih h' (fun e' he' => hok e' (List.mem_cons_of_mem _ he')) hsafe.2
      refine ⟨⟨hkeeps, halong⟩, fun s' hs => ?_⟩
      obtain ⟨m', hm, hs⟩ := EventSystem.exec_cons.1 hs
      obtain rfl := Option.some.inj (hstep.symm.trans hm)
      obtain ⟨last'', hwritten, hinv⟩ := hend s' hs
      refine ⟨last'', ?_, hinv⟩
      simp only [System.lastWritten, hstep, hlast]
      exact hwritten

end

/-- Start with no unsettled call for run `r`; then let one service execute it and any callers take snapshots of it, in
any interleaving. As long as a snapshot saves the stored workflow again, or an instance of its version before the
execution saves once more, the version of the stored workflow never goes down, and when all have settled the stored
workflow is the one that `executeRun` has saved last. -/
theorem snapshot_loses_nothing {world : World} (hw : world.Wired) {k : Nat} {r : RunId} {s : System}
    (hs : System.Reachable world s) (hrest : (s.view r).AtRest) {w₀ : WorkflowInstance}
    (hw₀ : s.stores.getByRunId r = some w₀) {events : List Event}
    (hok : ∀ e ∈ events, e.Shares k r Use.Snapshots)
    (hsafe : EventSystem.Along (System.step world) (fun s e _ => s.SnapshotSafe r e) s events) :
    EventSystem.Along (System.step world) (fun s _ s' => s.KeepsVersion r s') s events ∧
      ∀ s', EventSystem.exec (System.step world) s events = some s' → (s'.view r).AtRest →
        s'.stores.getByRunId r = s.lastWritten world r (some w₀) events := by
  have hnil : s.executing r = [] := hrest.executing
  have hstart : SnapshotInv k r w₀ s :=
    ⟨hrest.shared hs.coherent ⟨w₀, hw₀⟩, by simp [hnil], w₀, hw₀, rfl, .inl rfl⟩
  obtain ⟨halong, hend⟩ := hstart.exec hw.quiet hok hsafe
  refine ⟨halong, fun s' hs' hrest' => ?_⟩
  obtain ⟨last, hlast, hinv⟩ := hend s' hs'
  obtain ⟨stored, hstored, _, hsame | ⟨pc, hpc, _⟩⟩ := hinv.stored
  · rw [hlast, hstored, hsame]
  · have hnil' : s'.executing r = [] := hrest'.executing
    rw [hnil'] at hpc
    cases hpc

/-- A snapshot that the event saves has the version of the stored workflow, and is saved over once more. -/
def Event.resavesEarly (s : System) (r : RunId) : Event → Bool
  | .resume i _ =>
    match s.calls[i]? with
    | some (.use _ .snapshot (.read (some w))) =>
      (s.stores.getByRunId r).all (fun stored => w.version = stored.version) &&
        (s.executing r).any fun pc => decide ¬ pc.Spent
    | _ => true
  | _ => true

theorem SnapshotSafe.of_early {s : System} {r : RunId} {e : Event} (h : e.resavesEarly s r = true) :
    s.SnapshotSafe r e := by
  intro w hw stored hstored
  cases e with
  | resume i reply =>
    have hi : s.calls[i]? = some (.use r .snapshot (.read (some w))) := hw
    simp only [Event.resavesEarly, hi, hstored, Option.all_some, Bool.and_eq_true, decide_eq_true_eq,
      List.any_eq_true] at h
    exact .inr h
  | _ => exact absurd hw id

/-- The snapshot reads while the handler of `a` is in flight and saves once the answer has been saved. -/
def sampleEarlySnapshot : List Event :=
  sampleEvents sampleChain 7 ++ .use "run_1" .snapshot :: .resume 1 (sampleReply sampleChain) ::
    List.replicate 2 (.resume 2 (sampleReply sampleChain)) ++ List.replicate 7 (.resume 1 (sampleReply sampleChain))

/-- The execution saves its own copy over it. -/
theorem snapshot_loses_nothing_sample : ∃ s,
    EventSystem.exec (System.step (sampleWorld fun _ _ => false)) (firstRun sampleChain [] (sampleReply sampleChain))
        sampleEarlySnapshot = some s ∧ (s.stores.getByRunId "run_1").map (·.state) = some .completed ∧
      s.stores.getByRunId "run_1" = (firstRun sampleChain [] (sampleReply sampleChain)).lastWritten
        (sampleWorld fun _ _ => false) "run_1" (some (sampleRun sampleChain)) sampleEarlySnapshot := by
  have hnew := sample_newRun (fun _ _ => false) (d := sampleChain) (by decide +kernel)
  have hearly : EventSystem.Along (System.step (sampleWorld fun _ _ => false))
      (fun s e _ => e.resavesEarly s "run_1" = true) (firstRun sampleChain [] (sampleReply sampleChain))
      sampleEarlySnapshot := by decide +kernel
  have hsafe := EventSystem.Along.of_invariant (I := fun _ => True) (P := fun s e _ => s.SnapshotSafe "run_1" e)
    (fun _ _ _ _ (_ : True) _ h => ⟨SnapshotSafe.of_early h, trivial⟩) trivial (fun _ _ => trivial) hearly
  have hend : (EventSystem.exec (System.step (sampleWorld fun _ _ => false))
      (firstRun sampleChain [] (sampleReply sampleChain)) sampleEarlySnapshot).any (fun s =>
        (s.stores.getByRunId "run_1").map (·.state) = some .completed ∧
          ((s.view "run_1").executing.isEmpty ∧ (s.view "run_1").uses.isEmpty) ∧
          ((s.view "run_1").creating.isEmpty ∧ (s.view "run_1").replaying.isEmpty)) = true := by decide +kernel
  obtain ⟨s, hs, hp⟩ := (Option.any_eq_true _ _).1 hend
  obtain ⟨hstate, ⟨he, hu⟩, hc, hr⟩ := of_decide_eq_true hp
  have hrest : (s.view "run_1").AtRest :=
    ⟨List.isEmpty_iff.1 he, List.isEmpty_iff.1 hu, List.isEmpty_iff.1 hc, List.isEmpty_iff.1 hr⟩
  have hstored : (firstRun sampleChain [] (sampleReply sampleChain)).stores.getByRunId "run_1" =
      some (sampleRun sampleChain) := rfl
  have hall := (snapshot_loses_nothing (k := 0) (sampleWorld_wired _) hnew.reachable (sample_atRest _) hstored
    (by decide) hsafe).2 s hs hrest
  exact ⟨s, hs, hstate, hall⟩

/-- The snapshot reads while the handler of `a` is in flight and saves after the run has completed. -/
def sampleLateSnapshot : List Event :=
  sampleEvents sampleChain 7 ++ .use "run_1" .snapshot :: List.replicate 8 (.resume 1 (sampleReply sampleChain))

/-- The snapshot saves and returns. -/
def sampleSnapshotEnd : List Event := List.replicate 2 (.resume 2 (sampleReply sampleChain))

/-- The completed run is running again, though `executeRun` has saved it as completed and every call has settled. -/
theorem completion_lost : (∀ e ∈ sampleLateSnapshot ++ sampleSnapshotEnd, e.Shares 0 "run_1" Use.Snapshots) ∧ ∃ s s',
    EventSystem.exec (System.step (sampleWorld fun _ _ => false)) (firstRun sampleChain [] (sampleReply sampleChain))
        sampleLateSnapshot = some s ∧
      EventSystem.exec (System.step (sampleWorld fun _ _ => false)) s sampleSnapshotEnd = some s' ∧
      (s'.view "run_1").AtRest ∧ ¬ s.KeepsVersion "run_1" s' ∧
      (s'.stores.getByRunId "run_1").map (·.state) = some .running ∧
      ((firstRun sampleChain [] (sampleReply sampleChain)).lastWritten (sampleWorld fun _ _ => false) "run_1"
        (some (sampleRun sampleChain)) (sampleLateSnapshot ++ sampleSnapshotEnd)).map (·.state) = some .completed := by
  refine ⟨by decide, ?_⟩
  have h : (EventSystem.exec (System.step (sampleWorld fun _ _ => false))
      (firstRun sampleChain [] (sampleReply sampleChain)) sampleLateSnapshot).any (fun s =>
        (EventSystem.exec (System.step (sampleWorld fun _ _ => false)) s sampleSnapshotEnd).any fun s' =>
          (s.stores.getByRunId "run_1").map (·.version) = some 3 ∧
          (s'.stores.getByRunId "run_1").map (fun w => (w.state, w.version)) = some (.running, 2) ∧
          ((s'.view "run_1").executing.isEmpty ∧ (s'.view "run_1").uses.isEmpty) ∧
          ((s'.view "run_1").creating.isEmpty ∧ (s'.view "run_1").replaying.isEmpty)) = true := by decide +kernel
  obtain ⟨s, hs, hp⟩ := (Option.any_eq_true _ _).1 h
  obtain ⟨s', hs', hp'⟩ := (Option.any_eq_true _ _).1 hp
  obtain ⟨hbefore, hafter, ⟨he, hu⟩, hc, hr⟩ := of_decide_eq_true hp'
  obtain ⟨w, hw, hversion⟩ := Option.map_eq_some_iff.1 hbefore
  obtain ⟨w', hw', hpair⟩ := Option.map_eq_some_iff.1 hafter
  obtain ⟨hstate, hversion'⟩ := Prod.mk.inj hpair
  have hrest : (s'.view "run_1").AtRest :=
    ⟨List.isEmpty_iff.1 he, List.isEmpty_iff.1 hu, List.isEmpty_iff.1 hc, List.isEmpty_iff.1 hr⟩
  refine ⟨s, s', hs, hs', hrest, fun hkeeps => ?_, by rw [hw', Option.map_some, hstate], by decide +kernel⟩
  have hle := hkeeps w w' hw hw'
  omega

end Jobflow
