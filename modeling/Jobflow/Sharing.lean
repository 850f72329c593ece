import Jobflow.Spent

/-!
# One run, one service, and other callers

A run is executed through one service while other callers read its workflow and save it. `Shared` is what such states
have in common, `SharedStep` what a step can do to the run there: one call at most executes it, and everything else
comes from the callers.
-/

namespace Jobflow

/-- Of run `r` there are only `executeRun` calls through service `k`, and callers that want what `wish` allows. -/
def Event.Shares (k : Nat) (r : RunId) (wish : Use → Prop) : Event → Prop
  | .executeRun k' r' => r' = r → k' = k
  | .use r' wanted => r' = r → wish wanted
  | .replay _ r' => r' ≠ r
  | .restoreToCheckpoint r' _ _ => r' ≠ r
  | _ => True

instance (k : Nat) (r : RunId) (wish : Use → Prop) [DecidablePred wish] :
    (e : Event) → Decidable (e.Shares k r wish)
  | .executeRun k' r' => inferInstanceAs (Decidable (r' = r → k' = k))
  | .use r' wanted => inferInstanceAs (Decidable (r' = r → wish wanted))
  | .replay _ r' => inferInstanceAs (Decidable (r' ≠ r))
  | .restoreToCheckpoint r' _ _ => inferInstanceAs (Decidable (r' ≠ r))
  | .register _ _ | .createRun _ _ _ | .acquire _ _ | .release _ _ | .resume _ _ => inferInstanceAs (Decidable True)

structure Shared (k : Nat) (r : RunId) (wish : Use → Prop) (s : System) : Prop where
  coherent : s.Coherent
  known : ∃ w, (s.stores.record r).workflow = some w
  creating : (s.view r).creating = []
  replaying : (s.view r).replaying = []
  uses : ∀ u ∈ (s.view r).uses, wish u.1
  wellFormed : ∀ pc ∈ s.executing r, pc.WellFormed
  alone : s.executors r = [] ∨ s.executors r = [k] ∧ (k, r) ∈ s.stores.localLocks

/-- What a step can do to a run that is shared in this way. -/
inductive SharedStep (world : World) (k : Nat) (r : RunId) (s : System) (e : Event) (s' : System) : Prop where
  /-- Calls may begin. -/
  | idle (pcs : List ExecPc) (hn : ∀ k i pc now, ¬ e.Resumes s r k i pc now)
      (hrec : s'.stores.record r = s.stores.record r)
      (hexec : s'.executing r = s.executing r ++ pcs) (hpcs : ∀ pc ∈ pcs, ∃ run, pc = .runRead run)
  | executed (i : Nat) (pc : ExecPc) (now : ISODateString) (x : Stores × ExecPc)
      (he : e.Resumes s r k i pc now) (hx : ExecutionService.resume world k r s.stores now pc = some x)
      (hown : ∀ w ∈ pc.instances, s.stores.Owns r w) (hpcs : s.executing r = [pc])
      (hexec : s'.executing r = x.2.running.toList) (hrec : s'.stores.record r = x.1.record r)
  | used (i : Nat) (reply : Reply) (use : Use) (pc : UsePc) (x : Stores × UsePc) (he : e = .resume i reply)
      (hi : s.calls[i]? = some (.use r use pc)) (hx : use.resume world r s.stores reply.now pc = some x)
      (hown : ∀ w ∈ pc.instances, s.stores.Owns r w) (hmem : (use, pc) ∈ (s.view r).uses)
      (hexec : s'.executing r = s.executing r) (hrec : s'.stores.record r = x.1.record r)

section
variable {world : World} {k : Nat} {r : RunId} {wish : Use → Prop} {s s' : System} {e : Event}

/-- There is one executor for each call that executes the run. -/
theorem executing_length (s : System) (r : RunId) : (s.executing r).length = (s.executors r).length := by
  unfold System.executing System.executors
  induction s.calls with
  | nil => rfl
  | cons c cs ih =>
    have hsome : (c.executing r).isSome = (c.executor r).isSome := by
      cases c with
      | execute k r' pc =>
        unfold Call.executing Call.executor
        by_cases hr : r' = r
        · cases hp : pc.running <;> simp [hr, hp]
        · simp [hr]
      | _ => rfl
    cases he : c.executing r <;> cases hx : c.executor r <;> rw [he, hx] at hsome <;>
      simp_all

/-- Nobody executes a run that no call is executing. -/
theorem executors_eq_nil (h : s.executing r = []) : s.executors r = [] := by
  rw [← List.length_eq_zero_iff, ← executing_length, h]
  rfl

/-- A run without unsettled calls. -/
theorem RunView.AtRest.shared (h : (s.view r).AtRest) (hc : s.Coherent)
    (hk : ∃ w, (s.stores.record r).workflow = some w) : Shared k r wish s := by
  have hexec : s.executing r = [] := h.executing
  exact ⟨hc, hk, h.creating, h.replaying, by simp [h.uses], by simp [hexec], .inl (executors_eq_nil hexec)⟩

theorem Shared.executing_le_one (h : Shared k r wish s) : (s.executing r).length ≤ 1 := by
  rw [executing_length]
  rcases h.alone with hnone | ⟨hone, _⟩
  · simp [hnone]
  · simp [hone]

/-- Only `executeRun` itself begins an execution of a run that is not being replayed. -/
theorem Event.opens_eq (h : (s.view r).replaying = []) {k' : Nat} (ho : e.opens s = some (k', r)) :
    e = .executeRun k' r := by
  unfold Event.opens at ho
  split at ho
  · rw [Option.some.injEq, Prod.mk.injEq] at ho
    rw [ho.1, ho.2]
  · split at ho
    · rename_i hi
      cases ho
      have hmem : (k', _) ∈ (s.view r).replaying :=
        List.mem_filterMap.2 ⟨_, List.mem_of_getElem? hi, by simp only [Call.replaying, if_true]; rfl⟩
      rw [h] at hmem
      cases hmem
    · cases ho
  · cases ho

theorem Shared.alone_step (h : Shared k r wish s) (he : e.Shares k r wish) (hs : s.step world e = some s') :
    s'.executors r = [] ∨ s'.executors r = [k] ∧ (k, r) ∈ s'.stores.localLocks := by
  have hopens : ∀ k', e.opens s = some (k', r) → k' = k := fun k' ho => by
    rw [Event.opens_eq h.replaying ho] at he
    exact he rfl
  cases System.step_locks (r := r) hs with
  | same ho hl hx =>
    rw [hx, hl.2 k]
    exact h.alone
  | began k' ho hk hfree hr hl hx =>
    obtain rfl := hopens k' ho
    rcases h.alone with hrest | ⟨_, hloc⟩
    · exact .inr ⟨by rw [hx, hrest]; rfl, (hl k').2 (.inl rfl)⟩
    · exact absurd hloc hk
  | conflict k' ho hk hother hr hl hx =>
    rw [hx]
    exact h.alone.imp_right fun hone => ⟨hone.1, (hl k).2 (.inr hone.2)⟩
  | ended k' before after ho hr hl hx hx' =>
    rcases h.alone with hrest | ⟨hone, _⟩
    · rw [hrest] at hx
      simp at hx
    · rw [hone] at hx
      obtain ⟨rfl, hcons⟩ := List.append_eq_singleton_iff.1 hx.symm |>.resolve_right (by simp)
      obtain ⟨_, rfl⟩ := List.cons.inj hcons
      exact .inl hx'
  | acquired o hev hfree hr hl hx | released o hev hr hl hx =>
    rw [hx, hl]
    exact h.alone

/-- Once its instance is saved, `applyTransition` leaves the workflows alone. -/
theorem TransitionCall.resume_workflow (st : Stores) (t : TransitionCall) (now : ISODateString) :
    (t.resume world st now).1.getByRunId r = st.getByRunId r := by
  unfold TransitionCall.resume WorkflowOrchestrator.announce
  split
  · rfl
  · obtain ⟨runs, he⟩ := updateRun_runs st t.next.runId t.target now
    rw [he]
    rfl
  · dsimp only
    split <;> rfl
  · dsimp only
    split <;> rfl
  · rfl

/-- A caller saves the workflow in the segment after the one in which it has read it, if at all. -/
theorem Use.resume_workflow {st : Stores} {wanted : Use} {pc : UsePc} {now : ISODateString} {x : Stores × UsePc}
    (hx : wanted.resume world r st now pc = some x) :
    x.1.getByRunId r = st.getByRunId r ∨ ∃ w, pc = .read (some w) := by
  cases pc with
  | read found =>
    cases found with
    | none =>
      cases hx
      exact .inl rfl
    | some w => exact .inr ⟨w, rfl⟩
  | transition t =>
    have hsame := @TransitionCall.resume_workflow world r st t now
    cases hres : t.resume world st now with
    | mk st' out =>
      rw [hres] at hsame
      simp only [Use.resume, hres] at hx
      cases out <;> cases hx <;> exact .inl hsame
  | saved =>
    cases hx
    exact .inl rfl
  | settled result => cases hx

/-- A run that is known stays known. -/
theorem Effect.known {k' : Nat} {held ws : List WorkflowInstance} {seg : Segment} {st st' : Stores}
    (he : Effect k' r held st seg st' ws) (hc : st.Coherent) (hheld : ∀ w ∈ held, st.Owns r w)
    (hk : ∃ w, st.getByRunId r = some w) : ∃ w, st'.getByRunId r = some w := by
  obtain ⟨w, hw⟩ := hk
  obtain ⟨hc', hsame, _⟩ := he.coherent hc hheld
  have hid := (hsame r).trans (hc.getByRunId_owns hw).2
  obtain ⟨w', hw', _⟩ := hc'.getByRunId_isSome hid
  exact ⟨w', hw'⟩

/-- The run stays shared if the new view of it says so. -/
theorem Shared.of_step (h : Shared k r wish s) (he : e.Shares k r wish) (hs : s.step world e = some s') {v : RunView}
    (hv : s'.view r = v) (hknown : ∃ w, v.record.workflow = some w) (hcreating : v.creating = [])
    (hreplaying : v.replaying = []) (huses : ∀ u ∈ v.uses, wish u.1) (hwf : ∀ pc ∈ v.executing, pc.WellFormed) :
    Shared k r wish s' := by
  subst hv
  exact ⟨h.coherent.step hs, hknown, hcreating, hreplaying, huses, hwf, h.alone_step he hs⟩

/-- Every step of a shared run is on the list, and it stays shared. -/
theorem Shared.step (h : Shared k r wish s) (he : e.Shares k r wish) (hs : s.step world e = some s') :
    SharedStep world k r s e s' ∧ Shared k r wish s' := by
  cases System.step_run (r := r) h.coherent hs with
  | same ho hn hv =>
    have hrec : s'.stores.record r = s.stores.record r := congrArg RunView.record hv
    have hexec : s'.executing r = s.executing r := congrArg RunView.executing hv
    refine ⟨.idle [] hn hrec (by simp [hexec]) (by simp), ?_⟩
    exact h.of_step he hs hv h.known h.creating h.replaying h.uses h.wellFormed
  | opened k' pcs replays ho hpcs hreplays hv =>
    have hread : ∀ pc ∈ pcs, ∃ run, pc = .runRead run := fun pc hpc => by
      rcases hpcs with rfl | rfl
      · cases hpc
      · exact ⟨_, List.mem_singleton.1 hpc⟩
    refine ⟨.idle pcs (fun _ _ _ _ => Event.opens_not_resumes ho) (congrArg RunView.record hv)
      (congrArg RunView.executing hv) hread, ?_⟩
    refine h.of_step he hs hv h.known h.creating (hreplays.resolve_right (not_not.2 h.replaying)) h.uses ?_
    intro pc hpc
    rcases List.mem_append.1 hpc with hold | hnew
    · exact h.wellFormed pc hold
    · obtain ⟨run, rfl⟩ := hread pc hnew
      trivial
  | executed k' i pc now x before after he' hx hown hpcs hv =>
    have hlen := h.executing_le_one
    rw [hpcs, List.length_append, List.length_cons] at hlen
    obtain rfl : before = [] := List.length_eq_zero_iff.1 (by omega)
    obtain rfl : after = [] := List.length_eq_zero_iff.1 (by omega)
    have hk : k' = k := by
      obtain ⟨_, _, _, hi⟩ := he'
      have hmem : k' ∈ s.executors r := List.mem_filterMap.2 ⟨_, List.mem_of_getElem? hi, by
        simp [Call.executor, ExecutionService.resume_running hx]⟩
      rcases h.alone with hrest | ⟨hone, _⟩
      · rw [hrest] at hmem
        cases hmem
      · rw [hone] at hmem
        exact List.mem_singleton.1 hmem
    subst hk
    rw [List.nil_append, List.append_nil] at hv
    refine ⟨.executed i pc now x he' hx hown hpcs (congrArg RunView.executing hv) (congrArg RunView.record hv), ?_⟩
    have hknown := (ExecutionService.resume_effect hx).known h.coherent.stores hown h.known
    refine h.of_step he hs hv hknown h.creating h.replaying h.uses fun pc' hpc' => ?_
    have hwf := ExecutionService.resume_wellFormed (h.wellFormed pc (by rw [hpcs]; exact List.mem_cons_self)) hx
    dsimp only at hpc'
    rcases ExecPc.running_segment x.2 with ⟨hrun, _⟩ | ⟨hrun, _⟩ <;> rw [hrun] at hpc'
    · rwa [List.mem_singleton.1 hpc']
    · cases hpc'
  | called use he' hv =>
    have hexec : s'.executing r = s.executing r := congrArg RunView.executing hv
    subst he'
    refine ⟨.idle [] (fun _ _ _ _ => Event.not_resumes (by simp)) (congrArg RunView.record hv) (by simp [hexec])
      (by simp), ?_⟩
    refine h.of_step he hs hv h.known h.creating h.replaying (fun u hu => ?_) h.wellFormed
    rcases List.mem_append.1 hu with hold | hnew
    · exact h.uses u hold
    · rw [List.mem_singleton.1 hnew]
      exact he rfl
  | used i reply use pc x before after he' hi hx hown huses hv =>
    have hmem : (use, pc) ∈ (s.view r).uses := by
      rw [huses]
      exact List.mem_append_right _ List.mem_cons_self
    refine ⟨.used i reply use pc x he' hi hx hown hmem (congrArg RunView.executing hv) (congrArg RunView.record hv), ?_⟩
    have hknown := (Use.resume_effect (k := 0) hx).known h.coherent.stores hown h.known
    refine h.of_step he hs hv hknown h.creating h.replaying (fun u hu => ?_) h.wellFormed
    simp only [List.append_assoc, List.mem_append, Option.mem_toList, Option.map_eq_some_iff] at hu
    rcases hu with hu | ⟨pc', _, rfl⟩ | hu
    · exact h.uses u (by rw [huses]; exact List.mem_append_left _ hu)
    · exact h.uses (use, pc) hmem
    · exact h.uses u (by rw [huses]; exact List.mem_append_right _ (List.mem_cons_of_mem _ hu))
  | created i reply definition jobId trigger input before after he' hi hid hfresh hcreating hv =>
    obtain ⟨w, hw⟩ := h.known
    have hknown := (h.coherent.stores.getByRunId_owns hw).2
    rw [← hid, hfresh.1] at hknown
    cases hknown
  | runSaved i reply jobId trigger input run before after he' hi hcreating hv =>
    rw [h.creating] at hcreating
    simp at hcreating
  | restored version now snap he' hsnap hv =>
    subst he'
    exact absurd rfl he
  | replayed replays he' ho hn hv =>
    rcases he' with ⟨k', rfl⟩ | hne
    · exact absurd rfl he
    · exact absurd h.replaying hne

end

end Jobflow
