import Jobflow.Lineage
import Jobflow.Completion

/-!
# Rolling back a failed run (src/engine/compensation.ts)

The planner reverses the stored task runs, and these stand in the order in which the tasks were declared, whatever
order the scheduler has run them in. So a plan undoes every task after those that depend on it exactly when each task is
declared behind its dependencies (`rollback_order_iff`), which registration does not ask for.
-/

namespace Jobflow

structure CompensationStep where
  taskId : String
  action : String
  deriving DecidableEq

/-- `CompensationPlanner.planFailedRun` (compensation.ts:10-16). -/
def CompensationPlanner.planFailedRun (tasks : List TaskRun) : List CompensationStep :=
  let succeeded := tasks.filter fun t => t.status = .succeeded
  succeeded.reverse.map fun t => { taskId := t.definitionTaskId, action := "rollback." ++ t.handler }

/-! ## What a plan should be -/

/-- The task with id `c` depends on the one with id `b`, directly or through others. -/
def JobDefinition.Requires (d : JobDefinition) : String → String → Prop :=
  Relation.TransGen fun c b => ∃ t ∈ d.tasks, t.id = c ∧ b ∈ t.dependencies

/-- A plan for the task runs of a run of `d`: every succeeded task once, and no task before one that depends on it. -/
structure RollsBack (d : JobDefinition) (tasks : List TaskRun) (plan : List CompensationStep) : Prop where
  once : ∀ t ∈ tasks, t.status = .succeeded → (plan.map (·.taskId)).count t.definitionTaskId = 1
  only : ∀ step ∈ plan, ∃ t ∈ tasks, t.status = .succeeded ∧ step = ⟨t.definitionTaskId, "rollback." ++ t.handler⟩
  order : (plan.map (·.taskId)).Pairwise fun b c => ¬ d.Requires c b

/-- Every task is declared behind the tasks it depends on. -/
def JobDefinition.DeclaredInOrder (d : JobDefinition) : Prop :=
  ∀ before c after, d.tasks = before ++ c :: after → ∀ dep ∈ c.dependencies, dep ∈ before.map (·.id)

section
variable {d : JobDefinition} {w₀ w : WorkflowInstance}

theorem CompensationPlanner.planFailedRun_ids (tasks : List TaskRun) :
    (planFailedRun tasks).map (·.taskId) =
      ((tasks.filter fun t => t.status = .succeeded).map (·.definitionTaskId)).reverse := by
  simp [planFailedRun, Function.comp_def]

/-- The first `n` tasks depend on none of the others. -/
theorem JobDefinition.DeclaredInOrder.take_closed (h : d.DeclaredInOrder) (hn : (d.tasks.map (·.id)).Nodup) {n : Nat}
    {c b : String} (hc : c ∈ (d.tasks.take n).map (·.id)) (hcb : d.Requires c b) :
    b ∈ (d.tasks.take n).map (·.id) := by
  have hdirect : ∀ {c b : String}, c ∈ (d.tasks.take n).map (·.id) → (∃ t ∈ d.tasks, t.id = c ∧ b ∈ t.dependencies) →
      b ∈ (d.tasks.take n).map (·.id) := by
    rintro c b hc ⟨t, ht, rfl, hb⟩
    obtain ⟨t', ht', hid⟩ := List.mem_map.1 hc
    obtain rfl := List.inj_on_of_nodup_map hn (List.mem_of_mem_take ht') ht hid
    obtain ⟨before, after, hsplit⟩ := List.append_of_mem ht'
    have hall : d.tasks = before ++ t' :: (after ++ d.tasks.drop n) := by
      have := (List.take_append_drop n d.tasks).symm
      rw [hsplit] at this
      simpa using this
    rw [hsplit, List.map_append]
    exact List.mem_append_left _ (h _ _ _ hall b hb)
  induction hcb with
  | single hb => exact hdirect hc hb
  | tail _ hb ih => exact hdirect ih hb

/-- Nothing depends on a task declared behind it. -/
theorem JobDefinition.DeclaredInOrder.pairwise (h : d.DeclaredInOrder) (hn : (d.tasks.map (·.id)).Nodup) :
    (d.tasks.map (·.id)).Pairwise fun c b => ¬ d.Requires c b := by
  rw [List.pairwise_iff_getElem]
  intro i j hi hj hij hreq
  have hmem : ∀ {m : Nat} (hm : m < (d.tasks.map (·.id)).length),
      (d.tasks.map (·.id))[m] ∈ (d.tasks.take (i + 1)).map (·.id) → m < i + 1 := by
    intro m hm hin
    rw [List.map_take] at hin
    obtain ⟨m', hm', he⟩ := List.mem_take_iff_getElem.1 hin
    have := (List.Nodup.getElem_inj_iff hn).1 he
    omega
  have hfirst : (d.tasks.map (·.id))[i] ∈ (d.tasks.take (i + 1)).map (·.id) := by
    rw [List.map_take]
    exact List.mem_take_iff_getElem.2 ⟨i, by omega, rfl⟩
  have := hmem hj (h.take_closed hn hfirst hreq)
  omega

/-- The plan for any instance of a run whose tasks were declared in order. -/
theorem JobDefinition.DeclaredInOrder.rollsBack (h : d.DeclaredInOrder) (ha : Accepted d) (hi : Instantiates d w₀)
    (hl : Later w₀ w) : RollsBack d w.tasks (CompensationPlanner.planFailedRun w.tasks) := by
  have hsub : ((w.tasks.filter fun t => t.status = .succeeded).map (·.definitionTaskId)).Sublist
      (d.tasks.map (·.id)) := by
    rw [← hl.definitionTaskIds hi]
    exact List.filter_sublist.map _
  constructor
  · intro t ht hs
    rw [CompensationPlanner.planFailedRun_ids, List.count_reverse]
    refine List.count_eq_one_of_mem (hsub.nodup ha.nodup) ?_
    exact List.mem_map_of_mem (List.mem_filter.2 ⟨ht, by simpa using hs⟩)
  · intro step hstep
    simp only [CompensationPlanner.planFailedRun, List.mem_map, List.mem_reverse, List.mem_filter,
      decide_eq_true_eq] at hstep
    obtain ⟨t, ⟨ht, hs⟩, rfl⟩ := hstep
    exact ⟨t, ht, hs, rfl⟩
  · rw [CompensationPlanner.planFailedRun_ids, List.pairwise_reverse]
    exact (h.pairwise ha.nodup).sublist hsub

/-- When every task has succeeded, a plan in the right order needs tasks declared in order. -/
theorem RollsBack.declaredInOrder (ha : Accepted d) (hi : Instantiates d w₀) (hl : Later w₀ w)
    (hall : ∀ t ∈ w.tasks, t.status = .succeeded)
    (h : RollsBack d w.tasks (CompensationPlanner.planFailedRun w.tasks)) : d.DeclaredInOrder := by
  have hids : (d.tasks.map (·.id)).Pairwise fun c b => ¬ d.Requires c b := by
    have horder := h.order
    rw [CompensationPlanner.planFailedRun_ids, List.pairwise_reverse,
      List.filter_eq_self.2 fun t ht => by simpa using hall t ht, hl.definitionTaskIds hi] at horder
    exact horder
  intro before c after hsplit dep hdep
  have hc : c ∈ d.tasks := by simp [hsplit]
  have hreq : d.Requires c.id dep := .single ⟨c, hc, rfl, hdep⟩
  have hknown := ha.known c hc dep hdep
  rw [hsplit, List.map_append, List.map_cons] at hknown hids
  rcases List.mem_append.1 hknown with hbefore | hrest
  · exact hbefore
  rcases List.mem_cons.1 hrest with rfl | hafter
  · -- registration lets no task depend on itself
    obtain ⟨finished, hfinish, hmem⟩ := ha.order
    refine absurd (Relation.TransGen.single ?_) (hfinish.acyclic c.id (hmem c hc))
    rwa [dependenciesById_of_mem ha.nodup hc]
  · exact absurd hreq (List.rel_of_pairwise_cons (List.pairwise_append.1 hids).2.1 hafter)

end

/-! ## Every state of a run -/

section
variable {world : World} {k : Nat} {d : JobDefinition} {w₀ w : WorkflowInstance} {s s' : System}

/-- Whatever is done with a new run, and by whom: what is stored is a later instance of it. -/
theorem NewRun.stored_later (h : NewRun world k d w₀ s) {events : List Event}
    (hs : EventSystem.exec (System.step world) s events = some s')
    (hw : s'.stores.getByRunId w₀.runId = some w) : Later w₀ w := by
  have hstored : s.stores.getByRunId w₀.runId = some w₀ := by
    obtain ⟨_, _, _, _, _, _, _, hrec⟩ := h.created
    exact congrArg RunRecord.workflow hrec
  obtain ⟨d', w₁, _, hi, hl⟩ := h.reachable.lineage hstored
  have hinv : s'.Coherent ∧ Lineage w₀.runId w₁ s' :=
    EventSystem.exec_invariant (I := fun s => s.Coherent ∧ Lineage w₀.runId w₁ s)
      (fun _ _ _ hI (_ : True) hstep => ⟨hI.1.step hstep, hI.2.step hi hI.1 hstep⟩) ⟨h.reachable.coherent, hl⟩
      (fun _ _ => trivial) hs
  obtain ⟨v₀, hv₀, hd₀⟩ := hl.stored
  obtain ⟨v, hv, hd⟩ := hinv.2.stored
  obtain rfl := Option.some.inj (hv₀.symm.trans hstored)
  obtain rfl := Option.some.inj (hv.symm.trans hw)
  exact ⟨hd.later.identity.trans hd₀.later.identity.symm, hd.later.context.trans hd₀.later.context.symm⟩

/-- A new run can be executed until no call executes it any more. -/
theorem NewRun.exists_at_rest (hq : world.Quiet) (h : NewRun world k d w₀ s) :
    ∃ events s', (∀ e ∈ events, e.Undisturbed k w₀.runId d.id) ∧ .executeRun k w₀.runId ∈ events ∧
      EventSystem.exec (System.step world) s events = some s' ∧ s'.executing w₀.runId = [] := by
  let begun := ExecutionService.executeRun k w₀.runId s.stores
  have hok : ∀ e ∈ [Event.executeRun k w₀.runId], e.Undisturbed k w₀.runId d.id := by
    intro e he
    rw [List.mem_singleton.1 he]
    exact fun _ => rfl
  have hcalled : EventSystem.exec (System.step world) s [.executeRun k w₀.runId] = some (s.execute k w₀.runId) := rfl
  have hcall : (s.execute k w₀.runId).calls[s.calls.length]? = some (.execute k w₀.runId begun.2) :=
    List.getElem?_concat_length
  rcases ExecPc.running_segment begun.2 with ⟨hrun, _⟩ | ⟨hrun, _⟩
  · let resumed : Nat → Event := fun _ => .resume s.calls.length ⟨"", ⟨"", "", []⟩⟩
    obtain ⟨n, s', hs, hrest⟩ := h.settles hq hok hcalled _ _ hcall hrun fun _ => ⟨"", ⟨"", "", []⟩⟩
    refine ⟨.executeRun k w₀.runId :: (List.range n).map resumed, s', ?_, List.mem_cons_self, hs, hrest⟩
    intro e he
    rcases List.mem_cons.1 he with rfl | he
    · exact fun _ => rfl
    · obtain ⟨_, _, rfl⟩ := List.mem_map.1 he
      trivial
  · -- the call has settled at once, and there was no other
    refine ⟨_, _, hok, List.mem_cons_self, hcalled, ?_⟩
    have hidle : s.calls.filterMap (Call.executing w₀.runId) = [] := h.idle
    simp [System.executing, System.execute, System.spawn, List.filterMap_append, hidle, Call.executing, begun, hrun]

/-- A world whose handlers are all simulated and never fail. -/
def simulatedWorld (handlers : List HandlerManifestEntry) : World :=
  createContainer handlers ⟨[], 0⟩ [] fun _ _ _ _ => { outcome := .throws "", roll := 0, processedAt := "" }

theorem simulatedWorld_succeeds (handlers : List HandlerManifestEntry) (c : TaskDefinition) (policy : RetryPolicy) :
    (simulatedWorld handlers).SucceedsWithin w₀ c (allowedAttempts policy) := by
  refine World.succeedsWithin_iff.2 ⟨1, Nat.le_refl 1, allowedAttempts_pos policy, ?_⟩
  simp [World.Succeeds, World.attemptOutput, simulatedWorld, createContainer, TaskSimulator.execute,
    TaskSimulator.shouldFail]

/-- Every registered job has a run in which all its tasks succeed. -/
theorem exists_all_succeeded {handlers : List HandlerManifestEntry} {jobInput : JobDefinitionInput}
    {now : ISODateString} (hd : JobService.register handlers jobInput now = .ok d) :
    ∃ w₀ s events s' w, NewRun (simulatedWorld handlers) 0 d w₀ s ∧
      EventSystem.exec (System.step (simulatedWorld handlers)) s events = some s' ∧
      s'.stores.getByRunId w₀.runId = some w ∧ ∀ t ∈ w.tasks, t.status = .succeeded := by
  let reply : Reply := ⟨now, ⟨"1", "1", d.tasks.map (·.id)⟩⟩
  have hq : (simulatedWorld handlers).Quiet := createContainer_quiet _ _ _ _
  have hnew : NewRun (simulatedWorld handlers) 0 d
      (WorkflowService.newWorkflow d d.id [] reply.uuids reply.now) (firstRun d [] reply) :=
    firstRun_newRun hd (by simp [reply]) (JobService.register_accepted hd).1.nodup
  generalize WorkflowService.newWorkflow d d.id [] reply.uuids reply.now = w₀ at hnew
  generalize firstRun d [] reply = s at hnew
  obtain ⟨events, s', hok, hcalled, hs, hrest⟩ := hnew.exists_at_rest hq
  obtain ⟨w, hst, hfate⟩ := hnew.fate hq hok hs (System.executedSince_of_mem hcalled hs) hrest
  refine ⟨w₀, s, events, s', w, hnew, hs, hst.workflow, ?_⟩
  have hstate := (hfate.allDone_iff hnew.accepted hnew.instantiates).1 fun c _ => simulatedWorld_succeeds handlers c _
  cases hfate with
  | blocked _ hw | completed _ hw => exact fun t ht => (hw.finished t ht).status
  | failed hs | deadLettered hs => simp [hs] at hstate

/-- In every state of every run of a registered job the plan undoes each succeeded task once, and none before one that
depends on it, exactly when every task of the job is declared behind its dependencies. -/
theorem rollback_order_iff {handlers : List HandlerManifestEntry} {jobInput : JobDefinitionInput}
    {now : ISODateString} (hd : JobService.register handlers jobInput now = .ok d) :
    (∀ (world : World) (k : Nat) (w₀ : WorkflowInstance) (s : System) (events : List Event) (s' : System)
        (w : WorkflowInstance), NewRun world k d w₀ s →
        EventSystem.exec (System.step world) s events = some s' → s'.stores.getByRunId w₀.runId = some w →
        RollsBack d w.tasks (CompensationPlanner.planFailedRun w.tasks)) ↔ d.DeclaredInOrder := by
  constructor
  · intro h
    obtain ⟨w₀, s, events, s', w, hnew, hs, hw, hall⟩ := exists_all_succeeded hd
    exact (h _ 0 w₀ s events s' w hnew hs hw).declaredInOrder hnew.accepted hnew.instantiates
      (hnew.stored_later hs hw) hall
  · intro h world k w₀ s events s' w hnew hs hw
    exact h.rollsBack hnew.accepted hnew.instantiates (hnew.stored_later hs hw)

end

/-- Three tasks in a chain. -/
def sampleOrdered : JobDefinition :=
  sampleJob 3 [] [sampleTask "a" [] none, sampleTask "b" ["a"] none, sampleTask "c" ["b"] none]

theorem sampleOrdered_declared : sampleOrdered.DeclaredInOrder := by
  intro before c after hsplit
  simp only [sampleOrdered, sampleJob, List.cons_eq_append_iff, List.nil_eq_append_iff] at hsplit
  rcases hsplit with ⟨rfl, h⟩ | ⟨_, rfl, ⟨rfl, h⟩ | ⟨_, rfl, ⟨rfl, h⟩ | ⟨_, rfl, _, h⟩⟩⟩ <;> cases h <;>
    simp [sampleTask, TaskDefinition.dependencies]

/-- A failed run of it. -/
theorem rollback_order_iff_sample : ∃ s' w,
    sampleAfter (fun t _ => t = "c") sampleOrdered 21 = some s' ∧ s'.stores.getByRunId "run_1" = some w ∧
      w.state = .failed ∧ RollsBack sampleOrdered w.tasks (CompensationPlanner.planFailedRun w.tasks) := by
  obtain ⟨s', hs, _, _, hp⟩ := sample_at_rest (fun t _ => t = "c") sampleOrdered 21
    (p := fun s => (s.stores.getByRunId "run_1").any fun w => w.state = .failed) (by decide +kernel)
  obtain ⟨w, hw, hfailed⟩ := (Option.any_eq_true _ _).1 hp
  have hd : JobService.register BUILTIN_HANDLERS sampleOrdered.input "t" = .ok sampleOrdered := by decide +kernel
  exact ⟨s', w, hs, hw, of_decide_eq_true hfailed,
    (rollback_order_iff hd).2 sampleOrdered_declared _ 0 _ _ _ s' w (sample_newRun _ hd) hs hw⟩

/-- Task `b` is declared before task `a`, on which it depends. -/
def sampleUnordered : JobDefinition :=
  sampleJob 3 [] [sampleTask "b" ["a"] none, sampleTask "a" [] none, sampleTask "c" ["b"] none]

/-- Tasks `a` and `b` have succeeded when `c` fails, and the plan undoes `a` first. -/
theorem dependency_undone_first :
    JobService.register BUILTIN_HANDLERS sampleUnordered.input "t" = .ok sampleUnordered ∧ ∃ s' w,
      sampleAfter (fun t _ => t = "c") sampleUnordered 21 = some s' ∧ s'.stores.getByRunId "run_1" = some w ∧
        w.state = .failed ∧ (CompensationPlanner.planFailedRun w.tasks).map (·.taskId) = ["a", "b"] ∧
        ¬ RollsBack sampleUnordered w.tasks (CompensationPlanner.planFailedRun w.tasks) := by
  obtain ⟨s', hs, _, _, hp⟩ := sample_at_rest (fun t _ => t = "c") sampleUnordered 21
    (p := fun s => (s.stores.getByRunId "run_1").any fun w =>
      w.state = .failed ∧ (CompensationPlanner.planFailedRun w.tasks).map (·.taskId) = ["a", "b"])
    (by decide +kernel)
  obtain ⟨w, hw, hplan⟩ := (Option.any_eq_true _ _).1 hp
  obtain ⟨hfailed, hids⟩ := of_decide_eq_true hplan
  refine ⟨by decide +kernel, s', w, hs, hw, hfailed, hids, fun h => ?_⟩
  have horder := h.order
  rw [hids] at horder
  refine List.rel_of_pairwise_cons horder List.mem_cons_self (.single ⟨sampleTask "b" ["a"] none, ?_, rfl, ?_⟩)
  · exact List.mem_cons_self
  · exact List.mem_cons_self

end Jobflow
