import Jobflow.DagPlanner

/-!
# The two searches for cycles (job-definition-validator.ts:46-68, dag-planner.ts:93-106)

`validateDependencyOrder` and `buildGraph` walk the same relation: both look a task up by its id, in a map in which
the last task of an id has replaced the others. So both throw exactly when the dependency relation among the tasks
that are the last of their id has a cycle (`cycle_detection_exact`). A task that has been replaced is never looked at,
and a cycle through it goes unseen (`replaced_task_unseen`); `validate` reports the repeated id.
-/

namespace Jobflow

/-! ## The dependency relation -/

/-- `t` depends on `u`. -/
def TaskDefinition.DependsOn (t u : TaskDefinition) : Prop := u.id ∈ t.dependencies

/-- Some of the tasks depend on each other in a circle. -/
def Circular (among : TaskDefinition → Prop) : Prop :=
  ∃ t, Relation.TransGen (fun t u => among t ∧ among u ∧ t.DependsOn u) t t

/-- `t` is listed, and no task after it has its id. -/
def LastOfId (tasks : List TaskDefinition) (t : TaskDefinition) : Prop :=
  ∃ before after, tasks = before ++ t :: after ∧ t.id ∉ after.map (·.id)

section
variable {tasks : List TaskDefinition}

theorem LastOfId.mem {t : TaskDefinition} (h : LastOfId tasks t) : t ∈ tasks := by
  obtain ⟨before, after, rfl, _⟩ := h
  simp

/-- Without repeated ids every task is the last of its id. -/
theorem lastOfId_iff_mem (hn : (tasks.map (·.id)).Nodup) {t : TaskDefinition} : LastOfId tasks t ↔ t ∈ tasks := by
  constructor
  · exact LastOfId.mem
  · intro ht
    obtain ⟨before, after, rfl⟩ := List.append_of_mem ht
    refine ⟨before, after, rfl, ?_⟩
    rw [List.map_append, List.map_cons] at hn
    exact (List.nodup_cons.1 (List.nodup_append.1 hn).2.1).1

/-- The lookup by id finds the last task of the id. -/
theorem lastOfId_iff_find {t : TaskDefinition} :
    LastOfId tasks t ↔ tasks.reverse.find? (fun u => u.id = t.id) = some t := by
  rw [List.find?_eq_some_iff_append]
  constructor
  · rintro ⟨before, after, rfl, hafter⟩
    refine ⟨by simp, after.reverse, before.reverse, by simp, fun u hu => ?_⟩
    have hne : u.id ≠ t.id := fun he => hafter (he ▸ List.mem_map_of_mem (f := (·.id)) (List.mem_reverse.1 hu))
    simpa using hne
  · rintro ⟨_, after, before, hsplit, hafter⟩
    refine ⟨before.reverse, after.reverse, ?_, fun hmem => ?_⟩
    · rw [← List.reverse_reverse tasks, hsplit]
      simp
    · obtain ⟨u, hu, he⟩ := List.mem_map.1 hmem
      have := hafter u (List.mem_reverse.1 hu)
      simp [he] at this

theorem LastOfId.unique {t u : TaskDefinition} (ht : LastOfId tasks t) (hu : LastOfId tasks u) (h : t.id = u.id) :
    t = u := by
  rw [lastOfId_iff_find] at ht hu
  rw [h, hu] at ht
  exact (Option.some.inj ht).symm

/-- What the searches follow from `id`. -/
theorem mem_dependenciesById {id dep : String} :
    dep ∈ dependenciesById tasks id ↔ ∃ t, LastOfId tasks t ∧ t.id = id ∧ dep ∈ t.dependencies := by
  rw [dependenciesById, InsertionMap.get_ofList_map (·.id) fun t : TaskDefinition => t]
  constructor
  · intro h
    cases hf : tasks.reverse.find? (fun u => u.id = id) with
    | none => simp [hf] at h
    | some t =>
      have hid : t.id = id := by simpa using List.find?_some hf
      rw [hf] at h
      exact ⟨t, lastOfId_iff_find.2 (hid ▸ hf), hid, h⟩
  · rintro ⟨t, ht, rfl, hdep⟩
    rw [lastOfId_iff_find.1 ht]
    exact hdep

/-- A chain of ids is one of the tasks they stand for. -/
theorem exists_task_chain {a b : String} (h : Relation.TransGen (fun x y => y ∈ dependenciesById tasks x) a b) :
    ∀ u, LastOfId tasks u → u.id = b → ∃ t, LastOfId tasks t ∧ t.id = a ∧
      Relation.TransGen (fun t u => LastOfId tasks t ∧ LastOfId tasks u ∧ t.DependsOn u) t u := by
  induction h using Relation.TransGen.head_induction_on with
  | single hb =>
    intro u hu he
    obtain ⟨t, ht, hid, hdep⟩ := mem_dependenciesById.1 hb
    rw [← he] at hdep
    exact ⟨t, ht, hid, .single ⟨ht, hu, hdep⟩⟩
  | head hc _ ih =>
    intro u hu he
    obtain ⟨t, ht, hid, hdep⟩ := mem_dependenciesById.1 hc
    obtain ⟨t', ht', hid', hchain⟩ := ih u hu he
    rw [← hid'] at hdep
    exact ⟨t, ht, hid, .head ⟨ht, ht', hdep⟩ hchain⟩

/-- The ids of a circle of tasks are a cycle, and the other way round. -/
theorem circular_iff :
    Circular (LastOfId tasks) ↔ ∃ id, Relation.TransGen (fun x y => y ∈ dependenciesById tasks x) id id := by
  constructor
  · rintro ⟨t, ht⟩
    refine ⟨t.id, ht.lift (·.id) ?_⟩
    rintro t u ⟨hlast, _, hdep⟩
    exact mem_dependenciesById.2 ⟨t, hlast, rfl, hdep⟩
  · rintro ⟨id, hid⟩
    obtain ⟨dep, hdep, _⟩ := Relation.TransGen.head'_iff.1 hid
    obtain ⟨u, hu, he, _⟩ := mem_dependenciesById.1 hdep
    obtain ⟨t, ht, hid', hchain⟩ := exists_task_chain hid u hu he
    obtain rfl := ht.unique hu (hid'.trans he.symm)
    exact ⟨t, hchain⟩

/-! ## Both searches stop exactly at a circle -/

theorem JobDefinitionValidator.throws_iff_circular :
    (∃ e, validateDependencyOrder tasks = .error e) ↔ Circular (LastOfId tasks) := by
  have hfuel : (tasks.map (·.id)).dedup.length < tasks.length + 1 := by
    have := (List.dedup_sublist (tasks.map (·.id))).length_le
    rw [List.length_map] at this
    omega
  have hsearch := DependencyGraph.visitAll_error_iff (List.nodup_dedup (tasks.map (·.id)))
    (fun id h => List.mem_dedup.2 (mem_of_dependenciesById h)) hfuel (fun id => List.mem_dedup.1)
  rw [circular_iff, ← hsearch]
  unfold validateDependencyOrder
  constructor
  · rintro ⟨e, he⟩
    split at he
    · cases he
    · exact ⟨_, ‹_›⟩
    · exact ⟨_, ‹_›⟩
  · rintro ⟨stop, hstop⟩
    cases stop <;> simp [hstop]

theorem DagPlanner.throws_iff_circular : (∃ e, buildGraph tasks = .error e) ↔ Circular (LastOfId tasks) := by
  have hfuel : (nodes tasks).keys.length < (nodes tasks).entries.length + 1 := by simp [InsertionMap.keys]
  have hsearch : (∃ stop, DependencyGraph.visitAll (nodes tasks).dependsOn ((nodes tasks).entries.length + 1)
      (nodes tasks).keys = .error stop) ↔ _ :=
    DependencyGraph.visitAll_error_iff (nodes tasks).nodup (fun id => mem_keys_of_dependsOn) hfuel fun id h => h
  rw [nodes_dependsOn] at hsearch
  rw [circular_iff, ← hsearch]
  unfold buildGraph assertAcyclic
  rw [nodes_dependsOn]
  constructor
  · rintro ⟨e, he⟩
    split at he
    · cases he
    · exact ⟨_, ‹_›⟩
    · exact ⟨_, ‹_›⟩
  · rintro ⟨stop, hstop⟩
    cases stop <;> simp [hstop, bind, Except.bind]

end

/-- Both searches throw exactly at a circle among the tasks that are the last of their id, which are all the tasks
when no id is repeated. -/
theorem cycle_detection_exact (tasks : List TaskDefinition) :
    ((∃ e, JobDefinitionValidator.validateDependencyOrder tasks = .error e) ↔ Circular (LastOfId tasks)) ∧
      ((tasks.map (·.id)).Nodup →
        ((∃ e, JobDefinitionValidator.validateDependencyOrder tasks = .error e) ↔ Circular (· ∈ tasks))) ∧
      ((∃ e, DagPlanner.buildGraph tasks = .error e) ↔
        ∃ e, JobDefinitionValidator.validateDependencyOrder tasks = .error e) := by
  refine ⟨JobDefinitionValidator.throws_iff_circular, fun hn => ?_,
    DagPlanner.throws_iff_circular.trans JobDefinitionValidator.throws_iff_circular.symm⟩
  have hamong : LastOfId tasks = (· ∈ tasks) := funext fun t => propext (lastOfId_iff_mem hn)
  rw [← hamong]
  exact JobDefinitionValidator.throws_iff_circular

/-- The first `a` depends on itself, and the second has replaced it. -/
def sampleReplaced : List TaskDefinition :=
  [⟨"a", "a", "report.aggregate", .finite 1000, none, some ["a"]⟩,
    ⟨"a", "a", "report.aggregate", .finite 1000, none, none⟩]

theorem replaced_task_unseen : Circular (· ∈ sampleReplaced) ∧
    ¬ ∃ e, JobDefinitionValidator.validateDependencyOrder sampleReplaced = .error e := by
  constructor
  · refine ⟨⟨"a", "a", "report.aggregate", .finite 1000, none, some ["a"]⟩, .single ⟨?_, ?_, ?_⟩⟩
    · exact List.mem_cons_self
    · exact List.mem_cons_self
    · exact List.mem_singleton_self "a"
  · rintro ⟨e, he⟩
    cases he

end Jobflow
