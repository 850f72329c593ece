import Jobflow.BatchPool

/-!
# What the counters of a batch count (src/batch/coordinator.ts)

Let `good` be the runs whose `executeRun` returns. Then at every await the runs counted as completed and the good ones
still being executed are the good ones of the runs created (`Batch.Tallied`), whatever order the workers go on in.
-/

namespace Jobflow

open Js (Record)

/-- The run that the worker executes. -/
def WorkerPc.runId : WorkerPc → Option RunId
  | .executing _ runId => some runId
  | _ => none

@[simp] theorem WorkerPc.runId_creating (item : BatchJobItem) : (WorkerPc.creating item).runId = none := rfl

@[simp] theorem WorkerPc.runId_executing (item : BatchJobItem) (runId : RunId) :
    (WorkerPc.executing item runId).runId = some runId := rfl

/-- The event says of the run that is executed whether it is good. -/
def Batch.Tells (good : RunId → Bool) (b : Batch) (e : BatchEvent) : Prop :=
  ∀ i result item runId, e = .executed i result → b.workers[i]? = some (.executing item runId) →
    result.isOk = good runId

/-- The workers are busy with the batch's own items and runs. -/
structure Batch.Manned (b : Batch) : Prop where
  items : ∀ item, .creating item ∈ b.workers → item ∈ b.started
  runIds : ∀ item runId, .executing item runId ∈ b.workers → runId ∈ b.progress.runIds

structure Batch.Tallied (good : RunId → Bool) (b : Batch) : Prop where
  completed : b.progress.completed + b.workers.countP (fun pc => pc.runId.any good) =
    b.progress.runIds.countP good
  counted : b.progress.runIds.length ≤
    b.progress.completed + b.progress.failed + b.workers.countP WorkerPc.executes

/-- What a batch never takes back. -/
structure Batch.Grows (b b' : Batch) : Prop where
  manifest : b'.manifest = b.manifest
  runIds : b.progress.runIds <+: b'.progress.runIds
  started : b.started <+: b'.started

/-! ## One worker -/

theorem countP_set_add {α : Type} (p : α → Bool) {l : List α} {i : Nat} {x : α} (h : l[i]? = some x) (y : α) :
    (l.set i y).countP p + (if p x then 1 else 0) = l.countP p + if p y then 1 else 0 := by
  obtain ⟨hi, rfl⟩ := List.getElem?_eq_some_iff.1 h
  rw [List.countP_set hi]
  have hpos : p l[i] = true → 0 < l.countP p := fun hp => List.countP_pos_iff.2 ⟨_, List.getElem_mem hi, hp⟩
  split
  · rename_i hp
    have := hpos hp
    omega
  · omega

theorem countP_eq_iff {α : Type} {p q : α → Bool} {l : List α} (h : ∀ x ∈ l, p x = true → q x = true) :
    l.countP p = l.countP q ↔ ∀ x ∈ l, q x = true → p x = true := by
  constructor
  · intro heq
    induction l with
    | nil => exact fun x hx => absurd hx List.not_mem_nil
    | cons y l ih =>
      have hl : ∀ x ∈ l, p x = true → q x = true := fun x hx => h x (List.mem_cons_of_mem _ hx)
      have hle : l.countP p ≤ l.countP q := List.countP_mono_left hl
      have hy := h y List.mem_cons_self
      rw [List.countP_cons, List.countP_cons] at heq
      have hhead : q y = true → p y = true := by
        intro hqy
        by_contra hpy
        rw [if_neg hpy, if_pos hqy] at heq
        omega
      have htail : l.countP p = l.countP q := by
        by_cases hpy : p y = true
        · rw [if_pos hpy, if_pos (hy hpy)] at heq
          omega
        · rw [if_neg hpy, if_neg (mt hhead hpy)] at heq
          omega
      intro x hx hqx
      rcases List.mem_cons.1 hx with rfl | hx
      · exact hhead hqx
      · exact ih hl htail x hx hqx
  · exact fun h' => List.countP_congr fun x hx => ⟨h x hx, h' x hx⟩

section
variable {good : RunId → Bool} {b b' : Batch} {e : BatchEvent} {i : Nat} {pc : WorkerPc}

theorem Batch.Grows.refl (b : Batch) : b.Grows b := ⟨rfl, List.prefix_refl _, List.prefix_refl _⟩

theorem Batch.Grows.trans {b'' : Batch} (h : b.Grows b') (h' : b'.Grows b'') : b.Grows b'' :=
  ⟨h'.manifest.trans h.manifest, h.runIds.trans h'.runIds, h.started.trans h'.started⟩

/-- The loop puts worker `i` where it executes nothing, and takes an item from the queue if there is one. -/
theorem Batch.loop_workers (b : Batch) (i : Nat) :
    ∃ pc, (b.loop i).workers = b.workers.set i pc ∧ pc.executes = false ∧
      ∀ item, pc = .creating item → item ∈ (b.loop i).started := by
  unfold Batch.loop
  split
  · exact ⟨.returned, rfl, rfl, by simp⟩
  · refine ⟨_, rfl, rfl, ?_⟩
    rintro _ ⟨⟩
    simp

theorem Batch.loop_grows (b : Batch) (i : Nat) : b.Grows (b.loop i) ∧
    (b.loop i).progress.completed = b.progress.completed ∧ (b.loop i).progress.failed = b.progress.failed ∧
      (b.loop i).progress.runIds = b.progress.runIds := by
  unfold Batch.loop
  split
  · exact ⟨⟨rfl, List.prefix_refl _, List.prefix_refl _⟩, rfl, rfl, rfl⟩
  · exact ⟨⟨rfl, List.prefix_refl _, List.prefix_append _ _⟩, rfl, rfl, rfl⟩

theorem Batch.Grows.step (h : b.step e = some b') : b.Grows b' := by
  have hloop : ∀ {b₁ : Batch} (i : Nat), b₁.manifest = b.manifest → b₁.progress.runIds = b.progress.runIds →
      b₁.started = b.started → b.Grows (b₁.loop i) := by
    intro b₁ i hmanifest hruns hstarted
    have hgrows := (Batch.loop_grows b₁ i).1
    exact ⟨hgrows.manifest.trans hmanifest, hruns ▸ hgrows.runIds, hstarted ▸ hgrows.started⟩
  cases Batch.step_cases h with
  | created => exact ⟨rfl, List.prefix_append _ _, List.prefix_refl _⟩
  | completed | failed =>
    refine hloop _ ?_ ?_ ?_ <;> rfl

theorem WorkerPc.runId_eq_none (h : pc.executes = false) : pc.runId = none := by
  cases pc with
  | executing => cases h
  | _ => rfl

theorem Batch.Manned.loop {b₁ : Batch} (h : b.Manned) (hworkers : b₁.workers = b.workers)
    (hstarted : b₁.started = b.started) (hruns : b₁.progress.runIds = b.progress.runIds) (i : Nat) :
    (b₁.loop i).Manned := by
  obtain ⟨pc', hset, hpc', hitem⟩ := Batch.loop_workers b₁ i
  obtain ⟨hgrows, -, -, hsame⟩ := Batch.loop_grows b₁ i
  rw [hworkers] at hset
  refine ⟨fun item hmem => ?_, fun item runId hmem => ?_⟩
  · rw [hset] at hmem
    rcases List.mem_or_eq_of_mem_set hmem with hmem | heq
    · exact hgrows.started.subset (hstarted ▸ h.items item hmem)
    · exact hitem item heq.symm
  · rw [hset] at hmem
    rcases List.mem_or_eq_of_mem_set hmem with hmem | heq
    · rw [hsame, hruns]
      exact h.runIds item runId hmem
    · rw [← heq] at hpc'
      cases hpc'

theorem Batch.Manned.step (h : b.Manned) (hs : b.step e = some b') : b'.Manned := by
  cases Batch.step_cases hs with
  | @created i item runId hi =>
    refine ⟨fun item' hmem => ?_, fun item' runId' hmem => ?_⟩
    · rcases List.mem_or_eq_of_mem_set hmem with hmem | heq
      · exact h.items item' hmem
      · cases heq
    · rcases List.mem_or_eq_of_mem_set hmem with hmem | heq
      · exact List.mem_append_left _ (h.runIds item' runId' hmem)
      · cases heq
        exact List.mem_append_right _ (List.mem_singleton_self _)
  | completed | failed =>
    refine h.loop ?_ ?_ ?_ _ <;> rfl

theorem Batch.mem_append_returned (hpc : pc ≠ .returned) (hmem : pc ∈ b.workers ++ [.returned]) : pc ∈ b.workers := by
  rcases List.mem_append.1 hmem with hmem | hmem
  · exact hmem
  · exact absurd (List.mem_singleton.1 hmem) hpc

theorem Batch.Manned.spawn (h : b.Manned) : b.spawn.Manned := by
  have hidle : Batch.Manned { b with workers := b.workers ++ [.returned] } :=
    ⟨fun item hmem => h.items item (Batch.mem_append_returned (by simp) hmem),
      fun item runId hmem => h.runIds item runId (Batch.mem_append_returned (by simp) hmem)⟩
  exact Batch.Manned.loop hidle rfl rfl rfl _

/-- A worker that is done with a run leaves it to the counters. -/
theorem Batch.Tallied.loop {b₁ : Batch} (h : b.Tallied good) (hi : b.workers[i]? = some pc)
    (hworkers : b₁.workers = b.workers) (hruns : b₁.progress.runIds = b.progress.runIds)
    (hcompleted : b₁.progress.completed = b.progress.completed + if pc.runId.any good then 1 else 0)
    (hcounted : b.progress.completed + b.progress.failed + (if pc.executes then 1 else 0) ≤
      b₁.progress.completed + b₁.progress.failed) :
    (b₁.loop i).Tallied good := by
  obtain ⟨pc', hset, hpc', -⟩ := Batch.loop_workers b₁ i
  obtain ⟨-, hsame, hsame', hsame''⟩ := Batch.loop_grows b₁ i
  rw [hworkers] at hset
  have hgood := countP_set_add (fun pc => pc.runId.any good) hi pc'
  have hexec := countP_set_add WorkerPc.executes hi pc'
  simp only [WorkerPc.runId_eq_none hpc', Option.any_none, Bool.false_eq_true, if_false] at hgood
  simp only [hpc', Bool.false_eq_true, if_false] at hexec
  have hbefore := h.completed
  have hbefore' := h.counted
  constructor
  · rw [hset, hsame, hsame'', hruns, hcompleted]
    omega
  · rw [hset, hsame, hsame', hsame'', hruns]
    omega

theorem Batch.Tallied.step (h : b.Tallied good) (htells : b.Tells good e) (hs : b.step e = some b') :
    b'.Tallied good := by
  cases e with
  | created i result =>
    simp only [Batch.step] at hs
    split at hs
    · rename_i item runId hi
      cases hs
      have hgood := countP_set_add (fun pc => pc.runId.any good) hi (.executing item runId)
      have hexec := countP_set_add WorkerPc.executes hi (.executing item runId)
      simp only [WorkerPc.runId_creating, WorkerPc.runId_executing, Option.any_none, Option.any_some,
        Bool.false_eq_true, if_false] at hgood
      simp only [WorkerPc.executes, Bool.false_eq_true, if_false, if_true] at hexec
      have hbefore := h.completed
      have hbefore' := h.counted
      constructor
      · by_cases hrun : good runId = true
        · simp only [hrun, if_true] at hgood
          simp only [List.countP_append, List.countP_singleton, hrun, if_true]
          omega
        · simp only [hrun] at hgood
          simp only [List.countP_append, List.countP_singleton, hrun]
          omega
      · simp only [List.length_append, List.length_singleton]
        omega
    · rename_i item _ hi
      cases hs
      refine Batch.Tallied.loop h hi rfl rfl ?_ ?_
      · simp [Batch.caught]
      · simp only [Batch.caught, WorkerPc.executes, Bool.false_eq_true, if_false]
        omega
    · cases hs
  | executed i result =>
    simp only [Batch.step] at hs
    split at hs
    · rename_i item runId hi
      cases hs
      have hgood : good runId = true := (htells i _ item runId rfl hi).symm
      refine Batch.Tallied.loop h hi rfl rfl ?_ ?_
      · simp [hgood]
      · simp only [WorkerPc.executes, if_true]
        omega
    · rename_i item runId _ hi
      cases hs
      have hbad : good runId = false := (htells i _ item runId rfl hi).symm
      refine Batch.Tallied.loop h hi rfl rfl ?_ ?_
      · simp [Batch.caught, hbad]
      · simp only [Batch.caught, WorkerPc.executes, if_true]
        omega
    · cases hs

theorem Batch.Tallied.spawn (h : b.Tallied good) : b.spawn.Tallied good := by
  have hidle : Batch.Tallied good { b with workers := b.workers ++ [.returned] } := by
    constructor
    · simp only [List.countP_append]
      exact h.completed
    · simp only [List.countP_append]
      exact h.counted
  refine Batch.Tallied.loop hidle List.getElem?_concat_length rfl rfl ?_ ?_
  · rfl
  · simp [WorkerPc.executes]

theorem BatchCoordinator.execute_tallied (good : RunId → Bool) (m : BatchManifest) :
    (execute m).Manned ∧ (execute m).Tallied good := by
  have hall : ∀ (l : List Nat) (b : Batch), b.Manned ∧ b.Tallied good →
      (l.foldl (fun b _ => b.spawn) b).Manned ∧ (l.foldl (fun b _ => b.spawn) b).Tallied good := by
    intro l
    induction l with
    | nil => exact fun b hb => hb
    | cons n l ih => exact fun b hb => ih b.spawn ⟨hb.1.spawn, hb.2.spawn⟩
  exact hall _ _ ⟨⟨fun _ h => absurd h List.not_mem_nil, fun _ _ h => absurd h List.not_mem_nil⟩, rfl, Nat.le_refl _⟩

end

end Jobflow
