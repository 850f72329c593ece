import Jobflow.Fate
import Jobflow.HandlerBudget

/-!
# A run as a sequential program

An executor suspends at every await, and other calls do what they like to other runs in between. What the handlers see
of one run is nevertheless a sequential program, `World.sequentialRun`: take the first task that is ready, call its
handler until an attempt succeeds, go on to the next, and stop at a task that uses up its attempts. The calls made so
far are at every moment the first calls of that program, with its arguments and in its order.
-/

namespace Jobflow

open Js (Record)

/-! ## The program -/

/-- What a handler is called with. -/
structure TaskCall where
  taskId : String
  handler : String
  attempt : Nat
  input : Record

def Invocation.call (i : Invocation) : TaskCall := ⟨i.context.taskId, i.handler, i.attempt, i.context.input⟩

def WorkflowInstance.callOf (w₀ : WorkflowInstance) (c : TaskDefinition) (attempt : Nat) : TaskCall :=
  ⟨c.id, c.handler, attempt, w₀.context⟩

/-- The attempts at a task from number `a` on, `n` at most: the first that succeeds is the last. -/
def World.attempts (world : World) (w₀ : WorkflowInstance) (c : TaskDefinition) : Nat → Nat → List Nat
  | 0, _ => []
  | n + 1, a => a :: if world.Succeeds w₀ c a then [] else attempts world w₀ c n (a + 1)

/-- The calls that one task takes. -/
def World.taskCalls (world : World) (d : JobDefinition) (w₀ : WorkflowInstance) (c : TaskDefinition) : List TaskCall :=
  (world.attempts w₀ c (allowedAttempts d.retryPolicy) 1).map (w₀.callOf c)

/-- The calls of the tasks that come after those of `done`, for `n` tasks at most. -/
def World.sequentialRun (world : World) (d : JobDefinition) (w₀ : WorkflowInstance) : Nat → List String → List TaskCall
  | 0, _ => []
  | n + 1, done =>
    match TaskScheduler.ready d.tasks done with
    | none => []
    | some c =>
      world.taskCalls d w₀ c ++
        if world.SucceedsWithin w₀ c (allowedAttempts d.retryPolicy) then sequentialRun world d w₀ n (done ++ [c.id])
        else []

/-! ## The attempts at one task -/

section
variable {world : World} {d : JobDefinition} {w₀ w : WorkflowInstance} {c : TaskDefinition}

/-- The attempts up to the first that succeeds. -/
theorem World.attempts_of_succeeds {n k a : Nat} (hfailed : ∀ x, a ≤ x → x < a + k → ¬ world.Succeeds w₀ c x)
    (hs : world.Succeeds w₀ c (a + k)) (hk : k < n) : world.attempts w₀ c n a = List.range' a (k + 1) := by
  induction k generalizing n a with
  | zero =>
    obtain ⟨n, rfl⟩ := Nat.exists_eq_succ_of_ne_zero (Nat.ne_of_gt hk)
    have hs : world.Succeeds w₀ c a := hs
    rw [attempts, if_pos hs, List.range'_one]
  | succ k ih =>
    obtain ⟨n, rfl⟩ := Nat.exists_eq_succ_of_ne_zero (Nat.ne_of_gt (Nat.zero_lt_of_lt hk))
    have hnot : ¬ world.Succeeds w₀ c a := hfailed a le_rfl (by omega)
    have hrest : world.attempts w₀ c n (a + 1) = List.range' (a + 1) (k + 1) := by
      apply ih
      · exact fun x h₁ h₂ => hfailed x (by omega) (by omega)
      · rwa [Nat.add_assoc, Nat.add_comm 1 k]
      · omega
    rw [attempts, if_neg hnot, hrest, ← List.range'_succ]

/-- When all but the last of the first `m` attempts fail, these are made. -/
theorem World.range'_prefix_attempts {n m a : Nat} (hfailed : ∀ x, a ≤ x → x + 1 < a + m → ¬ world.Succeeds w₀ c x)
    (hm : m ≤ n) : List.range' a m <+: world.attempts w₀ c n a := by
  induction m generalizing n a with
  | zero => exact List.nil_prefix
  | succ m ih =>
    obtain ⟨n, rfl⟩ := Nat.exists_eq_succ_of_ne_zero (Nat.ne_of_gt (Nat.zero_lt_of_lt hm))
    rw [attempts, List.range'_succ, List.prefix_cons_inj]
    by_cases hzero : m = 0
    · simp [hzero]
    · rw [if_neg (hfailed a le_rfl (by omega))]
      apply ih
      · exact fun x h₁ h₂ => hfailed x (by omega) (by omega)
      · omega

theorem World.length_attempts_le (n a : Nat) : (world.attempts w₀ c n a).length ≤ n := by
  induction n generalizing a with
  | zero => simp [attempts]
  | succ n ih =>
    rw [attempts, List.length_cons]
    split
    · simp
    · exact Nat.succ_le_succ (ih (a + 1))

/-- The attempts of a task that uses them up. -/
theorem World.attempts_of_fails {n a : Nat} (hfailed : ∀ x, a ≤ x → x < a + n → ¬ world.Succeeds w₀ c x) :
    world.attempts w₀ c n a = List.range' a n := by
  have hmade : List.range' a n <+: world.attempts w₀ c n a :=
    range'_prefix_attempts (fun x h₁ h₂ => hfailed x h₁ (by omega)) le_rfl
  refine (hmade.eq_of_length_le ?_).symm
  rw [List.length_range']
  exact length_attempts_le n a

theorem Finished.attempts_eq {t : TaskRun} (h : Finished world d w₀ t) (hid : t.definitionTaskId = c.id)
    (hhandler : t.handler = c.handler) :
    world.attempts w₀ c (allowedAttempts d.retryPolicy) 1 = List.range' 1 t.attempt := by
  obtain ⟨hpos, hle⟩ := h.attempt
  obtain ⟨m, hm⟩ := Nat.exists_eq_add_of_le' hpos
  have hs : world.Succeeds w₀ c t.attempt := by
    unfold World.Succeeds
    rw [← hid, ← hhandler, ← h.output]
    exact h.isSome
  have hattempts : world.attempts w₀ c (allowedAttempts d.retryPolicy) 1 = List.range' 1 (m + 1) := by
    apply World.attempts_of_succeeds
    · intro x h₁ h₂
      have := h.earlier x h₁ (by omega)
      rw [hid, hhandler] at this
      simp [World.Succeeds, this]
    · rwa [Nat.add_comm, ← hm]
    · omega
  rw [hattempts, hm]

/-! ## The attempts in a list of calls -/

def attemptsIn (calls : List TaskCall) (taskId : String) : List Nat :=
  (calls.filter fun x => x.taskId = taskId).map (·.attempt)

theorem attemptsIn_map_call (log : List Invocation) (taskId : String) :
    attemptsIn (log.map Invocation.call) taskId = attemptsOf log taskId := by
  rw [attemptsIn, List.filter_map, List.map_map]
  rfl

theorem attemptsIn_append (calls calls' : List TaskCall) (taskId : String) :
    attemptsIn (calls ++ calls') taskId = attemptsIn calls taskId ++ attemptsIn calls' taskId := by
  simp [attemptsIn]

theorem attemptsIn_eq_nil {calls : List TaskCall} {taskId : String} (h : ∀ x ∈ calls, x.taskId ≠ taskId) :
    attemptsIn calls taskId = [] := by simpa [attemptsIn] using h

theorem attemptsIn_callOf (attempts : List Nat) : attemptsIn (attempts.map (w₀.callOf c)) c.id = attempts := by
  simp [attemptsIn, List.filter_map, Function.comp_def, WorkflowInstance.callOf]

theorem attemptsIn_callOf_of_ne {taskId : String} (h : c.id ≠ taskId) (attempts : List Nat) :
    attemptsIn (attempts.map (w₀.callOf c)) taskId = [] := by
  apply attemptsIn_eq_nil
  simp [WorkflowInstance.callOf, h]

theorem count_attemptsIn (calls : List TaskCall) (taskId : String) (attempt : Nat) :
    (attemptsIn calls taskId).count attempt = (calls.map fun x => (x.taskId, x.attempt)).count (taskId, attempt) := by
  induction calls with
  | nil => rfl
  | cons x calls ih =>
    by_cases h : x.taskId = taskId
    · simpa [attemptsIn, h, List.count_cons] using ih
    · simpa [attemptsIn, h, List.count_cons] using ih

/-- Lists in which each task has the same attempts are equally long. -/
theorem length_eq_of_attemptsIn {calls calls' : List TaskCall}
    (h : ∀ taskId, attemptsIn calls taskId = attemptsIn calls' taskId) : calls.length = calls'.length := by
  have hperm : (calls.map fun x => (x.taskId, x.attempt)).Perm (calls'.map fun x => (x.taskId, x.attempt)) := by
    rw [List.perm_iff_count]
    rintro ⟨taskId, attempt⟩
    rw [← count_attemptsIn, ← count_attemptsIn, h]
  simpa using hperm.length_eq

/-- Only the tasks of the calls need to be looked at. -/
theorem attemptsIn_congr {calls calls' : List TaskCall} {ids : List String}
    (hmem : ∀ x ∈ calls ++ calls', x.taskId ∈ ids) (h : ∀ id ∈ ids, attemptsIn calls id = attemptsIn calls' id)
    (taskId : String) : attemptsIn calls taskId = attemptsIn calls' taskId := by
  by_cases hknown : taskId ∈ ids
  · exact h taskId hknown
  · have hnone : ∀ x ∈ calls ++ calls', x.taskId ≠ taskId := fun x hx he => hknown (he ▸ hmem x hx)
    rw [attemptsIn_eq_nil fun x hx => hnone x (List.mem_append_left _ hx),
      attemptsIn_eq_nil fun x hx => hnone x (List.mem_append_right _ hx)]

/-- A list of calls goes on as the program does if it has the attempts of some beginning of the program. -/
theorem prefix_snoc {program calls : List TaskCall} {x : TaskCall} (h : calls <+: program)
    (hsame : ∀ y ∈ program, y.taskId = x.taskId → y.attempt = x.attempt → y = x)
    (hnext : ∃ q, q <+: program ∧ ∀ taskId, attemptsIn q taskId = attemptsIn (calls ++ [x]) taskId) :
    calls ++ [x] <+: program := by
  obtain ⟨q, hq, hattempts⟩ := hnext
  have hlength : q.length = calls.length + 1 := by
    rw [length_eq_of_attemptsIn hattempts, List.length_append, List.length_singleton]
  obtain ⟨rest, rfl⟩ := List.prefix_of_prefix_length_le h hq (by omega)
  obtain ⟨y, rfl⟩ : ∃ y, rest = [y] := by
    rw [List.length_append] at hlength
    exact List.length_eq_one_iff.1 (by omega)
  have hy := hattempts x.taskId
  rw [attemptsIn_append, attemptsIn_append, List.append_cancel_left_eq] at hy
  have htask : y.taskId = x.taskId := by
    by_contra hne
    simp [attemptsIn, hne] at hy
  have hattempt : y.attempt = x.attempt := by simpa [attemptsIn, htask] using hy
  rwa [hsame y (hq.subset (by simp)) htask hattempt] at hq

/-! ## The program up to the task that is being tried -/

theorem World.mem_sequentialRun {n : Nat} {done : List String} {x : TaskCall}
    (hx : x ∈ world.sequentialRun d w₀ n done) : ∃ c ∈ d.tasks, ∃ a, x = w₀.callOf c a := by
  induction n generalizing done with
  | zero => cases hx
  | succ n ih =>
    rw [sequentialRun] at hx
    split at hx
    · cases hx
    · rename_i c hready
      rcases List.mem_append.1 hx with hx | hx
      · obtain ⟨a, -, rfl⟩ := List.mem_map.1 hx
        exact ⟨c, TaskScheduler.ready_mem hready, a, rfl⟩
      · split at hx
        · exact ih hx
        · cases hx

/-- The program goes on with the ready task. -/
theorem Scheduled.sequentialRun {done : List String} (h : Scheduled d.tasks done)
    (hready : TaskScheduler.ready d.tasks done = some c) :
    world.sequentialRun d w₀ (d.tasks.length - done.length) done = world.taskCalls d w₀ c ++
      if world.SucceedsWithin w₀ c (allowedAttempts d.retryPolicy) then
        world.sequentialRun d w₀ (d.tasks.length - (done ++ [c.id]).length) (done ++ [c.id])
      else [] := by
  have hlength := (h.snoc hready).length_le
  rw [List.length_append, List.length_singleton] at hlength ⊢
  obtain ⟨n, hn⟩ := Nat.exists_eq_add_of_lt hlength
  have hleft : d.tasks.length - done.length = n + 1 := by omega
  have hrest : d.tasks.length - (done.length + 1) = n := by omega
  rw [hleft, hrest, World.sequentialRun, hready]

/-- What the program does before it comes to the tasks behind `done`. -/
structure CallsOf (world : World) (d : JobDefinition) (w₀ : WorkflowInstance) (done : List String)
    (calls : List TaskCall) : Prop where
  program : world.sequentialRun d w₀ d.tasks.length [] =
    calls ++ world.sequentialRun d w₀ (d.tasks.length - done.length) done
  mem : ∀ x ∈ calls, x.taskId ∈ done
  attempts : ∀ c ∈ d.tasks, c.id ∈ done →
    attemptsIn calls c.id = world.attempts w₀ c (allowedAttempts d.retryPolicy) 1

theorem Scheduled.callsOf (ha : Accepted d) {done : List String} (h : Scheduled d.tasks done)
    (hs : ∀ c ∈ d.tasks, c.id ∈ done → world.SucceedsWithin w₀ c (allowedAttempts d.retryPolicy)) :
    ∃ calls, CallsOf world d w₀ done calls := by
  induction h with
  | nil => exact ⟨[], by simp, by simp, by simp⟩
  | @snoc done t hdone ht ih =>
    obtain ⟨calls, hcalls⟩ := ih fun c hc hin => hs c hc (List.mem_append_left _ hin)
    have hmem := TaskScheduler.ready_mem ht
    refine ⟨calls ++ world.taskCalls d w₀ t, ?_, fun x hx => ?_, fun c hc hin => ?_⟩
    · rw [hcalls.program, hdone.sequentialRun ht, if_pos (hs t hmem (by simp)), List.append_assoc]
    · rcases List.mem_append.1 hx with hx | hx
      · exact List.mem_append_left _ (hcalls.mem x hx)
      · obtain ⟨a, -, rfl⟩ := List.mem_map.1 hx
        simp [WorkflowInstance.callOf]
    · rw [attemptsIn_append]
      by_cases hdone' : c.id ∈ done
      · have hne : t.id ≠ c.id := fun he => TaskScheduler.ready_not_done ht (he ▸ hdone')
        rw [hcalls.attempts c hc hdone', World.taskCalls, attemptsIn_callOf_of_ne hne, List.append_nil]
      · have hid : c.id = t.id := by simpa [hdone'] using hin
        obtain rfl : c = t := List.inj_on_of_nodup_map ha.nodup hc hmem hid
        have hnew : attemptsIn calls c.id = [] := by
          apply attemptsIn_eq_nil
          exact fun x hx he => hdone' (he ▸ hcalls.mem x hx)
        rw [hnew, World.taskCalls, attemptsIn_callOf, List.nil_append]

/-- The tasks of an accepted definition can all be scheduled. -/
theorem Accepted.scheduled (ha : Accepted d) :
    ∃ done, Scheduled d.tasks done ∧ ∀ c ∈ d.tasks, c.id ∈ done := by
  have hgrow : ∀ n, ∃ done, Scheduled d.tasks done ∧
      (done.length = n ∨ TaskScheduler.ready d.tasks done = none) := by
    intro n
    induction n with
    | zero => exact ⟨[], .nil, .inl rfl⟩
    | succ n ih =>
      obtain ⟨done, hdone, hlength | hnone⟩ := ih
      · cases hready : TaskScheduler.ready d.tasks done with
        | none => exact ⟨done, hdone, .inr hready⟩
        | some t => exact ⟨_, hdone.snoc hready, .inl (by simp [hlength])⟩
      · exact ⟨done, hdone, .inr hnone⟩
  obtain ⟨done, hdone, hlength | hnone⟩ := hgrow (d.tasks.length + 1)
  · have := hdone.length_le
    omega
  · exact ⟨done, hdone, ha.all_done hnone⟩

/-! ## How far the calls have come -/

/-- The program as it is when the tasks of `done` have succeeded and `m` attempts at the next have been made. -/
theorem Scheduled.callsOf_next (ha : Accepted d) {done : List String} (h : Scheduled d.tasks done)
    (hready : TaskScheduler.ready d.tasks done = some c)
    (hs : ∀ b ∈ d.tasks, b.id ∈ done → world.SucceedsWithin w₀ b (allowedAttempts d.retryPolicy)) :
    ∃ calls, CallsOf world d w₀ done calls ∧ ∃ rest, world.sequentialRun d w₀ d.tasks.length [] =
      calls ++ (world.taskCalls d w₀ c ++ rest) ∧
      (¬ world.SucceedsWithin w₀ c (allowedAttempts d.retryPolicy) → rest = []) := by
  obtain ⟨calls, hcalls⟩ := h.callsOf ha hs
  refine ⟨calls, hcalls, if world.SucceedsWithin w₀ c (allowedAttempts d.retryPolicy) then
    world.sequentialRun d w₀ (d.tasks.length - (done ++ [c.id]).length) (done ++ [c.id]) else [], ?_, ?_⟩
  · rw [hcalls.program, h.sequentialRun hready]
  · exact fun hnot => if_neg hnot

/-- What the log says of a task that has succeeded, or that has not been tried. -/
theorem Stored.attemptsOf_eq {rec : RunRecord} {status : WorkflowState} {flight : Option String}
    (h : Stored d rec w status flight) {t : TaskRun} (ht : t ∈ w.tasks) (hflight : flight ≠ some t.definitionTaskId) :
    attemptsOf rec.invocations t.definitionTaskId = List.range' 1 t.attempt := by
  rw [h.log t ht, if_neg hflight, Nat.add_zero]

theorem Busy.attemptsOf_eq (ha : Accepted d) (hi : Instantiates d w₀) {rec : RunRecord} {status : WorkflowState}
    {flight : Option String} {done : List String} {st : TaskStatus} {n : Nat} (h : Busy world d w₀ done c st n w)
    (hst : Stored d rec w status flight) (hflight : flight = none ∨ flight = some c.id) {b : TaskDefinition}
    (hb : b ∈ d.tasks) (hne : b.id ≠ c.id) :
    attemptsOf rec.invocations b.id =
      if b.id ∈ done then world.attempts w₀ b (allowedAttempts d.retryPolicy) 1 else [] := by
  obtain ⟨t, ht, htb⟩ := Jobflow.exists_taskRun (h.later.definitionTaskIds hi) hb
  have hquiet : flight ≠ some t.definitionTaskId := by
    rcases hflight with rfl | rfl <;> simp [htb, hne.symm]
  rw [← htb, hst.attemptsOf_eq ht hquiet]
  by_cases hdone : t.definitionTaskId ∈ done
  · rw [if_pos hdone, (h.finished t ht hdone).attempts_eq htb (h.later.handler_eq ha hi ht hb htb)]
  · rw [if_neg hdone, (h.untouched t ht hdone (htb ▸ hne)).attempt, List.range'_zero]

theorem Busy.succeedsWithin (ha : Accepted d) (hi : Instantiates d w₀) {done : List String} {st : TaskStatus} {n : Nat}
    (h : Busy world d w₀ done c st n w) :
    ∀ b ∈ d.tasks, b.id ∈ done → world.SucceedsWithin w₀ b (allowedAttempts d.retryPolicy) := by
  intro b hb hdone
  obtain ⟨t, ht, htb⟩ := Jobflow.exists_taskRun (h.later.definitionTaskIds hi) hb
  exact (h.finished t ht (htb ▸ hdone)).succeedsWithin ha hi h.later ht hb htb

/-- The calls are the beginning of the program that has the attempts in the log. -/
structure Accounted (world : World) (d : JobDefinition) (w₀ : WorkflowInstance) (log : List Invocation)
    (calls : List TaskCall) : Prop where
  begins : calls <+: world.sequentialRun d w₀ d.tasks.length []
  attempts : ∀ b ∈ d.tasks, attemptsIn calls b.id = attemptsOf log b.id

theorem World.taskId_mem {n : Nat} {done : List String} {x : TaskCall} (hx : x ∈ world.sequentialRun d w₀ n done) :
    x.taskId ∈ d.tasks.map (·.id) := by
  obtain ⟨c, hc, a, rfl⟩ := mem_sequentialRun hx
  exact List.mem_map_of_mem hc

/-- The calls have the attempts that the log has of any task, if the log has no others than those of the job. -/
theorem Accounted.attemptsIn_eq {log : List Invocation} {calls : List TaskCall} (h : Accounted world d w₀ log calls)
    (hlog : ∀ i ∈ log, i.context.taskId ∈ d.tasks.map (·.id)) (taskId : String) :
    attemptsIn calls taskId = attemptsIn (log.map Invocation.call) taskId := by
  have hmem : ∀ x ∈ calls ++ log.map Invocation.call, x.taskId ∈ d.tasks.map (·.id) := by
    intro x hx
    rcases List.mem_append.1 hx with hx | hx
    · exact World.taskId_mem (h.begins.subset hx)
    · obtain ⟨i, hi, rfl⟩ := List.mem_map.1 hx
      exact hlog i hi
  apply attemptsIn_congr hmem
  intro id hid
  obtain ⟨b, hb, rfl⟩ := List.mem_map.1 hid
  rw [attemptsIn_map_call, h.attempts b hb]

theorem Busy.accounted (ha : Accepted d) (hi : Instantiates d w₀) {rec : RunRecord} {status : WorkflowState}
    {flight : Option String} {done : List String} {st : TaskStatus} {n m : Nat} (h : Busy world d w₀ done c st n w)
    (hst : Stored d rec w status flight) (hflight : flight = none ∨ flight = some c.id)
    (hlog : attemptsOf rec.invocations c.id = List.range' 1 m)
    (hfailed : ∀ a, 1 ≤ a → a + 1 < 1 + m → ¬ world.Succeeds w₀ c a) (hm : m ≤ allowedAttempts d.retryPolicy) :
    ∃ calls rest, world.sequentialRun d w₀ d.tasks.length [] =
        calls ++ (world.taskCalls d w₀ c ++ rest) ∧
      (¬ world.SucceedsWithin w₀ c (allowedAttempts d.retryPolicy) → rest = []) ∧
      Accounted world d w₀ rec.invocations (calls ++ (List.range' 1 m).map (w₀.callOf c)) := by
  obtain ⟨calls, hcalls, rest, hprogram, hrest⟩ :=
    h.scheduled.callsOf_next ha h.ready (h.succeedsWithin ha hi)
  refine ⟨calls, rest, hprogram, hrest, ?_, fun b hb => ?_⟩
  · rw [hprogram, List.prefix_append_right_inj]
    exact ((World.range'_prefix_attempts hfailed hm).map _).trans (List.prefix_append _ _)
  · have hc := TaskScheduler.ready_mem h.ready
    rw [attemptsIn_append]
    by_cases hbc : b.id = c.id
    · obtain rfl : b = c := List.inj_on_of_nodup_map ha.nodup hb hc hbc
      have hnew : attemptsIn calls b.id = [] := by
        apply attemptsIn_eq_nil
        exact fun x hx he => TaskScheduler.ready_not_done h.ready (he ▸ hcalls.mem x hx)
      rw [hnew, attemptsIn_callOf, List.nil_append, hlog]
    · rw [attemptsIn_callOf_of_ne (Ne.symm hbc), List.append_nil, h.attemptsOf_eq ha hi hst hflight hb hbc]
      by_cases hdone : b.id ∈ done
      · rw [if_pos hdone, hcalls.attempts b hb hdone]
      · rw [if_neg hdone]
        apply attemptsIn_eq_nil
        exact fun x hx he => hdone (he ▸ hcalls.mem x hx)

theorem AllDone.accounted (ha : Accepted d) (hi : Instantiates d w₀) {rec : RunRecord} {status : WorkflowState}
    (h : AllDone world d w₀ w) (hst : Stored d rec w status none) :
    Accounted world d w₀ rec.invocations (world.sequentialRun d w₀ d.tasks.length []) := by
  obtain ⟨done, hdone, hall⟩ := ha.scheduled
  obtain ⟨calls, hcalls⟩ := hdone.callsOf ha fun c hc _ => h.succeedsWithin ha hi hc
  have hlength : d.tasks.length - done.length = 0 := by
    have hsub : (d.tasks.map (·.id)).Subperm done :=
      ha.nodup.subperm fun id hid => by
        obtain ⟨c, hc, rfl⟩ := List.mem_map.1 hid
        exact hall c hc
    have := hsub.length_le
    rw [List.length_map] at this
    omega
  have hprogram : world.sequentialRun d w₀ d.tasks.length [] = calls := by
    rw [hcalls.program, hlength, World.sequentialRun, List.append_nil]
  refine ⟨List.prefix_refl _, fun b hb => ?_⟩
  obtain ⟨t, ht, htb⟩ := Jobflow.exists_taskRun (h.later.definitionTaskIds hi) hb
  rw [hprogram, hcalls.attempts b hb (hall b hb), ← htb, hst.attemptsOf_eq ht (by simp),
    (h.finished t ht).attempts_eq htb (h.later.handler_eq ha hi ht hb htb)]

/-- At every await the log is accounted for. -/
theorem RunInv.accounted (ha : Accepted d) (hi : Instantiates d w₀) {o : Option ExecPc} {rec : RunRecord}
    (h : RunInv world d w₀ o rec) : ∃ calls, Accounted world d w₀ rec.invocations calls := by
  obtain ⟨w, status, flight, hst, ⟨done, c, st, n, hw, -, hflight⟩ | ⟨hw, rfl⟩⟩ := h.shape
  · have hc := TaskScheduler.ready_mem hw.ready
    obtain ⟨t, ht, htc⟩ := exists_taskRun (hw.later.definitionTaskIds hi) hc
    obtain ⟨w', hw', -, hle⟩ := h.calls_le
    obtain rfl := Option.some.inj (hst.workflow.symm.trans hw')
    have hlog := hst.log t ht
    have hm := hle t ht
    obtain ⟨-, hattempt, -⟩ := hw.current t ht htc
    rw [hlog, List.length_range', htc] at hm
    rw [htc] at hlog
    obtain ⟨calls, -, -, -, hcalls⟩ := hw.accounted ha hi hst hflight hlog (fun a h₁ h₂ => by
      have : a ≤ n := by
        rw [hattempt] at h₂
        split at h₂ <;> omega
      simp [World.Succeeds, hw.failed a h₁ this]) hm
    exact ⟨_, hcalls⟩
  · exact ⟨_, hw.accounted ha hi hst⟩

/-- A run at rest that has been executed has made all calls of the program. -/
theorem Fate.accounted (ha : Accepted d) (hi : Instantiates d w₀) {rec : RunRecord} {status : WorkflowState}
    (hst : Stored d rec w status none) {dl : List DeadLetterEntry} (h : Fate world d w₀ w dl) :
    Accounted world d w₀ rec.invocations (world.sequentialRun d w₀ d.tasks.length []) := by
  have hfails : ∀ {done c}, FailsFirst world d w₀ done c →
      Busy world d w₀ done c .failed (allowedAttempts d.retryPolicy) w →
      Accounted world d w₀ rec.invocations (world.sequentialRun d w₀ d.tasks.length []) := by
    intro done c hf hw
    have hfailed : ∀ a, 1 ≤ a → a < 1 + allowedAttempts d.retryPolicy → ¬ world.Succeeds w₀ c a := fun a h₁ h₂ hs =>
      hf.fails (World.succeedsWithin_iff.2 ⟨a, h₁, by omega, hs⟩)
    obtain ⟨t, ht, htc⟩ := exists_taskRun (hw.later.definitionTaskIds hi) (TaskScheduler.ready_mem hw.ready)
    obtain ⟨-, hattempt, -⟩ := hw.current t ht htc
    have hlog : attemptsOf rec.invocations c.id = List.range' 1 (allowedAttempts d.retryPolicy) := by
      rw [← htc, hst.attemptsOf_eq ht (by simp), hattempt]
    obtain ⟨calls, rest, hprogram, hrest, hcalls⟩ := hw.accounted ha hi hst (.inl rfl) hlog
      (fun a h₁ h₂ => hfailed a h₁ (by omega)) le_rfl
    rw [hrest hf.fails, List.append_nil, World.taskCalls, World.attempts_of_fails hfailed] at hprogram
    rwa [hprogram]
  cases h with
  | blocked _ hw _ _ | completed _ hw _ _ => exact hw.accounted ha hi hst
  | failed _ hf hw _ _ => exact hfails hf hw
  | deadLettered _ hf hw _ _ => exact hfails hf hw

end

/-! ## Every run of the system -/

section
variable {world : World} {k : Nat} {d : JobDefinition} {w₀ : WorkflowInstance} {s s' : System}

/-- The handler calls of run `r`, oldest first. -/
def System.taskCalls (s : System) (r : RunId) : List TaskCall := (s.stores.record r).invocations.map Invocation.call

/-- The calls made so far are the first ones of the program. -/
def FollowsProgram (world : World) (d : JobDefinition) (w₀ : WorkflowInstance) (s : System) : Prop :=
  s.taskCalls w₀.runId <+: world.sequentialRun d w₀ d.tasks.length []

/-- An event makes at most one call of the run, the next of the program. -/
theorem FollowsProgram.step (hI : Closed world k w₀.runId d (RunInv world d w₀)) (ha : Accepted d)
    (hi : Instantiates d w₀) (h : OnRun k w₀.runId d (RunInv world d w₀) s) (hlog : LogsTasks d w₀.runId s)
    (hp : FollowsProgram world d w₀ s) {e : Event} (he : e.Undisturbed k w₀.runId d.id)
    (hs : s.step world e = some s') : FollowsProgram world d w₀ s' := by
  unfold FollowsProgram at hp ⊢
  have hgrown : s'.stores.invocations = s.stores.invocations ∨
      ∃ inv, s'.stores.invocations = s.stores.invocations ++ [inv] := by
    rcases System.step_log hs with hsame | ⟨_, _, _, _, _, _, _, _, hst, -⟩
    · exact .inl hsame
    · exact .inr ⟨_, by rw [hst]; rfl⟩
  rcases hgrown with hsame | ⟨inv, hnew⟩
  · have : s'.taskCalls w₀.runId = s.taskCalls w₀.runId := by simp [System.taskCalls, Stores.record, hsame]
    rwa [this]
  · by_cases hr : inv.runId = w₀.runId
    · have hcalls : s'.taskCalls w₀.runId = s.taskCalls w₀.runId ++ [inv.call] := by
        simp [System.taskCalls, Stores.record, hnew, hr]
      obtain ⟨w, done, c, n, t, -, hw, -, htc, hhandler, hctx⟩ := h.invokes hI he ⟨hs, hnew⟩ hr
      have hc := TaskScheduler.ready_mem hw.ready
      have hcall : inv.call = w₀.callOf c inv.attempt := by
        simp [Invocation.call, WorkflowInstance.callOf, hctx, TaskExecutor.handlerContext, htc, hhandler,
          hw.later.context]
      obtain ⟨o, hinv⟩ := (h.step hI he hs).inv
      obtain ⟨q, hq⟩ := hinv.accounted ha hi
      rw [hcalls]
      refine prefix_snoc hp (fun y hy htask hattempt => ?_) ⟨q, hq.begins, fun taskId => ?_⟩
      · obtain ⟨b, hb, a, rfl⟩ := World.mem_sequentialRun hy
        rw [hcall] at htask hattempt ⊢
        obtain rfl : b = c := List.inj_on_of_nodup_map ha.nodup hb hc htask
        exact congrArg _ hattempt
      · rw [← hcalls]
        exact hq.attemptsIn_eq (hlog.step hI h he hs) taskId
    · have : s'.taskCalls w₀.runId = s.taskCalls w₀.runId := by
        simp [System.taskCalls, Stores.record, hnew, hr]
      rwa [this]

theorem NewRun.followsProgram (hq : world.Quiet) (h : NewRun world k d w₀ s) {events : List Event}
    (hok : ∀ e ∈ events, e.Undisturbed k w₀.runId d.id)
    (hs : EventSystem.exec (System.step world) s events = some s') : FollowsProgram world d w₀ s' := by
  have hI : Closed world k w₀.runId d (RunInv world d w₀) := runInv_closed hq h.accepted h.instantiates
  have hinit : FollowsProgram world d w₀ s := by
    obtain ⟨_, _, _, _, _, _, _, hrec⟩ := h.created
    unfold FollowsProgram System.taskCalls
    rw [congrArg RunRecord.invocations hrec]
    exact List.nil_prefix
  have hempty : LogsTasks d w₀.runId s := h.logsTasks hq (fun _ he => absurd he List.not_mem_nil) rfl
  refine (EventSystem.exec_invariant
    (I := fun m => (OnRun k w₀.runId d (RunInv world d w₀) m ∧ LogsTasks d w₀.runId m) ∧ FollowsProgram world d w₀ m)
    (fun m e m' hm he hstep => ?_) ⟨⟨h.onRun, hempty⟩, hinit⟩ hok hs).2
  obtain ⟨⟨hon, hlog⟩, hp⟩ := hm
  exact ⟨⟨hon.step hI he hstep, hlog.step hI hon he hstep⟩, hp.step hI h.accepted h.instantiates hon hlog he hstep⟩

/-- Whatever other calls do in between, the handler calls of a new run that is left to one service are at every moment
the first calls of the sequential program, and all of them when the run has been executed and has come to rest. -/
theorem run_follows_program (hwired : world.Wired) (h : NewRun world k d w₀ s) {events : List Event}
    (hok : ∀ e ∈ events, e.Undisturbed k w₀.runId d.id)
    (hs : EventSystem.exec (System.step world) s events = some s') :
    s'.taskCalls w₀.runId <+: world.sequentialRun d w₀ d.tasks.length [] ∧
      (s'.ExecutedSince s.calls.length k w₀.runId → s'.executing w₀.runId = [] →
        s'.taskCalls w₀.runId = world.sequentialRun d w₀ d.tasks.length []) := by
  have hq := hwired.quiet
  have hp := h.followsProgram hq hok hs
  refine ⟨hp, fun hx hrest => hp.eq_of_length ?_⟩
  obtain ⟨w, hst, hfate⟩ := h.fate hq hok hs hx hrest
  have hall := hfate.accounted h.accepted h.instantiates hst
  have hsame := hall.attemptsIn_eq (h.logsTasks hq hok hs)
  exact (length_eq_of_attemptsIn hsame).symm

/-- The calls of the sample run: the second attempt at its last task is the first that succeeds. -/
theorem run_follows_program_sample : ∃ s', sampleAfter (fun t a => t = "b" && a = 1) sampleChain 19 = some s' ∧
    (s'.taskCalls "run_1").map (fun x => (x.taskId, x.attempt)) = [("a", 1), ("b", 1), ("b", 2)] := by
  obtain ⟨s', hs, hrest, hx, -⟩ := sample_at_rest (fun t a => t = "b" && a = 1) sampleChain 19
    (p := fun _ => true) (by decide +kernel)
  refine ⟨s', hs, ?_⟩
  have hd : JobService.register BUILTIN_HANDLERS sampleChain.input "t" = .ok sampleChain := by decide +kernel
  have hcalls := (run_follows_program (sampleWorld_wired _) (sample_newRun _ hd) (sampleEvents_undisturbed _ 19) hs).2
    hx hrest
  have hid : (sampleRun sampleChain).runId = "run_1" := rfl
  rw [← hid, hcalls]
  decide +kernel

end

end Jobflow
