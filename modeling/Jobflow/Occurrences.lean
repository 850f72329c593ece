import Jobflow.Disabling

/-!
# One run for every occurrence of a schedule

A tick creates a run for each schedule that it has found due, and then moves `nextRunAt` of the copy that it has read
behind the clock. Two ticks that have read the same occurrence both create a run for it, and an occurrence that
`markTriggered` cannot get past is found due again by every tick. Otherwise each value of `nextRunAt` has one run, and
`nextRunAt` is behind the clock before there is another (`one_run_per_occurrence`).
-/

namespace Jobflow

open Js (Date Time)

/-! ## What a run shows -/

/-- What a run of the cron system shows of its schedules. -/
inductive CronSeen where
  /-- A run has been created for a schedule, as the tick has read it. -/
  | created (schedule : CronSchedule)
  /-- A schedule has been written back by `markTriggered`, which has read this time. -/
  | advanced (updated : CronSchedule) (now : Date)

def CronSystem.observe (s : CronSystem) : CronEvent → Option CronSeen
  | .resumeTick i now nowIso => (s.writesBack (.resumeTick i now nowIso)).map fun updated => .advanced updated now
  | e => (s.creation e).map fun x => .created x.2

/-- `nextRunAt` of the schedule has been moved behind the clock. -/
def Advanced (seen : List CronSeen) (id : ScheduleId) : Prop :=
  ∃ updated now next, .advanced updated (some now) ∈ seen ∧ updated.id = id ∧ updated.nextRunAt = some next ∧ now < next

/-- No value of `nextRunAt` has two runs, and between two runs of a schedule `nextRunAt` is moved behind the clock. -/
def OncePerOccurrence (seen : List CronSeen) : Prop :=
  ∀ before c mid c' after, seen = before ++ .created c :: (mid ++ .created c' :: after) → c.id = c'.id →
    c.nextRunAt ≠ c'.nextRunAt ∧ Advanced mid c.id

/-! ## The condition -/

/-- The call of `createRun` has saved its run. -/
def CreatePc.hasRun : CreatePc → Bool
  | .runSaved _ | .settled (.ok _) => true
  | _ => false

/-- Tick `i` has created a run for `c` and has not written the schedule back yet. -/
def CronSystem.Unmarked (s : CronSystem) (i : Nat) (c : CronSchedule) : Prop :=
  ∃ call rest jobId trigger input pc, s.ticks[i]? = some (.creating call c rest) ∧
    s.system.calls[call]? = some (.create jobId trigger input pc) ∧ pc.hasRun = true

/-- The schedules for which a tick has created a run that it has not written back yet. -/
def CronSystem.unmarked (s : CronSystem) : List CronSchedule :=
  s.ticks.filterMap fun pc =>
    match pc with
    | .creating call schedule _ =>
      match s.system.calls[call]? with
      | some (.create _ _ _ pc) => if pc.hasRun then some schedule else none
      | _ => none
    | _ => none

/-- A run is created for a schedule that is stored with the occurrence the tick has read, and for which no tick has
created a run that it has not written back; and where a tick writes a schedule back, there is a match ahead. -/
structure CronSystem.KeepsOccurrences (s : CronSystem) (e : CronEvent) : Prop where
  current : ∀ x ∈ s.creation e, ∀ stored ∈ s.schedules.get x.2.id,
    stored.enabled = true ∧ stored.nextRunAt = x.2.nextRunAt
  alone : ∀ x ∈ s.creation e, ∀ c ∈ s.unmarked, c.id ≠ x.2.id
  ahead : ∀ x ∈ s.marks e, (∃ next, nextCronRun x.1.cronExpression x.2.1 = .ok (some next)) ∧ x.2.2.isSome = true

instance (s : CronSystem) (e : CronEvent) : Decidable (s.KeepsOccurrences e) :=
  decidable_of_iff ((∀ x ∈ s.creation e, ∀ stored ∈ s.schedules.get x.2.id,
      stored.enabled = true ∧ stored.nextRunAt = x.2.nextRunAt) ∧
      (∀ x ∈ s.creation e, ∀ c ∈ s.unmarked, c.id ≠ x.2.id) ∧
      ∀ x ∈ s.marks e, (ScheduleService.markTriggered x.1 x.2.1 x.2.2).toBool = true) (by
    simp only [ScheduleService.markTriggered_isOk_iff]
    exact ⟨fun h => ⟨h.1, h.2.1, h.2.2⟩, fun h => ⟨h.current, h.alone, h.ahead⟩⟩)

/-! ## The clock -/

/-- What the event reads from the clock. -/
def CronEvent.readings : CronEvent → List Date
  | .create _ _ probed created issued => [probed, created, issued]
  | .resumeTick _ now nowIso => [now, nowIso]
  | _ => []

/-- The clock does not go back. -/
def NonDecreasing (events : List CronEvent) : Prop :=
  (events.flatMap CronEvent.readings).Pairwise fun a b => a.le b = true

instance (events : List CronEvent) : Decidable (NonDecreasing events) :=
  inferInstanceAs (Decidable (List.Pairwise _ _))

/-- The occurrence has come: the clock has been read at its time, or later. -/
def Due (past : List CronEvent) (c : CronSchedule) : Prop :=
  ∃ t r, c.nextRunAt = some t ∧ some r ∈ past.flatMap CronEvent.readings ∧ t ≤ r

/-- The occurrence of `c` is before that of `u`. -/
def CronSchedule.Before (c u : CronSchedule) : Prop :=
  ∃ t next, c.nextRunAt = some t ∧ u.nextRunAt = some next ∧ t < next

section
variable {world : World} {service : Nat} {s s' : CronSystem} {e : CronEvent} {i : Nat} {c updated : CronSchedule}
  {past : List CronEvent}

theorem Due.append (h : Due past c) : Due (past ++ [e]) c := by
  obtain ⟨t, r, ht, hr, hle⟩ := h
  refine ⟨t, r, ht, ?_, hle⟩
  rw [List.flatMap_append]
  exact List.mem_append_left _ hr

/-- What `markTriggered` writes is behind every occurrence that has come. -/
theorem Due.before (h : Due past c) (hclock : NonDecreasing (past ++ [e])) (hw : s.writesBack e = some updated) :
    c.Before updated := by
  obtain ⟨t, r, ht, hr, hle⟩ := h
  obtain ⟨⟨schedule, now, nowIso⟩, hx, hm⟩ := CronSystem.writesBack_eq_some hw
  obtain ⟨i, _, _, _, _, _, _, rfl, _⟩ := CronSystem.marks_eq_some hx
  obtain ⟨n, last, next, rfl, hlt, rfl⟩ := ScheduleService.markTriggered_ok hm
  refine ⟨t, next, ht, rfl, ?_⟩
  rw [NonDecreasing, List.flatMap_append, List.pairwise_append] at hclock
  have hrn : Date.le (some r) (some n) = true := hclock.2.2 _ hr _ (by simp [CronEvent.readings])
  have hrn' : r ≤ n := of_decide_eq_true hrn
  rw [Time.le_def] at hle hrn'
  rw [Time.lt_def] at hlt ⊢
  omega

/-! ## Runs that have not been written back -/

theorem CronSystem.mem_unmarked : c ∈ s.unmarked ↔ ∃ i, s.Unmarked i c := by
  unfold CronSystem.unmarked
  rw [List.mem_filterMap]
  constructor
  · rintro ⟨pc, hmem, h⟩
    obtain ⟨i, hi⟩ := List.getElem?_of_mem hmem
    split at h
    · split at h
      · rename_i hcall
        split at h
        · rename_i hrun
          cases h
          exact ⟨i, _, _, _, _, _, _, hi, hcall, hrun⟩
        · cases h
      · cases h
    · cases h
  · rintro ⟨i, call, rest, jobId, trigger, input, pc, hi, hcall, hrun⟩
    exact ⟨_, List.mem_of_getElem? hi, by simp [hcall, hrun]⟩

/-- A tick has created a run after a step: it had done so before, or the step has created it. -/
theorem CronSystem.step_unmarked (hs : s.Coherent) (h : s.step world service e = some s') (hu : s'.Unmarked i c) :
    s.Unmarked i c ∨ s.creation e = some (i, c) := by
  obtain ⟨call, rest, jobId, trigger, input, pc, hi, hcall, hrun⟩ := hu
  rcases CronSystem.step_creating h hi with hi | ⟨_, _, hnew⟩
  · obtain ⟨pc₀, hcall₀⟩ := hs.awaited i call c rest hi
    obtain ⟨pc', hcall', hpc⟩ := CronSystem.step_create h hcall₀
    cases hcall.symm.trans hcall'
    rcases hpc with rfl | ⟨reply, _, rfl, hstep⟩
    · exact .inl ⟨call, rest, _, _, _, _, hi, hcall₀, hrun⟩
    · cases hstep with
      | missing | workflowSaved => cases hrun
      | runSaved =>
        refine .inr ?_
        simp only [CronSystem.creation, hcall₀]
        exact hs.awaiting_eq_some.2 ⟨rest, hi⟩
      | returned => exact .inl ⟨call, rest, _, _, _, _, hi, hcall₀, rfl⟩
  · cases hcall.symm.trans hnew
    cases hrun

/-- A run that has been created stays to be written back until its tick goes on. -/
theorem CronSystem.Unmarked.step (h : s.step world service e = some s') (hu : s.Unmarked i c) :
    s'.Unmarked i c ∨ ∃ now nowIso, e = .resumeTick i now nowIso ∧ s.marks e = some (c, now, nowIso) := by
  obtain ⟨call, rest, jobId, trigger, input, pc, hi, hcall, hrun⟩ := hu
  by_cases he : ∃ now nowIso, e = .resumeTick i now nowIso
  · obtain ⟨now, nowIso, rfl⟩ := he
    refine .inr ⟨now, nowIso, rfl, ?_⟩
    cases pc with
    | definitionRead | workflowSaved => cases hrun
    | runSaved run => simp [CronSystem.step, hi, CronSystem.resumeTick, hcall] at h
    | settled result =>
      cases result with
      | error e => cases hrun
      | ok run => exact CronSystem.marks_creating hi hcall
  · have hi' := CronSystem.step_tick_of h hi fun now nowIso hx => he ⟨now, nowIso, hx⟩
    obtain ⟨pc', hcall', hpc⟩ := CronSystem.step_create h hcall
    refine .inl ⟨call, rest, jobId, trigger, input, pc', hi', hcall', ?_⟩
    rcases hpc with rfl | ⟨_, _, _, hstep⟩
    · exact hrun
    · cases hstep with
      | missing | workflowSaved | runSaved => cases hrun
      | returned => rfl

end

/-! ## The invariant -/

/-- The schedules that a tick has found due and not done with. -/
def TickPc.found : TickPc → List CronSchedule
  | .listed _ => []
  | pc => pc.held

/-- The stored schedule is disabled, or its occurrence is after that of `c`. -/
def CronSystem.Passed (s : CronSystem) (c : CronSchedule) : Prop :=
  ∀ stored, s.schedules.get c.id = some stored → stored.enabled = true → c.Before stored

/-- The last element of a list is the one that the list is split at, or it is behind it. -/
theorem split_snoc {α : Type} {l before after : List α} {x a : α} (h : l ++ [x] = before ++ a :: after) :
    (after = [] ∧ l = before ∧ x = a) ∨ ∃ after', after = after' ++ [x] ∧ l = before ++ a :: after' := by
  rcases List.eq_nil_or_concat after with rfl | ⟨after', y, rfl⟩
  · obtain ⟨hl, hx⟩ := List.append_inj' h rfl
    exact .inl ⟨rfl, hl, List.head_eq_of_cons_eq hx⟩
  · have hsplit : l ++ [x] = (before ++ a :: after') ++ [y] := by simpa using h
    obtain ⟨hl, hx⟩ := List.append_inj' hsplit rfl
    exact .inr ⟨after', by rw [List.concat_eq_append, List.head_eq_of_cons_eq hx], hl⟩

/-- What holds of the events taken so far, of what they have shown, and of the state they lead to. -/
structure Occurrences (past : List CronEvent) (seen : List CronSeen) (s : CronSystem) : Prop where
  coherent : s.Coherent
  once : OncePerOccurrence seen
  known : ∀ c, .created c ∈ seen → (s.schedules.get c.id).isSome = true
  due : ∀ c, .created c ∈ seen → Due past c
  found : ∀ (i : Nat) pc, s.ticks[i]? = some pc → ∀ c ∈ pc.found, Due past c
  /-- No two ticks have created a run for the same schedule and not written it back. -/
  alone : ∀ i j c c', s.Unmarked i c → s.Unmarked j c' → c.id = c'.id → i = j
  /-- A run that has been created is still to be written back, or `nextRunAt` has been moved on. -/
  passed : ∀ before c mid, seen = before ++ .created c :: mid →
    (∃ i, s.Unmarked i c) ∨ Advanced mid c.id ∧ s.Passed c

section
variable {world : World} {service : Nat} {s s' : CronSystem} {e : CronEvent} {i : Nat} {c updated : CronSchedule}
  {past : List CronEvent} {seen : List CronSeen}

/-- An occurrence that has passed stays so, whatever is written. -/
theorem CronSystem.Passed.step (h : s.step world service e = some s') (hp : s.Passed c)
    (hknown : (s.schedules.get c.id).isSome = true)
    (hmark : ∀ updated, s.writesBack e = some updated → c.Before updated) : s'.Passed c := by
  intro stored hstored henabled
  have hw := CronSystem.step_schedules h
  generalize s'.schedules = store at hw hstored
  cases hw with
  | none => exact hp stored hstored henabled
  | @created _ _ _ _ _ schedule hfresh =>
    rw [ScheduleStore.get_save, if_neg] at hstored
    · exact hp stored hstored henabled
    · intro hid
      rw [← hid, hfresh] at hknown
      cases hknown
  | disabled =>
    rw [ScheduleStore.get_save] at hstored
    split at hstored
    · cases hstored
      cases henabled
    · exact hp stored hstored henabled
  | triggered hi hcall hm =>
    rw [ScheduleStore.get_save] at hstored
    split at hstored
    · cases hstored
      exact hmark _ (CronSystem.writesBack_triggered hi hcall hm)
    · exact hp stored hstored henabled

theorem Advanced.append (h : Advanced seen c.id) (more : List CronSeen) : Advanced (seen ++ more) c.id := by
  obtain ⟨updated, now, next, hmem, hrest⟩ := h
  exact ⟨updated, now, next, List.mem_append_left _ hmem, hrest⟩

/-- A schedule that a tick has found due was due when the clock was read. -/
theorem Occurrences.step_found (hs : Occurrences past seen s) (h : s.step world service e = some s') {pc' : TickPc}
    (hi : s'.ticks[i]? = some pc') (hc : c ∈ pc'.found) : Due (past ++ [e]) c := by
  rcases CronSystem.step_tick h hi with hold | ⟨_, rfl⟩ | ⟨pc, now, nowIso, rfl, hold, hmove⟩
  · exact (hs.found i pc' hold c hc).append
  · cases hc
  · cases hmove with
    | filtered =>
      obtain ⟨hmem, hdue⟩ := List.mem_filter.1 hc
      obtain ⟨t, ht⟩ := Option.isSome_iff_exists.1 (hs.coherent.held i _ hold c hmem).2.next
      rw [ScheduleService.isDue, ht] at hdue
      cases now with
      | none => cases hdue
      | some r => exact ⟨t, r, ht, by simp [CronEvent.readings], of_decide_eq_true hdue⟩
    | called hpc =>
      refine (hs.found i pc hold c ?_).append
      rcases hpc with rfl | ⟨run, rfl⟩ <;> exact hc
    | marked => exact (hs.found i _ hold c (List.mem_cons_of_mem _ hc)).append
    | settled => cases hc

/-- The run that a step shows is one that it creates. -/
theorem CronSystem.observe_created (h : s.observe e = some (.created c)) : ∃ i, s.creation e = some (i, c) := by
  unfold CronSystem.observe at h
  split at h
  · obtain ⟨_, _, hx⟩ := Option.map_eq_some_iff.1 h
    cases hx
  · obtain ⟨⟨i, c'⟩, hx, hc⟩ := Option.map_eq_some_iff.1 h
    cases hc
    exact ⟨i, hx⟩

/-- The tick has yet to write the schedule back. -/
theorem CronSystem.creation_unmarked (h : s.step world service e = some s') (hcreation : s.creation e = some (i, c)) :
    s'.Unmarked i c := by
  obtain ⟨call, reply, jobId, trigger, input, run, rest, rfl, hcall, hi⟩ := CronSystem.creation_eq_some hcreation
  have hi' := CronSystem.step_tick_of h hi fun now nowIso hx => by cases hx
  refine ⟨call, rest, jobId, trigger, input, .runSaved run, hi', ?_, rfl⟩
  simp only [CronSystem.step, CronSystem.stepInner, System.step, System.resume, hcall, WorkflowService.resume] at h
  cases h
  exact List.getElem?_set_self (List.getElem?_eq_some_iff.1 hcall).1

/-- What had been created before the step is still to be written back after it, or has been passed. -/
theorem Occurrences.step_passed (hs : Occurrences past seen s) (hclock : NonDecreasing (past ++ [e]))
    (h : s.step world service e = some s') (hsafe : s.KeepsOccurrences e) {before mid : List CronSeen}
    (hseen : seen = before ++ .created c :: mid) :
    (∃ i, s'.Unmarked i c) ∨ Advanced (mid ++ (s.observe e).toList) c.id ∧ s'.Passed c := by
  have hmem : .created c ∈ seen := by simp [hseen]
  have hbefore : ∀ updated, s.writesBack e = some updated → c.Before updated :=
    fun updated hw => (hs.due c hmem).before hclock hw
  rcases hs.passed before c mid hseen with ⟨i, hu⟩ | ⟨hadv, hp⟩
  · rcases hu.step h with hu' | ⟨now, nowIso, rfl, hmarks⟩
    · exact .inl ⟨i, hu'⟩
    · -- the tick that has created the run writes it back
      obtain ⟨⟨next, hnext⟩, hiso⟩ := hsafe.ahead _ hmarks
      have hok := ScheduleService.markTriggered_isOk_iff.2 ⟨⟨next, hnext⟩, hiso⟩
      cases hm : ScheduleService.markTriggered c now nowIso with
      | error e =>
        rw [hm] at hok
        cases hok
      | ok updated =>
        have hw : s.writesBack (.resumeTick i now nowIso) = some updated := by
          simp [CronSystem.writesBack, hmarks, hm, Except.toOption]
        obtain ⟨hstore, _⟩ := CronSystem.step_writesBack hs.coherent h hw
        obtain ⟨t, last, next, rfl, hlt, hupdated⟩ := ScheduleService.markTriggered_ok hm
        have hid : updated.id = c.id := by rw [hupdated]
        refine .inr ⟨⟨updated, t, next, ?_, hid, by rw [hupdated], hlt⟩, fun stored hstored _ => ?_⟩
        · simp [CronSystem.observe, hw]
        · rw [hstore, ScheduleStore.get_save, if_pos hid] at hstored
          cases hstored
          exact hbefore _ hw
  · exact .inr ⟨hadv.append _, hp.step h (hs.known c hmem) hbefore⟩

/-- A run that is created is the first one for its occurrence. -/
theorem Occurrences.created_once (hs : Occurrences past seen s) (hsafe : s.KeepsOccurrences e)
    (hcreation : s.creation e = some (i, c)) {before mid : List CronSeen} {c₀ : CronSchedule}
    (hseen : seen = before ++ .created c₀ :: mid) (hid : c₀.id = c.id) :
    c₀.nextRunAt ≠ c.nextRunAt ∧ Advanced mid c₀.id := by
  rcases hs.passed before c₀ mid hseen with ⟨j, hu⟩ | ⟨hadv, hp⟩
  · exact absurd hid (hsafe.alone _ hcreation c₀ (CronSystem.mem_unmarked.2 ⟨j, hu⟩))
  · refine ⟨fun heq => ?_, hadv⟩
    obtain ⟨stored, hstored⟩ := Option.isSome_iff_exists.1 (hs.known c₀ (by simp [hseen]))
    obtain ⟨henabled, hnext⟩ := hsafe.current _ hcreation stored (hid ▸ hstored)
    obtain ⟨t, next, ht, hn, hlt⟩ := hp stored hstored henabled
    rw [hn, ← heq, ht] at hnext
    cases hnext
    exact absurd hlt (by simp [Time.lt_def])

theorem Occurrences.step (hs : Occurrences past seen s) (hclock : NonDecreasing (past ++ [e]))
    (h : s.step world service e = some s') (hsafe : s.KeepsOccurrences e) :
    Occurrences (past ++ [e]) (seen ++ (s.observe e).toList) s' := by
  have hnew : ∀ c, .created c ∈ (s.observe e).toList → ∃ i, s.creation e = some (i, c) :=
    fun c hmem => CronSystem.observe_created (by simpa using hmem)
  -- the schedule for which the step creates a run is one that a tick has found due
  have hcreated : ∀ i c, s.creation e = some (i, c) → ∃ pc, s.ticks[i]? = some pc ∧ c ∈ pc.found ∧ c ∈ pc.held := by
    intro i c hcreation
    obtain ⟨call, _, _, _, _, _, rest, _, _, hi⟩ := CronSystem.creation_eq_some hcreation
    exact ⟨_, hi, List.mem_cons_self, List.mem_cons_self⟩
  constructor
  · exact hs.coherent.step h
  · intro before c mid c' after hseen hid
    cases hobs : s.observe e with
    | none =>
      rw [hobs, Option.toList_none, List.append_nil] at hseen
      exact hs.once before c mid c' after hseen hid
    | some x =>
      rw [hobs, Option.toList_some] at hseen
      have hsplit : seen ++ [x] = (before ++ .created c :: mid) ++ .created c' :: after := by simpa using hseen
      rcases split_snoc hsplit with ⟨_, hold, rfl⟩ | ⟨after', _, hold⟩
      · obtain ⟨i, hcreation⟩ := CronSystem.observe_created hobs
        exact hs.created_once hsafe hcreation hold hid
      · exact hs.once before c mid c' after' (by simpa using hold) hid
  · intro c hmem
    have hisSome : (s.schedules.get c.id).isSome = true := by
      rcases List.mem_append.1 hmem with hmem | hmem
      · exact hs.known c hmem
      · obtain ⟨i, hcreation⟩ := hnew c hmem
        obtain ⟨pc, hi, _, hheld⟩ := hcreated i c hcreation
        exact (hs.coherent.held i pc hi c hheld).2.known
    exact (CronSystem.step_schedules h).isSome hisSome
  · intro c hmem
    rcases List.mem_append.1 hmem with hmem | hmem
    · exact (hs.due c hmem).append
    · obtain ⟨i, hcreation⟩ := hnew c hmem
      obtain ⟨pc, hi, hfound, _⟩ := hcreated i c hcreation
      exact (hs.found i pc hi c hfound).append
  · exact fun i pc hi c hc => hs.step_found h hi hc
  · intro i j c c' hi hj hid
    rcases CronSystem.step_unmarked hs.coherent h hi with hi | hi <;>
      rcases CronSystem.step_unmarked hs.coherent h hj with hj | hj
    · exact hs.alone i j c c' hi hj hid
    · exact absurd hid (hsafe.alone _ hj c (CronSystem.mem_unmarked.2 ⟨i, hi⟩))
    · exact absurd hid.symm (hsafe.alone _ hi c' (CronSystem.mem_unmarked.2 ⟨j, hj⟩))
    · cases hi.symm.trans hj
      rfl
  · intro before c mid hseen
    cases hobs : s.observe e with
    | none =>
      rw [hobs, Option.toList_none, List.append_nil] at hseen
      have hpassed := hs.step_passed hclock h hsafe hseen
      rwa [hobs, Option.toList_none, List.append_nil] at hpassed
    | some x =>
      rw [hobs, Option.toList_some] at hseen
      rcases split_snoc hseen with ⟨_, _, rfl⟩ | ⟨mid', rfl, hold⟩
      · obtain ⟨i, hcreation⟩ := CronSystem.observe_created hobs
        exact .inl ⟨i, CronSystem.creation_unmarked h hcreation⟩
      · have hpassed := hs.step_passed hclock h hsafe hold
        rwa [hobs, Option.toList_some] at hpassed

theorem NonDecreasing.of_append {more : List CronEvent} (h : NonDecreasing (past ++ more)) : NonDecreasing past := by
  rw [NonDecreasing, List.flatMap_append] at h
  exact (List.pairwise_append.1 h).1

theorem Occurrences.empty : Occurrences [] [] CronSystem.empty := by
  constructor
  · exact CronSystem.empty_coherent
  · intro before c mid c' after hseen
    simp at hseen
  · intro c hmem
    cases hmem
  · intro c hmem
    cases hmem
  · intro i pc hi
    cases hi
  · rintro i j c c' ⟨_, _, _, _, _, _, hi, _⟩
    cases hi
  · intro before c mid hseen
    simp at hseen

/-- On a clock that does not go back, as long as every run is created for the stored occurrence, while no other run of
the schedule is still to be written back, and `markTriggered` finds a match ahead: no value of `nextRunAt` has two runs,
and `nextRunAt` is moved behind the clock before there is another run. -/
theorem one_run_per_occurrence {events : List CronEvent}
    (hs : EventSystem.exec (CronSystem.step world service) .empty events = some s) (hclock : NonDecreasing events)
    (hsafe : EventSystem.Along (CronSystem.step world service) (fun s e _ => s.KeepsOccurrences e) .empty events) :
    OncePerOccurrence (EventSystem.trace (CronSystem.step world service) CronSystem.observe .empty events) := by
  have hhistory : NonDecreasing events → Occurrences events
      (EventSystem.trace (CronSystem.step world service) CronSystem.observe .empty events) s := by
    refine EventSystem.exec_history (I := fun past s => NonDecreasing past → Occurrences past
      (EventSystem.trace (CronSystem.step world service) CronSystem.observe .empty past) s) (fun _ => .empty) ?_ events
      hs hsafe
    intro past e s s' hpast hI hstep hC hclock
    rw [EventSystem.trace_snoc hstep hpast]
    exact (hI hclock.of_append).step hclock hstep hC
  exact (hhistory hclock).once

end

/-- Two ticks, one after the other. -/
def sampleTicksApart : List CronEvent :=
  sampleScheduled ++ .tick :: List.replicate 2 (sampleTicking 0 1) ++ sampleCreating 0 "1" ++
    List.replicate 2 (sampleTicking 0 1) ++ .tick :: List.replicate 2 (sampleTicking 1 2) ++ sampleCreating 2 "2" ++
    List.replicate 2 (sampleTicking 1 2)

/-- What these events show. -/
def sampleSeen (events : List CronEvent) : List CronSeen :=
  EventSystem.trace (CronSystem.step (sampleWorld fun _ _ => false) 0) CronSystem.observe .empty events

theorem one_run_per_occurrence_sample : ∃ s, sampleCron .empty sampleTicksApart = some s ∧
    OncePerOccurrence (sampleSeen sampleTicksApart) := by
  have hrun : (sampleCron .empty sampleTicksApart).isSome = true := by decide +kernel
  obtain ⟨s, hs⟩ := Option.isSome_iff_exists.1 hrun
  exact ⟨s, hs, one_run_per_occurrence hs (by decide +kernel) (by decide +kernel)⟩

/-- Two ticks that both list the schedule before either has called `createRun`. -/
def sampleTicksOverlapping : List CronEvent :=
  sampleScheduled ++ .tick :: .tick :: List.replicate 2 (sampleTicking 0 1) ++ List.replicate 2 (sampleTicking 1 1) ++
    sampleCreating 0 "1" ++ sampleCreating 1 "2" ++ [sampleTicking 0 1, sampleTicking 1 1]

/-- What is shown first is two runs for the same occurrence. -/
def CronSeen.twice : List CronSeen → Bool
  | .created c :: .created c' :: _ => c.id = c'.id ∧ c.nextRunAt = c'.nextRunAt
  | _ => false

theorem CronSeen.not_once_of_twice {seen : List CronSeen} (h : CronSeen.twice seen = true) :
    ¬ OncePerOccurrence seen := by
  unfold CronSeen.twice at h
  split at h
  · obtain ⟨hid, hnext⟩ := of_decide_eq_true h
    intro honce
    exact (honce [] _ [] _ _ rfl hid).1 hnext
  · cases h

/-- Both ticks create a run for the same occurrence. -/
theorem occurrence_run_twice : ∃ s, sampleCron .empty sampleTicksOverlapping = some s ∧
    NonDecreasing sampleTicksOverlapping ∧ s.system.stores.runs.entries.map (·.2.trigger) = ["cron", "cron"] ∧
    ¬ OncePerOccurrence (sampleSeen sampleTicksOverlapping) := by
  have hrun : (sampleCron .empty sampleTicksOverlapping).any (fun s =>
      s.system.stores.runs.entries.map (·.2.trigger) = ["cron", "cron"]) = true := by decide +kernel
  obtain ⟨s, hs, hruns⟩ := (Option.any_eq_true _ _).1 hrun
  exact ⟨s, hs, by decide +kernel, of_decide_eq_true hruns, CronSeen.not_once_of_twice (by decide +kernel)⟩

end Jobflow
