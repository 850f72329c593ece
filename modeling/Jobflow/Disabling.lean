import Jobflow.CronSteps
import Jobflow.NewRun

/-!
# Disabling a schedule

`disable` and `markTriggered` both write a whole record back that was read some awaits earlier. A tick that has read a
schedule before it was disabled writes it back enabled, and the schedule goes on. As long as no tick writes back a
schedule that has been disabled in the meantime, a disabled schedule stays disabled (`disable_not_lost`).
-/

namespace Jobflow

open Js (Date Time)

/-- The stored schedule is disabled. -/
def CronSystem.Disabled (s : CronSystem) (id : ScheduleId) : Prop :=
  ∃ c, s.schedules.get id = some c ∧ c.enabled = false

instance (s : CronSystem) (id : ScheduleId) : Decidable (s.Disabled id) :=
  decidable_of_iff ((s.schedules.get id).any (fun c => c.enabled = false) = true)
    (by simp [CronSystem.Disabled, Option.any_eq_true])

/-- What a tick writes back stands for a schedule that is still enabled. -/
def CronSystem.WritesBackEnabled (s : CronSystem) (e : CronEvent) : Prop :=
  ∀ updated ∈ s.writesBack e, ∀ stored ∈ s.schedules.get updated.id, stored.enabled = true

instance (s : CronSystem) (e : CronEvent) : Decidable (s.WritesBackEnabled e) :=
  inferInstanceAs (Decidable (∀ updated ∈ s.writesBack e, _))

/-! ## A disabled schedule stays disabled -/

section
variable {world : World} {service : Nat} {s s' s₁ s₂ : CronSystem} {e : CronEvent} {id : ScheduleId}

/-- A step keeps a schedule disabled unless it makes a tick write it back. -/
theorem CronWrite.disabled_or {store : ScheduleStore} (h : CronWrite s e store)
    {c : CronSchedule} (hc : s.schedules.get id = some c) (hd : c.enabled = false) :
    (∃ c', store.get id = some c' ∧ c'.enabled = false) ∨
      ∃ updated, s.writesBack e = some updated ∧ updated.id = id := by
  cases h with
  | none => exact .inl ⟨c, hc, hd⟩
  | @created _ _ _ _ _ schedule hfresh =>
    refine .inl ⟨c, ?_, hd⟩
    rw [ScheduleStore.get_save, if_neg, hc]
    rintro rfl
    rw [hfresh] at hc
    cases hc
  | @disabled _ _ found =>
    by_cases hid : found.id = id
    · refine .inl ⟨{ found with enabled := false }, ?_, rfl⟩
      rw [ScheduleStore.get_save, if_pos hid]
    · refine .inl ⟨c, ?_, hd⟩
      rw [ScheduleStore.get_save, if_neg hid, hc]
  | @triggered _ _ _ _ _ updated _ _ _ _ _ hi hcall hm =>
    by_cases hid : updated.id = id
    · exact .inr ⟨updated, CronSystem.writesBack_triggered hi hcall hm, hid⟩
    · refine .inl ⟨c, ?_, hd⟩
      rw [ScheduleStore.get_save, if_neg hid, hc]

/-- A step keeps all disabled schedules disabled exactly when it writes back enabled ones only. -/
theorem CronSystem.step_disabled_iff (hs : s.Coherent) (h : s.step world service e = some s') :
    (∀ id, s.Disabled id → s'.Disabled id) ↔ s.WritesBackEnabled e := by
  constructor
  · intro hkeep updated hw stored hstored
    by_contra hd
    obtain ⟨c, hc, hdis⟩ := hkeep updated.id ⟨stored, hstored, by simpa using hd⟩
    obtain ⟨hstore, henabled⟩ := CronSystem.step_writesBack hs h hw
    rw [hstore, ScheduleStore.get_save, if_pos rfl] at hc
    cases hc
    rw [henabled] at hdis
    cases hdis
  · rintro hwrites id ⟨c, hc, hd⟩
    rcases (CronSystem.step_schedules h).disabled_or hc hd with hdis | ⟨updated, hw, rfl⟩
    · exact hdis
    · rw [hwrites updated hw c hc] at hd
      cases hd

/-- Along a run, disabled schedules stay disabled exactly as long as no tick writes back one that is disabled. -/
theorem disabled_stays_iff {events : List CronEvent} :
    EventSystem.Along (CronSystem.step world service) (fun s _ s' => ∀ id, s.Disabled id → s'.Disabled id) .empty
        events ↔
      EventSystem.Along (CronSystem.step world service) (fun s e _ => s.WritesBackEnabled e) .empty events := by
  refine EventSystem.along_iff (I := CronSystem.Coherent) (fun s e s' hs (_ : True) h => ?_)
    CronSystem.empty_coherent (fun _ _ => trivial)
  exact ⟨CronSystem.step_disabled_iff hs h, fun _ => hs.step h⟩

/-- `disable` has written its record. -/
def DisablePc.written : DisablePc → Bool
  | .saved | .settled (.ok ()) => true
  | _ => false

/-- Where `disable` has written its record the stored schedule is disabled. -/
structure CronSystem.Disables (s : CronSystem) : Prop where
  coherent : s.Coherent
  disabled : ∀ id pc, (id, pc) ∈ s.disables → pc.written = true → s.Disabled id

theorem CronSystem.Disables.step (hs : s.Disables) (h : s.step world service e = some s')
    (hsafe : s.WritesBackEnabled e) : s'.Disables := by
  have hkeep := (CronSystem.step_disabled_iff hs.coherent h).2 hsafe
  refine ⟨hs.coherent.step h, fun id pc hmem hwritten => ?_⟩
  have hold : (id, pc) ∈ s.disables → s'.Disabled id := fun hmem => hkeep id (hs.disabled id pc hmem hwritten)
  cases CronSystem.step_cases h with
  | disableCalled =>
    rcases List.mem_append.1 hmem with hmem | hmem
    · exact hold hmem
    · rw [(Prod.mk.inj (List.mem_singleton.1 hmem)).2] at hwritten
      cases hwritten
  | disableMissed hi =>
    rcases List.mem_or_eq_of_mem_set hmem with hmem | he
    · exact hold hmem
    · rw [(Prod.mk.inj he).2] at hwritten
      cases hwritten
  | @disableSaved _ _ found hi =>
    rcases List.mem_or_eq_of_mem_set hmem with hmem | he
    · exact hold hmem
    · obtain ⟨rfl, rfl⟩ := Prod.mk.inj he
      have hid := (hs.coherent.read _ _ (List.mem_of_getElem? hi)).1
      refine ⟨{ found with enabled := false }, ?_, rfl⟩
      exact (ScheduleStore.get_save _ _ _).trans (if_pos hid)
  | disableReturned hi =>
    rcases List.mem_or_eq_of_mem_set hmem with hmem | he
    · exact hold hmem
    · obtain ⟨rfl, rfl⟩ := Prod.mk.inj he
      exact hkeep _ (hs.disabled _ _ (List.mem_of_getElem? hi) rfl)
  | entered _ hl | executed _ hl =>
    rw [hl.disables] at hmem
    exact hold hmem
  | _ => exact hold hmem

/-- The schedule is disabled, and no tick from number `n` on has read it. -/
structure CronSystem.Unread (id : ScheduleId) (n : Nat) (s : CronSystem) : Prop where
  coherent : s.Coherent
  disabled : s.Disabled id
  unread : ∀ (j : Nat) pc, n ≤ j → s.ticks[j]? = some pc → ∀ c ∈ pc.held, c.id ≠ id

theorem CronSystem.Unread.step {n : Nat} (hs : s.Unread id n) (h : s.step world service e = some s')
    (hsafe : s.WritesBackEnabled e) : s'.Unread id n := by
  refine ⟨hs.coherent.step h, (CronSystem.step_disabled_iff hs.coherent h).2 hsafe id hs.disabled,
    fun j pc hn hj c hc => ?_⟩
  rcases CronSystem.step_held h hj hc with ⟨pc', hj', hc'⟩ | ⟨_, hc'⟩
  · exact hs.unread j pc' hn hj' c hc'
  · -- a tick that is started reads enabled schedules only
    rintro rfl
    obtain ⟨henabled, id', hget⟩ := ScheduleStore.mem_listEnabled hc'
    obtain ⟨rfl, _⟩ := hs.coherent.stored id' c hget
    obtain ⟨c', hc', hdis⟩ := hs.disabled
    rw [hget] at hc'
    cases hc'
    rw [henabled] at hdis
    cases hdis

/-- As long as ticks write back enabled schedules only: once a call of `disable` has resolved, the schedule stays
disabled, and no tick that is started afterwards creates a run for it. -/
theorem disable_not_lost {before after : List CronEvent} {call : Nat}
    (hbefore : EventSystem.exec (CronSystem.step world service) .empty before = some s₁)
    (hafter : EventSystem.exec (CronSystem.step world service) s₁ after = some s₂)
    (hsafe : EventSystem.Along (CronSystem.step world service) (fun s e _ => s.WritesBackEnabled e) .empty
      (before ++ after))
    (hd : s₁.disables[call]? = some (id, .settled (.ok ()))) :
    s₂.Disabled id ∧ ∀ e i c, s₂.creation e = some (i, c) → s₁.ticks.length ≤ i → c.id ≠ id := by
  obtain ⟨hsafe₁, hsafe₂⟩ := EventSystem.along_append.1 hsafe
  have hdisables : s₁.Disables := by
    refine EventSystem.Along.invariant (I := CronSystem.Disables)
      (fun _ _ _ hs (_ : True) h hc => hs.step h hc) ⟨CronSystem.empty_coherent, fun _ _ hmem => ?_⟩
      (fun _ _ => trivial) hsafe₁ hbefore
    cases hmem
  have hunread : s₂.Unread id s₁.ticks.length := by
    refine EventSystem.Along.invariant (I := CronSystem.Unread id s₁.ticks.length)
      (fun _ _ _ hs (_ : True) h hc => hs.step h hc) ⟨hdisables.coherent, ?_, fun j pc hn hj => ?_⟩ (fun _ _ => trivial)
      (hsafe₂ s₁ hbefore) hafter
    · exact hdisables.disabled id _ (List.mem_of_getElem? hd) rfl
    · rw [List.getElem?_eq_none hn] at hj
      cases hj
  refine ⟨hunread.disabled, fun e i c hcreation hn => ?_⟩
  obtain ⟨call, _, _, _, _, _, rest, _, _, hi⟩ := CronSystem.creation_eq_some hcreation
  exact hunread.unread i _ hn hi c List.mem_cons_self

end

/-- The schedule is due every minute. -/
def sampleSchedule : CronScheduleInput where
  tenantId := "tenant"
  jobId := "job"
  cronExpression := "* * * * *"
  timezone := none
  defaultInput := none

def sampleMinute (n : Int) : Date := Js.timeClip (n * 60000)

/-- A job of one task, and a schedule for it. -/
def sampleScheduled : List CronEvent :=
  [.inner (.register sampleOne.input "t"),
    .create sampleSchedule "1" (sampleMinute 0) (sampleMinute 0) (sampleMinute 0)]

/-- Call number `call` of `createRun`, resumed until it has settled. -/
def sampleCreating (call : Nat) (uuid : String) : List CronEvent :=
  List.replicate 3 (.inner (.resume call ⟨"t", ⟨uuid, uuid, ["a"]⟩⟩))

/-- Tick number `i`, resumed once. -/
def sampleTicking (i : Nat) (minute : Int) : CronEvent := .resumeTick i (sampleMinute minute) (sampleMinute minute)

/-- A call of `disable` for the schedule, after `n` others. -/
def sampleDisabling (n : Nat) : List CronEvent := [.disable "sched_1", .resumeDisable n, .resumeDisable n]

/-- The cron system after these events. -/
def sampleCron (s : CronSystem) (events : List CronEvent) : Option CronSystem :=
  EventSystem.exec (CronSystem.step (sampleWorld fun _ _ => false) 0) s events

/-- A tick comes to its end before the schedule is disabled. -/
def sampleDisabledAfter : List CronEvent :=
  sampleScheduled ++ .tick :: List.replicate 2 (sampleTicking 0 1) ++ sampleCreating 0 "1" ++
    List.replicate 2 (sampleTicking 0 1) ++ sampleDisabling 0

/-- A tick has read the schedule and is waiting for `createRun` when the schedule is disabled. -/
def sampleDisabledDuring : List CronEvent :=
  sampleScheduled ++ .tick :: List.replicate 2 (sampleTicking 0 1) ++ sampleCreating 0 "1" ++ sampleDisabling 0

/-- `disable` has resolved and `p` holds, and after more events `q` does. -/
theorem sampleCron_any (before after : List CronEvent) (p q : CronSystem → Bool)
    (h : (sampleCron .empty before).any (fun s₁ => p s₁ && (sampleCron s₁ after).any q) = true) :
    ∃ s₁ s₂, sampleCron .empty before = some s₁ ∧ sampleCron s₁ after = some s₂ ∧ p s₁ = true ∧ q s₂ = true := by
  obtain ⟨s₁, hbefore, h₁⟩ := (Option.any_eq_true _ _).1 h
  obtain ⟨hp, h₂⟩ := (Bool.and_eq_true _ _).mp h₁
  obtain ⟨s₂, hafter, hq⟩ := (Option.any_eq_true _ _).1 h₂
  exact ⟨s₁, s₂, hbefore, hafter, hp, hq⟩

/-- The first call of `disable` is for `sched_1` and has resolved. -/
def CronSystem.firstDisabled (s : CronSystem) : Bool :=
  match s.disables[(0 : Nat)]? with
  | some (id, .settled (.ok ())) => id = "sched_1"
  | _ => false

theorem CronSystem.firstDisabled_iff {s : CronSystem} :
    s.firstDisabled = true ↔ s.disables[0]? = some ("sched_1", .settled (.ok ())) := by
  unfold CronSystem.firstDisabled
  constructor
  · intro h
    split at h
    · rename_i hd
      rw [hd, of_decide_eq_true h]
    · cases h
  · intro h
    rw [h]
    rfl

/-- A schedule disabled between two ticks: the next tick finds nothing to do. -/
theorem disable_not_lost_sample : ∃ s₁ s₂, sampleCron .empty sampleDisabledAfter = some s₁ ∧
    sampleCron s₁ (.tick :: List.replicate 2 (sampleTicking 1 2)) = some s₂ ∧ s₂.Disabled "sched_1" := by
  obtain ⟨s₁, s₂, hbefore, hafter, hd, _⟩ := sampleCron_any sampleDisabledAfter
    (.tick :: List.replicate 2 (sampleTicking 1 2)) CronSystem.firstDisabled (fun _ => true) (by decide +kernel)
  exact ⟨s₁, s₂, hbefore, hafter,
    (disable_not_lost hbefore hafter (by decide +kernel) (CronSystem.firstDisabled_iff.1 hd)).1⟩

/-- A schedule disabled during a tick: it is written back enabled, and the next tick creates a run for it. -/
theorem disable_lost : ∃ s₁ s₂ c, sampleCron .empty sampleDisabledDuring = some s₁ ∧
    sampleCron s₁ (sampleTicking 0 1 :: .tick :: List.replicate 2 (sampleTicking 1 2) ++
      (sampleCreating 1 "2").take 1) = some s₂ ∧
    s₁.disables[0]? = some ("sched_1", .settled (.ok ())) ∧ ¬ s₂.Disabled "sched_1" ∧ s₁.ticks.length = 1 ∧
    s₂.creation (.inner (.resume 1 ⟨"t", ⟨"2", "2", ["a"]⟩⟩)) = some (1, c) ∧ c.id = "sched_1" := by
  obtain ⟨s₁, s₂, hbefore, hafter, hp, hq⟩ := sampleCron_any sampleDisabledDuring
    (sampleTicking 0 1 :: .tick :: List.replicate 2 (sampleTicking 1 2) ++ (sampleCreating 1 "2").take 1)
    (fun s => s.firstDisabled && s.ticks.length = 1)
    (fun s => ¬ s.Disabled "sched_1" ∧
      (s.creation (.inner (.resume 1 ⟨"t", ⟨"2", "2", ["a"]⟩⟩))).any fun x => x.1 = 1 ∧ x.2.id = "sched_1")
    (by decide +kernel)
  obtain ⟨hd, hlen⟩ := (Bool.and_eq_true _ _).mp hp
  obtain ⟨henabled, hcreation⟩ := of_decide_eq_true hq
  obtain ⟨⟨i, c⟩, hx, hic⟩ := (Option.any_eq_true _ _).1 hcreation
  obtain ⟨rfl, hid⟩ := of_decide_eq_true hic
  exact ⟨s₁, s₂, c, hbefore, hafter, CronSystem.firstDisabled_iff.1 hd, henabled, of_decide_eq_true hlen, hx, hid⟩

end Jobflow
