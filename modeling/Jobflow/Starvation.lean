import Jobflow.Occurrences
import Mathlib.Data.Set.Finite.Basic

/-!
# A schedule that fails

A tick awaits `createRun` and `markTriggered` for one due schedule after the other, and nothing in its loop catches what
they throw: the first schedule whose job is not registered, or whose next run cannot be found, ends the tick, and the
schedules behind it get neither a run nor a new `nextRunAt`. So a tick serves every due schedule that does not fail, and
resolves, exactly when no due schedule fails (`tick_serves_iff`).
-/

namespace Jobflow

open Js (Record Date Time)

/-! ## One tick -/

/-- What the clock reads during a tick: when it has listed the schedules, and when it marks one of them. -/
structure TickClock where
  listed : Date
  marked : ScheduleId → Date × Date

/-- A tick that goes on from here reads this from the clock. -/
def TickPc.Reads (clock : TickClock) (now nowIso : Date) : TickPc → Prop
  | .listed _ => now = clock.listed
  | .creating _ schedule _ => (now, nowIso) = clock.marked schedule.id
  | _ => True

instance (clock : TickClock) (now nowIso : Date) : (pc : TickPc) → Decidable (pc.Reads clock now nowIso)
  | .listed _ => inferInstanceAs (Decidable (now = clock.listed))
  | .creating _ schedule _ => inferInstanceAs (Decidable ((now, nowIso) = clock.marked schedule.id))
  | .due _ | .marked _ _ | .settled _ => inferInstanceAs (Decidable True)

/-- Where the event lets tick `i` go on, it goes on at this clock. -/
def CronEvent.Reads (i : Nat) (clock : TickClock) (s : CronSystem) : CronEvent → Prop
  | .resumeTick j now nowIso => j = i → ∀ pc ∈ s.ticks[i]?, pc.Reads clock now nowIso
  | _ => True

instance (i : Nat) (clock : TickClock) (s : CronSystem) : (e : CronEvent) → Decidable (e.Reads i clock s)
  | .resumeTick j now nowIso =>
    inferInstanceAs (Decidable (j = i → ∀ pc ∈ s.ticks[i]?, pc.Reads clock now nowIso))
  | .inner _ | .create _ _ _ _ _ | .disable _ | .resumeDisable _ | .tick => inferInstanceAs (Decidable True)

/-- What the event shows of tick `i`: a run that it creates, or a schedule that it writes back. -/
def CronSystem.observeTick (i : Nat) (s : CronSystem) : CronEvent → Option CronSeen
  | .resumeTick j now nowIso => if j = i then s.observe (.resumeTick j now nowIso) else none
  | e => (s.creation e).bind fun x => if x.1 = i then some (.created x.2) else none

/-- A tick is started in `s` and runs at this clock until it has settled, whatever else happens meanwhile. -/
structure TickRun (world : World) (service : Nat) (s : CronSystem) (clock : TickClock) (events : List CronEvent)
    (s' : CronSystem) : Prop where
  run : EventSystem.exec (CronSystem.step world service) s (.tick :: events) = some s'
  clock : EventSystem.Along (CronSystem.step world service) (fun m e _ => e.Reads s.ticks.length clock m) s
    (.tick :: events)
  settled : ∃ result, s'.ticks[s.ticks.length]? = some (.settled result)

/-- What such a run shows of its tick. -/
def tickSeen (world : World) (service : Nat) (s : CronSystem) (events : List CronEvent) : List CronSeen :=
  EventSystem.trace (CronSystem.step world service) (CronSystem.observeTick s.ticks.length) s (.tick :: events)

/-! ## The schedules it finds due -/

/-- The schedules that a tick started in `s` finds due. -/
def CronSystem.dueSchedules (s : CronSystem) (clock : TickClock) : List CronSchedule :=
  (ScheduleStore.listEnabled s.schedules).filter (ScheduleService.isDue clock.listed)

/-- `createRun` or `markTriggered` fails for the schedule. -/
def CronSystem.Fails (s : CronSystem) (clock : TickClock) (c : CronSchedule) : Prop :=
  s.system.stores.jobs.get c.jobId = none ∨
    (ScheduleService.markTriggered c (clock.marked c.id).1 (clock.marked c.id).2).toBool = false

instance (s : CronSystem) (clock : TickClock) (c : CronSchedule) : Decidable (s.Fails clock c) :=
  decidable_of_iff ((s.system.stores.jobs.get c.jobId).isNone = true ∨
    (ScheduleService.markTriggered c (clock.marked c.id).1 (clock.marked c.id).2).toBool = false)
    (by simp [CronSystem.Fails])

/-- The tick has created a run for the schedule. -/
def CronSeen.isRunOf (id : ScheduleId) : CronSeen → Bool
  | .created c => c.id = id
  | .advanced _ _ => false

/-- The tick has resolved, and for every due schedule that does not fail it has created one run and has moved
`nextRunAt` behind the clock. -/
structure TickServes (s : CronSystem) (clock : TickClock) (seen : List CronSeen) (s' : CronSystem) : Prop where
  resolved : s'.ticks[s.ticks.length]? = some (.settled (.ok ()))
  served : ∀ c ∈ s.dueSchedules clock, ¬ s.Fails clock c →
    seen.countP (CronSeen.isRunOf c.id) = 1 ∧ Advanced seen c.id

/-- What a tick shows of a schedule that it has served. -/
def servedBy (clock : TickClock) (c : CronSchedule) : List CronSeen :=
  match ScheduleService.markTriggered c (clock.marked c.id).1 (clock.marked c.id).2 with
  | .ok updated => [.created c, .advanced updated (clock.marked c.id).1]
  | .error _ => [.created c]

section
variable {world : World} {service : Nat} {s s' : CronSystem} {clock : TickClock} {c : CronSchedule}

/-- The schedules of the store have different ids. -/
theorem CronSystem.Coherent.dueSchedules_nodup (hs : s.Coherent) :
    ((s.dueSchedules clock).map CronSchedule.id).Nodup := by
  have hkeys : s.schedules.values.map CronSchedule.id = s.schedules.entries.map Prod.fst := by
    rw [InsertionMap.values, List.map_map]
    refine List.map_congr_left fun entry hentry => ?_
    exact (hs.stored _ _ (InsertionMap.get_eq_some.2 hentry)).1
  have hsub : (s.dueSchedules clock).Sublist s.schedules.values :=
    List.filter_sublist.trans List.filter_sublist
  exact (hkeys ▸ s.schedules.nodup).sublist (hsub.map _)

theorem countP_servedBy (id : ScheduleId) :
    (servedBy clock c).countP (CronSeen.isRunOf id) = if c.id = id then 1 else 0 := by
  unfold servedBy
  split <;> by_cases h : c.id = id <;> simp [CronSeen.isRunOf, h]

/-- As many runs are shown as there are schedules with this id. -/
theorem countP_flatMap_servedBy (id : ScheduleId) (due : List CronSchedule) :
    (due.flatMap (servedBy clock)).countP (CronSeen.isRunOf id) = (due.map CronSchedule.id).count id := by
  induction due with
  | nil => rfl
  | cons c due ih =>
    rw [List.flatMap_cons, List.countP_append, ih, countP_servedBy, List.map_cons, List.count_cons, Nat.add_comm]
    simp

theorem advanced_servedBy {due : List CronSchedule} (hc : c ∈ due)
    (hm : (ScheduleService.markTriggered c (clock.marked c.id).1 (clock.marked c.id).2).toBool = true) :
    Advanced (due.flatMap (servedBy clock)) c.id := by
  cases ho : ScheduleService.markTriggered c (clock.marked c.id).1 (clock.marked c.id).2 with
  | error e =>
    rw [ho] at hm
    cases hm
  | ok updated =>
    obtain ⟨now, last, next, hnow, hlt, hupdated⟩ := ScheduleService.markTriggered_ok ho
    refine ⟨updated, now, next, List.mem_flatMap.2 ⟨c, hc, ?_⟩, by rw [hupdated], by rw [hupdated], hlt⟩
    rw [servedBy, ho]
    simp [hnow]

end

/-! ## What a tick has done so far -/

section
variable {world : World} {service i : Nat} {s m m' : CronSystem} {e : CronEvent} {clock : TickClock}
  {seen : List CronSeen}

/-- What an event that is not the tick's own shows of it. -/
theorem CronSystem.observeTick_of (he : ∀ now nowIso, e ≠ .resumeTick i now nowIso) :
    m.observeTick i e = (m.creation e).bind fun x => if x.1 = i then some (.created x.2) else none := by
  cases e with
  | resumeTick j now nowIso =>
    have hj : j ≠ i := by
      rintro rfl
      exact he now nowIso rfl
    simp [CronSystem.observeTick, CronSystem.creation, hj]
  | _ => rfl

/-- Nothing is shown of a tick that does not await `createRun`. -/
theorem CronSystem.observeTick_idle {pc : TickPc} (hi : m.ticks[i]? = some pc)
    (hpc : ∀ call c rest, pc ≠ .creating call c rest) : m.observeTick i e = none := by
  by_cases he : ∃ now nowIso, e = .resumeTick i now nowIso
  · obtain ⟨now, nowIso, rfl⟩ := he
    have hmarks : m.marks (.resumeTick i now nowIso) = none := by
      rw [CronSystem.marks, hi]
      cases pc with
      | creating call c rest => exact absurd rfl (hpc call c rest)
      | _ => rfl
    simp [CronSystem.observeTick, CronSystem.observe, CronSystem.writesBack, hmarks]
  · rw [CronSystem.observeTick_of fun now nowIso h => he ⟨now, nowIso, h⟩]
    cases hc : m.creation e with
    | none => rfl
    | some x =>
      obtain ⟨j, c⟩ := x
      obtain ⟨call, _, _, _, _, _, rest, _, _, hj⟩ := CronSystem.creation_eq_some hc
      have hji : j ≠ i := by
        rintro rfl
        cases hi.symm.trans hj
        exact hpc call c rest rfl
      simp [hji]

/-- `createRun` has not failed and is not about to. -/
def CreatePc.Alive : CreatePc → Prop
  | .definitionRead none | .settled (.error _) => False
  | _ => True

/-- Where a tick is that has served the schedules of `done`, and what it shows of the one that it is at. -/
inductive TickPhase (s m : CronSystem) (clock : TickClock) : List CronSchedule → TickPc → List CronSeen → Prop where
  | listed : TickPhase s m clock [] (.listed (ScheduleStore.listEnabled s.schedules)) []
  | due : TickPhase s m clock [] (.due (s.dueSchedules clock)) []
  | creating {done rest : List CronSchedule} {call : Nat} {c : CronSchedule} (pc : CreatePc)
      (hdue : s.dueSchedules clock = done ++ c :: rest)
      (hcall : m.system.calls[call]? = some (.create c.jobId "cron" c.defaultInput pc)) (hpc : pc.Alive) :
      TickPhase s m clock done (.creating call c rest) (if pc.hasRun then [.created c] else [])
  | marked {done rest : List CronSchedule} {run : JobRun} (hdue : s.dueSchedules clock = done ++ rest) :
      TickPhase s m clock done (.marked run rest) []
  | ended : TickPhase s m clock (s.dueSchedules clock) (.settled (.ok ())) []

/-- A tick started in `s` has served the schedules it is done with, and shows nothing else. -/
structure Serving (s : CronSystem) (clock : TickClock) (seen : List CronSeen) (m : CronSystem) : Prop where
  coherent : m.Coherent
  registered : ∀ c ∈ s.dueSchedules clock, (m.system.stores.jobs.get c.jobId).isSome = true
  phase : ∃ pc done part, m.ticks[s.ticks.length]? = some pc ∧ TickPhase s m clock done pc part ∧
    seen = done.flatMap (servedBy clock) ++ part

/-- A tick that goes on to the next schedule. -/
theorem LoopStep.phase {done rest : List CronSchedule} (h : LoopStep m i rest m') (hlt : i < m.ticks.length)
    (hdue : s.dueSchedules clock = done ++ rest)
    (hreg : ∀ c ∈ s.dueSchedules clock, (m.system.stores.jobs.get c.jobId).isSome = true) :
    ∃ pc, m'.ticks[i]? = some pc ∧ TickPhase s m' clock done pc [] := by
  cases h with
  | ended =>
    refine ⟨_, List.getElem?_set_self hlt, ?_⟩
    rw [List.append_nil] at hdue
    exact hdue ▸ .ended
  | @called c rest =>
    obtain ⟨definition, hd⟩ := Option.isSome_iff_exists.1 (hreg c (by simp [hdue]))
    refine ⟨_, List.getElem?_set_self hlt, .creating (.definitionRead (m.system.stores.jobs.get c.jobId)) hdue
      List.getElem?_concat_length ?_⟩
    rw [hd]
    trivial

/-- What the tick shows while it awaits `createRun`. -/
theorem TickPhase.awaiting {done rest : List CronSchedule} {call : Nat} {c : CronSchedule} {pc : CreatePc}
    (hm : m.Coherent) (h : m.step world service e = some m') (he : ∀ now nowIso, e ≠ .resumeTick i now nowIso)
    (hi : m.ticks[i]? = some (.creating call c rest))
    (hcall : m.system.calls[call]? = some (.create c.jobId "cron" c.defaultInput pc)) (hpc : pc.Alive)
    (hdue : s.dueSchedules clock = done ++ c :: rest) :
    ∃ part, TickPhase s m' clock done (.creating call c rest) part ∧
      part = (if pc.hasRun then [.created c] else []) ++ (m.observeTick i e).toList := by
  rw [CronSystem.observeTick_of he]
  obtain ⟨pc', hcall', hstep⟩ := CronSystem.step_create h hcall
  -- a run is created where `createRun` gets to have one
  have hquiet : pc'.hasRun = pc.hasRun → ((m.creation e).bind fun x =>
      if x.1 = i then some (CronSeen.created x.2) else none) = none := by
    intro hrun
    cases hc : m.creation e with
    | none => rfl
    | some x =>
      obtain ⟨j, c'⟩ := x
      obtain ⟨_, _, _, _, _, _, _, _, hsaved, hj⟩ := CronSystem.creation_eq_some hc
      obtain ⟨_, _, _, _, _, _, hj', hcreated, hcreatedRun⟩ := CronSystem.creation_unmarked h hc
      have hji : j ≠ i := by
        rintro rfl
        cases hi.symm.trans hj
        cases hcall.symm.trans hsaved
        cases (CronSystem.step_tick_of h hi he).symm.trans hj'
        cases hcall'.symm.trans hcreated
        rw [hrun] at hcreatedRun
        cases hcreatedRun
      simp [hji]
  rcases hstep with rfl | ⟨reply, st, rfl, hx⟩
  · exact ⟨_, .creating _ hdue hcall' hpc, by simp [hquiet rfl]⟩
  · cases hx with
    | missing => exact hpc.elim
    | workflowSaved => exact ⟨_, .creating _ hdue hcall' trivial, by simp [hquiet rfl, CreatePc.hasRun]⟩
    | runSaved =>
      have hc : m.creation (.inner (.resume call reply)) = some (i, c) := by
        simp only [CronSystem.creation, hcall]
        exact hm.awaiting_eq_some.2 ⟨rest, hi⟩
      exact ⟨_, .creating _ hdue hcall' trivial, by simp [hc, CreatePc.hasRun]⟩
    | returned => exact ⟨_, .creating _ hdue hcall' trivial, by simp [hquiet rfl, CreatePc.hasRun]⟩

/-- The tick goes on. -/
theorem TickPhase.resumed {done : List CronSchedule} {part : List CronSeen} {pc : TickPc} {now nowIso : Date}
    (hok : ∀ c ∈ s.dueSchedules clock, ¬ s.Fails clock c)
    (hreg : ∀ c ∈ s.dueSchedules clock, (m.system.stores.jobs.get c.jobId).isSome = true)
    (h : m.step world service (.resumeTick i now nowIso) = some m') (hi : m.ticks[i]? = some pc)
    (hphase : TickPhase s m clock done pc part) (hread : pc.Reads clock now nowIso) :
    ∃ pc' done', m'.ticks[i]? = some pc' ∧ TickPhase s m' clock done' pc' [] ∧
      done.flatMap (servedBy clock) ++ part ++ (m.observeTick i (.resumeTick i now nowIso)).toList =
        done'.flatMap (servedBy clock) := by
  have hlt := (List.getElem?_eq_some_iff.1 hi).1
  simp only [CronSystem.step, hi, Option.bind_some] at h
  cases hphase with
  | listed =>
    obtain rfl : now = clock.listed := hread
    cases h
    refine ⟨_, [], List.getElem?_set_self hlt, .due, ?_⟩
    simp [CronSystem.observeTick_idle hi]
  | due =>
    obtain ⟨pc', hi', hphase'⟩ := (CronSystem.nextSchedule_step h).phase hlt (List.nil_append _).symm hreg
    refine ⟨pc', [], hi', hphase', ?_⟩
    simp [CronSystem.observeTick_idle hi]
  | @creating _ rest call c pc hdue hcall hpc =>
    simp only [CronSystem.resumeTick, hcall] at h
    cases pc with
    | definitionRead | workflowSaved | runSaved => cases h
    | settled result =>
      cases result with
      | error e => exact hpc.elim
      | ok run =>
        have hread' : (now, nowIso) = clock.marked c.id := hread
        cases hmark : ScheduleService.markTriggered c now nowIso with
        | error e =>
          refine absurd (Or.inr ?_) (hok c (by simp [hdue]))
          rw [← hread', hmark]
          rfl
        | ok updated =>
          rw [hmark] at h
          cases h
          refine ⟨_, done ++ [c], List.getElem?_set_self hlt, .marked (by simp [hdue]), ?_⟩
          have hw := CronSystem.writesBack_triggered hi hcall hmark
          have hserved : servedBy clock c = [.created c, .advanced updated now] := by
            rw [servedBy, ← hread', hmark]
          simp [CronSystem.observeTick, CronSystem.observe, hw, hserved, CreatePc.hasRun]
  | @marked _ rest run hdue =>
    have hexec : m.system.step world (.executeRun service run.id) = some (m.system.execute service run.id) := rfl
    have hreg' : ∀ c ∈ s.dueSchedules clock,
        ((m.system.execute service run.id).stores.jobs.get c.jobId).isSome = true :=
      fun c hc => System.step_registered hexec (hreg c hc)
    obtain ⟨pc', hi', hphase'⟩ := (CronSystem.nextSchedule_step h).phase hlt hdue hreg'
    refine ⟨pc', done, hi', hphase', ?_⟩
    simp [CronSystem.observeTick_idle hi]
  | ended => cases h

/-- One step of a run of the tick. -/
theorem Serving.step (hok : ∀ c ∈ s.dueSchedules clock, ¬ s.Fails clock c) (hm : Serving s clock seen m)
    (h : m.step world service e = some m') (he : e.Reads s.ticks.length clock m) :
    Serving s clock (seen ++ (m.observeTick s.ticks.length e).toList) m' := by
  obtain ⟨hcoherent, hreg, pc, done, part, hi, hphase, rfl⟩ := hm
  refine ⟨hcoherent.step h, fun c hc => ?_, ?_⟩
  · exact CronSystem.step_system (I := fun system => (system.stores.jobs.get c.jobId).isSome = true)
      (fun _ _ _ hs hstep => System.step_registered hstep hs) h (hreg c hc)
  by_cases hown : ∃ now nowIso, e = .resumeTick s.ticks.length now nowIso
  · obtain ⟨now, nowIso, rfl⟩ := hown
    obtain ⟨pc', done', hi', hphase', hseen⟩ := hphase.resumed hok hreg h hi (he rfl pc hi)
    exact ⟨pc', done', [], hi', hphase', by rw [hseen, List.append_nil]⟩
  · have hother : ∀ now nowIso, e ≠ .resumeTick s.ticks.length now nowIso := fun now nowIso h => hown ⟨now, nowIso, h⟩
    have hi' := CronSystem.step_tick_of h hi hother
    cases hphase with
    | creating pc hdue hcall hpc =>
      obtain ⟨part', hphase', hpart⟩ := TickPhase.awaiting hcoherent h hother hi hcall hpc hdue
      exact ⟨_, done, part', hi', hphase', by rw [hpart, List.append_assoc]⟩
    | listed => exact ⟨_, [], [], hi', .listed, by simp [CronSystem.observeTick_idle hi]⟩
    | due => exact ⟨_, [], [], hi', .due, by simp [CronSystem.observeTick_idle hi]⟩
    | marked hdue => exact ⟨_, done, [], hi', .marked hdue, by simp [CronSystem.observeTick_idle hi]⟩
    | ended => exact ⟨_, _, [], hi', .ended, by simp [CronSystem.observeTick_idle hi]⟩

/-- Where no due schedule fails, a tick serves them all. -/
theorem TickRun.serves {events : List CronEvent} (hs : s.Coherent)
    (hok : ∀ c ∈ s.dueSchedules clock, ¬ s.Fails clock c) (h : TickRun world service s clock events m') :
    TickServes s clock (tickSeen world service s events) m' := by
  obtain ⟨hrun, hclock, result, hresult⟩ := h
  obtain ⟨m, hstarted, hrun⟩ := EventSystem.exec_cons.1 hrun
  cases hstarted
  unfold EventSystem.Along at hclock
  have htick : s.step world service .tick =
      some { s with ticks := s.ticks ++ [.listed (ScheduleStore.listEnabled s.schedules)] } := rfl
  have hinit : Serving s clock [] { s with ticks := s.ticks ++ [.listed (ScheduleStore.listEnabled s.schedules)] } := by
    refine ⟨hs.step htick, fun c hc => ?_, _, [], [], List.getElem?_concat_length, .listed, rfl⟩
    exact Option.isSome_iff_ne_none.2 fun hnone => hok c hc (.inl hnone)
  have hserving := EventSystem.exec_history (I := fun past x => Serving s clock (EventSystem.trace
    (CronSystem.step world service) (CronSystem.observeTick s.ticks.length) _ past) x) hinit
    (fun past e x x' hpast hx hstep he => by
      rw [EventSystem.trace_snoc hstep hpast]
      exact hx.step hok hstep he) events hrun hclock.2
  obtain ⟨pc, done, part, hi, hphase, hseen⟩ := hserving.phase
  cases hi.symm.trans hresult
  cases hphase with
  | ended =>
    rw [List.append_nil] at hseen
    refine ⟨hresult, fun c hc hfails => ?_⟩
    have hseen' : tickSeen world service s events = (s.dueSchedules clock).flatMap (servedBy clock) := hseen
    rw [hseen', countP_flatMap_servedBy]
    refine ⟨List.count_eq_one_of_mem hs.dueSchedules_nodup (List.mem_map_of_mem hc), advanced_servedBy hc ?_⟩
    simpa using fun hm => hfails (.inr hm)

end

/-! ## A tick settles -/

theorem InsertionMap.exists_get_none {V : Type} (m : InsertionMap String V) (pre : String) :
    ∃ uuid, m.get (pre ++ uuid) = none := by
  have hinj : Function.Injective (pre ++ ·) := fun _ _ h => (String.append_right_inj _).1 h
  obtain ⟨_, ⟨uuid, rfl⟩, hnew⟩ :=
    (Set.infinite_range_of_injective hinj).exists_notMem_finset (m.entries.map Prod.fst).toFinset
  exact ⟨uuid, InsertionMap.lookupIn_eq_none.2 fun hmem => hnew (List.mem_toFinset.2 hmem)⟩

/-- `randomUUID` always finds ids that nobody has used. -/
theorem Uuids.exists_fresh (st : Stores) (definition : JobDefinition) : ∃ uuids : Uuids, uuids.Fresh st definition := by
  obtain ⟨run, hrun⟩ := InsertionMap.exists_get_none st.workflowOfRun "run_"
  obtain ⟨workflow, hworkflow⟩ := InsertionMap.exists_get_none st.workflows "wf_"
  refine ⟨⟨run, workflow, (List.range definition.tasks.length).map (Infinite.natEmbedding String)⟩, hrun, hworkflow,
    by rw [List.length_map, List.length_range], ?_⟩
  exact List.nodup_range.map (Infinite.natEmbedding String).injective

/-- A run at this clock leads from one state to another. -/
def Leads (world : World) (service i : Nat) (clock : TickClock) (m m' : CronSystem) : Prop :=
  ∃ events, EventSystem.exec (CronSystem.step world service) m events = some m' ∧
    EventSystem.Along (CronSystem.step world service) (fun m e _ => e.Reads i clock m) m events

section
variable {world : World} {service i call : Nat} {s m m₁ m' : CronSystem} {e : CronEvent} {clock : TickClock}
  {jobId : JobId} {trigger : String} {input : Record}

theorem Leads.refl : Leads world service i clock m m := ⟨[], rfl, trivial⟩

theorem Leads.trans (h : Leads world service i clock m m₁) (h' : Leads world service i clock m₁ m') :
    Leads world service i clock m m' := by
  obtain ⟨events, hrun, hreads⟩ := h
  obtain ⟨events', hrun', hreads'⟩ := h'
  refine ⟨events ++ events', EventSystem.exec_append.2 ⟨m₁, hrun, hrun'⟩, EventSystem.along_append.2 ⟨hreads, ?_⟩⟩
  intro x hx
  cases hrun.symm.trans hx
  exact hreads'

theorem Leads.step (hstep : m.step world service e = some m₁) (he : e.Reads i clock m)
    (h : Leads world service i clock m₁ m') : Leads world service i clock m m' := by
  refine Leads.trans ⟨[e], EventSystem.exec_cons.2 ⟨m₁, hstep, rfl⟩, ?_⟩ h
  simp [EventSystem.Along, hstep, he]

theorem CronSystem.step_resumeCreate (reply : Reply) {pc pc' : CreatePc} {st : Stores}
    (hi : m.system.calls[call]? = some (.create jobId trigger input pc))
    (hx : WorkflowService.resume jobId trigger input m.system.stores reply pc = some (st, pc')) :
    m.step world service (.inner (.resume call reply)) =
      some { m with system := m.system.suspend call st (.create jobId trigger input pc') } := by
  simp [CronSystem.step, CronSystem.stepInner, System.step, System.resume, hi, hx]

/-- A call of `createRun` settles, with an error where the job is not registered. -/
theorem CronSystem.createRun_settles (world : World) (service i : Nat) (clock : TickClock)
    {found : Option JobDefinition}
    (hi : m.system.calls[call]? = some (.create jobId trigger input (.definitionRead found))) :
    ∃ m' result, Leads world service i clock m m' ∧ m'.ticks = m.ticks ∧
      m'.system.stores.jobs = m.system.stores.jobs ∧
      m'.system.calls[call]? = some (.create jobId trigger input (.settled result)) ∧
      (found = none → result.toBool = false) := by
  have hlt := (List.getElem?_eq_some_iff.1 hi).1
  cases found with
  | none =>
    refine ⟨_, .error _, .step (CronSystem.step_resumeCreate ⟨"", ⟨"", "", []⟩⟩ hi rfl) trivial .refl, rfl, rfl,
      List.getElem?_set_self hlt, fun _ => rfl⟩
  | some definition =>
    obtain ⟨uuids, hfresh⟩ := Uuids.exists_fresh m.system.stores definition
    have hsaved : WorkflowService.resume jobId trigger input m.system.stores ⟨"", uuids⟩
        (.definitionRead (some definition)) = some (_, .workflowSaved _) := if_pos hfresh
    refine ⟨_, .ok _, .step (CronSystem.step_resumeCreate _ hi hsaved) trivial
      (.step (CronSystem.step_resumeCreate ⟨"", uuids⟩ (List.getElem?_set_self hlt) rfl) trivial
        (.step (CronSystem.step_resumeCreate ⟨"", uuids⟩
          (List.getElem?_set_self (by simpa [System.suspend] using hlt)) rfl) trivial .refl)), rfl, rfl,
      List.getElem?_set_self (by simpa [System.suspend] using hlt), nofun⟩

/-- Where a tick is at the head of its loop, the next step goes on with the schedules that are left. -/
theorem CronSystem.step_loop {pc : TickPc} {rest : List CronSchedule} {now nowIso : Date} (hi : m.ticks[i]? = some pc)
    (hpc : pc = .due rest ∨ ∃ run, pc = .marked run rest) :
    ∃ m₁ : CronSystem, m.step world service (.resumeTick i now nowIso) = m₁.nextSchedule world i rest ∧
      m₁.ticks = m.ticks ∧ m₁.system.stores.jobs = m.system.stores.jobs := by
  rcases hpc with rfl | ⟨run, rfl⟩
  · exact ⟨m, by simp [CronSystem.step, hi, CronSystem.resumeTick], rfl, rfl⟩
  · refine ⟨{ m with system := m.system.execute service run.id }, ?_, rfl, ?_⟩
    · simp [CronSystem.step, hi, CronSystem.resumeTick, CronSystem.stepInner, System.step]
    · have hexec : m.system.step world (.executeRun service run.id) = some (m.system.execute service run.id) := rfl
      exact System.step_jobs hexec (by simp)

/-- Once the call of `createRun` has settled, the tick settles with an error, or it has served the schedule. -/
theorem CronSystem.step_created (world : World) (service : Nat) (clock : TickClock) {c : CronSchedule}
    {rest : List CronSchedule} {result : Except JobflowError JobRun}
    (hi : m.ticks[i]? = some (.creating call c rest))
    (hcall : m.system.calls[call]? = some (.create jobId trigger input (.settled result))) :
    ∃ m', m.step world service (.resumeTick i (clock.marked c.id).1 (clock.marked c.id).2) = some m' ∧
      m'.system = m.system ∧
      ((∃ e, m'.ticks[i]? = some (.settled (.error e))) ∨
        (∃ run, m'.ticks[i]? = some (.marked run rest)) ∧ result.toBool = true ∧
          (ScheduleService.markTriggered c (clock.marked c.id).1 (clock.marked c.id).2).toBool = true) := by
  have hlt := (List.getElem?_eq_some_iff.1 hi).1
  simp only [CronSystem.step, hi, Option.bind_some, CronSystem.resumeTick, hcall]
  cases result with
  | error e => exact ⟨_, rfl, rfl, .inl ⟨e, List.getElem?_set_self hlt⟩⟩
  | ok run =>
    cases ScheduleService.markTriggered c (clock.marked c.id).1 (clock.marked c.id).2 with
    | error e => exact ⟨_, rfl, rfl, .inl ⟨_, List.getElem?_set_self hlt⟩⟩
    | ok updated => exact ⟨_, rfl, rfl, .inr ⟨⟨run, List.getElem?_set_self hlt⟩, rfl, rfl⟩⟩

/-- A tick settles, and not well when one of the schedules that it has left fails. -/
theorem CronSystem.tick_settles (world : World) (service : Nat) (s : CronSystem) (clock : TickClock)
    (rest : List CronSchedule) : ∀ {m : CronSystem} {pc : TickPc},
    m.ticks[i]? = some pc → (pc = .due rest ∨ ∃ run, pc = .marked run rest) →
    m.system.stores.jobs = s.system.stores.jobs →
    ∃ m' result, Leads world service i clock m m' ∧ m'.ticks[i]? = some (.settled result) ∧
      ((∃ c ∈ rest, s.Fails clock c) → result.toBool = false) := by
  -- at the head of the loop the clock is not read
  have hhead : ∀ {m : CronSystem} {pc : TickPc} {todo : List CronSchedule}, m.ticks[i]? = some pc →
      (pc = .due todo ∨ ∃ run, pc = .marked run todo) → CronEvent.Reads i clock m (.resumeTick i none none) := by
    intro m pc todo hi hpc _ pc' hpc'
    cases hi.symm.trans hpc'
    rcases hpc with rfl | ⟨run, rfl⟩ <;> trivial
  induction rest with
  | nil =>
    intro m pc hi hpc _
    obtain ⟨m₁, hstep, hticks, _⟩ := CronSystem.step_loop hi hpc
    have hlt : i < m₁.ticks.length := hticks ▸ (List.getElem?_eq_some_iff.1 hi).1
    exact ⟨_, .ok (), .step hstep (hhead hi hpc) .refl, List.getElem?_set_self hlt, by simp⟩
  | cons c rest ih =>
    intro m pc hi hpc hjobs
    obtain ⟨m₁, hstep, hticks, hjobs₁⟩ := CronSystem.step_loop hi hpc
    have hlt : i < m₁.ticks.length := hticks ▸ (List.getElem?_eq_some_iff.1 hi).1
    -- it calls `createRun` for `c` and waits until the call has settled
    obtain ⟨m₂, created, hwaits, hticks₂, hjobs₂, hcall, hmissing⟩ := CronSystem.createRun_settles world service i clock
      (m := { m₁ with
        system := m₁.system.spawn m₁.system.stores (.create c.jobId "cron" c.defaultInput
          (.definitionRead (m₁.system.stores.jobs.get c.jobId))),
        ticks := m₁.ticks.set i (.creating m₁.system.calls.length c rest) }) List.getElem?_concat_length
    have hi₂ : m₂.ticks[i]? = some (.creating m₁.system.calls.length c rest) := by
      rw [hticks₂]
      exact List.getElem?_set_self hlt
    obtain ⟨m₃, hstep₃, hsystem₃, hserved⟩ := CronSystem.step_created world service clock hi₂ hcall
    have hreads₃ : CronEvent.Reads i clock m₂ (.resumeTick i (clock.marked c.id).1 (clock.marked c.id).2) := by
      intro _ pc' hpc'
      cases hi₂.symm.trans hpc'
      rfl
    have hleads : Leads world service i clock m m₃ :=
      .step hstep (hhead hi hpc) (hwaits.trans (.step hstep₃ hreads₃ .refl))
    rcases hserved with ⟨e, hsettled⟩ | ⟨⟨run, hi₃⟩, hcreated, hmarked⟩
    · exact ⟨m₃, .error e, hleads, hsettled, fun _ => rfl⟩
    · obtain ⟨m', result, hrest, hsettled, hfails⟩ := ih hi₃ (.inr ⟨run, rfl⟩)
        (by rw [hsystem₃, hjobs₂, ← hjobs, ← hjobs₁]; rfl)
      refine ⟨m', result, hleads.trans hrest, hsettled, ?_⟩
      rintro ⟨c', hc', hfail⟩
      rcases List.mem_cons.1 hc' with rfl | hc'
      · rcases hfail with hnone | hmarkFails
        · rw [hmissing (by rw [hjobs₁, hjobs, hnone])] at hcreated
          cases hcreated
        · rw [hmarkFails] at hmarked
          cases hmarked
      · exact hfails ⟨c', hc', hfail⟩

/-- A tick that is started settles, and not well when a due schedule fails. -/
theorem CronSystem.exists_tickRun (world : World) (service : Nat) (s : CronSystem) (clock : TickClock) :
    ∃ events m', TickRun world service s clock events m' ∧ ((∃ c ∈ s.dueSchedules clock, s.Fails clock c) →
      m'.ticks[s.ticks.length]? ≠ some (.settled (.ok ()))) := by
  let m₀ : CronSystem := { s with ticks := s.ticks ++ [.listed (ScheduleStore.listEnabled s.schedules)] }
  have hi₀ : m₀.ticks[s.ticks.length]? = some (.listed (ScheduleStore.listEnabled s.schedules)) :=
    List.getElem?_concat_length
  have hlt₀ := (List.getElem?_eq_some_iff.1 hi₀).1
  have hstep₀ : m₀.step world service (.resumeTick s.ticks.length clock.listed none) =
      some (m₀.setTick s.ticks.length (.due (s.dueSchedules clock))) := by
    simp only [CronSystem.step, hi₀, Option.bind_some]
    rfl
  have hreads₀ : CronEvent.Reads s.ticks.length clock m₀ (.resumeTick s.ticks.length clock.listed none) := by
    intro _ pc hpc
    cases hi₀.symm.trans hpc
    rfl
  obtain ⟨m', result, hleads, hsettled, hfails⟩ := CronSystem.tick_settles world service s clock (s.dueSchedules clock)
    (m := m₀.setTick s.ticks.length (.due (s.dueSchedules clock))) (List.getElem?_set_self hlt₀) (.inl rfl) rfl
  obtain ⟨events, hrun, hreads⟩ := hleads.step hstep₀ hreads₀
  refine ⟨events, m', ⟨EventSystem.exec_cons.2 ⟨m₀, rfl, hrun⟩, ⟨trivial, hreads⟩, ⟨result, hsettled⟩⟩, ?_⟩
  intro hfail hok
  cases hsettled.symm.trans hok
  cases hfails hfail

/-- However its run interleaves with everything else: a tick settles, and it resolves after it has created one run for
every due schedule that does not fail and has moved its `nextRunAt` on exactly when no due schedule fails. -/
theorem tick_serves_iff (clock : TickClock) (hs : CronSystem.Reachable world service s) :
    (∃ events s', TickRun world service s clock events s') ∧
      ((∀ events s', TickRun world service s clock events s' →
          TickServes s clock (tickSeen world service s events) s') ↔
        ∀ c ∈ s.dueSchedules clock, ¬ s.Fails clock c) := by
  obtain ⟨events, s', hrun, hfails⟩ := CronSystem.exists_tickRun world service s clock
  refine ⟨⟨events, s', hrun⟩, ?_, fun hok events s' h => h.serves hs.coherent hok⟩
  intro hserves c hc hfail
  exact hfails ⟨c, hc, hfail⟩ (hserves events s' hrun).resolved

end

/-- The first minute, throughout the tick. -/
def sampleClock : TickClock := ⟨sampleMinute 1, fun _ => (sampleMinute 1, sampleMinute 1)⟩

/-- Two schedules of one job for the same minute. -/
def sampleTwice : List CronEvent :=
  [.inner (.register sampleOne.input "t"),
    .create sampleSchedule "0" (sampleMinute 0) (sampleMinute 0) (sampleMinute 0),
    .create sampleSchedule "1" (sampleMinute 0) (sampleMinute 0) (sampleMinute 0)]

theorem tick_serves_iff_sample : ∃ s events s', sampleCron .empty sampleTwice = some s ∧
    (s.dueSchedules sampleClock).map CronSchedule.id = ["sched_0", "sched_1"] ∧
    TickRun (sampleWorld fun _ _ => false) 0 s sampleClock events s' ∧
    TickServes s sampleClock (tickSeen (sampleWorld fun _ _ => false) 0 s events) s' := by
  have hsample : (sampleCron .empty sampleTwice).any (fun s =>
      (s.dueSchedules sampleClock).map CronSchedule.id = ["sched_0", "sched_1"] ∧
        ∀ c ∈ s.dueSchedules sampleClock, ¬ s.Fails sampleClock c) = true := by decide +kernel
  obtain ⟨s, hs, h⟩ := (Option.any_eq_true _ _).1 hsample
  obtain ⟨hdue, hok⟩ := of_decide_eq_true h
  obtain ⟨⟨events, s', hrun⟩, hserves⟩ := tick_serves_iff sampleClock ⟨sampleTwice, hs⟩
  exact ⟨s, events, s', hs, hdue, hrun, hserves.2 hok events s' hrun⟩

/-- Two schedules for the same minute; the job of the first is not registered. -/
def sampleUnregistered : List CronEvent :=
  [.inner (.register sampleOne.input "t"),
    .create { sampleSchedule with jobId := "gone" } "0" (sampleMinute 0) (sampleMinute 0) (sampleMinute 0),
    .create sampleSchedule "1" (sampleMinute 0) (sampleMinute 0) (sampleMinute 0)]

/-- The tick calls `createRun` for the first one, and learns that it has failed. -/
def sampleFailing : List CronEvent :=
  [sampleTicking 0 1, sampleTicking 0 1, .inner (.resume 0 ⟨"t", ⟨"1", "1", ["a"]⟩⟩), sampleTicking 0 1]

/-- The promise of the tick has been rejected. -/
def TickPc.rejected : TickPc → Bool
  | .settled result => !result.toBool
  | _ => false

/-- The second schedule does not fail, but the tick has ended before it: no run is created, and `nextRunAt` stays. -/
theorem tick_starves : ∃ s s', sampleCron .empty sampleUnregistered = some s ∧
    TickRun (sampleWorld fun _ _ => false) 0 s sampleClock sampleFailing s' ∧
    (s.dueSchedules sampleClock).map (fun c => (c.id, decide (s.Fails sampleClock c))) =
      [("sched_0", true), ("sched_1", false)] ∧
    (s'.ticks[s.ticks.length]?).any TickPc.rejected = true ∧ s'.system.stores.runs.entries.length = 0 ∧
    (s'.schedules.get "sched_1").map CronSchedule.nextRunAt = (s.schedules.get "sched_1").map CronSchedule.nextRunAt ∧
    ¬ TickServes s sampleClock (tickSeen (sampleWorld fun _ _ => false) 0 s sampleFailing) s' := by
  have hsample : (sampleCron .empty sampleUnregistered).any (fun s =>
      (s.dueSchedules sampleClock).map (fun c => (c.id, decide (s.Fails sampleClock c))) =
          [("sched_0", true), ("sched_1", false)] ∧
        EventSystem.Along (CronSystem.step (sampleWorld fun _ _ => false) 0)
          (fun m e _ => e.Reads s.ticks.length sampleClock m) s (.tick :: sampleFailing) ∧
        (sampleCron s (.tick :: sampleFailing)).any fun s' =>
          (s'.ticks[s.ticks.length]?).any TickPc.rejected = true ∧ s'.system.stores.runs.entries.length = 0 ∧
            (s'.schedules.get "sched_1").map CronSchedule.nextRunAt =
              (s.schedules.get "sched_1").map CronSchedule.nextRunAt) = true := by
    decide +kernel
  obtain ⟨s, hs, h⟩ := (Option.any_eq_true _ _).1 hsample
  obtain ⟨hdue, hclock, hend⟩ := of_decide_eq_true h
  obtain ⟨s', hrun, h'⟩ := (Option.any_eq_true _ _).1 hend
  obtain ⟨hrejected, hruns, hnext⟩ := of_decide_eq_true h'
  have hsettled : ∃ result, s'.ticks[s.ticks.length]? = some (.settled result) := by
    obtain ⟨pc, hpc, hrej⟩ := (Option.any_eq_true _ _).1 hrejected
    cases pc with
    | settled result => exact ⟨result, hpc⟩
    | _ => cases hrej
  refine ⟨s, s', hs, ⟨hrun, hclock, hsettled⟩, hdue, hrejected, hruns, hnext, fun hserves => ?_⟩
  rw [hserves.resolved] at hrejected
  cases hrejected

end Jobflow
