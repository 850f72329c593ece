import Jobflow.Domain
import Jobflow.Lib.Delimiters
import Jobflow.Lib.EventSystem
import Jobflow.Lib.Recency

/-!
# Webhook deliveries (src/webhooks, src/services/webhook-service.ts)

An `emit` dispatches to its endpoints one after the other; calls of it run side by side. A delivery is stored under the
millisecond its dispatch started in, so that each has its record just if no two started in the same one
(`deliveries_kept_iff`).
-/

namespace Jobflow

open Js (Record)

/-! ## Endpoints and deliveries (webhook.ts, webhook-store.ts, delivery-store.ts) -/

inductive WebhookEvent where
  | runStarted | runCompleted | runFailed | runDeadLettered | taskFailed
  deriving DecidableEq

structure WebhookEndpoint where
  id : String
  tenantId : String
  url : String
  secret : String
  events : List WebhookEvent
  enabled : Bool
  createdAt : String

inductive DeliveryStatus where
  | pending | delivered | failed
  deriving DecidableEq

structure WebhookDelivery where
  id : String
  endpointId : String
  event : WebhookEvent
  payload : Record
  status : DeliveryStatus
  attempts : Nat
  lastAttemptAt : Option String
  responseStatus : Option Nat

abbrev WebhookStore := InsertionMap String WebhookEndpoint

/-- webhook-store.ts:19-23. -/
def WebhookStore.listForEvent (store : WebhookStore) (tenantId : String) (event : WebhookEvent) :
    List WebhookEndpoint :=
  store.values.filter fun e => e.tenantId = tenantId && e.enabled && e.events.contains event

abbrev WebhookDeliveryStore := InsertionMap String WebhookDelivery

/-- delivery-store.ts:6-8. -/
def WebhookDeliveryStore.save (store : WebhookDeliveryStore) (delivery : WebhookDelivery) : WebhookDeliveryStore :=
  store.set delivery.id delivery

/-! ## A dispatch (dispatcher.ts:18-46) -/

structure DispatchResult where
  delivery : WebhookDelivery
  ok : Bool

/-- A dispatch awaits an answer, or has returned. -/
inductive DispatchPc where
  | posting (delivery : WebhookDelivery)
  | returned (result : DispatchResult)

/-- `Date.now()` is `now`. -/
def newDelivery (now : Nat) (endpoint : WebhookEndpoint) (event : WebhookEvent) (payload : Record) :
    WebhookDelivery where
  id := "whd_" ++ toString now
  endpointId := endpoint.id
  event := event
  payload := payload
  status := .pending
  attempts := 0
  lastAttemptAt := none
  responseStatus := none

/-- The loop from its head on: up to the next `post`, or to the end. -/
def dispatchFrom (maxAttempts attempt : Nat) (delivery : WebhookDelivery) (nowIso : String) : DispatchPc :=
  if attempt ≤ maxAttempts then .posting { delivery with attempts := attempt, lastAttemptAt := some nowIso }
  else .returned ⟨{ delivery with status := .failed }, false⟩

/-- After `post` has answered. -/
def dispatchAfterPost (maxAttempts : Nat) (delivery : WebhookDelivery) (ok : Bool) (nowIso : String) : DispatchPc :=
  if ok then .returned ⟨{ delivery with status := .delivered, responseStatus := some 200 }, true⟩
  else dispatchFrom maxAttempts (delivery.attempts + 1) delivery nowIso

/-! ## Calls of `emit` (webhook-service.ts:35-41) -/

/-- What a dispatch has come to: the answers its posts were given. -/
structure DispatchMade where
  endpointId : String
  event : WebhookEvent
  posts : List Bool

inductive EmitPc where
  /-- Before the next endpoint. -/
  | listed (rest : List WebhookEndpoint)
  | dispatching (endpoint : WebhookEndpoint) (posts : List Bool) (delivery : WebhookDelivery)
      (rest : List WebhookEndpoint)
  | dispatched (result : DispatchResult) (rest : List WebhookEndpoint)
  | settled

structure EmitCall where
  event : WebhookEvent
  payload : Record
  pc : EmitPc

structure WebhookSystem where
  endpoints : WebhookStore
  deliveries : WebhookDeliveryStore
  /-- The last reading of the clock. -/
  clock : Nat
  /-- Every call so far. -/
  calls : List EmitCall
  /-- Every dispatch that has returned. -/
  made : List DispatchMade

inductive WebhookStep where
  | register (endpoint : WebhookEndpoint)
  | emit (tenantId : String) (event : WebhookEvent) (payload : Record)
  /-- The `i`th call starts its next dispatch, and `Date.now()` is `now`. -/
  | start (i : Nat) (now : Nat) (nowIso : String)
  /-- A post of the `i`th call is answered. -/
  | posted (i : Nat) (ok : Bool) (nowIso : String)
  | save (i : Nat)
  | finish (i : Nat)

namespace WebhookSystem

def init : WebhookSystem := ⟨.empty, .empty, 0, [], []⟩

def setPc (s : WebhookSystem) (i : Nat) (call : EmitCall) (pc : EmitPc) : WebhookSystem :=
  { s with calls := s.calls.set i { call with pc := pc } }

@[simp] theorem calls_setPc (s : WebhookSystem) (i : Nat) (call : EmitCall) (pc : EmitPc) :
    (s.setPc i call pc).calls = s.calls.set i { call with pc := pc } := rfl

@[simp] theorem made_setPc (s : WebhookSystem) (i : Nat) (call : EmitCall) (pc : EmitPc) :
    (s.setPc i call pc).made = s.made := rfl

/-- A dispatch goes on, after its posts so far. -/
def dispatch (s : WebhookSystem) (i : Nat) (call : EmitCall) (endpoint : WebhookEndpoint) (posts : List Bool)
    (rest : List WebhookEndpoint) : DispatchPc → WebhookSystem
  | .posting delivery => s.setPc i call (.dispatching endpoint posts delivery rest)
  | .returned result =>
    { s.setPc i call (.dispatched result rest) with made := s.made ++ [⟨endpoint.id, call.event, posts⟩] }

/-- What a call does between two awaits. -/
def stepCall (maxAttempts : Nat) (s : WebhookSystem) (i : Nat) (call : EmitCall) : WebhookStep → Option WebhookSystem
  | .start _ now nowIso =>
    match call.pc with
    | .listed (endpoint :: rest) =>
      if s.clock ≤ now then
        some ({ s with clock := now }.dispatch i call endpoint [] rest
          (dispatchFrom maxAttempts 1 (newDelivery now endpoint call.event call.payload) nowIso))
      else none
    | _ => none
  | .posted _ ok nowIso =>
    match call.pc with
    | .dispatching endpoint posts delivery rest =>
      some (s.dispatch i call endpoint (posts ++ [ok]) rest (dispatchAfterPost maxAttempts delivery ok nowIso))
    | _ => none
  | .save _ =>
    match call.pc with
    | .dispatched result rest =>
      some { s.setPc i call (.listed rest) with deliveries := WebhookDeliveryStore.save s.deliveries result.delivery }
    | _ => none
  | .finish _ =>
    match call.pc with
    | .listed [] => some (s.setPc i call .settled)
    | _ => none
  | .register _ | .emit _ _ _ => none

def step (maxAttempts : Nat) (s : WebhookSystem) (e : WebhookStep) : Option WebhookSystem :=
  match e with
  | .register endpoint => some { s with endpoints := s.endpoints.set endpoint.id endpoint }
  | .emit tenantId event payload =>
    some { s with calls := s.calls ++ [⟨event, payload, .listed (s.endpoints.listForEvent tenantId event)⟩] }
  | .start i _ _ | .posted i _ _ | .save i | .finish i => (s.calls[i]?).bind fun call => s.stepCall maxAttempts i call e

def Settled (s : WebhookSystem) : Prop := ∀ call ∈ s.calls, call.pc = .settled

end WebhookSystem

/-! ## What a record tells -/

structure DeliverySummary where
  endpointId : String
  event : WebhookEvent
  status : DeliveryStatus
  attempts : Nat
  deriving DecidableEq

def WebhookDelivery.summary (d : WebhookDelivery) : DeliverySummary := ⟨d.endpointId, d.event, d.status, d.attempts⟩

/-- A dispatch ends with the first post that is accepted. -/
def DispatchMade.summary (m : DispatchMade) : DeliverySummary :=
  ⟨m.endpointId, m.event, if m.posts.getLast? = some true then .delivered else .failed, m.posts.length⟩

def DispatchPc.delivery : DispatchPc → WebhookDelivery
  | .posting delivery => delivery
  | .returned result => result.delivery

/-- Where a dispatch stands after its posts so far. -/
def DispatchPc.Matches (endpointId : String) (event : WebhookEvent) (posts : List Bool) : DispatchPc → Prop
  | .posting delivery =>
    delivery.endpointId = endpointId ∧ delivery.event = event ∧ delivery.attempts = posts.length + 1 ∧ true ∉ posts
  | .returned result => result.delivery.summary = DispatchMade.summary ⟨endpointId, event, posts⟩

section
variable {endpointId : String} {event : WebhookEvent} {posts : List Bool} {delivery : WebhookDelivery}

theorem dispatchFrom_matches (maxAttempts : Nat) (nowIso : String) (hendpoint : delivery.endpointId = endpointId)
    (hevent : delivery.event = event) (hattempts : delivery.attempts = posts.length) (hposts : true ∉ posts) :
    (dispatchFrom maxAttempts (posts.length + 1) delivery nowIso).Matches endpointId event posts := by
  unfold dispatchFrom
  split_ifs
  · exact ⟨hendpoint, hevent, rfl, hposts⟩
  · have hlast : posts.getLast? ≠ some true := fun h => hposts (List.mem_of_getLast? h)
    simp [DispatchPc.Matches, WebhookDelivery.summary, DispatchMade.summary, hlast, hendpoint, hevent, hattempts]

theorem dispatchAfterPost_matches (maxAttempts : Nat) (ok : Bool) (nowIso : String)
    (h : (DispatchPc.posting delivery).Matches endpointId event posts) :
    (dispatchAfterPost maxAttempts delivery ok nowIso).Matches endpointId event (posts ++ [ok]) := by
  obtain ⟨hendpoint, hevent, hattempts, hposts⟩ := h
  unfold dispatchAfterPost
  cases ok with
  | true =>
    simp [DispatchPc.Matches, WebhookDelivery.summary, DispatchMade.summary, hendpoint, hevent, hattempts]
  | false =>
    have hlength : delivery.attempts = (posts ++ [false]).length := by simp [hattempts]
    rw [hlength]
    exact dispatchFrom_matches maxAttempts nowIso hendpoint hevent hlength (by simpa using hposts)

theorem id_dispatchFrom (maxAttempts attempt : Nat) (delivery : WebhookDelivery) (nowIso : String) :
    (dispatchFrom maxAttempts attempt delivery nowIso).delivery.id = delivery.id := by
  unfold dispatchFrom
  split_ifs <;> rfl

theorem id_dispatchAfterPost (maxAttempts : Nat) (delivery : WebhookDelivery) (ok : Bool) (nowIso : String) :
    (dispatchAfterPost maxAttempts delivery ok nowIso).delivery.id = delivery.id := by
  unfold dispatchAfterPost
  split_ifs
  · rfl
  · exact id_dispatchFrom ..

end

/-! ## What was started, and what is saved -/

namespace EmitCall

/-- The ids of the started deliveries that are not saved. -/
def inFlight (call : EmitCall) : List String :=
  match call.pc with
  | .dispatching _ _ delivery _ => [delivery.id]
  | .dispatched result _ => [result.delivery.id]
  | .listed _ | .settled => []

/-- The returned deliveries that are not saved. -/
def unsaved (call : EmitCall) : List DeliverySummary :=
  match call.pc with
  | .dispatched result _ => [result.delivery.summary]
  | .listed _ | .dispatching _ _ _ _ | .settled => []

def Consistent (call : EmitCall) : Prop :=
  match call.pc with
  | .dispatching endpoint posts delivery _ => (DispatchPc.posting delivery).Matches endpoint.id call.event posts
  | .listed _ | .dispatched _ _ | .settled => True

end EmitCall

/-- The milliseconds in which dispatches start. -/
def starts (events : List WebhookStep) : List Nat :=
  events.filterMap fun
    | .start _ now _ => some now
    | _ => none

theorem starts_other {e : WebhookStep} (he : starts [e] = []) (past : List WebhookStep) :
    starts (past ++ [e]) = starts past := by
  rw [starts, List.filterMap_append]
  exact (congrArg (starts past ++ ·) he).trans (List.append_nil _)

def deliveryId (now : Nat) : String := "whd_" ++ toString now

theorem deliveryId_injective : Function.Injective deliveryId := by
  intro m n h
  refine Delimiters.decimal_inj (String.toList_inj.1 ?_)
  have hchars := congrArg String.toList h
  rw [deliveryId, deliveryId, String.toList_append, String.toList_append] at hchars
  exact List.append_cancel_left hchars

/-- Started dispatches are saved or in flight; returned ones are saved or about to be. -/
structure Recorded (past : List WebhookStep) (s : WebhookSystem) (saves : List WebhookDelivery) : Prop where
  stored : s.deliveries = .ofList (saves.map fun d => (d.id, d))
  started : ((starts past).map deliveryId).Perm (saves.map WebhookDelivery.id ++ s.calls.flatMap EmitCall.inFlight)
  made : (s.made.map DispatchMade.summary).Perm (saves.map WebhookDelivery.summary ++ s.calls.flatMap EmitCall.unsaved)
  consistent : ∀ call ∈ s.calls, call.Consistent

section
variable {s : WebhookSystem} {i : Nat} {call : EmitCall}

/-- A call that is replaced takes what it has along. -/
theorem flatMap_set {α : Type} (f : EmitCall → List α) (hi : s.calls[i]? = some call) (next : EmitCall) :
    ((s.calls.set i next).flatMap f ++ f call).Perm (s.calls.flatMap f ++ f next) := by
  obtain ⟨hlt, rfl⟩ := List.getElem?_eq_some_iff.1 hi
  have hsplit : s.calls = s.calls.take i ++ s.calls[i] :: s.calls.drop (i + 1) := by simp
  rw [List.set_eq_take_append_cons_drop, if_pos hlt]
  conv_rhs => rw [hsplit]
  simp only [List.flatMap_append, List.flatMap_cons, List.append_assoc]
  refine List.Perm.append_left _ (List.perm_append_comm.trans ?_)
  rw [List.append_assoc]
  exact List.perm_append_comm_assoc ..

theorem perm_exchange {α : Type} {a b b' c f g : List α} (h : a.Perm (c ++ b)) (hb : (b' ++ f).Perm (b ++ g)) :
    (a ++ g).Perm (c ++ (b' ++ f)) := by
  refine (h.append_right g).trans ?_
  rw [List.append_assoc]
  exact hb.symm.append_left c

theorem consistent_set (h : ∀ call ∈ s.calls, call.Consistent) {next : EmitCall} (hnext : next.Consistent) :
    ∀ call ∈ s.calls.set i next, call.Consistent := by
  intro call hcall
  obtain hmem | rfl := List.mem_or_eq_of_mem_set hcall
  · exact h call hmem
  · exact hnext

/-- A dispatch that goes on: what it has taken is started, and made if it has returned. -/
theorem Recorded.dispatch {past past' : List WebhookStep} {saves : List WebhookDelivery} (h : Recorded past s saves)
    (hi : s.calls[i]? = some call) (hunsaved : call.unsaved = []) {endpoint : WebhookEndpoint} {posts : List Bool}
    {rest : List WebhookEndpoint} {pc : DispatchPc} (hpc : pc.Matches endpoint.id call.event posts)
    (hstarts : (starts past').map deliveryId ++ call.inFlight = (starts past).map deliveryId ++ [pc.delivery.id])
    (clock : Nat) : Recorded past' ({ s with clock := clock }.dispatch i call endpoint posts rest pc) saves := by
  have hstarted : ∀ {next : EmitCall}, next.inFlight = [pc.delivery.id] → ((starts past').map deliveryId).Perm
      (saves.map WebhookDelivery.id ++ (s.calls.set i next).flatMap EmitCall.inFlight) := by
    intro next hnext
    have hexchange := perm_exchange h.started (flatMap_set EmitCall.inFlight hi next)
    rw [hnext, ← hstarts, ← List.append_assoc] at hexchange
    exact (List.perm_append_right_iff _).1 hexchange
  have hmade : ∀ next : EmitCall, (s.made.map DispatchMade.summary ++ next.unsaved).Perm
      (saves.map WebhookDelivery.summary ++ (s.calls.set i next).flatMap EmitCall.unsaved) := by
    intro next
    have hexchange := perm_exchange h.made (flatMap_set EmitCall.unsaved hi next)
    rwa [hunsaved, List.append_nil] at hexchange
  cases pc with
  | posting delivery =>
    refine ⟨h.stored, hstarted rfl, ?_, consistent_set h.consistent hpc⟩
    simpa [WebhookSystem.dispatch, EmitCall.unsaved] using
      hmade { call with pc := .dispatching endpoint posts delivery rest }
  | returned result =>
    refine ⟨h.stored, hstarted rfl, ?_, consistent_set h.consistent trivial⟩
    have hreturned := hmade { call with pc := .dispatched result rest }
    simp only [EmitCall.unsaved] at hreturned
    rw [hpc] at hreturned
    simpa [WebhookSystem.dispatch] using hreturned

theorem recorded_step (maxAttempts : Nat) (past : List WebhookStep) (e : WebhookStep) (s s' : WebhookSystem)
    (h : ∃ saves, Recorded past s saves) (hstep : s.step maxAttempts e = some s') :
    ∃ saves, Recorded (past ++ [e]) s' saves := by
  obtain ⟨saves, h⟩ := h
  cases e with
  | register endpoint =>
    cases hstep
    exact ⟨saves, { h with started := by rw [starts_other rfl]; exact h.started }⟩
  | emit tenantId event payload =>
    cases hstep
    refine ⟨saves, h.stored, ?_, ?_, ?_⟩
    · rw [starts_other rfl]
      simpa [EmitCall.inFlight] using h.started
    · simpa [EmitCall.unsaved] using h.made
    · intro call hcall
      obtain hmem | hnew := List.mem_append.1 hcall
      · exact h.consistent call hmem
      · rw [List.mem_singleton.1 hnew]
        trivial
  | start i now nowIso =>
    obtain ⟨⟨event, payload, pc⟩, hi, hstep⟩ := Option.bind_eq_some_iff.1 hstep
    cases pc with
    | listed rest =>
      cases rest with
      | nil => cases hstep
      | cons endpoint rest =>
        simp only [WebhookSystem.stepCall] at hstep
        split_ifs at hstep
        cases hstep
        refine ⟨saves, h.dispatch hi rfl (dispatchFrom_matches maxAttempts nowIso rfl rfl rfl (by simp)) ?_ now⟩
        rw [id_dispatchFrom]
        simp [starts, EmitCall.inFlight, newDelivery, deliveryId]
    | dispatching _ _ _ _ | dispatched _ _ | settled => cases hstep
  | posted i ok nowIso =>
    obtain ⟨⟨event, payload, pc⟩, hi, hstep⟩ := Option.bind_eq_some_iff.1 hstep
    cases pc with
    | dispatching endpoint posts delivery rest =>
      cases hstep
      have hmatches := h.consistent _ (List.mem_of_getElem? hi)
      refine ⟨saves, h.dispatch hi rfl (dispatchAfterPost_matches maxAttempts ok nowIso hmatches) ?_ s.clock⟩
      rw [starts_other rfl, id_dispatchAfterPost]
      rfl
    | listed _ | dispatched _ _ | settled => cases hstep
  | save i =>
    obtain ⟨⟨event, payload, pc⟩, hi, hstep⟩ := Option.bind_eq_some_iff.1 hstep
    cases pc with
    | dispatched result rest =>
      cases hstep
      have hstarted := perm_exchange h.started (flatMap_set EmitCall.inFlight hi ⟨event, payload, .listed rest⟩)
      have hmade := perm_exchange h.made (flatMap_set EmitCall.unsaved hi ⟨event, payload, .listed rest⟩)
      refine ⟨saves ++ [result.delivery], ?_, ?_, ?_, consistent_set h.consistent trivial⟩
      · simp only [h.stored, WebhookDeliveryStore.save]
        simp [InsertionMap.ofList]
      · rw [starts_other rfl, List.map_append, List.append_assoc]
        simpa [EmitCall.inFlight] using hstarted.trans (List.perm_append_comm.append_left _)
      · rw [List.map_append, List.append_assoc]
        simpa [EmitCall.unsaved] using hmade.trans (List.perm_append_comm.append_left _)
    | listed _ | dispatching _ _ _ _ | settled => cases hstep
  | finish i =>
    obtain ⟨⟨event, payload, pc⟩, hi, hstep⟩ := Option.bind_eq_some_iff.1 hstep
    cases pc with
    | listed rest =>
      cases rest with
      | nil =>
        cases hstep
        have hstarted := perm_exchange h.started (flatMap_set EmitCall.inFlight hi ⟨event, payload, .settled⟩)
        have hmade := perm_exchange h.made (flatMap_set EmitCall.unsaved hi ⟨event, payload, .settled⟩)
        refine ⟨saves, h.stored, ?_, ?_, consistent_set h.consistent trivial⟩
        · rw [starts_other rfl]
          simpa [EmitCall.inFlight] using hstarted
        · simpa [EmitCall.unsaved] using hmade
      | cons endpoint rest => cases hstep
    | dispatching _ _ _ _ | dispatched _ _ | settled => cases hstep

theorem recorded_init : Recorded [] .init [] := ⟨rfl, .refl _, .refl _, fun _ hcall => absurd hcall List.not_mem_nil⟩

end

/-- Where every call has settled, what was started and what was made are the saves. -/
theorem Recorded.settled {past : List WebhookStep} {s : WebhookSystem} {saves : List WebhookDelivery}
    (h : Recorded past s saves) (hs : s.Settled) : ((starts past).map deliveryId).Perm (saves.map WebhookDelivery.id) ∧
      (s.made.map DispatchMade.summary).Perm (saves.map WebhookDelivery.summary) := by
  have hnone : s.calls.flatMap EmitCall.inFlight = [] ∧ s.calls.flatMap EmitCall.unsaved = [] := by
    constructor
    all_goals
      refine List.flatMap_eq_nil_iff.2 fun call hcall => ?_
      simp [EmitCall.inFlight, EmitCall.unsaved, hs call hcall]
  have hstarted := h.started
  have hmade := h.made
  rw [hnone.1, List.append_nil] at hstarted
  rw [hnone.2, List.append_nil] at hmade
  exact ⟨hstarted, hmade⟩

/-- **Each dispatch has its record**, once every call has settled, just if no two dispatches start in the same
millisecond. -/
theorem deliveries_kept_iff {maxAttempts : Nat} {events : List WebhookStep} {s : WebhookSystem}
    (hrun : EventSystem.exec (WebhookSystem.step maxAttempts) .init events = some s) (hs : s.Settled) :
    (s.made.map DispatchMade.summary).Subperm (s.deliveries.values.map WebhookDelivery.summary) ↔
      (starts events).Nodup := by
  have hhistory : ∃ saves, Recorded events s saves :=
    EventSystem.exec_history (C := fun _ _ _ => True) ⟨[], recorded_init⟩
      (fun past e s s' _ h hstep _ => recorded_step maxAttempts past e s s' h hstep) events hrun
      (@EventSystem.Along.of_forall _ _ _ (fun _ => True) _ _ fun _ _ => trivial)
  obtain ⟨saves, h⟩ := hhistory
  obtain ⟨hstarted, hmade⟩ := h.settled hs
  have hids : (saves.map WebhookDelivery.id).Nodup ↔ (starts events).Nodup := by
    rw [← hstarted.nodup_iff, List.nodup_map_iff deliveryId_injective]
  have hfst : (saves.map fun d => (d.id, d)).map Prod.fst = saves.map WebhookDelivery.id := by simp
  rw [← hids]
  constructor
  · intro hkept
    have hlength := hkept.length_le
    rw [hmade.length_eq, List.length_map, List.length_map, InsertionMap.values, List.length_map, h.stored] at hlength
    rw [← hfst]
    exact InsertionMap.nodup_of_length_ofList (by rwa [List.length_map])
  · intro hnodup
    rw [← hfst] at hnodup
    rw [h.stored, InsertionMap.values, InsertionMap.entries_ofList hnodup, List.map_map, List.map_map]
    exact hmade.subperm

/-! ## Two endpoints -/

def endpointSample (id : String) : WebhookEndpoint :=
  ⟨id, "tenant_dev", "https://hooks.example/jobs", "s", [.runFailed], true, "2026-01-01T00:00:00.000Z"⟩

/-- A failed run is told to two endpoints: the first accepts, the second refuses twice. The dispatches start at `t` and
`u`. -/
def emitSample (t u : Nat) : List WebhookStep :=
  [.register (endpointSample "wh_1"), .register (endpointSample "wh_2"), .emit "tenant_dev" .runFailed [],
    .start 0 t "", .posted 0 true "", .save 0, .start 0 u "", .posted 0 false "", .posted 0 false "", .save 0,
    .finish 0]

def EmitCall.isSettled (call : EmitCall) : Bool :=
  match call.pc with
  | .settled => true
  | _ => false

/-- What the run of the sample ends with. -/
theorem emitSample_run {t u : Nat} {ended : List Bool} {made stored : List DeliverySummary}
    (h : (EventSystem.exec (WebhookSystem.step 2) .init (emitSample t u)).map (fun s => (s.calls.map EmitCall.isSettled,
        s.made.map DispatchMade.summary, s.deliveries.values.map WebhookDelivery.summary)) =
      some (ended, made, stored)) (hended : false ∉ ended) :
    ∃ s, EventSystem.exec (WebhookSystem.step 2) .init (emitSample t u) = some s ∧ s.Settled ∧
      s.made.map DispatchMade.summary = made ∧ s.deliveries.values.map WebhookDelivery.summary = stored := by
  obtain ⟨s, hs, hvalues⟩ := Option.map_eq_some_iff.1 h
  simp only [Prod.mk.injEq] at hvalues
  refine ⟨s, hs, fun call hcall => ?_, hvalues.2⟩
  have hsettled : call.isSettled = true := by
    rw [← Bool.not_eq_false]
    intro hnot
    refine hended ?_
    rw [← hvalues.1, ← hnot]
    exact List.mem_map_of_mem hcall
  obtain ⟨event, payload, pc⟩ := call
  cases pc with
  | settled => rfl
  | listed _ | dispatching _ _ _ _ | dispatched _ _ => cases hsettled

/-- Where both start in one millisecond the second record replaces the first. -/
theorem deliveries_lost : ∃ s, EventSystem.exec (WebhookSystem.step 2) .init (emitSample 7 7) = some s ∧ s.Settled ∧
    s.made.map DispatchMade.summary =
      [⟨"wh_1", .runFailed, .delivered, 1⟩, ⟨"wh_2", .runFailed, .failed, 2⟩] ∧
    s.deliveries.values.map WebhookDelivery.summary = [⟨"wh_2", .runFailed, .failed, 2⟩] :=
  @emitSample_run 7 7 [true] _ _ (by decide +kernel) (by decide)

/-- Where they start in different ones both have their record. -/
theorem deliveries_kept_iff_sample : ∃ s, EventSystem.exec (WebhookSystem.step 2) .init (emitSample 7 8) = some s ∧
    s.Settled ∧ (s.made.map DispatchMade.summary).Subperm (s.deliveries.values.map WebhookDelivery.summary) := by
  obtain ⟨s, hs, hsettled, _⟩ := @emitSample_run 7 8 [true]
    [⟨"wh_1", .runFailed, .delivered, 1⟩, ⟨"wh_2", .runFailed, .failed, 2⟩]
    [⟨"wh_1", .runFailed, .delivered, 1⟩, ⟨"wh_2", .runFailed, .failed, 2⟩] (by decide +kernel) (by decide)
  exact ⟨s, hs, hsettled, (deliveries_kept_iff hs hsettled).2 (by decide)⟩

end Jobflow
