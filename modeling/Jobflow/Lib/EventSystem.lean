import Mathlib.Data.List.Basic
import Mathlib.Data.List.Induction

/-!
# Systems driven by events

A system is a partial step function `σ → ε → Option σ`: an event that is not enabled gives `none`,
and everything nondeterministic (a reply from outside, a clock reading, which party moves) is part
of the event. A run is a list of events.

* `exec_invariant`: what every admissible step preserves, every admissible run preserves.
* `exec_toward`: the same where the step rule may use the rest of the run.
* `exec_first`: the step that brings a property about.
* `exec_history`: invariants that speak of the events taken so far.
* `trace`: what an observer sees of a run.
* `along_iff_forall`: the steps of a run one by one.
* `Along.of_invariant`, `along_iff`, `along_iff_within`: from a condition on every step of a run to a property of
  every step.
* `exec_of_not_along`: what a step that breaks the condition leaves behind.
* `exec_feed_done`: when every event of some kind is enabled and lowers a measure until the state is
  done, any feed of such events brings it there.
-/

namespace EventSystem

variable {σ ε : Type}

/-- Run the events in order; `none` when one of them is not enabled. -/
def exec (step : σ → ε → Option σ) : σ → List ε → Option σ
  | s, [] => some s
  | s, e :: es => (step s e).bind fun s' => exec step s' es

@[simp] theorem exec_nil (step : σ → ε → Option σ) (s : σ) : exec step s [] = some s := rfl

theorem exec_cons {step : σ → ε → Option σ} {s s' : σ} {e : ε} {es : List ε} :
    exec step s (e :: es) = some s' ↔ ∃ m, step s e = some m ∧ exec step m es = some s' := by
  simp [exec, Option.bind_eq_some_iff]

theorem exec_append {step : σ → ε → Option σ} {s s' : σ} {es fs : List ε} :
    exec step s (es ++ fs) = some s' ↔ ∃ m, exec step s es = some m ∧ exec step m fs = some s' := by
  induction es generalizing s with
  | nil => simp
  | cons e es ih =>
    rw [List.cons_append, exec_cons]
    constructor
    · rintro ⟨m, hm, h⟩
      obtain ⟨n, hn, hs⟩ := ih.1 h
      exact ⟨n, exec_cons.2 ⟨m, hm, hn⟩, hs⟩
    · rintro ⟨n, hn, hs⟩
      obtain ⟨m, hm, h⟩ := exec_cons.1 hn
      exact ⟨m, hm, ih.2 ⟨n, h, hs⟩⟩

theorem exec_snoc {step : σ → ε → Option σ} {s s' : σ} {es : List ε} {e : ε} :
    exec step s (es ++ [e]) = some s' ↔ ∃ m, exec step s es = some m ∧ step m e = some s' := by
  rw [exec_append]
  simp [exec]

/-- Some run leads from `init` to `s`. -/
def Reachable (step : σ → ε → Option σ) (init s : σ) : Prop := ∃ es, exec step init es = some s

theorem Reachable.exec {step : σ → ε → Option σ} {init s s' : σ} {es : List ε} (h : Reachable step init s)
    (hs : exec step s es = some s') : Reachable step init s' := by
  obtain ⟨fs, hf⟩ := h
  exact ⟨fs ++ es, exec_append.2 ⟨s, hf, hs⟩⟩

/-! ## Invariants -/

/-- What every admissible step preserves, every run of admissible events preserves. -/
theorem exec_invariant {step : σ → ε → Option σ} {I : σ → Prop} {ok : ε → Prop}
    (hstep : ∀ s e s', I s → ok e → step s e = some s' → I s') {es : List ε} :
    ∀ {s s' : σ}, I s → (∀ e ∈ es, ok e) → exec step s es = some s' → I s' := by
  induction es with
  | nil =>
    intro s s' hI _ h
    cases h
    exact hI
  | cons e es ih =>
    intro s s' hI hok h
    obtain ⟨m, hm, h⟩ := exec_cons.1 h
    exact ih (hstep s e m hI (hok e List.mem_cons_self) hm)
      (fun e' he' => hok e' (List.mem_cons_of_mem _ he')) h

/-- What holds because of where the run leads: the step rule may use the rest of the run. -/
theorem exec_toward {step : σ → ε → Option σ} {I : σ → Prop} {s' : σ}
    (hstep : ∀ s e m es, I s → step s e = some m → exec step m es = some s' → I m) {es : List ε} :
    ∀ {s : σ}, I s → exec step s es = some s' → I s' := by
  induction es with
  | nil =>
    intro s hI h
    cases h
    exact hI
  | cons e es ih =>
    intro s hI h
    obtain ⟨m, hm, h⟩ := exec_cons.1 h
    exact ih (hstep s e m es hI hm h) h

/-- The step that brings `P` about. -/
theorem exec_first {step : σ → ε → Option σ} {P : σ → Prop} {s' : σ} {es : List ε} :
    ∀ {s : σ}, exec step s es = some s' → ¬ P s → P s' → ∃ before e after m m', es = before ++ e :: after ∧
      exec step s before = some m ∧ ¬ P m ∧ step m e = some m' ∧ P m' ∧ exec step m' after = some s' := by
  induction es with
  | nil =>
    intro s h hs hs'
    cases h
    exact absurd hs' hs
  | cons e es ih =>
    intro s h hs hs'
    obtain ⟨m, hm, h⟩ := exec_cons.1 h
    by_cases hP : P m
    · exact ⟨[], e, es, s, m, rfl, rfl, hs, hm, hP, h⟩
    · obtain ⟨before, e', after, n, n', rfl, hn, hPn, hstep, hPn', hafter⟩ := ih h hP hs'
      exact ⟨e :: before, e', after, n, n', rfl, exec_cons.2 ⟨m, hm, hn⟩, hPn, hstep, hPn', hafter⟩

/-- An invariant of every reachable state, with no restriction on the events. -/
theorem Reachable.invariant {step : σ → ε → Option σ} {I : σ → Prop} {init s : σ} (hinit : I init)
    (hstep : ∀ s e s', I s → step s e = some s' → I s') (h : Reachable step init s) : I s := by
  obtain ⟨es, hes⟩ := h
  exact exec_invariant (fun s e s' hI (_ : True) => hstep s e s' hI) hinit (fun _ _ => trivial) hes

/-! ## Properties of every step -/

/-- `P` holds of every step of the run, as far as it goes. -/
def Along (step : σ → ε → Option σ) (P : σ → ε → σ → Prop) : σ → List ε → Prop
  | _, [] => True
  | s, e :: es => match step s e with
    | none => True
    | some s' => P s e s' ∧ Along step P s' es

/-- Every step is as `C` wants it: then it is as `P` wants it, if `C` gives `P` under an invariant. -/
theorem Along.of_invariant {step : σ → ε → Option σ} {I : σ → Prop} {ok : ε → Prop} {C P : σ → ε → σ → Prop}
    (h : ∀ s e s', I s → ok e → step s e = some s' → C s e s' → P s e s' ∧ I s') {es : List ε} :
    ∀ {s : σ}, I s → (∀ e ∈ es, ok e) → Along step C s es → Along step P s es := by
  induction es with
  | nil => exact fun _ _ _ => trivial
  | cons e es ih =>
    intro s hI hok hC
    unfold Along at hC ⊢
    cases hstep : step s e with
    | none => trivial
    | some m =>
      rw [hstep] at hC
      obtain ⟨hP, hI'⟩ := h s e m hI (hok e List.mem_cons_self) hstep hC.1
      exact ⟨hP, ih hI' (fun e' he' => hok e' (List.mem_cons_of_mem _ he')) hC.2⟩

/-- An invariant that holds as long as every step is as `C` wants it. -/
theorem Along.invariant {step : σ → ε → Option σ} {I : σ → Prop} {ok : ε → Prop} {C : σ → ε → σ → Prop}
    (h : ∀ s e s', I s → ok e → step s e = some s' → C s e s' → I s') {es : List ε} :
    ∀ {s s' : σ}, I s → (∀ e ∈ es, ok e) → Along step C s es → exec step s es = some s' → I s' := by
  induction es with
  | nil =>
    intro s s' hI _ _ hs
    cases hs
    exact hI
  | cons e es ih =>
    intro s s' hI hok hC hs
    obtain ⟨m, hm, hs⟩ := exec_cons.1 hs
    unfold Along at hC
    rw [hm] at hC
    exact ih (h s e m hI (hok e List.mem_cons_self) hm hC.1) (fun e' he' => hok e' (List.mem_cons_of_mem _ he'))
      hC.2 hs

theorem along_append {step : σ → ε → Option σ} {P : σ → ε → σ → Prop} {es fs : List ε} :
    ∀ {s : σ}, Along step P s (es ++ fs) ↔ Along step P s es ∧ ∀ m, exec step s es = some m → Along step P m fs := by
  induction es with
  | nil => simp [Along]
  | cons e es ih =>
    intro s
    rw [List.cons_append, Along, Along]
    cases hstep : step s e with
    | none => simp [exec, hstep]
    | some m => simp [exec, hstep, ih, and_assoc]

/-- Every step of a run is found by cutting the run in two. -/
theorem along_iff_forall {step : σ → ε → Option σ} {P : σ → ε → σ → Prop} {s' : σ} {es : List ε} :
    ∀ {s : σ}, exec step s es = some s' → (Along step P s es ↔ ∀ before e after m m', es = before ++ e :: after →
      exec step s before = some m → step m e = some m' → P m e m') := by
  induction es with
  | nil =>
    intro s _
    refine ⟨fun _ before e after _ _ h => ?_, fun _ => trivial⟩
    simp at h
  | cons e es ih =>
    intro s h
    obtain ⟨m, hm, h⟩ := exec_cons.1 h
    rw [Along, hm]
    constructor
    · rintro ⟨hfirst, hrest⟩ before e' after n n' hsplit hn hstep
      cases before with
      | nil =>
        obtain ⟨rfl, rfl⟩ := List.cons.inj hsplit
        cases hn
        cases hm.symm.trans hstep
        exact hfirst
      | cons f before =>
        obtain ⟨rfl, rfl⟩ := List.cons.inj hsplit
        obtain ⟨m', hm', hn⟩ := exec_cons.1 hn
        cases hm.symm.trans hm'
        exact (ih h).1 hrest before e' after n n' rfl hn hstep
    · intro hall
      refine ⟨hall [] e es s m rfl rfl hm, (ih h).2 fun before e' after n n' hsplit hn hstep => ?_⟩
      exact hall (e :: before) e' after n n' (congrArg (e :: ·) hsplit) (exec_cons.2 ⟨m, hm, hn⟩) hstep

/-- What a step that is not as `C` wants it brings about and every later step keeps, holds in the end. -/
theorem exec_of_not_along {step : σ → ε → Option σ} {J Q : σ → Prop} {C : σ → ε → σ → Prop}
    (hJ : ∀ s e s', J s → step s e = some s' → J s')
    (hnew : ∀ s e s', J s → step s e = some s' → ¬ C s e s' → Q s')
    (hkeep : ∀ s e s', J s → Q s → step s e = some s' → Q s') {es : List ε} :
    ∀ {s s' : σ}, J s → exec step s es = some s' → ¬ Along step C s es → Q s' := by
  induction es with
  | nil => exact fun _ _ hC => absurd trivial hC
  | cons e es ih =>
    intro s s' hs h hC
    obtain ⟨m, hm, h⟩ := exec_cons.1 h
    have hJm := hJ s e m hs hm
    unfold Along at hC
    rw [hm] at hC
    by_cases hfirst : C s e m
    · exact ih hJm h fun hrest => hC ⟨hfirst, hrest⟩
    · exact (exec_invariant (I := fun x => J x ∧ Q x)
        (fun x e x' hx (_ : True) hstep => ⟨hJ x e x' hx.1 hstep, hkeep x e x' hx.1 hx.2 hstep⟩)
        ⟨hJm, hnew s e m hs hm hfirst⟩ (fun _ _ => trivial) h).2

/-- Where `C` and `P` say the same of each step under an invariant that `C` keeps, they say the same of the runs that
are as `K` wants them. -/
theorem along_iff_within {step : σ → ε → Option σ} {I : σ → Prop} {K C P : σ → ε → σ → Prop}
    (h : ∀ s e s', I s → K s e s' → step s e = some s' → (P s e s' ↔ C s e s') ∧ (C s e s' → I s')) {es : List ε} :
    ∀ {s : σ}, I s → Along step K s es → (Along step P s es ↔ Along step C s es) := by
  induction es with
  | nil => exact fun _ _ => Iff.rfl
  | cons e es ih =>
    intro s hI hK
    unfold Along at hK ⊢
    cases hstep : step s e with
    | none => exact Iff.rfl
    | some m =>
      rw [hstep] at hK
      obtain ⟨hiff, hkeep⟩ := h s e m hI hK.1 hstep
      have hrest : I m → (Along step P m es ↔ Along step C m es) := fun hI' => ih hI' hK.2
      constructor
      · rintro ⟨hP, hPs⟩
        exact ⟨hiff.1 hP, (hrest (hkeep (hiff.1 hP))).1 hPs⟩
      · rintro ⟨hC, hCs⟩
        exact ⟨hiff.2 hC, (hrest (hkeep hC)).2 hCs⟩

/-- What is asked of the events alone. -/
theorem Along.of_forall {step : σ → ε → Option σ} {ok : ε → Prop} {es : List ε} :
    ∀ {s : σ}, (∀ e ∈ es, ok e) → Along step (fun _ e _ => ok e) s es := by
  induction es with
  | nil => exact fun _ => trivial
  | cons e es ih =>
    intro s hok
    unfold Along
    cases step s e with
    | none => trivial
    | some m => exact ⟨hok e List.mem_cons_self, ih fun e' he' => hok e' (List.mem_cons_of_mem _ he')⟩

theorem along_iff {step : σ → ε → Option σ} {I : σ → Prop} {ok : ε → Prop} {C P : σ → ε → σ → Prop}
    (h : ∀ s e s', I s → ok e → step s e = some s' → (P s e s' ↔ C s e s') ∧ (C s e s' → I s')) {es : List ε}
    {s : σ} (hI : I s) (hok : ∀ e ∈ es, ok e) : Along step P s es ↔ Along step C s es :=
  along_iff_within h hI (Along.of_forall hok)

instance instDecidableAlong (step : σ → ε → Option σ) (P : σ → ε → σ → Prop) [∀ s e s', Decidable (P s e s')] :
    (s : σ) → (es : List ε) → Decidable (Along step P s es)
  | _, [] => isTrue trivial
  | s, e :: es =>
    match h : step s e with
    | none => isTrue (by simp [Along, h])
    | some s' =>
      have := instDecidableAlong step P s' es
      decidable_of_iff (P s e s' ∧ Along step P s' es) (by simp [Along, h])

/-! ## The events taken so far -/

/-- A rule for facts about the past: `I` holds of no events at first, and a step that is as `C` wants it adds an
event. -/
theorem exec_history {step : σ → ε → Option σ} {C : σ → ε → σ → Prop} {I : List ε → σ → Prop} {init : σ}
    (hinit : I [] init)
    (hstep : ∀ past e s s', exec step init past = some s → I past s → step s e = some s' → C s e s' →
      I (past ++ [e]) s') (es : List ε) :
    ∀ {s : σ}, exec step init es = some s → Along step C init es → I es s := by
  induction es using List.reverseRecOn with
  | nil =>
    intro s hs _
    cases hs
    exact hinit
  | append_singleton past e ih =>
    intro s hs hC
    obtain ⟨m, hm, hs⟩ := exec_snoc.1 hs
    obtain ⟨hpast, hlast⟩ := along_append.1 hC
    have hC' := hlast m hm
    unfold Along at hC'
    rw [hs] at hC'
    exact hstep past e m s hm (ih hm hpast) hs hC'.1

/-- What an observer sees of the steps of a run, as far as it goes. -/
def trace {α : Type} (step : σ → ε → Option σ) (observe : σ → ε → Option α) : σ → List ε → List α
  | _, [] => []
  | s, e :: es => match step s e with
    | none => []
    | some s' => (observe s e).toList ++ trace step observe s' es

theorem trace_snoc {α : Type} {step : σ → ε → Option σ} {observe : σ → ε → Option α} {m s' : σ} {e : ε}
    (hstep : step m e = some s') {es : List ε} :
    ∀ {s : σ}, exec step s es = some m →
      trace step observe s (es ++ [e]) = trace step observe s es ++ (observe m e).toList := by
  induction es with
  | nil =>
    intro s hs
    cases hs
    simp [trace, hstep]
  | cons f es ih =>
    intro s hs
    obtain ⟨n, hn, hs⟩ := exec_cons.1 hs
    rw [List.cons_append, trace, trace, hn]
    dsimp only
    rw [ih hs, List.append_assoc]

/-- Something is seen of every step. -/
theorem length_trace {α : Type} {step : σ → ε → Option σ} {observe : σ → ε → Option α}
    (hobserve : ∀ s e s', step s e = some s' → (observe s e).isSome) {es : List ε} :
    ∀ {s s' : σ}, exec step s es = some s' → (trace step observe s es).length = es.length := by
  induction es with
  | nil => exact fun _ => rfl
  | cons e es ih =>
    intro s s' hs
    obtain ⟨m, hm, hs⟩ := exec_cons.1 hs
    obtain ⟨a, ha⟩ := Option.isSome_iff_exists.1 (hobserve s e m hm)
    simp [trace, hm, ha, ih hs]

/-! ## Coming to an end -/

/-- While the state is not done every chosen event is enabled, keeps `I` and lowers the measure: then
any feed of chosen events is done after at most `μ s` of them. -/
theorem exec_feed_done {step : σ → ε → Option σ} {I done : σ → Prop} {chosen : ε → Prop} (μ : σ → Nat)
    (hstep : ∀ s e, I s → ¬ done s → chosen e → ∃ s', step s e = some s' ∧ I s' ∧ μ s' < μ s) :
    ∀ (n : Nat) (s : σ), μ s ≤ n → I s → ∀ feed : Nat → ε, (∀ k, chosen (feed k)) →
      ∃ k s', k ≤ n ∧ exec step s ((List.range k).map feed) = some s' ∧ done s' ∧ I s' := by
  intro n
  induction n with
  | zero =>
    intro s hμ hI feed hfeed
    by_cases hd : done s
    · exact ⟨0, s, Nat.le_refl 0, rfl, hd, hI⟩
    · obtain ⟨s', _, _, hlt⟩ := hstep s (feed 0) hI hd (hfeed 0)
      omega
  | succ n ih =>
    intro s hμ hI feed hfeed
    by_cases hd : done s
    · exact ⟨0, s, Nat.zero_le _, rfl, hd, hI⟩
    · obtain ⟨s₁, h₁, hI₁, hlt⟩ := hstep s (feed 0) hI hd (hfeed 0)
      obtain ⟨k, s', hk, hes, hd', hI'⟩ := ih s₁ (by omega) hI₁ (fun k => feed (k + 1)) (fun k => hfeed (k + 1))
      refine ⟨k + 1, s', by omega, ?_, hd', hI'⟩
      rw [List.range_succ_eq_map, List.map_cons, List.map_map]
      exact exec_cons.2 ⟨s₁, h₁, hes⟩

end EventSystem
