import Mathlib.Data.List.Sort
import Jobflow.Js.Value
import Jobflow.Lib.EventSystem

/-!
# Migrations (src/migrations/runner.ts)

Calls of `migrate` share the set of applied versions and are suspended at each `up`. Whatever calls overlap, and
whichever `up` fails, the versions that are applied have all lower ones below them (`migrations_in_order`). That no
migration runs twice needs calls that do not overlap (`migrations_once`).
-/

namespace Jobflow

open EventSystem

/-! ## The source -/

/-- `up` is called and awaited; what it does is left to the replies. -/
structure Migration where
  version : Int
  name : String
  deriving DecidableEq

/-- Where a call of `migrate` stands. -/
inductive MigratePc where
  /-- At `await m.up()`, with the rest of the loop and the count. -/
  | awaiting (m : Migration) (rest : List Migration) (count : Nat)
  | settled (result : Except Js.Exception Nat)

def MigratePc.IsSettled : MigratePc → Prop
  | .awaiting _ _ _ => False
  | .settled _ => True

structure MigrateCall where
  target : Option Int
  pc : MigratePc

/-- `applied` is a set, which keeps the order in which its elements were added; `logged` are the migrations of which the
log says that they were applied. -/
structure MigrationRunner where
  applied : List Int
  logged : List Migration
  calls : List MigrateCall

def sortMigrations (all : List Migration) : List Migration := all.insertionSort fun a b => a.version - b.version ≤ 0

/-- The loop up to the next `up` or to the end (runner.ts:19-22, 27). -/
def migrateFrom (applied : List Int) (target : Option Int) : List Migration → Nat → MigratePc
  | [], count => .settled (.ok count)
  | m :: rest, count =>
    if target.any fun target => m.version > target then .settled (.ok count)
    else if m.version ∈ applied then migrateFrom applied target rest count
    else .awaiting m rest count

inductive MigrationEvent where
  | migrate (target : Option Int)
  /-- The `up` that a call awaits is done, or fails. -/
  | upSettled (call : Nat) (result : Except Js.Exception Unit)

namespace MigrationRunner

def init : MigrationRunner := ⟨[], [], []⟩

/-- `this.applied.add(version)`. -/
def add (applied : List Int) (version : Int) : List Int :=
  if version ∈ applied then applied else applied ++ [version]

/-- `migrate` (runner.ts:16-29), cut where it awaits. -/
def step (all : List Migration) (s : MigrationRunner) : MigrationEvent → Option MigrationRunner
  | .migrate target =>
    some { s with calls := s.calls ++ [⟨target, migrateFrom s.applied target (sortMigrations all) 0⟩] }
  | .upSettled i result =>
    match s.calls[i]? with
    | some ⟨target, .awaiting m rest count⟩ =>
      match result with
      | .error e => some { s with calls := s.calls.set i ⟨target, .settled (.error e)⟩ }
      | .ok () =>
        let applied := add s.applied m.version
        some
          { applied := applied
            logged := s.logged ++ [m]
            calls := s.calls.set i ⟨target, migrateFrom applied target rest (count + 1)⟩ }
    | _ => none

/-- `currentVersion` (runner.ts:31-33). -/
def currentVersion (s : MigrationRunner) : Int := s.applied.foldl max 0

end MigrationRunner

/-! ## Any interleaving -/

/-- All migrations below a version are applied. -/
def AppliedBelow (all : List Migration) (applied : List Int) (version : Int) : Prop :=
  ∀ m ∈ all, m.version < version → m.version ∈ applied

/-- What a call is owed: below what it awaits everything is applied, it runs what is not above its target, and when it
has returned, everything up to its target is applied. -/
def MigrateCall.Ordered (all : List Migration) (applied : List Int) (call : MigrateCall) : Prop :=
  match call.pc with
  | .awaiting m rest _ => AppliedBelow all applied m.version ∧ m ∈ all ∧ (∀ target ∈ call.target, m.version ≤ target) ∧
      (m :: rest).Pairwise (fun a b => a.version ≤ b.version) ∧ (∀ n ∈ rest, n ∈ all) ∧
      ∀ n ∈ all, n ∈ rest ∨ n.version ≤ m.version
  | .settled (.ok _) => ∀ m ∈ all, (∀ target ∈ call.target, m.version ≤ target) → m.version ∈ applied
  | .settled (.error _) => True

/-- The versions that are applied are those of some migrations, each once, and none is missing below another. -/
structure MigrationRunner.InOrder (all : List Migration) (s : MigrationRunner) : Prop where
  nodup : s.applied.Nodup
  logged : ∀ v, v ∈ s.applied ↔ ∃ m ∈ s.logged, m.version = v
  known : ∀ m ∈ s.logged, m ∈ all
  below : ∀ v ∈ s.applied, AppliedBelow all s.applied v
  calls : ∀ call ∈ s.calls, call.Ordered all s.applied

section
variable {all : List Migration} {applied applied' : List Int} {target : Option Int}

theorem AppliedBelow.mono {version : Int} (h : AppliedBelow all applied version) (hsub : applied ⊆ applied') :
    AppliedBelow all applied' version := fun m hm hlt => hsub (h m hm hlt)

theorem MigrateCall.Ordered.mono {call : MigrateCall} (h : call.Ordered all applied) (hsub : applied ⊆ applied') :
    call.Ordered all applied' := by
  unfold MigrateCall.Ordered at *
  split at h
  · obtain ⟨hbelow, hrest⟩ := h
    exact ⟨hbelow.mono hsub, hrest⟩
  · exact fun m hm htarget => hsub (h m hm htarget)
  · trivial

/-- The loop keeps what it owes: what is before the rest of it is applied. -/
theorem ordered_migrateFrom {rest : List Migration} {count : Nat}
    (hsorted : rest.Pairwise fun a b => a.version ≤ b.version) (hrest : ∀ n ∈ rest, n ∈ all)
    (hdone : ∀ n ∈ all, n ∈ rest ∨ n.version ∈ applied ∧ ∀ m ∈ rest, n.version ≤ m.version) :
    MigrateCall.Ordered all applied ⟨target, migrateFrom applied target rest count⟩ := by
  induction rest with
  | nil => exact fun m hm _ => ((hdone m hm).resolve_left List.not_mem_nil).1
  | cons m rest ih =>
    obtain ⟨hm, htail⟩ := List.pairwise_cons.1 hsorted
    have hbelow : ∀ n ∈ all, n.version < m.version → n.version ∈ applied := by
      intro n hn hlt
      rcases hdone n hn with hmem | ⟨hmem, _⟩
      · rcases List.mem_cons.1 hmem with rfl | hmem
        · exact absurd hlt (Int.lt_irrefl _)
        · exact absurd hlt (Int.not_lt.2 (hm n hmem))
      · exact hmem
    unfold migrateFrom
    split_ifs with htarget happlied
    · obtain ⟨t, rfl, hlt⟩ := (Option.any_eq_true _ _).1 htarget
      intro n hn hle
      exact hbelow n hn (Int.lt_of_le_of_lt (hle t rfl) (of_decide_eq_true hlt))
    · refine ih htail (fun n hn => hrest n (List.mem_cons_of_mem _ hn)) fun n hn => ?_
      rcases hdone n hn with hmem | ⟨hmem, hle⟩
      · rcases List.mem_cons.1 hmem with rfl | hmem
        · exact .inr ⟨happlied, hm⟩
        · exact .inl hmem
      · exact .inr ⟨hmem, fun k hk => hle k (List.mem_cons_of_mem _ hk)⟩
    · refine ⟨hbelow, hrest m List.mem_cons_self, ?_, hsorted, fun n hn => hrest n (List.mem_cons_of_mem _ hn), ?_⟩
      · intro t ht
        by_contra hlt
        exact htarget ((Option.any_eq_true _ _).2 ⟨t, ht, decide_eq_true (Int.not_le.1 hlt)⟩)
      · intro n hn
        rcases hdone n hn with hmem | ⟨_, hle⟩
        · rcases List.mem_cons.1 hmem with rfl | hmem
          · exact .inr (Int.le_refl _)
          · exact .inl hmem
        · exact .inr (hle m List.mem_cons_self)

theorem pairwise_sortMigrations (all : List Migration) :
    (sortMigrations all).Pairwise fun a b => a.version ≤ b.version := by
  let le : Migration → Migration → Prop := fun a b => a.version - b.version ≤ 0
  have : Std.Total le := ⟨fun a b => by
    show a.version - b.version ≤ 0 ∨ b.version - a.version ≤ 0
    omega⟩
  have : IsTrans Migration le := ⟨fun a b c (hab : _ ≤ _) (hbc : _ ≤ _) => by
    show a.version - c.version ≤ 0
    omega⟩
  exact (List.pairwise_insertionSort le all).imp fun {a b} (h : a.version - b.version ≤ 0) => by omega

theorem ordered_migrate (all : List Migration) (applied : List Int) (target : Option Int) :
    MigrateCall.Ordered all applied ⟨target, migrateFrom applied target (sortMigrations all) 0⟩ := by
  have hmem (n : Migration) : n ∈ sortMigrations all ↔ n ∈ all := (List.perm_insertionSort _ all).mem_iff
  exact ordered_migrateFrom (pairwise_sortMigrations all) (fun n hn => (hmem n).1 hn) fun n hn => .inl ((hmem n).2 hn)

/-- The rest of a loop whose `up` is done. -/
theorem ordered_resume {m : Migration} {rest : List Migration} {count : Nat}
    (h : MigrateCall.Ordered all applied ⟨target, .awaiting m rest count⟩) (hsub : applied ⊆ applied')
    (hm : m.version ∈ applied') :
    MigrateCall.Ordered all applied' ⟨target, migrateFrom applied' target rest (count + 1)⟩ := by
  obtain ⟨hbelow, _, _, hsorted, hrest, hdone⟩ := h
  obtain ⟨hfirst, hsorted⟩ := List.pairwise_cons.1 hsorted
  refine ordered_migrateFrom hsorted hrest fun n hn => ?_
  rcases hdone n hn with hmem | hle
  · exact .inl hmem
  · refine .inr ⟨?_, fun k hk => Int.le_trans hle (hfirst k hk)⟩
    rcases Int.lt_or_eq_of_le hle with hlt | heq
    · exact hsub (hbelow n hn hlt)
    · exact heq ▸ hm

end

/-! ## One step -/

namespace MigrationRunner

theorem mem_add {applied : List Int} {v w : Int} : w ∈ add applied v ↔ w ∈ applied ∨ w = v := by
  unfold add
  split_ifs with h
  · exact ⟨.inl, fun hw => hw.elim id fun heq => heq ▸ h⟩
  · rw [List.mem_append, List.mem_singleton]

theorem nodup_add {applied : List Int} (h : applied.Nodup) (v : Int) : (add applied v).Nodup := by
  unfold add
  split_ifs with hv
  · exact h
  · exact List.nodup_append.2 ⟨h, List.nodup_singleton v, fun a ha b hb => by
      rw [List.mem_singleton.1 hb]
      exact fun heq => hv (heq ▸ ha)⟩

/-- What an event does to the runner. -/
inductive Step (all : List Migration) (s : MigrationRunner) : MigrationEvent → MigrationRunner → Prop where
  | called (target : Option Int) : Step all s (.migrate target)
      { s with calls := s.calls ++ [⟨target, migrateFrom s.applied target (sortMigrations all) 0⟩] }
  | failed {i count : Nat} {target : Option Int} {m : Migration} {rest : List Migration} {e : Js.Exception}
      (hi : s.calls[i]? = some ⟨target, .awaiting m rest count⟩) : Step all s (.upSettled i (.error e))
      { s with calls := s.calls.set i ⟨target, .settled (.error e)⟩ }
  | applied {i count : Nat} {target : Option Int} {m : Migration} {rest : List Migration}
      (hi : s.calls[i]? = some ⟨target, .awaiting m rest count⟩) : Step all s (.upSettled i (.ok ()))
      { applied := add s.applied m.version
        logged := s.logged ++ [m]
        calls := s.calls.set i ⟨target, migrateFrom (add s.applied m.version) target rest (count + 1)⟩ }

theorem step_cases {all : List Migration} {s s' : MigrationRunner} {e : MigrationEvent} (h : step all s e = some s') :
    Step all s e s' := by
  cases e with
  | migrate target =>
    cases h
    exact .called target
  | upSettled i result =>
    simp only [step] at h
    split at h
    · rename_i target m rest count hi
      cases result with
      | error e =>
        cases h
        exact .failed hi
      | ok _ =>
        cases h
        exact .applied hi
    · cases h

theorem inOrder_init (all : List Migration) : InOrder all init where
  nodup := List.nodup_nil
  logged v := by simp [init]
  known _ h := absurd h List.not_mem_nil
  below _ h := absurd h List.not_mem_nil
  calls _ h := absurd h List.not_mem_nil

theorem InOrder.step {all : List Migration} {s s' : MigrationRunner} {e : MigrationEvent} (hs : s.InOrder all)
    (h : s.step all e = some s') : s'.InOrder all := by
  cases step_cases h with
  | called target =>
    refine { hs with calls := fun call hcall => ?_ }
    rcases List.mem_append.1 hcall with hcall | hcall
    · exact hs.calls call hcall
    · rw [List.mem_singleton.1 hcall]
      exact ordered_migrate all s.applied target
  | failed hi =>
    refine { hs with calls := fun call hcall => ?_ }
    rcases List.mem_or_eq_of_mem_set hcall with hcall | rfl
    · exact hs.calls call hcall
    · trivial
  | @applied i count target m rest hi =>
    have hcall := hs.calls _ (List.mem_of_getElem? hi)
    have hsub : s.applied ⊆ add s.applied m.version := fun v hv => mem_add.2 (.inl hv)
    have hm : m.version ∈ add s.applied m.version := mem_add.2 (.inr rfl)
    refine ⟨nodup_add hs.nodup _, fun v => ?_, fun n hn => ?_, fun v hv => ?_, fun call hmem => ?_⟩
    · rw [mem_add, hs.logged]
      simp only [List.mem_append, List.mem_singleton, or_and_right, exists_or, exists_eq_left]
      exact or_congr Iff.rfl eq_comm
    · rcases List.mem_append.1 hn with hn | hn
      · exact hs.known n hn
      · exact List.mem_singleton.1 hn ▸ hcall.2.1
    · rcases mem_add.1 hv with hv | rfl
      · exact (hs.below v hv).mono hsub
      · exact hcall.1.mono hsub
    · rcases List.mem_or_eq_of_mem_set hmem with hmem | rfl
      · exact (hs.calls call hmem).mono hsub
      · exact ordered_resume hcall hsub hm

/-! ## Calls that do not overlap -/

/-- `migrate` is called only when all earlier calls have settled. -/
def Alone (s : MigrationRunner) (e : MigrationEvent) (_ : MigrationRunner) : Prop :=
  match e with
  | .migrate _ => ∀ call ∈ s.calls, call.pc.IsSettled
  | .upSettled _ _ => True

theorem getElem?_append_one {α : Type} {l : List α} {a b : α} {k : Nat} (h : (l ++ [a])[k]? = some b) :
    l[k]? = some b ∨ k = l.length := by
  rcases Nat.lt_trichotomy k l.length with hlt | heq | hgt
  · rw [List.getElem?_append_left hlt] at h
    exact .inl h
  · exact .inr heq
  · rw [List.getElem?_eq_none (by simp; omega)] at h
    cases h

/-- At most one call awaits, and what it awaits has not been applied. The migrations that were applied are logged once
each, in the order of their versions. -/
structure Once (all : List Migration) (s : MigrationRunner) : Prop extends s.InOrder all where
  increasing : s.logged.Pairwise fun a b => a.version < b.version
  applied : s.applied = s.logged.map (·.version)
  alone : ∀ (i j : Nat) (c d : MigrateCall), s.calls[i]? = some c → s.calls[j]? = some d →
    c.pc.IsSettled ∨ d.pc.IsSettled ∨ i = j
  fresh : ∀ call ∈ s.calls, ∀ m rest count, call.pc = .awaiting m rest count → m.version ∉ s.applied

theorem migrateFrom_fresh {applied : List Int} {target : Option Int} {m : Migration}
    {rest rest' : List Migration} {count count' : Nat}
    (h : migrateFrom applied target rest count = .awaiting m rest' count') : m.version ∉ applied := by
  induction rest generalizing count with
  | nil => cases h
  | cons n rest ih =>
    unfold migrateFrom at h
    split_ifs at h with _ happlied
    · exact ih h
    · cases h
      exact happlied

/-- A call that is still awaiting is the only one. -/
theorem Once.settled {all : List Migration} {s : MigrationRunner} (hs : s.Once all) {i : Nat} {target : Option Int}
    {m : Migration} {rest : List Migration} {count : Nat} (hi : s.calls[i]? = some ⟨target, .awaiting m rest count⟩)
    {j : Nat} {call : MigrateCall} (hj : s.calls[j]? = some call) (hne : j ≠ i) : call.pc.IsSettled := by
  rcases hs.alone i j _ _ hi hj with h | h | rfl
  · exact h.elim
  · exact h
  · exact absurd rfl hne

/-- When the call that awaited goes on, the others have settled. -/
theorem Once.alone_set {all : List Migration} {s : MigrationRunner} (hs : s.Once all) {i : Nat} {target : Option Int}
    {m : Migration} {rest : List Migration} {count : Nat} (hi : s.calls[i]? = some ⟨target, .awaiting m rest count⟩)
    (call : MigrateCall) (j k : Nat) (c d : MigrateCall) (hj : (s.calls.set i call)[j]? = some c)
    (hk : (s.calls.set i call)[k]? = some d) : c.pc.IsSettled ∨ d.pc.IsSettled ∨ j = k := by
  by_cases hji : j = i
  · by_cases hki : k = i
    · exact .inr (.inr (hji.trans hki.symm))
    · rw [List.getElem?_set_ne (Ne.symm hki)] at hk
      exact .inr (.inl (hs.settled hi hk hki))
  · rw [List.getElem?_set_ne (Ne.symm hji)] at hj
    exact .inl (hs.settled hi hj hji)

theorem once_init (all : List Migration) : init.Once all where
  toInOrder := inOrder_init all
  increasing := List.Pairwise.nil
  applied := rfl
  alone _ _ _ _ h := by simp [init] at h
  fresh _ h := absurd h List.not_mem_nil

theorem Once.step {all : List Migration} {s s' : MigrationRunner} {e : MigrationEvent} (hs : s.Once all)
    (h : s.step all e = some s') (halone : s.Alone e s') : s'.Once all := by
  have horder := hs.toInOrder.step h
  cases step_cases h with
  | called target =>
    refine { horder with increasing := hs.increasing, applied := hs.applied, alone := ?_, fresh := ?_ }
    · have hlast : ∀ (k : Nat) (c : MigrateCall),
          (s.calls ++ [⟨target, migrateFrom s.applied target (sortMigrations all) 0⟩])[k]? = some c →
            c.pc.IsSettled ∨ k = s.calls.length := by
        intro k c hk
        rcases getElem?_append_one hk with hk | hk
        · exact .inl (halone c (List.mem_of_getElem? hk))
        · exact .inr hk
      intro i j c d hi hj
      rcases hlast i c hi with hc | hi
      · exact .inl hc
      · rcases hlast j d hj with hd | hj
        · exact .inr (.inl hd)
        · exact .inr (.inr (hi.trans hj.symm))
    · intro call hcall m rest count hpc
      rcases List.mem_append.1 hcall with hcall | hcall
      · exact hs.fresh call hcall m rest count hpc
      · rw [List.mem_singleton.1 hcall] at hpc
        exact migrateFrom_fresh hpc
  | @failed i count target m rest e hi =>
    refine { horder with increasing := hs.increasing, applied := hs.applied, alone := hs.alone_set hi _, fresh := ?_ }
    · intro call hcall m' rest' count' hpc
      rcases List.mem_or_eq_of_mem_set hcall with hcall | rfl
      · exact hs.fresh call hcall m' rest' count' hpc
      · cases hpc
  | @applied i count target m rest hi =>
    have hfresh := hs.fresh _ (List.mem_of_getElem? hi) m rest count rfl
    have hadd : add s.applied m.version = s.applied ++ [m.version] := if_neg hfresh
    refine { horder with increasing := ?_, applied := ?_, alone := hs.alone_set hi _, fresh := ?_ }
    · refine List.pairwise_append.2 ⟨hs.increasing, List.pairwise_singleton _ _, fun a ha b hb => ?_⟩
      rw [List.mem_singleton.1 hb]
      have hmem : a.version ∈ s.applied := (hs.logged _).2 ⟨a, ha, rfl⟩
      by_contra hge
      rcases Int.lt_or_eq_of_le (Int.not_lt.1 hge) with hlt | heq
      · exact hfresh (hs.below _ hmem m (hs.calls _ (List.mem_of_getElem? hi)).2.1 hlt)
      · exact hfresh (heq ▸ hmem)
    · rw [hadd, List.map_append, hs.applied]
      rfl
    · intro call hcall m' rest' count' hpc
      obtain ⟨j, hj⟩ := List.getElem?_of_mem hcall
      by_cases hji : j = i
      · subst hji
        rw [List.getElem?_set_self (List.getElem?_eq_some_iff.1 hi).1] at hj
        cases hj
        exact migrateFrom_fresh hpc
      · rw [List.getElem?_set_ne (Ne.symm hji)] at hj
        have hsettled := hs.settled hi hj hji
        rw [hpc] at hsettled
        exact hsettled.elim

/-- The highest version that was applied. -/
theorem InOrder.currentVersion_spec {all : List Migration} {s : MigrationRunner} (hs : s.InOrder all)
    (hpos : ∀ m ∈ all, 0 < m.version) {m : Migration} (hm : m ∈ all) :
    m.version ≤ s.currentVersion ↔ m.version ∈ s.applied := by
  have hfold : ∀ (vs : List Int) (a : Int), (∀ v ∈ vs, v ≤ vs.foldl max a) ∧ a ≤ vs.foldl max a ∧
      (vs.foldl max a = a ∨ vs.foldl max a ∈ vs) := by
    intro vs
    induction vs with
    | nil => exact fun a => ⟨nofun, Int.le_refl a, .inl rfl⟩
    | cons v vs ih =>
      intro a
      obtain ⟨hall, hle, hcases⟩ := ih (max a v)
      rw [List.foldl_cons]
      refine ⟨List.forall_mem_cons.2 ⟨by omega, hall⟩, by omega, ?_⟩
      rcases hcases with h | h
      · rcases Int.le_total a v with hav | hav
        · exact .inr (List.mem_cons.2 (.inl (h.trans (max_eq_right hav))))
        · exact .inl (h.trans (max_eq_left hav))
      · exact .inr (List.mem_cons_of_mem _ h)
  obtain ⟨hall, _, hcases⟩ := hfold s.applied 0
  refine ⟨fun hle => ?_, hall m.version⟩
  unfold currentVersion at hle
  rcases hcases with h | h
  · have := hpos m hm
    omega
  · rcases Int.lt_or_eq_of_le hle with hlt | heq
    · exact hs.below _ h m hm hlt
    · exact heq ▸ h

end MigrationRunner

/-- **Migrations are applied in order**: in every run of calls that may overlap, with whatever targets and failures, no
version is applied with one below it missing, no `up` begins before all lower versions are applied, a call that returns
has everything up to its target applied, and the current version says exactly what is applied. If no call begins before
the others have settled, no migration is applied twice. -/
theorem migrations_in_order {all : List Migration} (hpos : ∀ m ∈ all, 0 < m.version) {es : List MigrationEvent}
    {s : MigrationRunner} (h : exec (MigrationRunner.step all) .init es = some s) :
    s.InOrder all ∧ (∀ m ∈ all, m.version ≤ s.currentVersion ↔ m.version ∈ s.applied) ∧
      (Along (MigrationRunner.step all) MigrationRunner.Alone .init es → s.Once all) := by
  have horder : s.InOrder all := exec_invariant (fun s e s' hs (_ : True) hstep => hs.step hstep)
    (MigrationRunner.inOrder_init all) (fun _ _ => trivial) h
  refine ⟨horder, fun m hm => horder.currentVersion_spec hpos hm, fun halone => ?_⟩
  exact Along.invariant (fun s e s' hs (_ : True) hstep hC => hs.step hstep hC) (MigrationRunner.once_init all)
    (fun _ _ => trivial) halone h

/-- `ALL` (runner.ts:6). -/
def allMigrations : List Migration := [⟨1, "initial_schema"⟩, ⟨2, "audit_log_table"⟩, ⟨3, "webhook_endpoints"⟩]

/-- A call up to version 2 fails at its second `up` while a call without a target waits for its first. -/
def overlappingRun : List MigrationEvent :=
  [.migrate (some 2), .migrate none, .upSettled 0 (.ok ()), .upSettled 0 (.error (.error "locked")),
    .upSettled 1 (.ok ())]

/-- Both calls run the first migration. -/
theorem migrations_in_order_overlapping : ∃ s, exec (MigrationRunner.step allMigrations) .init overlappingRun = some s ∧
    s.logged.map (·.version) = [1, 1] ∧ s.currentVersion = 1 ∧ s.InOrder allMigrations := by
  obtain ⟨s, hs⟩ : ∃ s, exec (MigrationRunner.step allMigrations) .init overlappingRun = some s := ⟨_, rfl⟩
  refine ⟨s, hs, ?_, ?_, (migrations_in_order (by decide) hs).1⟩
  all_goals
    obtain rfl := Option.some.inj hs
    decide

end Jobflow
