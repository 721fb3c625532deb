import Mathlib.Data.List.Induction

/-!
# Labelled partial transitions

A system is an option-valued step function whose label says which party moves
and how.  `none` means that the label is not enabled, so a schedule is a list
of labels and a run is one successful execution of a schedule.

The module keeps to what every invariant proof needs: how schedules compose,
the induction rule over the history of a run, and the predicate transformer
`Along`, which states that every step of a run was taken under some condition.
-/

namespace Xv6.Transition

open Option

universe u v

variable {σ : Type u} {α : Type v}

/-- A labelled partial transition. -/
abbrev Step (σ : Type u) (α : Type v) := σ → α → Option σ

/-- Execute a schedule from left to right.  A disabled label fails the run. -/
def run (next : Step σ α) : σ → List α → Option σ
  | state, [] => some state
  | state, label :: labels =>
    (next state label).bind fun target => run next target labels

variable {next : Step σ α} {state target : σ} {label : α} {labels : List α}

theorem run_cons_eq_some_iff :
    run next state (label :: labels) = some target ↔
      ∃ middle, next state label = some middle ∧ run next middle labels = some target := by
  exact bind_eq_some_iff

/-- Concatenated schedules run one after the other. -/
theorem run_append (next : Step σ α) (state : σ) (first second : List α) :
    run next state (first ++ second) =
      (run next state first).bind fun middle => run next middle second := by
  induction first generalizing state with
  | nil => rfl
  | cons label labels ih =>
    simp only [run, bind_assoc]
    exact congrArg _ (funext ih)

variable {first second : List α}

theorem run_append_eq_some_iff :
    run next state (first ++ second) = some target ↔
      ∃ middle, run next state first = some middle ∧ run next middle second = some target := by
  rw [run_append]
  exact bind_eq_some_iff

theorem run_concat_eq_some_iff :
    run next state (labels ++ [label]) = some target ↔
      ∃ middle, run next state labels = some middle ∧ next middle label = some target := by
  rw [run_append_eq_some_iff]
  simp [run]

variable {start : σ}

/-- Induction on the history of a run: the property may mention the labels
taken so far and is extended at the newest step. -/
theorem run_induction (property : List α → σ → Prop) (initial : property [] start)
    (extend : ∀ labels state label target, run next start labels = some state →
      property labels state → next state label = some target →
      property (labels ++ [label]) target) (execution : run next start labels = some target) :
    property labels target := by
  induction labels using List.reverseRecOn generalizing target with
  | nil =>
    cases execution
    exact initial
  | append_singleton labels label ih =>
    obtain ⟨middle, before, last⟩ := run_concat_eq_some_iff.mp execution
    exact extend labels middle label target before (ih before) last

/-- Some schedule leads from the start to the target. -/
def Reachable (next : Step σ α) (start target : σ) : Prop :=
  ∃ labels, run next start labels = some target

theorem Reachable.of_run (execution : run next start labels = some target) :
    Reachable next start target :=
  ⟨labels, execution⟩

/-- A property of the start that every step preserves holds of every reachable
state. -/
theorem Reachable.invariant (property : σ → Prop) (initial : property start)
    (preserved : ∀ state label target, property state →
      next state label = some target → property target) (reach : Reachable next start target) :
    property target := by
  obtain ⟨labels, execution⟩ := reach
  exact run_induction (fun _ state => property state) initial
    (fun _ state label target _ held step => preserved state label target held step)
    execution

/-! ## Counting steps -/

/-- The sum of the weights of the steps of a schedule, as far as it is enabled. -/
def sumAlong (next : Step σ α) (weight : σ → α → Nat) : σ → List α → Nat
  | _, [] => 0
  | state, label :: labels =>
    match next state label with
    | none => 0
    | some target => weight state label + sumAlong next weight target labels

variable {weight : σ → α → Nat} {middle : σ}

theorem sumAlong_append (execution : run next state first = some middle) :
    sumAlong next weight state (first ++ second) =
      sumAlong next weight state first + sumAlong next weight middle second := by
  induction first generalizing state with
  | nil =>
    cases execution
    simp [sumAlong]
  | cons label labels ih =>
    obtain ⟨after, step, rest⟩ := run_cons_eq_some_iff.mp execution
    simp only [List.cons_append, sumAlong, step, ih rest, Nat.add_assoc]

theorem sumAlong_concat (execution : run next state labels = some middle)
    (step : next middle label = some target) :
    sumAlong next weight state (labels ++ [label]) =
      sumAlong next weight state labels + weight middle label := by
  rw [sumAlong_append execution]
  simp [sumAlong, step]

/-- The number of steps of a schedule, as far as it is enabled, that pass a
test in the state they are taken in. -/
def countAlong (next : Step σ α) (test : σ → α → Bool) : σ → List α → Nat
  | _, [] => 0
  | state, label :: labels =>
    match next state label with
    | none => 0
    | some target => (test state label).toNat + countAlong next test target labels

theorem countAlong_eq_sumAlong (next : Step σ α) (test : σ → α → Bool) (state : σ)
    (labels : List α) :
    countAlong next test state labels =
      sumAlong next (fun state label => (test state label).toNat) state labels := by
  induction labels generalizing state with
  | nil => rfl
  | cons label labels ih =>
    simp only [countAlong, sumAlong]
    cases next state label with
    | none => rfl
    | some target => simp only [ih]

variable {test : σ → α → Bool}

theorem countAlong_append (execution : run next state first = some middle) :
    countAlong next test state (first ++ second) =
      countAlong next test state first + countAlong next test middle second := by
  simp only [countAlong_eq_sumAlong, sumAlong_append execution]

theorem countAlong_concat (execution : run next state labels = some middle)
    (step : next middle label = some target) :
    countAlong next test state (labels ++ [label]) =
      countAlong next test state labels + (test middle label).toNat := by
  simp only [countAlong_eq_sumAlong, sumAlong_concat execution step]

/-! ## Runs whose steps meet a condition -/

/-- Every step of the schedule, as far as it is enabled, is taken in a state
that meets the condition. -/
def Along (next : Step σ α) (condition : σ → α → Prop) : σ → List α → Prop
  | _, [] => True
  | state, label :: labels =>
    condition state label ∧
      ∀ target, next state label = some target → Along next condition target labels

instance Along.decidable (next : Step σ α) (condition : σ → α → Prop)
    [∀ state label, Decidable (condition state label)] :
    (state : σ) → (labels : List α) → Decidable (Along next condition state labels)
  | _, [] => .isTrue trivial
  | state, label :: labels =>
    haveI : Decidable (∀ target, next state label = some target →
        Along next condition target labels) :=
      match next state label with
      | none => .isTrue nofun
      | some target =>
        haveI := Along.decidable next condition target labels
        decidable_of_iff (Along next condition target labels)
          ⟨fun along _ same => Option.some.inj same ▸ along, fun along => along target rfl⟩
    inferInstanceAs (Decidable (_ ∧ _))

variable {condition : σ → α → Prop}

theorem along_append (execution : run next state first = some middle) :
    Along next condition state (first ++ second) ↔
      Along next condition state first ∧ Along next condition middle second := by
  induction first generalizing state with
  | nil =>
    cases execution
    simp [Along]
  | cons label labels ih =>
    obtain ⟨after, step, rest⟩ := run_cons_eq_some_iff.mp execution
    simp only [List.cons_append, Along, step, some.injEq, forall_eq', ih rest, and_assoc]

theorem along_concat (execution : run next state labels = some middle) :
    Along next condition state (labels ++ [label]) ↔
      Along next condition state labels ∧ condition middle label := by
  rw [along_append execution]
  simp [Along]

/-- Invariant rule for runs whose steps all meet a condition. -/
theorem run_invariant_of_along (property : σ → Prop) (initial : property start)
    (preserved : ∀ state label target, property state → condition state label →
      next state label = some target → property target) (along : Along next condition start labels)
    (execution : run next start labels = some target) : property target := by
  induction labels generalizing start with
  | nil =>
    cases execution
    exact initial
  | cons label labels ih =>
    obtain ⟨middle, step, rest⟩ := run_cons_eq_some_iff.mp execution
    exact ih (preserved start label middle initial along.1 step) (along.2 middle step) rest

end Xv6.Transition
