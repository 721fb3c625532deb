import Xv6.Program.Core

/-!
# Programs that carry more state

A program may keep a record of what it does next to the state it works on.  It projects
to a program without the record if forgetting the record commutes with running it.
-/

namespace Xv6.Prog

variable {σ τ ρ π ε δ α β : Type} {view : τ → σ}

/-- Forgetting a part of the state, the program does what the other one does. -/
structure Projects (view : τ → σ) (prog : Prog τ ε α) (base : Prog σ ε α) : Prop where
  same : ∀ state, (prog state).map (fun result => (result.1, view result.2)) = base (view state)

namespace Projects

variable {prog : Prog τ ε α} {base : Prog σ ε α}

theorem runs (projects : Projects view prog base) {state target : τ} {value : α}
    (ran : Runs prog state value target) : Runs base (view state) value (view target) := by
  have same := projects.same state
  unfold Runs at ran
  rw [ran] at same
  exact same.symm

theorem pure (value : α) :
    Projects view (Pure.pure value : Prog τ ε α) (Pure.pure value : Prog σ ε α) :=
  ⟨fun _ => rfl⟩

theorem bind {next : α → Prog τ ε β} {rest : α → Prog σ ε β} (first : Projects view prog base)
    (later : ∀ value, Projects view (next value) (rest value)) :
    Projects view (prog >>= next) (base >>= rest) := by
  refine ⟨fun state => ?_⟩
  have same := first.same state
  cases ended : prog state with
  | error reason =>
    rw [ended] at same
    have failed : Fails (prog >>= next) state reason := fails_bind.mpr (.inl ended)
    have baseFailed : Fails (base >>= rest) (view state) reason := fails_bind.mpr (.inl same.symm)
    rw [failed, baseFailed]
    rfl
  | ok result =>
    rw [ended] at same
    have baseRan : Runs base (view state) result.1 (view result.2) := same.symm
    rw [bind_of_runs ended, bind_of_runs baseRan]
    exact (later result.1).same result.2

theorem stop (reason : ε) :
    Projects view (Prog.stop reason : Prog τ ε α) (Prog.stop reason : Prog σ ε α) :=
  ⟨fun _ => rfl⟩

theorem reading {look : τ → α} {base : σ → α} (same : ∀ state, look state = base (view state)) :
    Projects view (Prog.reading look : Prog τ ε α) (Prog.reading base : Prog σ ε α) :=
  ⟨fun state => congrArg (fun value => Except.ok (value, view state)) (same state)⟩

theorem ensure {holds : τ → Prop} {base : σ → Prop} [DecidablePred holds] [DecidablePred base]
    {reason : ε} (same : ∀ state, holds state ↔ base (view state)) :
    Projects view (Prog.ensure holds reason : Prog τ ε Unit)
      (Prog.ensure base reason : Prog σ ε Unit) := by
  refine ⟨fun state => ?_⟩
  unfold Prog.ensure
  simp only [same]
  split <;> rfl

variable {condition : Prop}

theorem ite [Decidable condition] {other : Prog τ ε α} {otherBase : Prog σ ε α}
    (yes : Projects view prog base) (no : Projects view other otherBase) :
    Projects view (if condition then prog else other) (if condition then base else otherBase) := by
  split
  · exact yes
  · exact no

theorem whenever [Decidable condition] {prog : Prog τ ε Unit} {base : Prog σ ε Unit}
    (projects : Projects view prog base) :
    Projects view (Prog.whenever condition prog) (Prog.whenever condition base) :=
  ite projects (pure ())

/-- A change of the record only. -/
theorem record {change : τ → τ} (same : ∀ state, view (change state) = view state) :
    Projects view (Prog.update change : Prog τ ε Unit) (Pure.pure () : Prog σ ε Unit) :=
  ⟨fun state => congrArg (fun part => Except.ok ((), part)) (same state)⟩

/-- What is only recorded is forgotten. -/
theorem forget {silent : Prog τ ε Unit} {prog : Unit → Prog τ ε α}
    (recorded : Projects view silent (Pure.pure () : Prog σ ε Unit))
    (projects : Projects view (prog ()) base) : Projects view (silent >>= prog) base :=
  recorded.bind fun _ => projects

/-- What is only looked at for the record is forgotten. -/
theorem peek {look : τ → β} {prog : β → Prog τ ε α}
    (projects : ∀ value, Projects view (prog value) base) :
    Projects view (Prog.reading look >>= prog) base :=
  ⟨fun state => (projects (look state)).same state⟩

/-- The record may be completed after the program has run. -/
theorem finish {next : α → Prog τ ε α} (first : Projects view prog base)
    (later : ∀ value, Projects view (next value) (Pure.pure value : Prog σ ε α)) :
    Projects view (prog >>= next) base := by
  have same : base = base >>= fun value => (Pure.pure value : Prog σ ε α) := by
    funext state
    cases ended : base state with
    | error reason =>
      have failed : Fails (base >>= fun value => (Pure.pure value : Prog σ ε α)) state reason :=
        fails_bind.mpr (.inl ended)
      exact failed.symm
    | ok result =>
      rw [bind_of_runs ended]
      rfl
  rw [same]
  exact first.bind later

/-- A program that leaves the record alone. -/
theorem lift {replace : τ → σ → τ} (replaced : ∀ state part, view (replace state part) = part)
    (prog : Prog σ ε α) : Projects view (Prog.on view replace id prog) prog := by
  refine ⟨fun state => ?_⟩
  unfold Prog.on
  cases prog (view state) with
  | error reason => rfl
  | ok result => exact congrArg (fun part => Except.ok (result.1, part)) (replaced ..)

/-- A program on a part of the state, seen through the view of that part. -/
theorem on {part : τ → ρ} {replace : τ → ρ → τ} {basePart : σ → π} {baseReplace : σ → π → σ}
    {raise : δ → ε} {innerView : ρ → π} {inner : Prog ρ δ α} {innerBase : Prog π δ α}
    (projects : Projects innerView inner innerBase)
    (seen : ∀ state, innerView (part state) = basePart (view state))
    (replaced : ∀ state target,
      view (replace state target) = baseReplace (view state) (innerView target)) :
    Projects view (Prog.on part replace raise inner)
      (Prog.on basePart baseReplace raise innerBase) := by
  refine ⟨fun state => ?_⟩
  have same := projects.same (part state)
  rw [seen] at same
  unfold Prog.on
  rw [← same]
  cases inner (part state) with
  | error reason => rfl
  | ok result => exact congrArg (fun target => Except.ok (result.1, target)) (replaced ..)

end Projects

end Xv6.Prog
