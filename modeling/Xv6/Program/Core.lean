import Mathlib.Order.Defs.Unbundled

/-!
# Programs that may stop

A program reads and changes a state, and either returns a value or stops the system.
`Runs` and `Fails` say how a program ends; both are inverted along the composition of
programs, which is how the proofs about programs proceed.  `Keeps` is for relations
between the state before and after that every step of a program satisfies.
-/

namespace Xv6

/-- A program over states `σ` that returns an `α` or stops with an `ε`. -/
def Prog (σ ε α : Type) : Type :=
  σ → Except ε (α × σ)

namespace Prog

variable {σ τ ε δ α β : Type}

instance : Monad (Prog σ ε) where
  pure value := fun state => .ok (value, state)
  bind prog next := fun state =>
    match prog state with
    | .ok (value, middle) => next value middle
    | .error stop => .error stop

/-- Stop the system. -/
def stop (reason : ε) : Prog σ ε α :=
  fun _ => .error reason

/-- A value that depends on the state. -/
def reading (look : σ → α) : Prog σ ε α :=
  fun state => .ok (look state, state)

/-- Change the state. -/
def update (change : σ → σ) : Prog σ ε Unit :=
  fun state => .ok ((), change state)

/-- Stop the system unless the state satisfies the condition. -/
def ensure (holds : σ → Prop) [DecidablePred holds] (reason : ε) : Prog σ ε Unit :=
  fun state => if holds state then .ok ((), state) else .error reason

/-- Run the program only under the condition. -/
def whenever (condition : Prop) [Decidable condition] (prog : Prog σ ε Unit) : Prog σ ε Unit :=
  if condition then prog else pure ()

/-- Run a program on a part of the state. -/
def on (part : τ → σ) (replace : τ → σ → τ) (raise : ε → δ) (prog : Prog σ ε α) : Prog τ δ α :=
  fun state =>
    match prog (part state) with
    | .ok (value, target) => .ok (value, replace state target)
    | .error reason => .error (raise reason)

/-- The program returns the value and leaves the target state. -/
def Runs (prog : Prog σ ε α) (state : σ) (value : α) (target : σ) : Prop :=
  prog state = .ok (value, target)

/-- The program stops the system. -/
def Fails (prog : Prog σ ε α) (state : σ) (reason : ε) : Prop :=
  prog state = .error reason

instance [DecidableEq ε] (prog : Prog σ ε α) (state : σ) (reason : ε) :
    Decidable (Fails prog state reason) :=
  match result : prog state with
  | .ok _ => isFalse (by rw [Fails, result]; nofun)
  | .error other => decidable_of_iff (other = reason) (by rw [Fails, result, Except.error.injEq])

variable {state target : σ} {value : α}

/-! ## Runs -/

variable {value' : α}

/-- A program has one result. -/
theorem Runs.unique {prog : Prog σ ε α} {target' : σ} (first : Runs prog state value target)
    (second : Runs prog state value' target') : value = value' ∧ target = target' := by
  have same := first.symm.trans second
  rwa [Except.ok.injEq, Prod.mk.injEq] at same

@[simp]
theorem runs_pure :
    Runs (pure value : Prog σ ε α) state value' target ↔ value = value' ∧ state = target := by
  change Except.ok (value, state) = Except.ok (value', target) ↔ _
  rw [Except.ok.injEq, Prod.mk.injEq]

theorem runs_bind {prog : Prog σ ε α} {next : α → Prog σ ε β} {value : β} :
    Runs (prog >>= next) state value target ↔
      ∃ first middle, Runs prog state first middle ∧ Runs (next first) middle value target := by
  change (match prog state with
    | .ok (value, middle) => next value middle
    | .error stop => .error stop) = _ ↔ _
  unfold Runs
  cases ended : prog state with
  | error reason => simp
  | ok result =>
    obtain ⟨first, middle⟩ := result
    simp [and_assoc]

/-- After a program has run, the next one goes on. -/
theorem bind_of_runs {prog : Prog σ ε α} {next : α → Prog σ ε β}
    (ran : Runs prog state value target) : (prog >>= next) state = next value target := by
  change (match prog state with
    | .ok (value, middle) => next value middle
    | .error stop => .error stop) = _
  rw [ran]

@[simp]
theorem runs_stop {reason : ε} :
    Runs (stop reason : Prog σ ε α) state value target ↔ False := by
  simp [Runs, stop]

variable {look : σ → α}

@[simp]
theorem runs_reading :
    Runs (reading look : Prog σ ε α) state value target ↔ look state = value ∧ state = target := by
  rw [Runs, reading, Except.ok.injEq, Prod.mk.injEq]

variable {change : σ → σ}

@[simp]
theorem runs_update {value : Unit} :
    Runs (update change : Prog σ ε Unit) state value target ↔ change state = target := by
  simp [Runs, update]

@[simp]
theorem runs_ensure {holds : σ → Prop} [DecidablePred holds] {reason : ε} {value : Unit} :
    Runs (ensure holds reason) state value target ↔ holds state ∧ state = target := by
  unfold Runs ensure
  split <;> simp_all

theorem runs_whenever {condition : Prop} [Decidable condition] {prog : Prog σ ε Unit}
    {value : Unit} :
    Runs (whenever condition prog) state value target ↔
      condition ∧ Runs prog state value target ∨ ¬condition ∧ state = target := by
  unfold whenever
  split <;> simp_all

theorem runs_on {part : τ → σ} {replace : τ → σ → τ} {raise : ε → δ} {prog : Prog σ ε α}
    {state target : τ} :
    Runs (on part replace raise prog) state value target ↔
      ∃ middle, Runs prog (part state) value middle ∧ replace state middle = target := by
  unfold Runs on
  cases ended : prog (part state) with
  | error reason => simp
  | ok result =>
    obtain ⟨first, middle⟩ := result
    simp only [Except.ok.injEq, Prod.mk.injEq]
    constructor
    · rintro ⟨rfl, rfl⟩
      exact ⟨middle, ⟨rfl, rfl⟩, rfl⟩
    · rintro ⟨_, ⟨rfl, rfl⟩, rfl⟩
      exact ⟨rfl, rfl⟩

/-! ## Failures -/

variable {reason : ε}

@[simp]
theorem fails_pure : Fails (pure value : Prog σ ε α) state reason ↔ False := by
  change Except.ok (value, state) = Except.error reason ↔ _
  simp

theorem fails_bind {prog : Prog σ ε α} {next : α → Prog σ ε β} :
    Fails (prog >>= next) state reason ↔ Fails prog state reason ∨
      ∃ first middle, Runs prog state first middle ∧ Fails (next first) middle reason := by
  change (match prog state with
    | .ok (value, middle) => next value middle
    | .error stop => .error stop) = _ ↔ _
  unfold Fails Runs
  cases ended : prog state with
  | error reason => simp
  | ok result =>
    obtain ⟨first, middle⟩ := result
    simp [and_assoc]

@[simp]
theorem fails_stop {reason' : ε} :
    Fails (stop reason' : Prog σ ε α) state reason ↔ reason' = reason := by
  simp [Fails, stop]

@[simp]
theorem fails_reading : Fails (reading look : Prog σ ε α) state reason ↔ False := by
  simp [Fails, reading]

@[simp]
theorem fails_update : Fails (update change : Prog σ ε Unit) state reason ↔ False := by
  simp [Fails, update]

/-! ## Relations that programs keep -/

/-- Every run of the program relates the state before and after. -/
def Keeps (relation : σ → σ → Prop) (prog : Prog σ ε α) : Prop :=
  ∀ state value target, Runs prog state value target → relation state target

section Keeps

variable {relation : σ → σ → Prop} {prog : Prog σ ε α}

theorem keeps_bind [IsTrans σ relation] {next : α → Prog σ ε β} (first : Keeps relation prog)
    (rest : ∀ value, Keeps relation (next value)) : Keeps relation (prog >>= next) := by
  intro state value target ran
  obtain ⟨middleValue, middle, ranFirst, ranRest⟩ := runs_bind.mp ran
  exact IsTrans.trans _ _ _ (first _ _ _ ranFirst) (rest _ _ _ _ ranRest)

theorem keeps_pure [Std.Refl relation] : Keeps relation (pure value : Prog σ ε α) := by
  intro state value target ran
  obtain ⟨-, rfl⟩ := runs_pure.mp ran
  exact Std.Refl.refl state

theorem keeps_reading [Std.Refl relation] {look : σ → α} :
    Keeps relation (reading look : Prog σ ε α) := by
  intro state value target ran
  obtain ⟨-, rfl⟩ := runs_reading.mp ran
  exact Std.Refl.refl state

theorem keeps_ensure [Std.Refl relation] {holds : σ → Prop} [DecidablePred holds] {reason : ε} :
    Keeps relation (ensure holds reason) := by
  intro state _ target ran
  obtain ⟨-, rfl⟩ := runs_ensure.mp ran
  exact Std.Refl.refl state

theorem keeps_stop {reason : ε} : Keeps relation (stop reason : Prog σ ε α) :=
  fun _ _ _ ran => (runs_stop.mp ran).elim

theorem keeps_update {change : σ → σ} (changed : ∀ state, relation state (change state)) :
    Keeps relation (update change : Prog σ ε Unit) := by
  intro state value target ran
  rw [runs_update] at ran
  exact ran ▸ changed state

variable {condition : Prop}

theorem keeps_ite [Decidable condition] {other : Prog σ ε α} (yes : Keeps relation prog)
    (no : Keeps relation other) : Keeps relation (if condition then prog else other) := by
  split
  · exact yes
  · exact no

theorem keeps_whenever [Std.Refl relation] [Decidable condition] {prog : Prog σ ε Unit}
    (keeps : Keeps relation prog) : Keeps relation (whenever condition prog) :=
  keeps_ite keeps keeps_pure

end Keeps

/-! ## Specifications -/

/-- The program either stops for an allowed reason, or its result satisfies the condition. -/
def Ensures (allowed : ε → Prop) (prog : Prog σ ε α) (state : σ) (post : α → σ → Prop) : Prop :=
  match prog state with
  | .ok (value, target) => post value target
  | .error reason => allowed reason

section Ensures

variable {allowed : ε → Prop} {post : α → σ → Prop}

section

variable {prog : Prog σ ε α}

theorem ensures_iff :
    Ensures allowed prog state post ↔
      (∀ reason, Fails prog state reason → allowed reason) ∧
        ∀ value target, Runs prog state value target → post value target := by
  unfold Ensures Fails Runs
  cases ended : prog state with
  | error reason => simp
  | ok result =>
    obtain ⟨value, target⟩ := result
    simp only [reduceCtorEq, Except.ok.injEq, Prod.mk.injEq]
    constructor
    · intro holds
      refine ⟨fun _ absurd => absurd.elim, ?_⟩
      rintro _ _ ⟨rfl, rfl⟩
      exact holds
    · exact fun holds => holds.2 value target ⟨rfl, rfl⟩

theorem Ensures.mono {weaker : α → σ → Prop} (holds : Ensures allowed prog state post)
    (weaken : ∀ value target, Runs prog state value target → post value target →
      weaker value target) : Ensures allowed prog state weaker := by
  rw [ensures_iff] at holds ⊢
  exact ⟨holds.1, fun value target ran => weaken value target ran (holds.2 value target ran)⟩

/-- A program ends one way or the other. -/
theorem runs_or_fails (prog : Prog σ ε α) (state : σ) :
    (∃ value target, Runs prog state value target) ∨ ∃ reason, Fails prog state reason := by
  unfold Runs Fails
  cases prog state with
  | error reason => exact .inr ⟨reason, rfl⟩
  | ok result => exact .inl ⟨result.1, result.2, rfl⟩

/-- What a program that runs ensures. -/
theorem ensures_iff_of_runs (ran : Runs prog state value target) :
    Ensures allowed prog state post ↔ post value target := by
  unfold Runs at ran
  rw [Ensures, ran]

/-- Programs that do the same from a state ensure the same there. -/
theorem ensures_congr {prog other : Prog σ ε α} (same : prog state = other state) :
    Ensures allowed prog state post ↔ Ensures allowed other state post := by
  rw [Ensures, Ensures, same]

/-- More reasons to stop are allowed. -/
theorem Ensures.allow {wider : ε → Prop}
    (holds : Ensures allowed prog state post) (widen : ∀ reason, allowed reason → wider reason) :
    Ensures wider prog state post := by
  rw [ensures_iff] at holds ⊢
  exact ⟨fun reason failed => widen reason (holds.1 reason failed), holds.2⟩

end

@[simp]
theorem ensures_pure : Ensures allowed (pure value : Prog σ ε α) state post ↔
    post value state :=
  Iff.rfl

theorem ensures_bind {prog : Prog σ ε β} {next : β → Prog σ ε α} :
    Ensures allowed (prog >>= next) state post ↔
      Ensures allowed prog state fun value middle => Ensures allowed (next value) middle post := by
  change (match (match prog state with
    | .ok (value, middle) => next value middle
    | .error stop => .error stop) with
    | .ok (value, target) => post value target
    | .error reason => allowed reason) ↔ _
  unfold Ensures
  cases ended : prog state with
  | error reason => exact Iff.rfl
  | ok result => exact Iff.rfl

@[simp]
theorem ensures_stop : Ensures allowed (stop reason : Prog σ ε α) state post ↔
    allowed reason :=
  Iff.rfl

@[simp]
theorem ensures_reading {look : σ → α} :
    Ensures allowed (reading look : Prog σ ε α) state post ↔ post (look state) state :=
  Iff.rfl

variable {change : σ → σ}

@[simp]
theorem ensures_update {post : Unit → σ → Prop} :
    Ensures allowed (update change : Prog σ ε Unit) state post ↔ post () (change state) :=
  Iff.rfl

variable {holds : σ → Prop}

theorem ensures_ensure [DecidablePred holds] {post : Unit → σ → Prop} :
    Ensures allowed (ensure holds reason) state post ↔
      if holds state then post () state else allowed reason := by
  by_cases satisfied : holds state <;> simp [Ensures, ensure, satisfied]

variable {condition : Prop}

theorem ensures_whenever [Decidable condition] {prog : Prog σ ε Unit} {post : Unit → σ → Prop} :
    Ensures allowed (whenever condition prog) state post ↔
      if condition then Ensures allowed prog state post else post () state := by
  unfold whenever
  split <;> rfl

theorem ensures_on {allowed : δ → Prop} {part : τ → σ} {replace : τ → σ → τ}
    {raise : ε → δ} {prog : Prog σ ε α} {state : τ} {post : α → τ → Prop} :
    Ensures allowed (on part replace raise prog) state post ↔
      Ensures (fun reason => allowed (raise reason)) prog (part state) fun value target =>
        post value (replace state target) := by
  unfold Ensures on
  cases ended : prog (part state) with
  | error reason => exact Iff.rfl
  | ok result => exact Iff.rfl

/-! Rules that take a program from its first step on. -/

variable {middlePost : β → σ → Prop} {next : β → Prog σ ε α}

theorem Ensures.of_runs {prog : Prog σ ε α} (holds : Ensures allowed prog state post)
    (ran : Runs prog state value target) : post value target :=
  (ensures_iff_of_runs ran).mp holds

theorem Ensures.bind {prog : Prog σ ε β} (first : Ensures allowed prog state middlePost)
    (rest : ∀ value middle, middlePost value middle → Ensures allowed (next value) middle post) :
    Ensures allowed (prog >>= next) state post :=
  ensures_bind.mpr (first.mono fun value middle _ => rest value middle)

theorem Ensures.reading {look : σ → β} (rest : Ensures allowed (next (look state)) state post) :
    Ensures allowed (Prog.reading look >>= next) state post :=
  rest

theorem Ensures.update {next : Unit → Prog σ ε α}
    (rest : Ensures allowed (next ()) (change state) post) :
    Ensures allowed (Prog.update change >>= next) state post :=
  rest

theorem Ensures.whenever [Decidable condition] {prog : Prog σ ε Unit} {post : Unit → σ → Prop}
    (yes : condition → Ensures allowed prog state post) (no : ¬condition → post () state) :
    Ensures allowed (Prog.whenever condition prog) state post := by
  rw [ensures_whenever]
  split
  · exact yes ‹_›
  · exact no ‹_›

theorem Ensures.ite [Decidable condition] {prog other : Prog σ ε α}
    (yes : condition → Ensures allowed prog state post)
    (no : ¬condition → Ensures allowed other state post) :
    Ensures allowed (if condition then prog else other) state post := by
  split
  · exact yes ‹_›
  · exact no ‹_›

/-- Whatever the program returns satisfies the condition. -/
abbrev Yields (prog : Prog σ ε α) (state : σ) (post : α → σ → Prop) : Prop :=
  Ensures (fun _ => True) prog state post

theorem yields_of_runs {prog : Prog σ ε α}
    (holds : ∀ value target, Runs prog state value target → post value target) :
    Yields prog state post :=
  ensures_iff.mpr ⟨fun _ _ => trivial, holds⟩

theorem Yields.checked [DecidablePred holds] {next : Unit → Prog σ ε α}
    (rest : holds state → Yields (next ()) state post) :
    Yields (ensure holds reason >>= next) state post := by
  refine ensures_bind.mpr (ensures_ensure.mpr ?_)
  split
  · exact rest ‹_›
  · trivial

end Ensures

end Prog

end Xv6
