import Xv6.Process.Scheduler

/-!
# Rounds of the two stride schedulers

`scheduler` selects a pid and scans the table a second time for it, `scheduler_b`
keeps a pointer to the process it selects.  As long as some process is runnable
both dispatch the first one of least pass, and make the same stores.  In an idle
round `scheduler` dispatches nobody, but `scheduler_b` follows the pointer that an
earlier round has left behind.
-/

namespace Xv6.Process

open List Ptable

universe u

/-- One iteration of the loop of `scheduler_b`: the final table, the value of
`current` it leaves behind, and the dispatched slots; `none` is a fault, by a null
`current` or by a divide error. -/
def schedulerBRound (slice : Slot → Ptable → Ptable) (current : Option Slot) (table : Ptable) :
    Option (Ptable × Option Slot × List Slot) := do
  let slot ← selectB table current
  let charged ← table.charge slot
  some (slice slot (charged.setState slot .running), some slot, [slot])

/-- Runnable processes have pids of their own. -/
def DistinctPids (table : Ptable) : Prop :=
  ∀ slot other, (table slot).state = .runnable → (table other).state = .runnable →
    (table slot).pid = (table other).pid → slot = other

instance (table : Ptable) : Decidable (DistinctPids table) :=
  inferInstanceAs (Decidable (∀ _ _ : Slot, _ → _ → _ → _))

/-- No other runnable process has the pid. -/
def OwnsPid (table : Ptable) (slot : Slot) (pid : Int) : Prop :=
  ∀ other ≠ slot, (table other).state = .runnable → (table other).pid ≠ pid

/-- While a process runs, nobody else becomes runnable under its pid. -/
def KeepsPid (slice : Slot → Ptable → Ptable) : Prop :=
  ∀ slot table, OwnsPid table slot (table slot).pid →
    OwnsPid (slice slot table) slot (table slot).pid

/-! ## Selection -/

/-- Two positions of a list are the same, or one of them is in front of the
other. -/
theorem split_cases {α : Type u} {before before' after after' : List α} {slot slot' : α}
    (same : before ++ slot :: after = before' ++ slot' :: after') :
    (before = before' ∧ slot = slot' ∧ after = after') ∨
      (∃ between, before = before' ++ slot' :: between) ∨
      ∃ between, before' = before ++ slot :: between := by
  rcases append_eq_append_iff.mp same with ⟨between, split, rest⟩ | ⟨between, split, rest⟩
  · cases between with
    | nil =>
      cases rest
      exact .inl ⟨by simpa using split.symm, rfl, rfl⟩
    | cons head tail =>
      cases rest
      exact .inr (.inr ⟨tail, split⟩)
  · cases between with
    | nil =>
      cases rest
      exact .inl ⟨by simpa using split, rfl, rfl⟩
    | cons head tail =>
      cases rest
      exact .inr (.inl ⟨tail, split⟩)

/-- The scans of the two schedulers settle on the same process. -/
theorem foldl_selectStepB (table : Ptable) (wPid : Int) (current : Option Slot)
    (visited : List Slot) :
    ((∀ slot ∈ visited, (table slot).state ≠ .runnable) ∧
        visited.foldl (selectStep table) ⟨-1, wPid⟩ = ⟨-1, wPid⟩ ∧
        visited.foldl (selectStepB table) (-1, current) = (-1, current)) ∨
      ∃ slot ∈ visited, (table slot).state = .runnable ∧
        visited.foldl (selectStep table) ⟨-1, wPid⟩ = ⟨(table slot).pass, (table slot).pid⟩ ∧
        visited.foldl (selectStepB table) (-1, current) = ((table slot).pass, some slot) := by
  induction visited using reverseRecOn with
  | nil => exact .inl ⟨by simp, rfl, rfl⟩
  | append_singleton visited last ih =>
    simp only [foldl_append, foldl_cons, foldl_nil]
    by_cases ready : (table last).state = .runnable
    · right
      rcases ih with ⟨-, scan, scanB⟩ | ⟨slot, member, isReady, scan, scanB⟩
      · exact ⟨last, by simp, ready, by simp [scan, selectStep, ready],
          by simp [scanB, selectStepB, ready]⟩
      · by_cases better : (table last).pass < (table slot).pass ∨ (table slot).pass < 0
        · exact ⟨last, by simp, ready, by simp [scan, selectStep, ready, better],
            by simp [scanB, selectStepB, ready, better.symm]⟩
        · refine ⟨slot, by simp [member], isReady, by simp [scan, selectStep, better], ?_⟩
          rw [scanB, selectStepB, if_neg (not_not.mpr ready), if_neg (mt Or.symm better)]
    · rcases ih with ⟨noneReady, scan, scanB⟩ | ⟨slot, member, isReady, scan, scanB⟩
      · refine .inl ⟨?_, by simp [scan, selectStep, ready], by simp [scanB, selectStepB, ready]⟩
        intro slot member
        rcases mem_append.mp member with member | member
        · exact noneReady slot member
        · rwa [mem_singleton.mp member]
      · exact .inr ⟨slot, by simp [member], isReady, by simp [scan, selectStep, ready],
          by simp [scanB, selectStepB, ready]⟩

/-- With a runnable process in the table both schedulers select one, and the
same one; without, both keep what they had. -/
theorem select_selectB (table : Ptable) (wPid : Int) (current : Option Slot) :
    ((∀ slot, (table slot).state ≠ .runnable) ∧ select table wPid = wPid ∧
        selectB table current = current) ∨
      ∃ slot, (table slot).state = .runnable ∧ select table wPid = (table slot).pid ∧
        selectB table current = some slot := by
  rcases foldl_selectStepB table wPid current slots with
    ⟨noneReady, scan, scanB⟩ | ⟨slot, -, ready, scan, scanB⟩
  · exact .inl ⟨fun slot => noneReady slot (mem_slots slot), by rw [select, scan],
      by rw [selectB, scanB]⟩
  · exact .inr ⟨slot, ready, by rw [select, scan], by rw [selectB, scanB]⟩

/-! ## Dispatch -/

variable {wPid : Int} {visited : List Slot}

/-- The second scan passes over slots that do not match. -/
theorem dispatchLoop_append_of_not_matches {slice : Slot → Ptable → Ptable} (rest : List Slot)
    {table : Ptable} (noMatch : ∀ slot ∈ visited, ¬Matches table wPid slot) :
    dispatchLoop slice wPid (visited ++ rest) table = dispatchLoop slice wPid rest table := by
  induction visited with
  | nil => rfl
  | cons slot visited ih =>
    rw [cons_append, dispatchLoop, if_neg (noMatch slot (by simp))]
    exact ih fun other member => noMatch other (mem_cons_of_mem _ member)

theorem dispatchLoop_of_not_matches {slice : Slot → Ptable → Ptable} {table : Ptable}
    (noMatch : ∀ slot ∈ visited, ¬Matches table wPid slot) :
    dispatchLoop slice wPid visited table = some (table, []) := by
  have skipped : dispatchLoop slice wPid (visited ++ []) table = _ :=
    dispatchLoop_append_of_not_matches [] noMatch
  rwa [append_nil] at skipped

variable {slot : Slot}

/-- The stores of a dispatch leave the pids alone. -/
theorem ownsPid_switched {table charged : Ptable} {pid : Int} (owned : OwnsPid table slot pid)
    (charge_eq : table.charge slot = some charged) :
    (charged.setState slot .running slot).pid = (table slot).pid ∧
      OwnsPid (charged.setState slot .running) slot pid := by
  obtain ⟨-, rfl⟩ := charge_eq_some charge_eq
  refine ⟨by simp [setState], ?_⟩
  intro other ne ready
  simp only [setState, modify_of_ne _ _ ne] at ready ⊢
  exact owned other ne ready

/-- The second scan dispatches the selected process and nobody else. -/
theorem dispatchLoop_selected {slice : Slot → Ptable → Ptable} {table : Ptable}
    (keeps : KeepsPid slice) (distinct : DistinctPids table)
    (ready : (table slot).state = .runnable) :
    dispatchLoop slice (table slot).pid slots table =
      (table.charge slot).map fun charged =>
        (slice slot (charged.setState slot .running), [slot]) := by
  obtain ⟨before, after, split⟩ := append_of_mem (mem_slots slot)
  have nodup := slots_nodup
  rw [split, nodup_append, nodup_cons] at nodup
  obtain ⟨-, ⟨notAfter, -⟩, disjoint⟩ := nodup
  have owned : OwnsPid table slot (table slot).pid :=
    fun other ne otherReady same => ne (distinct other slot otherReady ready same)
  have skipped : ∀ other ∈ before, ¬Matches table (table slot).pid other := by
    rintro other member ⟨otherReady, same⟩
    exact owned other (disjoint other member slot (by simp)) otherReady same
  rw [split, dispatchLoop_append_of_not_matches _ skipped, dispatchLoop, if_pos ⟨ready, rfl⟩]
  cases charge_eq : table.charge slot with
  | none => rfl
  | some charged =>
    obtain ⟨pid_eq, switched⟩ := ownsPid_switched owned charge_eq
    have returned := keeps slot (charged.setState slot .running) (pid_eq ▸ switched)
    rw [pid_eq] at returned
    have noMore : ∀ other ∈ after, ¬Matches (slice slot (charged.setState slot .running))
        (table slot).pid other := by
      rintro other member ⟨otherReady, same⟩
      have ne : other ≠ slot := fun equal => notAfter (equal ▸ member)
      exact returned other ne otherReady same
    simp [dispatchLoop_of_not_matches noMore]

/-- A round of `scheduler` with a runnable process. -/
theorem schedulerRound_of_selected {slice : Slot → Ptable → Ptable} {table : Ptable}
    (keeps : KeepsPid slice) (distinct : DistinctPids table)
    (ready : (table slot).state = .runnable) (selected : select table wPid = (table slot).pid) :
    schedulerRound slice wPid table =
      (table.charge slot).map fun charged =>
        (slice slot (charged.setState slot .running), (table slot).pid, [slot]) := by
  rw [schedulerRound, selected, dispatchLoop_selected keeps distinct ready, Option.map_map]
  rfl

/-! ## The two schedulers compared -/

/-- The final table and the dispatched slots of a round. -/
def outcome {α : Type} (round : Option (Ptable × α × List Slot)) : Option (Ptable × List Slot) :=
  round.map fun result => (result.1, result.2.2)

/-- The processes a round has dispatched were runnable. -/
def DispatchesRunnable {α : Type} (table : Ptable) (round : Option (Ptable × α × List Slot)) :
    Prop :=
  ∀ final left dispatched, round = some (final, left, dispatched) →
    ∀ slot ∈ dispatched, (table slot).state = .runnable

variable {slice : Slot → Ptable → Ptable} {table : Ptable}

/-- A round dispatches at most the process it has selected. -/
theorem dispatchesRunnable_of_selected {α : Type} {left : α}
    (ready : (table slot).state = .runnable) :
    DispatchesRunnable table ((table.charge slot).map fun charged =>
      (slice slot (charged.setState slot .running), left, [slot])) := by
  intro final left dispatched round_eq other member
  obtain ⟨charged, -, same⟩ := Option.map_eq_some_iff.mp round_eq
  cases same
  rwa [mem_singleton.mp member]

theorem schedulerBRound_of_selected {current : Option Slot}
    (selected : selectB table current = some slot) :
    schedulerBRound slice current table = (table.charge slot).map fun charged =>
      (slice slot (charged.setState slot .running), some slot, [slot]) := by
  simp only [schedulerBRound, selected, Option.bind_eq_bind, Option.bind_some]
  cases table.charge slot <;> rfl

/-- An idle round of `scheduler` changes nothing. -/
theorem schedulerRound_of_idle (idle : ∀ slot, (table slot).state ≠ .runnable) (wPid : Int) :
    schedulerRound slice wPid table = some (table, select table wPid, []) := by
  rw [schedulerRound, dispatchLoop_of_not_matches fun slot _ isMatch => idle slot isMatch.1]
  rfl

/-- The two stride schedulers make the same round, and dispatch a runnable
process only, exactly if some process is runnable. -/
theorem rounds_agree_iff (distinct : DistinctPids table) (keeps : KeepsPid slice) (wPid : Int)
    (current : Option Slot) :
    (outcome (schedulerBRound slice current table) = outcome (schedulerRound slice wPid table) ∧
        DispatchesRunnable table (schedulerBRound slice current table) ∧
        DispatchesRunnable table (schedulerRound slice wPid table)) ↔
      ∃ slot, (table slot).state = .runnable := by
  rcases select_selectB table wPid current with
    ⟨idle, -, leftOver⟩ | ⟨slot, ready, selected, selectedB⟩
  · refine iff_of_false ?_ (not_exists.mpr idle)
    rintro ⟨agree, -⟩
    rw [schedulerRound_of_idle idle] at agree
    cases current with
    | none => simp [schedulerBRound, leftOver, outcome] at agree
    | some slot =>
      rw [schedulerBRound_of_selected leftOver, outcome, Option.map_map] at agree
      obtain ⟨charged, -, same⟩ := Option.map_eq_some_iff.mp agree
      simp at same
  · rw [schedulerBRound_of_selected selectedB,
      schedulerRound_of_selected keeps distinct ready selected]
    refine iff_of_true ⟨?_, dispatchesRunnable_of_selected ready,
      dispatchesRunnable_of_selected ready⟩ ⟨slot, ready⟩
    simp [outcome, Function.comp_def]

/-- A table with one process. -/
def loneProc (state : ProcState) : Ptable := fun slot =>
  if slot = 0 then { Proc.zero with pid := 1, state := state, tickets := 1 } else Proc.zero

/-- A slice at the end of which the process yields. -/
def yieldSlice (slot : Slot) (table : Ptable) : Ptable := table.setState slot .runnable

theorem keepsPid_yieldSlice : KeepsPid yieldSlice := by
  intro slot table owned other ne ready
  simp only [yieldSlice, setState, modify_of_ne _ _ ne] at ready ⊢
  exact owned other ne ready

/-- Every slot holds a runnable process, and all have the same pass; the one in slot `n` has
`n + 1` tickets. -/
def crowd : Ptable := fun slot =>
  { Proc.zero with state := .runnable, pid := slot.val + 1, tickets := slot.val + 1, pass := 1 }

/-- Both schedulers dispatch the same process of a full table, whatever they did before. -/
theorem rounds_agree_crowd :
    outcome (schedulerBRound yieldSlice (some 3) crowd) =
        outcome (schedulerRound yieldSlice 7 crowd) ∧
      DispatchesRunnable crowd (schedulerBRound yieldSlice (some 3) crowd) ∧
      DispatchesRunnable crowd (schedulerRound yieldSlice 7 crowd) :=
  (rounds_agree_iff (by decide +kernel) keepsPid_yieldSlice 7 (some 3)).mpr ⟨0, rfl⟩

/-- The only process sleeps: `scheduler` dispatches nobody, but `scheduler_b` runs
the sleeping process that an earlier round has selected, and faults if there was no
earlier round. -/
theorem schedulerBRound_sleeping :
    (schedulerRound (fun _ table => table) 1 (loneProc .sleeping)).map
        (fun result => (result.2.2, (result.1 0).state)) = some ([], .sleeping) ∧
      (schedulerBRound (fun _ table => table) (some 0) (loneProc .sleeping)).map
        (fun result => (result.2.2, (result.1 0).state)) = some ([0], .running) ∧
      (schedulerBRound (fun _ table => table) none (loneProc .sleeping)).isNone ∧
      DistinctPids (loneProc .sleeping) ∧ ∀ slot, 0 ≤ (loneProc .sleeping slot).pass := by
  decide +kernel

end Xv6.Process
