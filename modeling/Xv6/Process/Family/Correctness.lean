import Xv6.Process.Family.Invariant

/-!
# The process family over whole runs

The family invariant holds in every state that any number of CPUs can reach
from boot.  Distinct identifiers need the run to allocate fewer than `2^31 - 1`
of them; parents, open files and the absence of a stuck parent do not.
-/

namespace Xv6.Process

open Xv6.Int32 Xv6.Transition Ptable

universe u

namespace Kernel

variable {C : Type u} [DecidableEq C] {kernel target : Kernel C} {kind : SchedKind}
  {memory : Boot}

/-! ## Runs -/

omit [DecidableEq C] in
theorem lineage_boot (memory : Boot) : Lineage (boot memory : Kernel C).view := by
  have parent_none slot : (userinit memory slot).parent = none := by
    by_cases first : slot = 0 <;> simp [userinit, initEmbryo, claim, Proc.zero, first]
  have ofile_none slot fd : (userinit memory slot).ofile fd = none := by
    by_cases first : slot = 0 <;> simp [userinit, initEmbryo, claim, Proc.zero, first]
  have unused slot (ne : slot ≠ 0) : (userinit memory slot).state = .unused := by
    simp [userinit, initEmbryo, claim, Proc.zero, ne]
  constructor
  · intro slot
    refine ⟨?_, by simp [view, boot, parent_none], fun _ => parent_none slot,
      fun _ => ofile_none slot⟩
    rintro rfl
    exact ⟨.inr (.inl rfl), by simp [view, boot], parent_none 0⟩
  · intro slot notInit present
    rw [show ((boot memory : Kernel C).view.table slot).state = .unused from
      unused slot notInit] at present
    exact absurd present (by decide)
  · exact fun slot => trivial
  · rintro slot - ⟨child, isChild, -⟩
    exact absurd (isChild.symm.trans (parent_none child)) (by simp)

theorem lineage_of_reachable (twoScans : kind ≠ .schedulerB)
    (reach : Reachable (step kind) (boot memory) kernel) : Lineage kernel.view := by
  have both : Occupancy kernel ∧ Lineage kernel.view := by
    refine reach.invariant (fun kernel => Occupancy kernel ∧ Lineage kernel.view)
      ⟨.boot memory, lineage_boot memory⟩ ?_
    rintro state event target ⟨occupancy, lineage⟩ step_eq
    exact ⟨occupancy.step twoScans step_eq,
      lineage.effect occupancy.forks (effect_of_step occupancy twoScans step_eq)⟩
  exact both.2

omit [DecidableEq C] in
theorem pidTable_boot (memory : Boot) :
    PidTable (boot memory : Kernel C).table (boot memory : Kernel C).nextpid := by
  have pid_eq slot : (userinit memory slot).pid = if slot = 0 then 1 else 0 := by
    by_cases first : slot = 0 <;> simp [userinit, initEmbryo, claim, Proc.zero, first]
  constructor
  · exact show (0 : Int) < 2 by decide
  · intro slot
    simp only [boot, pid_eq]
    split <;> decide
  · intro slot inUse
    by_cases first : slot = 0
    · simp [boot, pid_eq, first]
    · exact absurd (by simp [boot, userinit, initEmbryo, claim, Proc.zero, first]) inUse
  · intro first second equal nonzero
    simp only [boot, pid_eq] at equal nonzero
    split at nonzero
    · rename_i firstZero
      rw [if_pos firstZero] at equal
      split at equal
      · rename_i secondZero
        exact firstZero.trans secondZero.symm
      · contradiction
    · contradiction

/-- The invariant of the identifiers, with the number of them a run has
allocated so far; the first process has the first one. -/
theorem identifiers_of_run (twoScans : kind ≠ .schedulerB) {events : List (Event C)}
    (execution : run (step kind) (boot memory) events = some kernel)
    (few : 1 + (countAlong (step kind) allocates (boot memory) events : Int) < intMax) :
    PidTable kernel.table kernel.nextpid ∧
      kernel.nextpid = 2 + countAlong (step kind) allocates (boot memory) events := by
  have counted : 1 + (countAlong (step kind) allocates (boot memory) events : Int) < intMax →
      PidTable kernel.table kernel.nextpid ∧
        kernel.nextpid = 2 + countAlong (step kind) allocates (boot memory) events := by
    refine run_induction (fun events (kernel : Kernel C) =>
      1 + (countAlong (step kind) allocates (boot memory) events : Int) < intMax →
        PidTable kernel.table kernel.nextpid ∧
          kernel.nextpid = 2 + countAlong (step kind) allocates (boot memory) events)
      (fun _ => ⟨pidTable_boot memory, rfl⟩) ?_ execution
    intro events state event target before ih step_eq few
    have occupancy := Occupancy.of_reachable twoScans (.of_run before)
    rw [countAlong_concat before step_eq] at few ⊢
    obtain ⟨pids, nextpid_eq⟩ := ih (by omega)
    have next_eq := (step_counters step_eq).1
    have effect := effect_of_step occupancy twoScans step_eq
    cases allocated : state.allocates event with
    | false =>
      simp only [allocated] at next_eq
      exact ⟨pids.effect occupancy.forks effect fun moved => absurd next_eq moved,
        by simp [next_eq, nextpid_eq]⟩
    | true =>
      simp only [allocated, Bool.toNat_true, if_true] at next_eq few
      have room : state.nextpid < intMax := by omega
      rw [wrap_eq_self (by omega) (by omega)] at next_eq
      refine ⟨pids.effect occupancy.forks effect fun _ => room, ?_⟩
      rw [Bool.toNat_true]
      omega
  exact counted few

theorem pidTable_of_run (twoScans : kind ≠ .schedulerB) {events : List (Event C)}
    (execution : run (step kind) (boot memory) events = some kernel)
    (few : 1 + (countAlong (step kind) allocates (boot memory) events : Int) < intMax) :
    PidTable kernel.table kernel.nextpid :=
  (identifiers_of_run twoScans execution few).1

/-- A schedule only ever moves the identifier counter forward. -/
theorem nextpid_le_of_run (twoScans : kind ≠ .schedulerB) {first second : List (Event C)}
    (execution : run (step kind) (boot memory) first = some kernel)
    (rest : run (step kind) kernel second = some target)
    (few : 1 + (countAlong (step kind) allocates (boot memory) (first ++ second) : Int) < intMax) :
    kernel.nextpid ≤ target.nextpid := by
  have whole := run_append_eq_some_iff.mpr ⟨kernel, execution, rest⟩
  have target_eq := (identifiers_of_run twoScans whole few).2
  rw [countAlong_append execution] at few target_eq
  have kernel_eq := (identifiers_of_run twoScans execution (by omega)).2
  omega

/-! ## The family -/

/-- Processes have distinct positive identifiers and a living parent, an unused
slot has neither parent nor open files, and no parent is stuck in `wait`. -/
structure FamilyInvariant (kernel : Kernel C) : Prop where
  positive : ∀ slot, (kernel.table slot).state ≠ .unused → 0 < (kernel.table slot).pid
  distinct : ∀ first second, (kernel.table first).state ≠ .unused →
    (kernel.table second).state ≠ .unused →
    (kernel.table first).pid = (kernel.table second).pid → first = second
  parents : ∀ slot ≠ kernel.initproc,
    (kernel.table slot).state ∈ [ProcState.sleeping, .runnable, .running, .zombie] →
    ∃ parent, (kernel.table slot).parent = some parent ∧
      (kernel.table parent).state ∉ [ProcState.unused, .embryo, .zombie]
  unused : ∀ slot, (kernel.table slot).state = .unused →
    (kernel.table slot).parent = none ∧ ∀ fd, (kernel.table slot).ofile fd = none
  notStuck : ∀ slot, kernel.table.SleepsOn (some (.proc slot)) slot →
    ∀ child, (kernel.table child).parent = some slot → (kernel.table child).state ≠ .zombie

/-- The family invariant after any run that allocates fewer than `2^31 - 1`
identifiers, whatever the interleaving and the failures of `fork`. -/
theorem familyInvariant_of_run (twoScans : kind ≠ .schedulerB) {events : List (Event C)}
    (execution : run (step kind) (boot memory) events = some kernel)
    (few : 1 + (countAlong (step kind) allocates (boot memory) events : Int) < 2 ^ 31 - 1) :
    FamilyInvariant kernel := by
  have pids := pidTable_of_run twoScans execution few
  have lineage := lineage_of_reachable twoScans (.of_run execution)
  constructor
  · exact pids.named
  · intro first second firstUsed _ equal
    exact pids.distinct first second equal (pids.named first firstUsed).ne'
  · intro slot notInit present
    have present' : (kernel.table slot).state.Alive ∨ (kernel.table slot).state = .zombie := by
      simpa [ProcState.Alive, or_assoc] using present
    obtain ⟨parent, parent_eq, alive⟩ := lineage.parentAlive slot notInit present'
    rcases alive with state | state | state <;> simp_all [view]
  · intro slot unused
    have member := lineage.member slot
    exact ⟨member.orphan unused, member.closed (.inl unused)⟩
  · exact fun slot sleeps child isChild dead => lineage.awake slot sleeps ⟨child, isChild, dead⟩

/-- The first process forks a child and waits for it, and the child exits. -/
def forkWaitExit : List (Event Unit) :=
  [.acquire (), .look (), .switch (), .resume (), .op () .forkClaim,
    .op () (.forkStack (some 4)), .op () (.forkCopy (some 5)), .op () .forkReady,
    .op () .wait, .leave (), .back (), .look (), .acquire (), .look (), .switch (),
    .resume (), .op () .closeFiles, .op () .exit]

/-- At the end of that run the child is a zombie and its parent has been woken. -/
theorem familyInvariant_forkWaitExit :
    ∃ kernel : Kernel Unit, run (step .scheduler) (boot ⟨1, 2, 3⟩) forkWaitExit = some kernel ∧
      (kernel.table 1).state = .zombie ∧ (kernel.table 1).parent = some 0 ∧
      (kernel.table 0).state = .runnable ∧ FamilyInvariant kernel := by
  have few : 1 + (countAlong (step .scheduler) allocates (boot ⟨1, 2, 3⟩) forkWaitExit : Int) <
      2 ^ 31 - 1 := by decide +kernel
  obtain ⟨kernel, execution, dead, parent, woken⟩ : ∃ kernel ∈ run (step .scheduler)
      (boot ⟨1, 2, 3⟩ : Kernel Unit) forkWaitExit, (kernel.table 1).state = .zombie ∧
      (kernel.table 1).parent = some 0 ∧ (kernel.table 0).state = .runnable := by decide +kernel
  exact ⟨kernel, execution, dead, parent, woken, familyInvariant_of_run (by decide) execution few⟩

end Kernel

end Xv6.Process
