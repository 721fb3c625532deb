import Xv6.Process.Family.Ledger

/-!
# Every exited child is reaped once

A successful `wait` returns the identifier of a zombie to its parent: to the
process that forked it, or to init if that process has exited.  With the ledger
this settles what `fork`, `exit` and `wait` promise over a whole run.
-/

namespace Xv6.Process

open Xv6.Int32 Xv6.Custody Xv6.Transition Ptable Change

universe u

namespace Kernel

variable {C : Type u} [DecidableEq C] {kernel target : Kernel C} {kind : SchedKind}
  {memory : Boot} {events : List (Event C)} {event : Event C}

/-! ## The fork a process comes from -/

/-- The process exits in the schedule. -/
def Exits (kind : SchedKind) (pid : Int) (start : Kernel C) (labels : List (Event C)) : Prop :=
  0 < countAlong (step kind) (involves .leaver pid) start labels

/-- The run contains the `fork` that made the process in `slot`, and `parent` is
its forker, or init if the forker has exited since. -/
inductive BornOf (kind : SchedKind) (memory : Boot) (events : List (Event C))
    (kernel : Kernel C) (slot parent : Slot) : Prop
  | mk {before after : List (Event C)} {fork : Event C} {born : Kernel C} {forker child : Slot}
      (split : events = before ++ fork :: after)
      (execution : run (step kind) (boot memory) before = some born)
      (gain : born.kinChange fork = .gain forker child)
      (pid_eq : (born.table child).pid = (kernel.table slot).pid)
      (orphaned : Exits kind (born.table forker).pid born (fork :: after) →
        parent = kernel.initproc)
      (raised : ¬Exits kind (born.table forker).pid born (fork :: after) →
        (kernel.table parent).pid = (born.table forker).pid)

theorem exits_concat (pid : Int) {start : Kernel C} {labels : List (Event C)}
    (execution : run (step kind) start labels = some kernel)
    (step_eq : step kind kernel event = some target) :
    Exits kind pid start (labels ++ [event]) ↔
      Exits kind pid start labels ∨ involves .leaver pid kernel event = true := by
  rw [Exits, Exits, countAlong_concat execution step_eq]
  cases involves .leaver pid kernel event <;> simp

namespace FamilyStep

variable (taken : FamilyStep kind kernel event target) {slot parent guardian : Slot}
include taken

/-- A child after a step has been born in it, or it was a child before and its
parent is the same unless the parent has exited. -/
theorem kin_cases (kin : target.table.kin slot = some guardian) :
    kernel.kinChange event = .gain guardian slot ∨
      ∃ parent, kernel.table.kin slot = some parent ∧
        guardian = if (kernel.kinChange event).part .leaver = some parent then kernel.initproc
          else parent := by
  rw [taken.kinship.kin] at kin
  rcases kernel.kinChange_cases event with change | ⟨waiter, child, change⟩ |
    ⟨forker, child, -, change⟩ | ⟨leaver, change⟩
  · rw [change] at kin ⊢
    exact .inr ⟨guardian, kin, rfl⟩
  · rw [change] at kin ⊢
    refine .inr ⟨guardian, ?_, rfl⟩
    by_cases same : slot = child
    · simp [apply, same] at kin
    · simpa [apply, same] using kin
  · rw [change] at kin ⊢
    by_cases same : slot = child
    · subst same
      simp only [apply, Function.update_self, Option.some.injEq] at kin
      exact .inl (by rw [kin])
    · refine .inr ⟨guardian, ?_, rfl⟩
      simpa [apply, same] using kin
  · rw [change] at kin ⊢
    right
    simp only [apply] at kin
    split at kin
    · rename_i passed
      exact ⟨leaver, passed, by simpa [part] using (Option.some.inj kin).symm⟩
    · rename_i kept
      refine ⟨guardian, kin, ?_⟩
      rw [if_neg]
      rintro leaving
      exact kept (kin.trans leaving.symm)

/-- The record of a child is continued by a step. -/
theorem bornOf (record : BornOf kind memory events kernel slot parent)
    (execution : run (step kind) (boot memory) events = some kernel)
    (kin : kernel.table.kin slot = some parent)
    (kin' : target.table.kin slot = some (if (kernel.kinChange event).part .leaver = some parent
      then kernel.initproc else parent)) :
    BornOf kind memory (events ++ [event]) target slot
      (if (kernel.kinChange event).part .leaver = some parent then kernel.initproc
        else parent) := by
  have lives := taken.before.lives_of_kin kin
  obtain ⟨split, born_eq, gain, pid_eq, orphaned, raised⟩ := record
  rename_i before after fork born forker child
  have middle : run (step kind) born (fork :: after) = some kernel := by
    obtain ⟨state, state_eq, rest⟩ := run_append_eq_some_iff.mp (split ▸ execution)
    cases born_eq.symm.trans state_eq
    exact rest
  have slot_eq := taken.pid_eq (Proc.settled_of_kin kin).notUnused
    (Proc.settled_of_kin kin').notUnused
  have exits_iff := exits_concat (born.table forker).pid middle taken.step_eq
  -- While the forker lives it is the parent, so it exits exactly if the parent does.
  have leaver_iff : ¬Exits kind (born.table forker).pid born (fork :: after) →
      (involves .leaver (born.table forker).pid kernel event = true ↔
        (kernel.kinChange event).part .leaver = some parent) := by
    intro present
    rw [← raised present, involves_pid taken.before lives.settled.notUnused, decide_eq_true_iff]
  have split' : events ++ [event] = before ++ fork :: (after ++ [event]) := by simp [split]
  refine .mk split' born_eq gain (pid_eq.trans slot_eq.symm) ?_ ?_
  · intro exited
    rw [taken.initproc_eq]
    split
    · rfl
    · rename_i stays
      rcases exits_iff.mp exited with earlier | now
      · exact orphaned earlier
      · by_contra raisedNow
        exact stays ((leaver_iff fun earlier => raisedNow (orphaned earlier)).mp now)
  · intro present
    have presentBefore := fun earlier => present (exits_iff.mpr (.inl earlier))
    have stays : (kernel.kinChange event).part .leaver ≠ some parent := fun leaving =>
      present (exits_iff.mpr (.inr ((leaver_iff presentBefore).mpr leaving)))
    rw [if_neg stays, taken.pid_eq_of_lives lives]
    exact raised presentBefore

end FamilyStep

/-- Every child has a record that names its parent. -/
theorem bornOf_of_run (twoScans : kind ≠ .schedulerB)
    (execution : run (step kind) (boot memory) events = some kernel)
    (few : 1 + (countAlong (step kind) allocates (boot memory) events : Int) < intMax)
    {slot parent : Slot} (kin : kernel.table.kin slot = some parent) :
    BornOf kind memory events kernel slot parent := by
  refine family_induction twoScans (fun events (kernel : Kernel C) =>
    ∀ slot parent, kernel.table.kin slot = some parent →
      BornOf kind memory events kernel slot parent) ?_ ?_ execution few slot parent kin
  · intro slot parent kin
    have orphan : (userinit memory slot).parent = none := by
      by_cases first : slot = 0 <;> simp [userinit, initEmbryo, claim, Proc.zero, first]
    simp [boot, Ptable.kin, Proc.kin, orphan] at kin
  · intro events kernel event target execution ih taken slot guardian kin
    rcases taken.kin_cases kin with gain | ⟨parent, kinBefore, rfl⟩
    · -- The process was born in this step.
      have inUse : (kernel.table slot).state ≠ .unused := by
        rw [taken.embryo_of_gain gain]
        decide
      have allowed := taken.kinship.allowed
      rw [gain] at allowed
      have stays : ¬Exits kind (kernel.table guardian).pid kernel [event] := by
        simp [Exits, countAlong, taken.step_eq, involves, gain, part]
      exact .mk rfl execution gain (taken.pid_eq inUse (Proc.settled_of_kin kin).notUnused).symm
        (fun exits => absurd exits stays) (fun _ => taken.pid_eq_of_lives allowed.1)
    · exact taken.bornOf (ih slot parent kinBefore) execution kinBefore kin

/-! ## What `wait` returns -/

omit [DecidableEq C] in
/-- A child is released by the loop of `wait`. -/
theorem waiter_of_release {parent child : Slot}
    (release : kernel.kinChange event = .release parent child) :
    kernel.waiter event = some parent ∧ kernel.table.waitChange parent = .release parent child := by
  have releaser slot (change : kernel.table.waitChange slot = .release parent child) :
      slot = parent := by
    unfold waitChange at change
    split at change
    · cases change
      rfl
    · contradiction
  cases event with
  | resume cpu =>
    simp only [kinChange] at release
    split at release
    · rename_i slot resumed
      split at release
      · rename_i waits
        obtain rfl := releaser slot release
        exact ⟨by simp [waiter, resumed, waits], release⟩
      · contradiction
    · contradiction
  | op cpu operation =>
    simp only [kinChange] at release
    split at release
    · rename_i slot running
      cases operation with
      | wait =>
        obtain rfl := releaser slot release
        exact ⟨by simp [waiter, running], release⟩
      | forkReady =>
        simp only [opChange] at release
        split at release <;> contradiction
      | _ => contradiction
    · contradiction
  | _ => contradiction

/-! ## Whole runs -/

/-- Every exited child is reaped exactly once.  `once` and `balanced` speak about
the run so far, `byParent`, `returned` and `childless` about every `wait` that completes
next.
The children of a process that `balanced` counts are those whose `fork` has
completed. -/
structure Reaping (kind : SchedKind) (memory : Boot) (events : List (Event C))
    (kernel : Kernel C) : Prop where
  once : ∀ pid, count kind memory events .newcomer pid ≤ 1 ∧
    count kind memory events .dismissed pid ≤ 1
  byParent : ∀ event target parent child, step kind kernel event = some target →
    kernel.kinChange event = .release parent child →
    (kernel.table child).state = .zombie ∧
      (target.thread parent).ret = (kernel.table child).pid ∧
      (kernel.table child).parent = some parent ∧
      BornOf kind memory events kernel child parent
  returned : ∀ event target slot, step kind kernel event = some target →
    kernel.waiter event = some slot → (target.table slot).state = .running →
    (target.thread slot).ret ≠ -1 → ∃ child, kernel.kinChange event = .release slot child ∧
      (target.thread slot).ret = (kernel.table child).pid
  childless : ∀ event target slot, step kind kernel event = some target →
    kernel.waiter event = some slot → (target.table slot).state = .running →
    (target.thread slot).ret = -1 → (kernel.table slot).killed = false →
    ∀ other, (kernel.table other).parent ≠ some slot
  balanced : ∀ slot, (kernel.table slot).state.Alive →
    count kind memory events .releaser (kernel.table slot).pid +
        (wards kernel.table.kin slot).card =
      count kind memory events .gainer (kernel.table slot).pid +
        adoptions kind memory events (kernel.table slot).pid

/-- A successful `wait` reaps a zombie of the caller and returns its identifier. -/
theorem returns_of_release {parent child : Slot} (step_eq : step kind kernel event = some target)
    (release : kernel.kinChange event = .release parent child) :
    (kernel.table child).state = .zombie ∧ (target.thread parent).ret = (kernel.table child).pid ∧
      (kernel.table child).parent = some parent := by
  obtain ⟨waits, change⟩ := waiter_of_release release
  have found : kernel.table.waitScan parent false slots = .found child := by
    unfold waitChange at change
    split at change
    · cases change
      assumption
    · contradiction
  obtain ⟨isChild, dead⟩ := waitScan_found found
  refine ⟨dead, ?_, isChild⟩
  obtain ⟨cpu, table, -, -, same, waited⟩ := waited_of_step waits step_eq
  rw [← waitScan_of_chan same] at found
  cases waited with
  | reap found' =>
    cases found.symm.trans found'
    obtain ⟨chan, child_eq⟩ := same child
    simp [releaseTo, setPhase, setRet, child_eq]
  | fail finished | sleep finished => cases found.symm.trans finished

omit [DecidableEq C] in
theorem kinChange_of_waiter {slot : Slot} (waits : kernel.waiter event = some slot) :
    kernel.kinChange event = kernel.table.waitChange slot := by
  cases event with
  | resume cpu =>
    simp only [waiter] at waits
    split at waits
    · split at waits
      · cases waits
        simp [kinChange, *]
      · contradiction
    · contradiction
  | op cpu operation =>
    cases operation with
    | wait =>
      simp only [waiter] at waits
      split at waits
      · cases waits
        simp [kinChange, opChange, *]
      · contradiction
    | _ => contradiction
  | _ => contradiction

/-- A `wait` that does not fail has released a child. -/
theorem release_of_returned {slot : Slot} (step_eq : step kind kernel event = some target)
    (waits : kernel.waiter event = some slot) (returned : (target.table slot).state = .running)
    (succeeded : (target.thread slot).ret ≠ -1) :
    ∃ child, kernel.kinChange event = .release slot child ∧
      (target.thread slot).ret = (kernel.table child).pid := by
  obtain ⟨cpu, table, -, -, same, waited⟩ := waited_of_step waits step_eq
  cases waited with
  | @reap child found =>
    rw [waitScan_of_chan same] at found
    have release : kernel.kinChange event = .release slot child := by
      rw [kinChange_of_waiter waits, waitChange, found]
    exact ⟨child, release, (returns_of_release step_eq release).2.1⟩
  | fail finished gives => simp [releaseTo, setPhase, setRet] at succeeded
  | sleep finished => simp [goToSleep] at returned

theorem childless_of_failed {slot : Slot} (family : Family kernel)
    (step_eq : step kind kernel event = some target) (waits : kernel.waiter event = some slot)
    (returned : (target.table slot).state = .running) (failed : (target.thread slot).ret = -1)
    (notKilled : (kernel.table slot).killed = false) (other : Slot) :
    (kernel.table other).parent ≠ some slot := by
  obtain ⟨cpu, table, -, -, same, waited⟩ := waited_of_step waits step_eq
  have scan_eq : table.waitScan slot false slots = kernel.table.waitScan slot false slots :=
    waitScan_of_chan same
  cases waited with
  | @reap child found =>
    -- The identifier that was returned is positive.
    obtain ⟨chan, child_eq⟩ := same child
    have dead := (waitScan_found (scan_eq.symm.trans found)).2
    have positive := family.pids.named child (by rw [dead]; decide)
    simp only [releaseTo, setPhase, setRet, setCpu_thread, setThread_thread, if_true,
      child_eq] at failed
    omega
  | fail finished gives =>
    have kids := (waitScan_finished (scan_eq.symm.trans finished)).2
    obtain ⟨chan, slot_eq⟩ := same slot
    simp only [slot_eq, notKilled, Bool.false_eq_true, or_false] at gives
    rw [gives] at kids
    intro isChild
    simpa using kids.mpr (.inr ⟨other, mem_slots other, isChild⟩)
  | sleep finished => simp [goToSleep] at returned

/-- The promises of `fork`, `exit` and `wait` after any run that allocates fewer
than `2^31 - 1` identifiers. -/
theorem reaping_of_run (twoScans : kind ≠ .schedulerB)
    (execution : run (step kind) (boot memory) events = some kernel)
    (few : 1 + (countAlong (step kind) allocates (boot memory) events : Int) < 2 ^ 31 - 1) :
    Reaping kind memory events kernel := by
  have ledger := ledger_of_run twoScans execution few
  have family := family_of_run twoScans execution few
  constructor
  · exact fun pid => ⟨ledger.bornOnce pid, ledger.reapedOnce pid⟩
  · intro event target parent child step_eq release
    obtain ⟨dead, ret_eq, isChild⟩ := returns_of_release step_eq release
    have kin : kernel.table.kin child = some parent := by
      have settled : (kernel.table child).state.Settled := by
        rw [dead]
        exact ⟨by decide, by decide⟩
      exact (Proc.kin_of_settled settled).trans isChild
    exact ⟨dead, ret_eq, isChild, bornOf_of_run twoScans execution few kin⟩
  · exact fun event target slot => release_of_returned
  · intro event target slot step_eq waits returned failed notKilled
    exact childless_of_failed family step_eq waits returned failed notKilled
  · exact ledger.balanced

/-- The run in which the first process waits for its child, up to the end of `wait`. -/
def forkWaitReap : List (Event Unit) :=
  forkWaitExit ++ [.leave (), .back (), .look (), .acquire (), .look (), .switch (), .resume ()]

/-- The first process has forked once and reaped its child, which has the identifier 2. -/
theorem reaping_forkWaitReap :
    count .scheduler ⟨1, 2, 3⟩ forkWaitReap .dismissed 2 = 1 ∧
      count .scheduler ⟨1, 2, 3⟩ forkWaitReap .releaser 1 = 1 ∧
      ∃ kernel : Kernel Unit, run (step .scheduler) (boot ⟨1, 2, 3⟩) forkWaitReap = some kernel ∧
        (kernel.thread 0).ret = 2 ∧ Reaping .scheduler ⟨1, 2, 3⟩ forkWaitReap kernel := by
  have few : 1 + (countAlong (step .scheduler) allocates (boot ⟨1, 2, 3⟩) forkWaitReap : Int) <
      2 ^ 31 - 1 := by decide +kernel
  obtain ⟨kernel, execution, ret_eq⟩ : ∃ kernel ∈ run (step .scheduler)
      (boot ⟨1, 2, 3⟩ : Kernel Unit) forkWaitReap, (kernel.thread 0).ret = 2 := by decide +kernel
  exact ⟨by decide +kernel, by decide +kernel, kernel, execution, ret_eq,
    reaping_of_run (by decide) execution few⟩

end Kernel

end Xv6.Process
