import Xv6.Process.Family.Correctness

/-!
# The reach of `kill`

`kill` compares the identifier of every slot, whatever its state.  A slot that
was never used, or whose zombie has been reaped, carries the identifier `0`, and
an embryo that `fork` gave up leaves its own identifier behind.  So `kill` can
find an unused slot, report success, and mark the next process that is created
there.  Everything works as intended exactly where no unused slot carries the
identifier.
-/

namespace Xv6.Process

open Xv6.Int32 Xv6.Transition Ptable

universe u

/-- What `kill` is meant to do: it succeeds exactly if some process has the
identifier, and then marks that process only; otherwise it changes nothing. -/
structure Ptable.KillReaches (table : Ptable) (pid : Int) : Prop where
  zero_iff : (table.kill pid).1 = 0 ↔
    ∃ slot, (table slot).state ≠ .unused ∧ (table slot).pid = pid
  marks : (table.kill pid).1 = 0 → ∃ slot, (table slot).state ≠ .unused ∧
    (table slot).pid = pid ∧ (table.kill pid).2 = table.modify slot markKilled
  fails : (table.kill pid).1 ≠ 0 → table.kill pid = (-1, table)

/-- `kill` reaches only the named process iff no unused slot carries the name. -/
theorem PidTable.killReaches_iff {table : Ptable} {nextpid : Int} (pids : PidTable table nextpid)
    (pid : Int) :
    table.KillReaches pid ↔ ∀ slot, (table slot).state = .unused → (table slot).pid ≠ pid := by
  constructor
  · intro reaches slot unused named
    -- The scan finds some slot, so the specification promises a process.
    have found : (table.kill pid).1 = 0 := by
      rcases table.kill_apply pid with ⟨_, -, -, kill_eq⟩ | ⟨missing, -⟩
      · rw [kill_eq]
      · exact absurd named (missing slot)
    obtain ⟨other, inUse, named'⟩ := reaches.zero_iff.mp found
    have positive := pids.named other inUse
    have same := pids.distinct other slot (named'.trans named.symm) positive.ne'
    exact inUse (same ▸ unused)
  · intro fresh
    rcases table.kill_apply pid with ⟨slot, named, -, kill_eq⟩ | ⟨missing, kill_eq⟩
    · have inUse : (table slot).state ≠ .unused := fun unused => fresh slot unused named
      refine ⟨?_, ?_, ?_⟩
      · rw [kill_eq]
        exact ⟨fun _ => ⟨slot, inUse, named⟩, fun _ => rfl⟩
      · rw [kill_eq]
        exact fun _ => ⟨slot, inUse, named, rfl⟩
      · rw [kill_eq]
        exact fun failed => absurd rfl failed
    · refine ⟨?_, ?_, fun _ => kill_eq⟩
      · rw [kill_eq]
        refine ⟨nofun, ?_⟩
        rintro ⟨slot, -, named⟩
        exact absurd named (missing slot)
      · rw [kill_eq]
        exact nofun

/-! ## Marks on unused slots -/

/-- The slot is unused, or holds an embryo and is the given one. -/
def View.Early (view : View) (watched : Option Slot) (slot : Slot) : Prop :=
  (view.table slot).state = .unused ∨ watched = some slot ∧ (view.table slot).state = .embryo

instance (view : View) (watched : Option Slot) (slot : Slot) :
    Decidable (view.Early watched slot) :=
  inferInstanceAs (Decidable (_ ∨ _))

/-- The call names no unused slot to `kill`, nor the embryo that is watched, and gives up no
embryo that has been killed meanwhile. -/
def View.Spares (view : View) (watched : Option Slot) : Option Call → Prop
  | some ⟨_, .kill pid⟩ => ∀ slot, view.Early watched slot → (view.table slot).pid ≠ pid
  | some ⟨slot, .forkStack none⟩ | some ⟨slot, .forkCopy none⟩ =>
    ∀ child, (view.activity slot).child = some child → (view.table child).killed = false
  | _ => True

instance (view : View) (watched : Option Slot) (call : Option Call) :
    Decidable (view.Spares watched call) := by
  unfold View.Spares
  split <;> infer_instance

/-- No unused slot is marked as killed, nor the embryo that is watched. -/
def View.Unmarked (view : View) (watched : Option Slot) : Prop :=
  ∀ slot, view.Early watched slot → (view.table slot).killed = false

namespace View.Unmarked

variable {view target : View} {watched : Option Slot}

section

variable (unmarked : view.Unmarked watched)

include unmarked

theorem quiet (quiet : Quiet view target) : target.Unmarked watched := by
  intro slot early
  have notAlive : ¬(target.table slot).state.Alive := by
    rcases early with unused | ⟨-, embryo⟩
    · rw [unused]
      decide
    · rw [embryo]
      decide
  have state_eq := (quiet.state slot).resolve_right fun alive => notAlive alive.2
  rw [(quiet.killed slot).resolve_right (state_eq ▸ notAlive)]
  unfold Early at early
  rw [state_eq] at early
  exact unmarked slot early

/-- A store to one slot that leaves it in use or unmarked. -/
theorem modify {slot : Slot} {update : Proc → Proc} {activity : Slot → Activity} {nextpid : Int}
    (own : (update (view.table slot)).state = .unused ∨
        watched = some slot ∧ (update (view.table slot)).state = .embryo →
      (update (view.table slot)).killed = false) :
    View.Unmarked ⟨view.table.modify slot update, activity, nextpid, view.initproc⟩ watched := by
  intro other early
  unfold Early at early
  by_cases same : other = slot
  · subst same
    simp only [modify_self] at early ⊢
    exact own early
  · simp only [modify_of_ne _ _ same] at early ⊢
    exact unmarked other early

theorem kill {pid : Int} (fresh : ∀ slot, view.Early watched slot → (view.table slot).pid ≠ pid) :
    View.Unmarked { view with table := (view.table.kill pid).2 } watched := by
  rcases view.table.kill_apply pid with ⟨slot, named, -, kill_eq⟩ | ⟨-, kill_eq⟩
  · rw [kill_eq]
    refine unmarked.modify fun early => absurd named (fresh slot ?_)
    simp only [markKilled] at early
    split at early
    · simp at early
    · exact early
  · rw [kill_eq]
    exact unmarked

theorem exit (slot : Slot) :
    View.Unmarked { view with table := view.table.exit slot view.initproc } watched := by
  intro other early
  unfold Early at early
  have ne : other ≠ slot := by
    rintro rfl
    simp at early
  obtain ⟨_, _, record_eq⟩ := view.table.exit_fields slot view.initproc other
  have state_eq : (view.table.exit slot view.initproc other).state = (view.table other).state :=
    (view.table.exit_state_of_ne ne).resolve_right fun woken => by simp [woken.2] at early
  rw [state_eq] at early
  simpa only [record_eq] using unmarked other early

theorem effect {call : Option Call} (effect : Effect view call target)
    (spares : view.Spares watched call) : target.Unmarked watched := by
  cases effect with
  | quiet quiet => exact unmarked.quiet quiet
  | kill slot pid => exact unmarked.kill spares
  | setOfile running user fd file | closeFiles running notInit =>
    exact unmarked.modify (by simp [running])
  | exit running exiting => exact unmarked.exit _
  | reap quiet dead => exact (unmarked.quiet quiet).modify fun _ => rfl
  | @claim slot child running found =>
    exact unmarked.modify fun _ => unmarked child (.inl (findUnused_state found))
  | ready running copied => exact unmarked.modify (by simp)
  | @abandonStack _ child _ builds | @abandonCopy _ child _ builds =>
    exact unmarked.modify fun _ => spares child (by rw [builds, Activity.child])
  | stack running claimed kstack | copy running stacked pgdir =>
    exact unmarked.modify (unmarked _)

end

end View.Unmarked

namespace Kernel

variable {C : Type u} [DecidableEq C] {kernel target : Kernel C} {kind : SchedKind}
  {memory : Boot} {watched : Option Slot}

/-- The event spares the unused slots and the embryo that is watched. -/
abbrev Spares (watched : Option Slot) (kernel : Kernel C) (event : Event C) : Prop :=
  kernel.view.Spares watched (kernel.call event)

/-- A run in which `kill` was never given the identifier of an unused slot, and
no `fork` gave up a killed embryo, leaves no mark on an unused slot. -/
theorem unmarked_of_along (twoScans : kind ≠ .schedulerB) {events : List (Event C)}
    (occupancy : Occupancy kernel) (unmarked : kernel.view.Unmarked watched)
    (execution : run (step kind) kernel events = some target)
    (spares : Along (step kind) (Spares watched) kernel events) :
    Occupancy target ∧ target.view.Unmarked watched := by
  refine run_invariant_of_along (fun kernel => Occupancy kernel ∧ kernel.view.Unmarked watched)
    ⟨occupancy, unmarked⟩ ?_ spares execution
  rintro state event target ⟨occupancy, unmarked⟩ spares step_eq
  exact ⟨occupancy.step twoScans step_eq,
    unmarked.effect (effect_of_step occupancy twoScans step_eq) spares⟩

omit [DecidableEq C] in
theorem unmarked_boot (memory : Boot) : (boot memory : Kernel C).view.Unmarked none := by
  intro slot _
  by_cases first : slot = 0 <;> simp [view, boot, userinit, initEmbryo, claim, Proc.zero, first]

/-- `fork` claims an unused slot, whose mark the embryo takes over. -/
theorem unmarked_of_forkClaim {cpu : C} {child : Slot} (unmarked : kernel.view.Unmarked none)
    (found : kernel.table.findUnused = some child)
    (step_eq : step kind kernel (.op cpu .forkClaim) = some target) :
    target.view.Unmarked (some child) := by
  obtain ⟨-, taken⟩ := taken_of_step step_eq
  cases taken with
  | stop stops =>
    cases stops with
    | charge slot dispatched => cases dispatched
  | op running free performed =>
    cases performed with
    | forkFull full => cases found.symm.trans full
    | forkClaim found' =>
      cases found.symm.trans found'
      have fresh := unmarked child (.inl (findUnused_state found))
      intro other early
      by_cases same : other = child
      · simpa [view, Ptable.claim, same] using fresh
      · have unused : (kernel.table other).state = .unused := by
          simpa [View.Early, view, Ptable.claim, same, Ne.symm same] using early
        simpa [view, Ptable.claim, same] using unmarked other (.inl unused)

/-- In every reachable table `kill` does what it is meant to do iff no unused
slot carries the identifier.  If that was so for every earlier `kill` and no
`fork` gave up a killed embryo, then a child that no `kill` has named since its slot
was claimed is not killed when `fork` makes it `RUNNABLE`. -/
theorem killReaches_iff_of_run (twoScans : kind ≠ .schedulerB) {events : List (Event C)}
    (execution : run (step kind) (boot memory) events = some kernel)
    (few : 1 + (countAlong (step kind) allocates (boot memory) events : Int) < 2 ^ 31 - 1) :
    (∀ pid, kernel.table.KillReaches pid ↔
        ∀ slot, (kernel.table slot).state = .unused → (kernel.table slot).pid ≠ pid) ∧
      (Along (step kind) (Spares none) (boot memory) events →
        ∀ claimer child claimed, kernel.table.findUnused = some child →
          step kind kernel (.op claimer .forkClaim) = some claimed →
        ∀ middle copied, run (step kind) claimed middle = some copied →
          Along (step kind) (Spares (some child)) claimed middle →
        ∀ cpu slot target, (copied.cpu cpu).phase = .run slot →
          copied.activity slot = .copied child →
          step kind copied (.op cpu .forkReady) = some target →
          (target.table child).state = .runnable ∧ (target.table child).killed = false) := by
  have pids := pidTable_of_run twoScans execution few
  refine ⟨pids.killReaches_iff, fun spares claimer child claimed found claims middle copied
    between sparesChild cpu slot target running activity step_eq => ?_⟩
  obtain ⟨occupancy, unmarked⟩ :=
    unmarked_of_along twoScans (.boot memory) (unmarked_boot memory) execution spares
  obtain ⟨occupancy', unmarked'⟩ := unmarked_of_along twoScans (occupancy.step twoScans claims)
    (unmarked_of_forkClaim unmarked found claims) between sparesChild
  have embryo := occupancy'.forks.embryo slot child (by rw [activity, Activity.child])
  have notKilled := unmarked' child (.inr ⟨rfl, embryo⟩)
  obtain ⟨-, taken⟩ := taken_of_step step_eq
  cases taken with
  | stop stops =>
    cases stops with
    | charge slot dispatched => cases dispatched
  | op running' free performed =>
    cases running.symm.trans running'
    cases performed with
    | forkReady activity' =>
      cases activity.symm.trans activity'
      simpa [forkReady, Ptable.setState, view] using notKilled

/-- The first process runs. -/
def startInit : List (Event Unit) := [.acquire (), .look (), .switch (), .resume ()]

/-- The first process calls `kill(0)` and forks. -/
def killZeroFork : List (Event Unit) :=
  [.op () (.kill 0), .op () .forkClaim, .op () (.forkStack (some 4)), .op () (.forkCopy (some 5)),
    .op () .forkReady]

/-- After `kill(1)`, which names a process, both halves hold. -/
theorem killReaches_iff_killOne :
    ∃ kernel claimed copied target : Kernel Unit,
      run (step .scheduler) (boot ⟨1, 2, 3⟩) (startInit ++ [.op () (.kill 1)]) = some kernel ∧
      kernel.table.KillReaches 1 ∧ step .scheduler kernel (.op () .forkClaim) = some claimed ∧
      run (step .scheduler) claimed [.op () (.forkStack (some 4)), .op () (.forkCopy (some 5))] =
        some copied ∧
      step .scheduler copied (.op () .forkReady) = some target ∧
      (target.table 1).state = .runnable ∧ (target.table 1).killed = false := by
  have few : 1 + (countAlong (step .scheduler) allocates (boot ⟨1, 2, 3⟩)
      (startInit ++ [.op () (.kill 1)]) : Int) < 2 ^ 31 - 1 := by decide +kernel
  have spares : Along (step .scheduler) (Spares none) (boot ⟨1, 2, 3⟩)
      (startInit ++ [.op () (.kill 1)]) := by decide +kernel
  obtain ⟨kernel, execution, named, found, claimed, claims, sparesChild, copied, copies, running,
      activity, target, step_eq, -⟩ :
    ∃ kernel ∈ run (step .scheduler) (boot ⟨1, 2, 3⟩) (startInit ++ [.op () (.kill 1)]),
      (∀ slot, (kernel.table slot).state = .unused → (kernel.table slot).pid ≠ 1) ∧
      kernel.table.findUnused = some 1 ∧
      ∃ claimed ∈ step .scheduler kernel (.op () .forkClaim),
      Along (step .scheduler) (Spares (some 1)) claimed
        [.op () (.forkStack (some 4)), .op () (.forkCopy (some 5))] ∧
      ∃ copied ∈ run (step .scheduler) claimed
        [.op () (.forkStack (some 4)), .op () (.forkCopy (some 5))],
      (copied.cpu ()).phase = .run 0 ∧ copied.activity 0 = .copied 1 ∧
      ∃ target ∈ step .scheduler copied (.op () .forkReady), True := by decide +kernel
  obtain ⟨reaches, newborn⟩ := killReaches_iff_of_run (by decide) execution few
  exact ⟨kernel, claimed, copied, target, execution, (reaches 1).mpr named, claims, copies, step_eq,
    newborn spares () 1 claimed found claims _ copied copies sparesChild () 0 target running
      activity step_eq⟩

/-- `kill(0)` succeeds although no process has the identifier `0`, and the next
child is killed before it has run. -/
theorem kill_zero_marks_next_child :
    ∃ kernel target : Kernel Unit,
      run (step .scheduler) (boot ⟨1, 2, 3⟩) startInit = some kernel ∧
      (kernel.table.kill 0).1 = 0 ∧
      (∀ slot, (kernel.table slot).state ≠ .unused → (kernel.table slot).pid ≠ 0) ∧
      run (step .scheduler) kernel killZeroFork = some target ∧
      (target.table 1).state = .runnable ∧ (target.table 1).killed = true := by
  obtain ⟨kernel, execution, found, unnamed, target, execution', marked⟩ :
    ∃ kernel ∈ run (step .scheduler) (boot ⟨1, 2, 3⟩ : Kernel Unit) startInit,
      (kernel.table.kill 0).1 = 0 ∧
      (∀ slot, (kernel.table slot).state ≠ .unused → (kernel.table slot).pid ≠ 0) ∧
      ∃ target ∈ run (step .scheduler) kernel killZeroFork,
        (target.table 1).state = .runnable ∧ (target.table 1).killed = true := by decide +kernel
  exact ⟨kernel, target, execution, found, unnamed, execution', marked⟩

end Kernel

end Xv6.Process
