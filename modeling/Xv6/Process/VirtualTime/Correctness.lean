import Xv6.Process.VirtualTime.Selection

/-!
# Virtual time

`scheduler` keeps no global virtual time.  `allocproc` starts a process at pass
1, a woken process keeps the pass it fell asleep with, and `set_tickets` sets
the pass of its caller back to one stride, so the pass of the dispatched process
can fall from one dispatch to the next.

What remains true concerns a process that joins no more.  It is dispatched with
a pass that no earlier dispatch since its last join exceeds, and while another
process stays runnable the distance of the two passes bounds how often it is
dispatched.
-/

namespace Xv6.Process

open Xv6.Int32 Xv6.Transition List

/-- The operation resets the pass of its caller. -/
def Op.setsTickets : Op → Bool
  | .setTickets _ => true
  | _ => false

namespace Kernel

variable {kernel target start : Kernel Unit} {memory : Boot} {event : Event Unit}
  {slot : Slot} {pid : Int} {events later : List (Event Unit)}

/-- The event dispatches the process `pid`. -/
def dispatchesPid (pid : Int) (kernel : Kernel Unit) (event : Event Unit) : Bool :=
  (dispatches .scheduler kernel event).any fun slot => (kernel.table slot).pid = pid

/-- The process `pid` does not call `set_tickets` in this step. -/
def KeepsTickets (pid : Int) (kernel : Kernel Unit) (event : Event Unit) : Prop :=
  ∀ call ∈ kernel.call event, call.operation.setsTickets = true →
    (kernel.table call.slot).pid ≠ pid

/-- The process stays runnable and is not dispatched. -/
def Waits (slot : Slot) (kernel : Kernel Unit) (event : Event Unit) : Prop :=
  (kernel.table slot).state = .runnable ∧ dispatches .scheduler kernel event ≠ some slot

/-! ## One process through a run -/

/-- The process `pid` is in its slot with this account, or gone. -/
inductive Tracked (table : Ptable) (slot : Slot) (pid tickets pass : Int) : Prop
  | here (tenant : table.Tenant slot pid) (tickets_eq : (table slot).tickets = tickets)
      (pass_eq : (table slot).pass = pass)
  | gone (gone : table.Gone pid)

theorem dispatchesPid_iff :
    dispatchesPid pid kernel event = true ↔
      ∃ slot, dispatches .scheduler kernel event = some slot ∧ (kernel.table slot).pid = pid := by
  unfold dispatchesPid
  cases dispatches .scheduler kernel event <;> simp

/-- The dispatched process is the tenant of the slot that is dispatched. -/
theorem dispatches_of_dispatchesPid (sound : kernel.Sound) (tenant : kernel.table.Tenant slot pid)
    (dispatched : dispatchesPid pid kernel event = true) :
    dispatches .scheduler kernel event = some slot := by
  obtain ⟨other, other_eq, pid_eq⟩ := dispatchesPid_iff.mp dispatched
  have positive := sound.pids.named slot tenant.settled.notUnused
  rw [sound.pids.distinct slot other (tenant.pid_eq.trans pid_eq.symm) (by omega)]
  exact other_eq

/-- A process that is gone is not dispatched. -/
theorem dispatchesPid_of_gone (sound : kernel.Sound) (gone : kernel.table.Gone pid) :
    dispatchesPid pid kernel event = false := by
  by_contra dispatched
  obtain ⟨slot, slot_eq, pid_eq⟩ := dispatchesPid_iff.mp (by simpa using dispatched)
  have ready := (sound.selected.dispatch_least slot_eq).1
  exact gone slot (by rw [ready]; decide) pid_eq

/-- The account of a process changes by its stride when it is dispatched, and
otherwise only by its own `set_tickets`. -/
theorem account_of_tenant (sound : kernel.Sound) (regular : kernel.Regular event)
    (tenant : kernel.table.Tenant slot pid) (keeps : KeepsTickets pid kernel event)
    (step_eq : step .scheduler kernel event = some target) :
    (target.table slot).tickets = (kernel.table slot).tickets ∧
      (target.table slot).pass = (kernel.table slot).pass +
        (dispatchesPid pid kernel event).toNat * strideOf kernel.table slot := by
  have account := sound.accounts slot (.used tenant.settled.notUnused tenant.settled.notEmbryo)
  cases dispatched : dispatchesPid pid kernel event with
  | true =>
    have slot_eq := dispatches_of_dispatchesPid sound tenant dispatched
    have nonzero : (kernel.table slot).tickets ≠ 0 := by
      have := account.lower
      omega
    obtain ⟨tickets_eq, pass_eq⟩ := account_of_dispatches slot_eq nonzero step_eq
    rw [wrap_charge account (regular.fits slot slot_eq)] at pass_eq
    exact ⟨tickets_eq, by simpa [strideOf] using pass_eq⟩
  | false =>
    cases accountChange_of_step step_eq slot with
    | same tickets_eq pass_eq => exact ⟨tickets_eq, by simpa using pass_eq⟩
    | charged slot_eq =>
      have := dispatchesPid_iff.mpr ⟨slot, slot_eq, tenant.pid_eq⟩
      rw [dispatched] at this
      contradiction
    | ticketed call_eq =>
      exact absurd tenant.pid_eq (keeps _ call_eq rfl)
    | initialized init =>
      obtain ⟨caller, kstack, -, claimed⟩ := init
      have embryo := sound.occupancy.forks.embryo caller slot (by rw [claimed, Activity.child])
      exact absurd embryo tenant.settled.notEmbryo

/-- A process through a run in which it does not call `set_tickets`: every
dispatch has added its stride. -/
theorem tracked_of_run (execution : run (step .scheduler) (boot memory) events = some start)
    (regularRun : RegularRun memory (events ++ later)) (tenant : start.table.Tenant slot pid)
    (keeps : Along (step .scheduler) (KeepsTickets pid) start later)
    (rest : run (step .scheduler) start later = some target) :
    Tracked target.table slot pid (start.table slot).tickets
      ((start.table slot).pass +
        countAlong (step .scheduler) (dispatchesPid pid) start later *
          strideOf start.table slot) := by
  have old : pid < start.nextpid := by
    have sound := sound_of_run execution (regularRun.of_append execution)
    rw [← tenant.pid_eq]
    exact (sound.pids.bound slot).2
  induction later using reverseRecOn generalizing target with
  | nil =>
    cases rest
    exact .here tenant rfl (by simp [countAlong])
  | append_singleton later event ih =>
    obtain ⟨middle, before, step_eq⟩ := run_concat_eq_some_iff.mp rest
    have whole := run_append_eq_some_iff.mpr ⟨start, execution, before⟩
    rw [← append_assoc] at regularRun
    have earlier := regularRun.of_append whole
    have regular := ((along_concat whole).mp regularRun.regular).2
    have sound := sound_of_run whole earlier
    obtain ⟨keepsEarlier, keepsNow⟩ := (along_concat before).mp keeps
    have effect := effect_of_step sound.occupancy (by decide) step_eq
    rw [countAlong_concat before step_eq]
    cases ih earlier keepsEarlier before with
    | here tenant tickets_eq pass_eq =>
      obtain ⟨tickets_eq', pass_eq'⟩ :=
        account_of_tenant sound regular tenant keepsNow step_eq
      have stride_eq : strideOf middle.table slot = strideOf start.table slot := by
        rw [strideOf, strideOf, tickets_eq]
      rcases Ptable.Tenant.effect tenant effect sound.occupancy.forks sound.pids with
        kept | gone
      · refine .here kept (tickets_eq'.trans tickets_eq) ?_
        rw [pass_eq', pass_eq, stride_eq]
        push_cast
        rw [Int.add_mul, Int.add_assoc]
      · exact .gone gone
    | gone gone =>
      have next_le := nextpid_le_of_run (by decide) execution before earlier.few
      exact .gone (Ptable.Gone.effect gone (lt_of_lt_of_le old next_le) effect
        sound.occupancy.forks)

/-! ## A process that waits -/

theorem executes_of_call {call : Call} (call_eq : kernel.call event = some call) :
    (kernel.cpu ()).phase.executes = some call.slot := by
  unfold Kernel.call at call_eq
  split at call_eq
  · split at call_eq
    · rename_i running
      cases call_eq
      rw [running, Phase.executes]
    · contradiction
  · contradiction

/-- A runnable process that is not dispatched keeps its pass. -/
theorem pass_of_waits (sound : kernel.Sound) (waits : Waits slot kernel event)
    (step_eq : step .scheduler kernel event = some target) :
    (target.table slot).pass = (kernel.table slot).pass := by
  obtain ⟨ready, undispatched⟩ := waits
  cases accountChange_of_step step_eq slot with
  | same tickets_eq pass_eq => exact pass_eq
  | charged dispatched => exact absurd dispatched undispatched
  | ticketed call_eq =>
    have running := sound.occupancy.state_running (executes_of_call call_eq)
    rw [ready] at running
    contradiction
  | initialized init =>
    obtain ⟨caller, kstack, -, claimed⟩ := init
    have embryo := sound.occupancy.forks.embryo caller slot (by rw [claimed, Activity.child])
    rw [ready] at embryo
    contradiction

theorem pass_of_waits_run (execution : run (step .scheduler) (boot memory) events = some start)
    (regularRun : RegularRun memory (events ++ later))
    (waits : Along (step .scheduler) (Waits slot) start later)
    (rest : run (step .scheduler) start later = some target) :
    (target.table slot).pass = (start.table slot).pass := by
  induction later using reverseRecOn generalizing target with
  | nil =>
    cases rest
    rfl
  | append_singleton later event ih =>
    obtain ⟨middle, before, step_eq⟩ := run_concat_eq_some_iff.mp rest
    have whole := run_append_eq_some_iff.mpr ⟨start, execution, before⟩
    rw [← append_assoc] at regularRun
    have earlier := regularRun.of_append whole
    obtain ⟨waitsEarlier, waitsNow⟩ := (along_concat before).mp waits
    rw [pass_of_waits (sound_of_run whole earlier) waitsNow step_eq]
    exact ih earlier waitsEarlier before

/-- While one process waits, another that does not call `set_tickets` is
dispatched only up to the pass of the first. -/
theorem bounded_of_run {other : Slot}
    (execution : run (step .scheduler) (boot memory) events = some start)
    (regularRun : RegularRun memory (events ++ later)) (tenant : start.table.Tenant slot pid)
    (keeps : Along (step .scheduler) (KeepsTickets pid) start later)
    (waits : Along (step .scheduler) (Waits other) start later)
    (rest : run (step .scheduler) start later = some target)
    (dispatched : 0 < countAlong (step .scheduler) (dispatchesPid pid) start later) :
    (start.table slot).pass +
        ((countAlong (step .scheduler) (dispatchesPid pid) start later : Int) - 1) *
          strideOf start.table slot ≤ (start.table other).pass := by
  induction later using reverseRecOn generalizing target with
  | nil => simp [countAlong] at dispatched
  | append_singleton later event ih =>
    obtain ⟨middle, before, step_eq⟩ := run_concat_eq_some_iff.mp rest
    have whole := run_append_eq_some_iff.mpr ⟨start, execution, before⟩
    rw [← append_assoc] at regularRun
    have earlier := regularRun.of_append whole
    have sound := sound_of_run whole earlier
    have keepsEarlier := ((along_concat before).mp keeps).1
    obtain ⟨waitsEarlier, waitsNow⟩ := (along_concat before).mp waits
    rw [countAlong_concat before step_eq] at dispatched ⊢
    cases now : dispatchesPid pid middle event with
    | false =>
      simp only [now] at dispatched ⊢
      exact ih earlier keepsEarlier waitsEarlier before dispatched
    | true =>
      -- The newest dispatch chose the process although the other one was runnable.
      cases tracked_of_run execution earlier tenant keepsEarlier before with
      | gone gone =>
        rw [dispatchesPid_of_gone sound gone] at now
        contradiction
      | here tenant' tickets_eq pass_eq =>
        have slot_eq := dispatches_of_dispatchesPid sound tenant' now
        have least := (sound.selected.dispatch_least slot_eq).2 other waitsNow.1
        rw [pass_eq, pass_of_waits_run execution earlier waitsEarlier before] at least
        simpa using least

/-! ## Virtual time over whole runs -/

/-- What the stride scheduler guarantees between two states of a run.  A process
that was already runnable at an earlier dispatch, and has not called
`set_tickets` since, is dispatched with no smaller pass.  And while some process
waits, the pass of that process bounds how often another one is dispatched. -/
structure VirtualTime (start : Kernel Unit) (later : List (Event Unit)) (target : Kernel Unit) :
    Prop where
  monotone : ∀ event event' chosen slot, dispatches .scheduler start event = some chosen →
    dispatches .scheduler target event' = some slot →
    (start.table slot).state = .runnable → (target.table slot).pid = (start.table slot).pid →
    Along (step .scheduler) (KeepsTickets (start.table slot).pid) start later →
    (start.table chosen).pass ≤ (target.table slot).pass
  bounded : ∀ slot other, (start.table slot).state.Settled →
    Along (step .scheduler) (KeepsTickets (start.table slot).pid) start later →
    Along (step .scheduler) (Waits other) start later →
    1 ≤ strideOf start.table slot ∧
      (0 < countAlong (step .scheduler) (dispatchesPid (start.table slot).pid) start later →
        (start.table slot).pass +
            ((countAlong (step .scheduler) (dispatchesPid (start.table slot).pid) start later
              : Int) - 1) * strideOf start.table slot ≤ (start.table other).pass)

/-- Virtual time in every regular run on one CPU. -/
theorem virtualTime_of_run (execution : run (step .scheduler) (boot memory) events = some start)
    (rest : run (step .scheduler) start later = some target)
    (regularRun : RegularRun memory (events ++ later)) : VirtualTime start later target := by
  have sound := sound_of_run execution (regularRun.of_append execution)
  have soundTarget :=
    sound_of_run (run_append_eq_some_iff.mpr ⟨start, execution, rest⟩) regularRun
  have stride slot (settled : (start.table slot).state.Settled) :
      1 ≤ strideOf start.table slot := by
    have account := sound.accounts slot (.used settled.notUnused settled.notEmbryo)
    exact stride_pos account.lower account.upper
  constructor
  · intro event event' chosen slot first second ready pid_eq keeps
    have least := (sound.selected.dispatch_least first).2 slot ready
    have readyTarget := (soundTarget.selected.dispatch_least second).1
    have settled : (start.table slot).state.Settled := by
      rw [ready]
      exact ⟨by decide, by decide⟩
    cases tracked_of_run execution regularRun ⟨settled, rfl⟩ keeps rest with
    | gone gone => exact absurd pid_eq (gone slot (by rw [readyTarget]; decide))
    | here tenant tickets_eq pass_eq =>
      have grown : 0 ≤ (countAlong (step .scheduler) (dispatchesPid (start.table slot).pid)
          start later : Int) * strideOf start.table slot :=
        Int.mul_nonneg (Int.natCast_nonneg _) (by have := stride slot settled; omega)
      omega
  · intro slot other settled keeps waits
    exact ⟨stride slot settled,
      bounded_of_run execution regularRun ⟨settled, rfl⟩ keeps waits rest⟩

/-- The passes of the dispatched processes in the order of their dispatches. -/
def dispatchPasses : Kernel Unit → List (Event Unit) → List Int
  | _, [] => []
  | kernel, event :: events =>
    match step .scheduler kernel event with
    | none => []
    | some target =>
      ((dispatches .scheduler kernel event).map fun slot => (kernel.table slot).pass).toList ++
        dispatchPasses target events

/-- The CPU dispatches a process, which performs some operations. -/
def enter (operations : List Op) : List (Event Unit) :=
  [.acquire (), .look (), .switch (), .resume ()] ++ operations.map (.op ())

/-- A process that has set its state returns to the scheduler. -/
def returnFrom (operation : Op) : List (Event Unit) :=
  [.op () operation, .leave (), .back (), .look ()]

/-- The operations of a successful `fork`. -/
def forkOps : List Op :=
  [.forkClaim, .forkStack (some 7), .forkCopy (some 8), .forkReady]

/-- The first process forks and yields. -/
def forkYield : List (Event Unit) :=
  enter forkOps ++ returnFrom .yield

/-- Two turns of whichever process is selected. -/
def twoTurns : List (Event Unit) :=
  enter [] ++ returnFrom .yield ++ enter [] ++ returnFrom .yield

theorem virtualTime_two_processes :
    RegularRun ⟨1, 2, 3⟩ (forkYield ++ twoTurns) ∧
      ∃ start target : Kernel Unit,
        run (step .scheduler) (boot ⟨1, 2, 3⟩) forkYield = some start ∧
        run (step .scheduler) start twoTurns = some target ∧
        VirtualTime start twoTurns target := by
  have regularRun : RegularRun ⟨1, 2, 3⟩ (forkYield ++ twoTurns) :=
    ⟨by decide +kernel, by decide +kernel⟩
  obtain ⟨start, execution⟩ : ∃ start : Kernel Unit,
      run (step .scheduler) (boot ⟨1, 2, 3⟩) forkYield = some start :=
    Option.isSome_iff_exists.mp (by decide +kernel)
  obtain ⟨target, rest⟩ : ∃ target : Kernel Unit,
      run (step .scheduler) start twoTurns = some target := by
    have whole : (run (step .scheduler) (boot ⟨1, 2, 3⟩) (forkYield ++ twoTurns)).isSome := by
      decide +kernel
    obtain ⟨target, whole⟩ := Option.isSome_iff_exists.mp whole
    obtain ⟨middle, first, second⟩ := run_append_eq_some_iff.mp whole
    cases execution.symm.trans first
    exact ⟨target, second⟩
  exact ⟨regularRun, start, target, execution, rest, virtualTime_of_run execution rest regularRun⟩

/-- The first process has run before it forks. -/
def lateFork : List (Event Unit) :=
  enter [] ++ returnFrom .yield ++ forkYield ++ enter []

/-- The first process sleeps while its child runs three times. -/
def lateWakeup : List (Event Unit) :=
  enter forkOps ++ returnFrom (.sleep 9) ++ twoTurns ++ enter [] ++ [.wakeup 9] ++
    returnFrom .yield ++ enter []

/-- The first process calls `set_tickets` in its second turn. -/
def lateTickets : List (Event Unit) :=
  enter [] ++ returnFrom .yield ++ enter [.setTickets 5] ++ returnFrom .yield ++ enter []

/-- A new, a woken and a re-ticketed process are each dispatched with a smaller
pass than the process before. -/
theorem pass_falls_at_joins :
    (RegularRun ⟨1, 2, 3⟩ lateFork ∧ dispatchPasses (boot ⟨1, 2, 3⟩) lateFork = [1, 10001, 1]) ∧
    (RegularRun ⟨1, 2, 3⟩ lateWakeup ∧
      dispatchPasses (boot ⟨1, 2, 3⟩) lateWakeup = [1, 1, 10001, 20001, 10001]) ∧
    RegularRun ⟨1, 2, 3⟩ lateTickets ∧
      dispatchPasses (boot ⟨1, 2, 3⟩) lateTickets = [1, 10001, 2000] :=
  ⟨⟨⟨by decide +kernel, by decide +kernel⟩, by decide +kernel⟩,
    ⟨⟨by decide +kernel, by decide +kernel⟩, by decide +kernel⟩,
    ⟨by decide +kernel, by decide +kernel⟩, by decide +kernel⟩

end Kernel

end Xv6.Process
