import Xv6.Process.Family.Correctness

/-!
# Processes and the slots they live in

A slot belongs to one process from the end of the `fork` that created it until
its parent has reaped it.  `Tenure` says what a step can do to the tenant of a
slot, and `Tenant.step` follows one process by its identifier: it keeps its slot, or it
is gone and its identifier is not used again.
-/

namespace Xv6.Process

open Xv6.Int32 Ptable

/-- The slot belongs to a process whose `fork` has completed. -/
structure ProcState.Settled (state : ProcState) : Prop where
  notUnused : state ≠ .unused
  notEmbryo : state ≠ .embryo

theorem ProcState.Alive.settled {state : ProcState} (alive : state.Alive) : state.Settled := by
  rcases alive with rfl | rfl | rfl <;> exact ⟨by decide, by decide⟩

/-- What a step can do to the tenant of a slot. -/
inductive Tenure (nextpid : Int) (before after : Proc) : Prop
  | kept (pid_eq : after.pid = before.pid)
      (settled : before.state.Settled → after.state.Settled)
      (used : after.state ≠ .unused → before.state ≠ .unused)
  | vacated (dead : ¬before.state.Alive) (unused : after.state = .unused)
  | claimed (vacant : before.state = .unused) (pid_eq : after.pid = nextpid)

/-- The step does only such things to every slot. -/
def Ptable.Tenures (table : Ptable) (nextpid : Int) (target : Ptable) : Prop :=
  ∀ slot, Tenure nextpid (table slot) (target slot)

namespace Tenure

variable {nextpid : Int} {before after : Proc}

theorem of_state_eq (pid_eq : after.pid = before.pid) (state_eq : after.state = before.state) :
    Tenure nextpid before after :=
  .kept pid_eq (by rw [state_eq]; exact id) (by rw [state_eq]; exact id)

/-- A store to one slot, which keeps the tenants of all others. -/
theorem modify {table : Ptable} {slot : Slot} {update : Proc → Proc}
    (own : Tenure nextpid (table slot) (update (table slot))) :
    table.Tenures nextpid (table.modify slot update) := by
  intro other
  by_cases same : other = slot
  · subst same
    simpa using own
  · rw [Ptable.modify_of_ne _ _ same]
    exact .of_state_eq rfl rfl

theorem of_steady {view target : View} (steady : Steady view target) :
    view.table.Tenures nextpid target.table := by
  intro slot
  rcases steady.state slot with same | ⟨before, after⟩
  · exact .of_state_eq (steady.pid slot) same
  · exact .kept (steady.pid slot) (fun _ => after.settled) (fun _ => before.settled.notUnused)

theorem of_exit {view : View} {slot : Slot} (running : (view.table slot).state = .running) :
    view.table.Tenures nextpid (view.table.exit slot view.initproc) := by
  intro other
  obtain ⟨parent, state, record_eq⟩ := view.table.exit_fields slot view.initproc other
  have pid_eq : (view.table.exit slot view.initproc other).pid = (view.table other).pid := by
    rw [record_eq]
  by_cases same : other = slot
  · subst same
    refine .kept pid_eq (fun _ => ?_) (fun _ => by rw [running]; decide)
    rw [exit_state_self]
    exact ⟨by decide, by decide⟩
  rcases view.table.exit_state_of_ne same with state_eq | ⟨sleeping, woken⟩
  · exact .of_state_eq pid_eq state_eq
  · refine .kept pid_eq (fun _ => ?_) (fun _ => by rw [sleeping]; decide)
    rw [woken]
    exact ⟨by decide, by decide⟩

/-- An embryo may be given up, and a finished one becomes a process. -/
theorem of_embryo (embryo : before.state = .embryo) (pid_eq : after.pid = before.pid) :
    Tenure nextpid before after :=
  .kept pid_eq (fun settled => absurd embryo settled.notEmbryo) (fun _ => by rw [embryo]; decide)

end Tenure

theorem Effect.tenures {view target : View} {call : Option Call}
    (effect : Effect view call target) (forks : Forks view.table view.activity) :
    view.table.Tenures view.nextpid target.table := by
  cases effect with
  | quiet quiet => exact Tenure.of_steady quiet.toSteady
  | kill caller pid => exact Tenure.of_steady (.kill view pid)
  | setOfile | closeFiles | stack | copy =>
    dsimp only [closeFiles, initEmbryo, copyParent]
    apply Tenure.modify
    exact .of_state_eq rfl rfl
  | exit running exiting => exact Tenure.of_exit running
  | @reap call cleared quiet child dead =>
    intro slot
    by_cases same : slot = child
    · subst same
      have zombie := (quiet.toSteady.zombie_iff slot).mp dead
      exact .vacated (by rw [zombie]; decide) (by simp [Ptable.reap])
    · dsimp only [Ptable.reap]
      rw [Ptable.modify_of_ne _ _ same]
      exact Tenure.of_steady quiet.toSteady slot
  | claim running found =>
    dsimp only [claim]
    apply Tenure.modify
    exact .claimed (findUnused_state found) rfl
  | @abandonStack caller child _ builds | @abandonCopy caller child _ builds
  | @ready caller child _ builds =>
    have embryo := forks.embryo caller child (by rw [builds, Activity.child])
    dsimp only [abandonStack, abandonCopy, setState]
    apply Tenure.modify
    exact .of_embryo embryo rfl

/-! ## One process -/

/-- The process `pid` lives in `slot`. -/
structure Ptable.Tenant (table : Ptable) (slot : Slot) (pid : Int) : Prop where
  settled : (table slot).state.Settled
  pid_eq : (table slot).pid = pid

/-- No process has the identifier any more. -/
def Ptable.Gone (table : Ptable) (pid : Int) : Prop :=
  ∀ slot, (table slot).state ≠ .unused → (table slot).pid ≠ pid

variable {view target : View} {call : Option Call} {slot : Slot} {pid : Int}

/-- A living process keeps its slot. -/
theorem Ptable.Tenant.of_alive (tenant : view.table.Tenant slot pid)
    (alive : (view.table slot).state.Alive) (effect : Effect view call target)
    (forks : Forks view.table view.activity) : target.table.Tenant slot pid := by
  cases effect.tenures forks slot with
  | kept pid_eq settled used => exact ⟨settled tenant.settled, pid_eq.trans tenant.pid_eq⟩
  | vacated dead unused => exact absurd alive dead
  | claimed vacant pid_eq => exact absurd vacant tenant.settled.notUnused

/-- An identifier that is in use after a step was handed out by it, or was in
use before. -/
theorem Effect.pid_before (effect : Effect view call target)
    (forks : Forks view.table view.activity)
    (inUse : (target.table slot).state ≠ .unused) (old : (target.table slot).pid < view.nextpid) :
    (view.table slot).state ≠ .unused ∧ (view.table slot).pid = (target.table slot).pid := by
  cases effect.tenures forks slot with
  | kept pid_eq settled used => exact ⟨used inUse, pid_eq.symm⟩
  | vacated dead unused => exact absurd unused inUse
  | claimed vacant pid_eq => omega

/-- A process keeps its slot or is gone. -/
theorem Ptable.Tenant.effect (tenant : view.table.Tenant slot pid)
    (effect : Effect view call target) (forks : Forks view.table view.activity)
    (pids : PidTable view.table view.nextpid) :
    target.table.Tenant slot pid ∨ target.table.Gone pid := by
  have old := (pids.bound slot).2
  have positive := pids.named slot tenant.settled.notUnused
  rw [tenant.pid_eq] at old positive
  cases effect.tenures forks slot with
  | kept pid_eq settled used => exact .inl ⟨settled tenant.settled, pid_eq.trans tenant.pid_eq⟩
  | claimed vacant pid_eq => exact absurd vacant tenant.settled.notUnused
  | vacated dead unused =>
    refine .inr fun other inUse other_eq => ?_
    obtain ⟨-, before_eq⟩ := effect.pid_before forks inUse (by omega)
    have same : other = slot := by
      apply pids.distinct
      · rw [before_eq, other_eq, tenant.pid_eq]
      · omega
    subst same
    exact inUse unused

/-- An identifier that is gone is not used again. -/
theorem Ptable.Gone.effect (gone : view.table.Gone pid) (old : pid < view.nextpid)
    (effect : Effect view call target) (forks : Forks view.table view.activity) :
    target.table.Gone pid := by
  intro slot inUse pid_eq
  obtain ⟨inUseBefore, before_eq⟩ := effect.pid_before forks inUse (by omega)
  exact gone slot inUseBefore (before_eq.trans pid_eq)

end Xv6.Process
