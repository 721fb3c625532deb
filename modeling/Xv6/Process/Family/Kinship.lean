import Xv6.Custody.Core
import Xv6.Process.Family.Tenure

/-!
# Kinship

A process whose `fork` has completed is in the custody of its parent until the
parent's `wait` has reaped it.  `Kernel.kinChange` reads off an event what it
does to custody: the end of `fork` gains a child, a successful `wait` releases
one, and `exit` hands all children over to init.  No other event changes it.
-/

namespace Xv6.Process

open Xv6.Int32 Xv6.Custody Ptable Change

universe u

/-- The parent of a process; an embryo is nobody's child yet. -/
def Proc.kin (proc : Proc) : Option Slot :=
  if proc.state = .unused ∨ proc.state = .embryo then none else proc.parent

variable {proc : Proc}

theorem Proc.kin_of_settled (settled : proc.state.Settled) : proc.kin = proc.parent :=
  if_neg fun dormant => dormant.elim settled.notUnused settled.notEmbryo

theorem Proc.kin_of_unused (unused : proc.state = .unused) : proc.kin = none :=
  if_pos (.inl unused)

theorem Proc.kin_of_embryo (embryo : proc.state = .embryo) : proc.kin = none :=
  if_pos (.inr embryo)

theorem Proc.settled_of_kin {parent : Slot} (kin : proc.kin = some parent) :
    proc.state.Settled := by
  constructor
  · intro unused
    rw [Proc.kin_of_unused unused] at kin
    contradiction
  · intro embryo
    rw [Proc.kin_of_embryo embryo] at kin
    contradiction

/-- The custody of the processes in a table. -/
def Ptable.kin (table : Ptable) : Slot → Option Slot := fun slot => (table slot).kin

/-- The processes that live. -/
def Ptable.Lives (table : Ptable) (slot : Slot) : Prop := (table slot).state.Alive

/-- What a pass of the loop of `wait` does to custody. -/
def Ptable.waitChange (table : Ptable) (waiter : Slot) : Change Slot :=
  match table.waitScan waiter false slots with
  | .found child => .release waiter child
  | .finished _ => .keep

/-- What an operation of the process in `slot` does to custody. -/
def Kernel.opChange {C : Type u} (kernel : Kernel C) (slot : Slot) : Op → Change Slot
  | .wait => kernel.table.waitChange slot
  | .exit => .handOver slot kernel.initproc
  | .forkReady =>
    match kernel.activity slot with
    | .copied child => .gain slot child
    | _ => .keep
  | _ => .keep

/-- What an event does to custody.  A process that slept in `wait` makes another
pass of its loop when it is resumed. -/
def Kernel.kinChange {C : Type u} (kernel : Kernel C) : Event C → Change Slot
  | .resume cpu =>
    match (kernel.cpu cpu).phase with
    | .resumed slot =>
      if (kernel.thread slot).resume = .wait then kernel.table.waitChange slot else .keep
    | _ => .keep
  | .op cpu operation =>
    match (kernel.cpu cpu).phase with
    | .run slot => kernel.opChange slot operation
    | _ => .keep
  | _ => .keep

/-- The changes of custody that occur: the newcomer is the embryo its forker has
copied itself into, and children are handed over to init. -/
theorem Kernel.kinChange_cases {C : Type u} (kernel : Kernel C) (event : Event C) :
    kernel.kinChange event = .keep ∨
      (∃ waiter child, kernel.kinChange event = .release waiter child) ∨
      (∃ forker child, kernel.activity forker = .copied child ∧
        kernel.kinChange event = .gain forker child) ∨
      ∃ leaver, kernel.kinChange event = .handOver leaver kernel.initproc := by
  have wait slot : kernel.table.waitChange slot = .keep ∨ ∃ waiter child,
      kernel.table.waitChange slot = .release waiter child := by
    unfold waitChange
    split
    · exact .inr ⟨_, _, rfl⟩
    · exact .inl rfl
  cases event with
  | resume cpu =>
    unfold kinChange
    dsimp only
    split
    · split
      · exact (wait _).imp_right .inl
      · exact .inl rfl
    · exact .inl rfl
  | op cpu operation =>
    unfold kinChange
    dsimp only
    split
    · rename_i slot running
      cases operation with
      | wait => exact (wait slot).imp_right .inl
      | exit => exact .inr (.inr (.inr ⟨slot, rfl⟩))
      | forkReady =>
        simp only [opChange]
        split
        · rename_i child copied
          exact .inr (.inr (.inl ⟨slot, child, copied, rfl⟩))
        · exact .inl rfl
      | _ => exact .inl rfl
    · exact .inl rfl
  | _ => exact .inl rfl

/-- The step does to custody and to the living what the change says. -/
structure KinStep (table : Ptable) (change : Change Slot) (target : Ptable) : Prop where
  kin : target.kin = change.apply table.kin
  allowed : change.Allowed table.kin table.Lives
  lives : ∀ slot, target.Lives slot ↔ change.Present table.Lives slot

namespace KinStep

variable {table target : Ptable}

theorem refl (table : Ptable) : KinStep table .keep table where
  kin := rfl
  allowed := trivial
  lives _ := Iff.rfl

/-- A step before which custody was as it is. -/
theorem keep_trans {middle : Ptable} {change : Change Slot} (first : KinStep table .keep middle)
    (second : KinStep middle change target) : KinStep table change target := by
  have kin_eq : middle.kin = table.kin := first.kin
  have lives_eq : middle.Lives = table.Lives := funext fun slot => propext (first.lives slot)
  obtain ⟨kin, allowed, lives⟩ := second
  rw [kin_eq] at kin allowed
  rw [lives_eq] at allowed lives
  exact ⟨kin, allowed, lives⟩

/-- A change that keeps the parents of processes and who lives. -/
theorem of_slots (kin : ∀ slot, (target slot).kin = (table slot).kin)
    (lives : ∀ slot, (target slot).state.Alive ↔ (table slot).state.Alive) :
    KinStep table .keep target where
  kin := funext kin
  allowed := trivial
  lives := lives

theorem modify (table : Ptable) (slot : Slot) (update : Proc → Proc)
    (kin : (update (table slot)).kin = (table slot).kin)
    (lives : (update (table slot)).state.Alive ↔ (table slot).state.Alive) :
    KinStep table .keep (table.modify slot update) := by
  apply of_slots <;> intro other <;> by_cases same : other = slot
  · simpa [same] using kin
  · simp [same]
  · simpa [same] using lives
  · simp [same]

variable {slot : Slot}

/-- A store to a slot that holds no process before and afterwards. -/
theorem dormant (others : ∀ other ≠ slot, target other = table other)
    (before : (table slot).state = .unused ∨ (table slot).state = .embryo)
    (after : (target slot).state = .unused ∨ (target slot).state = .embryo) :
    KinStep table .keep target := by
  apply of_slots
  · intro other
    by_cases same : other = slot
    · rw [same, Proc.kin, Proc.kin, if_pos before, if_pos after]
    · rw [others other same]
  · intro other
    by_cases same : other = slot
    · rw [same]
      rcases before with before | before <;> rcases after with after | after <;>
        rw [before, after] <;> decide
    · rw [others other same]

/-- A steady step changes custody in nothing. -/
theorem of_steady {view target : View} (steady : Steady view target) :
    KinStep view.table .keep target.table := by
  apply of_slots
  · intro slot
    unfold Proc.kin
    rcases steady.state slot with same | ⟨before, after⟩
    · rw [same, steady.parent]
    · rw [if_neg fun dormant => dormant.elim after.settled.notUnused after.settled.notEmbryo,
        if_neg fun dormant => dormant.elim before.settled.notUnused before.settled.notEmbryo,
        steady.parent]
  · intro slot
    rcases steady.state slot with same | ⟨before, after⟩
    · rw [same]
    · exact iff_of_true after before

theorem goToSleep {chan : Chan} (running : (table slot).state = .running) :
    KinStep table .keep (table.goToSleep slot chan) := by
  apply modify
  · simp [Proc.kin, running]
  · simp [ProcState.Alive, running]

/-- `wait` reaps a zombie child of the waiter. -/
theorem reap {waiter child : Slot} (alive : table.Lives waiter)
    (isChild : (table child).parent = some waiter)
    (dead : (table child).state = .zombie) :
    KinStep table (.release waiter child) (table.reap child) where
  kin := by
    funext slot
    by_cases same : slot = child
    · subst same
      simp [apply, Ptable.kin, Ptable.reap, Proc.kin]
    · simp [apply, Ptable.kin, Ptable.reap, same]
  allowed := by
    have settled : (table child).state.Settled := by
      rw [dead]
      exact ⟨by decide, by decide⟩
    exact ⟨alive, (Proc.kin_of_settled settled).trans isChild⟩
  lives slot := by
    by_cases same : slot = child
    · subst same
      simp [Present, Ptable.Lives, Ptable.reap, dead, ProcState.Alive]
    · simp [Present, Ptable.Lives, Ptable.reap, same]

/-- The end of `fork` gains the child that the parent has copied itself into. -/
theorem ready {forker child : Slot} (alive : table.Lives forker)
    (embryo : (table child).state = .embryo)
    (isChild : (table child).parent = some forker) :
    KinStep table (.gain forker child) (table.setState child .runnable) where
  kin := by
    funext slot
    by_cases same : slot = child
    · subst same
      simp [apply, Ptable.kin, Ptable.setState, Proc.kin, isChild]
    · simp [apply, Ptable.kin, Ptable.setState, same]
  allowed := by
    refine ⟨alive, fun lives => ?_, Proc.kin_of_embryo embryo⟩
    exact ProcState.Alive.settled lives |>.notEmbryo embryo
  lives slot := by
    by_cases same : slot = child
    · subst same
      simp [Present, Ptable.Lives, Ptable.setState, ProcState.Alive]
    · simp [Present, Ptable.Lives, Ptable.setState, same]

/-- `exit` hands the children of the leaver over to init. -/
theorem exit {leaver init : Slot} (running : (table leaver).state = .running)
    (alive : table.Lives init) (notInit : leaver ≠ init) :
    KinStep table (.handOver leaver init) (table.exit leaver init) where
  kin := by
    funext slot
    have dormant_iff : ((table.exit leaver init slot).state = .unused ∨
        (table.exit leaver init slot).state = .embryo) ↔
        ((table slot).state = .unused ∨ (table slot).state = .embryo) := by
      by_cases same : slot = leaver
      · subst same
        simp [running]
      · rcases table.exit_state_of_ne same with state_eq | ⟨sleeping, woken⟩
        · rw [state_eq]
        · simp [sleeping, woken]
    simp only [apply, Ptable.kin, Proc.kin, dormant_iff, Ptable.exit_parent]
    by_cases dormant : (table slot).state = .unused ∨ (table slot).state = .embryo
    · simp [dormant]
    · simp [dormant]
  allowed := ⟨.inr (.inr running), alive, notInit⟩
  lives slot := by
    by_cases same : slot = leaver
    · subst same
      simp [Present, Ptable.Lives, ProcState.Alive]
    simp only [Present, Ptable.Lives, ne_eq, same, not_false_eq_true, true_and]
    rcases table.exit_state_of_ne same with state_eq | ⟨sleeping, woken⟩
    · rw [state_eq]
    · rw [sleeping, woken]
      decide

end KinStep

namespace Kernel

variable {C : Type u} [DecidableEq C] {kernel target : Kernel C}

variable {slot : Slot}

theorem kinStep_waited {cpu : C} (running : (kernel.table slot).state = .running)
    (waited : Waited kernel cpu slot target) :
    KinStep kernel.table (kernel.table.waitChange slot) target.table := by
  unfold waitChange
  cases waited with
  | reap found =>
    obtain ⟨isChild, dead⟩ := waitScan_found found
    rw [found]
    exact .reap (.inr (.inr running)) isChild dead
  | fail finished =>
    rw [finished]
    exact .refl _
  | sleep finished =>
    rw [finished]
    exact .goToSleep running

variable {cpu : C}

theorem kinStep_perform (occupancy : Occupancy kernel) (lineage : Lineage kernel.view)
    {operation : Op} (run : (kernel.cpu cpu).phase = .run slot)
    (performed : Performed kernel cpu slot operation target) :
    KinStep kernel.table (kernel.opChange slot operation) target.table := by
  have running : (kernel.table slot).state = .running := occupancy.state_running (by rw [run]; rfl)
  have alive : (kernel.table slot).state.Alive := .inr (.inr running)
  have embryo : ∀ {child}, (kernel.activity slot).child = some child →
      (kernel.table child).state = .embryo := fun builds => occupancy.forks.embryo slot _ builds
  cases performed with
  | yield => exact .of_steady (Quiet.setState kernel.view alive (.inl rfl)).toSteady
  | sleep address => exact .goToSleep running
  | closeFiles notInit console =>
    exact .modify kernel.table slot
      (fun proc => { proc with ofile := fun _ => none, cwd := none }) rfl .rfl
  | exit exiting =>
    apply KinStep.exit running lineage.initAlive
    rintro rfl
    exact lineage.initStays exiting
  | wait waited => exact kinStep_waited running waited
  | forkFull full => exact .refl _
  | forkClaim found =>
    exact .dormant (fun _ ne => if_neg ne) (.inl (findUnused_state found)) (.inr (by simp [claim]))
  | stackFail builds | copyFail builds =>
    exact .dormant (fun _ ne => if_neg ne) (.inr (embryo (by rw [builds]; rfl)))
      (.inl (by simp [forkFail, abandonStack, abandonCopy]))
  | forkStack builds | forkCopy builds =>
    have embryo := embryo (by rw [builds]; rfl)
    exact .dormant (fun _ ne => if_neg ne) (.inr embryo)
      (.inr (by simp [forkStack, initEmbryo, forkCopy, copyParent, embryo]))
  | @forkReady child copied =>
    have stage := lineage.stage slot
    rw [View.Stage, show kernel.view.activity slot = .copied child from copied] at stage
    rw [opChange, copied]
    exact .ready alive (embryo (by rw [copied]; rfl)) stage
  | kill pid => exact .of_steady (.kill kernel.view pid)
  | @setTickets tickets nonzero console =>
    exact .modify kernel.table slot
      (fun proc => { proc with tickets := tickets, pass := (10000 : Int).tdiv tickets }) rfl .rfl
  | setOfile user fd file =>
    exact .modify kernel.table slot (fun proc =>
      { proc with ofile := fun other => if other = fd then file else proc.ofile other })
      rfl .rfl
  | fault =>
    exact .modify kernel.table slot (fun proc => { proc with killed := true }) rfl .rfl

omit [DecidableEq C] in
/-- A step that stops the kernel leaves custody alone. -/
theorem kinChange_of_stops {kind : SchedKind} {event : Event C} {trap : Trap}
    (stops : Stops kind kernel event trap) : kernel.kinChange event = .keep := by
  cases stops with
  | zombie resumed dead => simp [kinChange, resumed, dead]
  | init | setTickets =>
    simp only [kinChange]
    split <;> rfl
  | @charge event slot dispatched => cases event <;> first | cases dispatched | rfl
  | _ => rfl

/-- Every step of the kernel changes custody as `kinChange` says. -/
theorem kinStep_of_step (occupancy : Occupancy kernel) (lineage : Lineage kernel.view)
    {kind : SchedKind} (twoScans : kind ≠ .schedulerB) {event : Event C}
    (step_eq : step kind kernel event = some target) :
    KinStep kernel.table (kernel.kinChange event) target.table := by
  obtain ⟨-, taken⟩ := taken_of_step step_eq
  cases taken with
  | stop stops halted =>
    rw [kinChange_of_stops stops, halted.table]
    exact .refl _
  | grab single => exact absurd single twoScans
  | draw | acquire | lookEnd | leave | back => exact .refl _
  | look scan picked accounted => exact .of_steady (quiet_account picked accounted).toSteady
  | switch chosen =>
    exact .of_steady (Quiet.setState kernel.view (.inr (.inl (occupancy.chosen _ _ chosen)))
      (.inr rfl)).toSteady
  | resume resumed awake =>
    simp only [kinChange, resumed, awake]
    exact .refl _
  | resumeSleep resumed awake =>
    have running := occupancy.state_running (by rw [resumed]; rfl)
    simp only [kinChange, resumed, awake]
    exact .of_steady (Quiet.clearChan kernel.view running).toSteady
  | @resumeWait cpu slot target resumed waits waited =>
    have running : (kernel.table slot).state = .running :=
      occupancy.state_running (by rw [resumed]; rfl)
    have cleared : KinStep kernel.table .keep (kernel.table.clearChan slot) :=
      .of_steady (Quiet.clearChan kernel.view running).toSteady
    have again : (kernel.table.clearChan slot).waitChange slot = kernel.table.waitChange slot := by
      simp only [waitChange, waitScan_of_chan (kernel.table.clearChan_chan slot)]
    simp only [kinChange, resumed, waits, ← again]
    exact cleared.keep_trans (kinStep_waited (by simpa [clearChan] using running) waited)
  | @wakeup address free =>
    exact .of_steady (Quiet.wakeup1 kernel.view (some (.addr address))).toSteady
  | op run free performed =>
    simp only [kinChange, run]
    exact kinStep_perform occupancy lineage run performed

end Kernel

end Xv6.Process
