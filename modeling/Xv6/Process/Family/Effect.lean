import Mathlib.Logic.Function.Basic
import Xv6.Process.Occupancy.Correctness

/-!
# What a step does to the process family

The family of processes is seen through a `View`: the table, what each thread
is doing, the identifier counter and the first process.  CPUs, locks and
control points are gone.  `Effect` lists the transitions of this view, and every
step of the kernel is one of them, so an invariant of the family is proved
against twelve effects instead of against the whole kernel.
-/

namespace Xv6.Process

open Function Xv6.Int32 Ptable

universe u

/-- The process can run now or later. -/
def ProcState.Alive (state : ProcState) : Prop :=
  state = .sleeping ∨ state = .runnable ∨ state = .running

instance (state : ProcState) : Decidable state.Alive :=
  inferInstanceAs (Decidable (_ ∨ _ ∨ _))

/-- The part of the kernel that the family invariants speak about. -/
structure View where
  table : Ptable
  activity : Slot → Activity
  nextpid : Int
  initproc : Slot

/-- A living process has a zombie child. -/
def Ptable.HasZombieChild (table : Ptable) (slot : Slot) : Prop :=
  ∃ child, (table child).parent = some slot ∧ (table child).state = .zombie

/-- A step that neither creates nor ends a process, and leaves identifiers,
parents and open files alone.  A process that falls asleep on its own record
has no zombie child. -/
structure Steady (view target : View) : Prop where
  activity : target.activity = view.activity
  nextpid : target.nextpid = view.nextpid
  initproc : target.initproc = view.initproc
  pid : ∀ slot, (target.table slot).pid = (view.table slot).pid
  parent : ∀ slot, (target.table slot).parent = (view.table slot).parent
  ofile : ∀ slot, (target.table slot).ofile = (view.table slot).ofile
  state : ∀ slot, (target.table slot).state = (view.table slot).state ∨
    (view.table slot).state.Alive ∧ (target.table slot).state.Alive
  asleep : ∀ slot, target.table.SleepsOn (some (.proc slot)) slot →
    view.table.SleepsOn (some (.proc slot)) slot ∨ ¬view.table.HasZombieChild slot

/-- A steady step that marks only living processes as killed. -/
structure Quiet (view target : View) : Prop extends Steady view target where
  killed : ∀ slot, (target.table slot).killed = (view.table slot).killed ∨
    (view.table slot).state.Alive

/-- The transitions of the view, labelled with the call that causes them.  In
the last six the process in `slot` runs `fork`. -/
inductive Effect (view : View) : Option Call → View → Prop
  | quiet {call : Option Call} {target : View} (quiet : Quiet view target) :
      Effect view call target
  | kill (slot : Slot) (pid : Int) :
      Effect view (some ⟨slot, .kill pid⟩) { view with table := (view.table.kill pid).2 }
  | setOfile {slot : Slot} (running : (view.table slot).state = .running)
      (user : view.activity slot = .user) (fd : Fin nofile) (file : Option Nat) :
      Effect view (some ⟨slot, .setOfile fd file⟩)
        { view with
          table := view.table.modify slot fun proc =>
            { proc with ofile := fun other => if other = fd then file else proc.ofile other } }
  | closeFiles {slot : Slot} (running : (view.table slot).state = .running)
      (notInit : slot ≠ view.initproc) :
      Effect view (some ⟨slot, .closeFiles⟩)
        { view with
          table := view.table.closeFiles slot
          activity := update view.activity slot .exiting }
  | exit {slot : Slot} (running : (view.table slot).state = .running)
      (exiting : view.activity slot = .exiting) :
      Effect view (some ⟨slot, .exit⟩)
        { view with table := view.table.exit slot view.initproc }
  | reap {call : Option Call} {cleared : View} (quiet : Quiet view cleared) {child : Slot}
      (dead : (cleared.table child).state = .zombie) :
      Effect view call { cleared with table := cleared.table.reap child }
  | claim {slot child : Slot} (running : (view.table slot).state = .running)
      (found : view.table.findUnused = some child) :
      Effect view (some ⟨slot, .forkClaim⟩)
        { view with
          table := view.table.claim child view.nextpid
          activity := update view.activity slot (.claimed child)
          nextpid := wrap (view.nextpid + 1) }
  | abandonStack {slot child : Slot} (running : (view.table slot).state = .running)
      (claimed : view.activity slot = .claimed child) :
      Effect view (some ⟨slot, .forkStack none⟩)
        { view with
          table := view.table.abandonStack child
          activity := update view.activity slot .user }
  | abandonCopy {slot child : Slot} (running : (view.table slot).state = .running)
      (stacked : view.activity slot = .stacked child) :
      Effect view (some ⟨slot, .forkCopy none⟩)
        { view with
          table := view.table.abandonCopy child
          activity := update view.activity slot .user }
  | stack {slot child : Slot} (running : (view.table slot).state = .running)
      (claimed : view.activity slot = .claimed child) (kstack : Nat) :
      Effect view (some ⟨slot, .forkStack (some kstack)⟩)
        { view with
          table := view.table.initEmbryo child kstack
          activity :=
            update (update view.activity child .user) slot (.stacked child) }
  | copy {slot child : Slot} (running : (view.table slot).state = .running)
      (stacked : view.activity slot = .stacked child) (pgdir : Nat) :
      Effect view (some ⟨slot, .forkCopy (some pgdir)⟩)
        { view with
          table := view.table.copyParent child slot pgdir
          activity := update view.activity slot (.copied child) }
  | ready {slot child : Slot} (running : (view.table slot).state = .running)
      (copied : view.activity slot = .copied child) :
      Effect view (some ⟨slot, .forkReady⟩)
        { view with
          table := view.table.setState child .runnable
          activity := update view.activity slot .user }

/-! ## Steady steps -/

namespace Steady

theorem zombie_iff {view target : View} (steady : Steady view target) (slot : Slot) :
    (target.table slot).state = .zombie ↔ (view.table slot).state = .zombie := by
  rcases steady.state slot with same | ⟨before, after⟩
  · rw [same]
  · constructor
    · intro dead
      rw [dead] at after
      exact absurd after (by decide)
    · intro dead
      rw [dead] at before
      exact absurd before (by decide)

theorem hasZombieChild_iff {view target : View} (steady : Steady view target) (slot : Slot) :
    target.table.HasZombieChild slot ↔ view.table.HasZombieChild slot :=
  exists_congr fun child => by rw [steady.parent, steady.zombie_iff]

/-- Forks in progress keep their embryos. -/
theorem forks {view target : View} (steady : Steady view target)
    (forks : Forks view.table view.activity) : Forks target.table target.activity := by
  apply forks.keep (by simp [steady.activity])
  intro child embryo _
  rcases steady.state child with same | ⟨alive, -⟩
  · rw [same, embryo]
  · rw [embryo] at alive
    exact absurd alive (by decide)

/-- Waking processes and marking them as killed is steady. -/
theorem of_wakes (view : View) {table : Ptable} (wakes : Wakes view.table table)
    (fields : ∀ slot, ∃ killed state,
      table slot = { view.table slot with killed := killed, state := state }) :
    Steady view { view with table := table } where
  activity := rfl
  nextpid := rfl
  initproc := rfl
  pid slot := by
    obtain ⟨killed, state, record_eq⟩ := fields slot
    simp only [record_eq]
  parent slot := by
    obtain ⟨killed, state, record_eq⟩ := fields slot
    simp only [record_eq]
  ofile slot := by
    obtain ⟨killed, state, record_eq⟩ := fields slot
    simp only [record_eq]
  state slot := by
    rcases wakes slot with same | ⟨asleep, woken⟩
    · exact .inl same
    · exact .inr ⟨by rw [asleep]; decide, by simp only [woken]; decide⟩
  asleep slot sleeps := by
    obtain ⟨killed, state, record_eq⟩ := fields slot
    exact .inl (wakes.sleepsOn (by rw [record_eq]) sleeps)

/-- `kill` is steady, but it may mark any slot. -/
theorem kill (view : View) (pid : Int) :
    Steady view { view with table := (view.table.kill pid).2 } :=
  of_wakes view (view.table.kill_wakes pid) (view.table.kill_fields pid)

end Steady

namespace Quiet

variable (view : View)

theorem refl : Quiet view view where
  activity := rfl
  nextpid := rfl
  initproc := rfl
  pid _ := rfl
  parent _ := rfl
  ofile _ := rfl
  killed _ := .inl rfl
  state _ := .inl rfl
  asleep _ := .inl

variable {slot : Slot}

/-- Stores to a living process that keep it alive. -/
theorem modify (update : Proc → Proc) (alive : (view.table slot).state.Alive)
    (pid : (update (view.table slot)).pid = (view.table slot).pid)
    (parent : (update (view.table slot)).parent = (view.table slot).parent)
    (ofile : (update (view.table slot)).ofile = (view.table slot).ofile)
    (state : (update (view.table slot)).state.Alive)
    (asleep : (update (view.table slot)).state = .sleeping →
      (update (view.table slot)).chan = some (.proc slot) →
      view.table.SleepsOn (some (.proc slot)) slot ∨ ¬view.table.HasZombieChild slot) :
    Quiet view { view with table := view.table.modify slot update } where
  activity := rfl
  nextpid := rfl
  initproc := rfl
  pid := field_modify Proc.pid pid
  parent := field_modify Proc.parent parent
  ofile := field_modify Proc.ofile ofile
  killed other := by
    by_cases same : other = slot
    · subst same
      exact .inr alive
    · simp [same]
  state other := by
    by_cases same : other = slot
    · subst same
      exact .inr ⟨alive, by simpa using state⟩
    · simp [same]
  asleep other := by
    by_cases same : other = slot
    · subst same
      rintro ⟨sleeping, chan⟩
      exact asleep (by simpa using sleeping) (by simpa using chan)
    · intro sleeps
      exact .inl (by simpa [SleepsOn, same] using sleeps)

/-- Stores to a living process that keep its state and its channel. -/
theorem store (update : Proc → Proc) (alive : (view.table slot).state.Alive)
    (pid : (update (view.table slot)).pid = (view.table slot).pid)
    (parent : (update (view.table slot)).parent = (view.table slot).parent)
    (ofile : (update (view.table slot)).ofile = (view.table slot).ofile)
    (state : (update (view.table slot)).state = (view.table slot).state)
    (chan : (update (view.table slot)).chan = (view.table slot).chan) :
    Quiet view { view with table := view.table.modify slot update } := by
  apply modify view update alive pid parent ofile (by rw [state]; exact alive)
  intro sleeping chan_eq
  exact .inl ⟨state.symm.trans sleeping, chan.symm.trans chan_eq⟩

/-- A living process gets ready or starts to run. -/
theorem setState {state : ProcState} (alive : (view.table slot).state.Alive)
    (awake : state = .runnable ∨ state = .running) :
    Quiet view { view with table := view.table.setState slot state } := by
  apply modify view _ alive rfl rfl rfl (.inr awake)
  rintro sleeping -
  simp_all

/-- A process goes to sleep, on its own record only if it has no zombie child. -/
theorem goToSleep {chan : Chan} (alive : (view.table slot).state.Alive)
    (noZombie : chan = .proc slot → ¬view.table.HasZombieChild slot) :
    Quiet view { view with table := view.table.goToSleep slot chan } := by
  apply modify view _ alive rfl rfl rfl (.inl rfl)
  rintro - chan_eq
  exact .inr (noZombie (Option.some.inj chan_eq))

theorem clearChan (running : (view.table slot).state = .running) :
    Quiet view { view with table := view.table.clearChan slot } :=
  modify view _ (.inr (.inr running)) rfl rfl rfl (.inr (.inr running)) fun _ => nofun

theorem wakeup1 (chan : Option Chan) :
    Quiet view { view with table := view.table.wakeup1 chan } where
  toSteady := .of_wakes view (view.table.wakeup1_wakes chan)
    fun slot => ⟨_, _, view.table.wakeup1_apply chan slot⟩
  killed slot := .inl (by simp only [wakeup1_apply])

theorem trans {view middle target : View} (first : Quiet view middle)
    (second : Quiet middle target) : Quiet view target where
  activity := second.activity.trans first.activity
  nextpid := second.nextpid.trans first.nextpid
  initproc := second.initproc.trans first.initproc
  pid slot := (second.pid slot).trans (first.pid slot)
  parent slot := (second.parent slot).trans (first.parent slot)
  ofile slot := (second.ofile slot).trans (first.ofile slot)
  killed slot := by
    rcases second.killed slot, first.state slot with ⟨same | alive, same' | ⟨alive', -⟩⟩
    · rw [same]
      exact first.killed slot
    · exact .inr alive'
    · exact .inr (same' ▸ alive)
    · exact .inr alive'
  state slot := by
    rcases second.state slot, first.state slot with
      ⟨same | ⟨alive, alive'⟩, same' | ⟨before, after⟩⟩
    · exact .inl (same.trans same')
    · exact .inr ⟨before, same ▸ after⟩
    · exact .inr ⟨same' ▸ alive, alive'⟩
    · exact .inr ⟨before, alive'⟩
  asleep slot sleeps := by
    rcases second.asleep slot sleeps with sleeps' | noZombie
    · exact first.asleep slot sleeps'
    · exact .inr (mt (first.toSteady.hasZombieChild_iff slot).mpr noZombie)

end Quiet

/-! ## Every step of the kernel is an effect -/

namespace Kernel

variable {C : Type u}

/-- The family in a kernel state. -/
def view (kernel : Kernel C) : View where
  table := kernel.table
  activity := kernel.activity
  nextpid := kernel.nextpid
  initproc := kernel.initproc

/-- The view after a change of the table and of one activity. -/
theorem view_setActivity (kernel : Kernel C) (slot : Slot) (activity : Activity) :
    (kernel.setActivity slot activity).view =
      { kernel.view with activity := update kernel.view.activity slot activity } := by
  simp only [view, View.mk.injEq]
  refine ⟨rfl, funext fun other => ?_, rfl, rfl⟩
  rw [setActivity_activity, update_apply]

theorem view_setRet (kernel : Kernel C) (slot : Slot) (value : Int) :
    (kernel.setRet slot value).view = kernel.view := by
  simp only [view, View.mk.injEq]
  exact ⟨rfl, funext fun other => setRet_activity kernel slot other value, rfl, rfl⟩

variable [DecidableEq C]

theorem view_enterSched (kernel : Kernel C) (cpu : C) (slot : Slot) (resume : Resume) :
    (kernel.enterSched cpu slot resume).view = kernel.view := by
  simp only [view, View.mk.injEq]
  exact ⟨rfl, funext fun other => enterSched_activity kernel cpu slot other resume, rfl, rfl⟩

theorem view_releaseTo (kernel : Kernel C) (cpu : C) (slot : Slot) :
    (kernel.releaseTo cpu slot).view = kernel.view :=
  rfl

variable {kernel target : Kernel C}

variable {cpu : C} {slot : Slot}

omit [DecidableEq C] in
/-- The dispatch of a process is quiet, whichever scheduler does it. -/
theorem quiet_account {kind : SchedKind} {next : Nat} {counter : Int} {table : Ptable}
    (picked : pick kind kernel.table (kernel.cpu cpu) next = some (slot, counter))
    (accounted : account kind kernel.table slot = some table) :
    Quiet kernel.view { kernel.view with table := table } := by
  obtain ⟨count, pass, rfl⟩ := account_eq_some accounted
  exact .store kernel.view (fun proc => { proc with count := count, pass := pass })
    (.inr (.inl (pick_runnable picked))) rfl rfl rfl rfl rfl

variable {call : Option Call}

/-- One pass of the loop of `wait`, possibly after a quiet change. -/
theorem effect_waited {view : View} (quiet : Quiet view kernel.view)
    (running : (kernel.table slot).state = .running) (waited : Waited kernel cpu slot target) :
    Effect view call target.view := by
  cases waited with
  | reap found =>
    rw [view_releaseTo, view_setRet]
    exact .reap quiet (waitScan_found found).2
  | fail finished gives =>
    rw [view_releaseTo, view_setRet]
    exact .quiet quiet
  | sleep finished =>
    rw [view_enterSched]
    refine .quiet (quiet.trans (Quiet.goToSleep kernel.view (.inr (.inr running)) ?_))
    rintro - ⟨child, isChild, dead⟩
    exact (waitScan_finished finished).1 child (mem_slots child) isChild dead

theorem effect_perform (occupancy : Occupancy kernel) {operation : Op}
    (running : (kernel.cpu cpu).phase = .run slot)
    (performed : Performed kernel cpu slot operation target) :
    Effect kernel.view (some ⟨slot, operation⟩) target.view := by
  have state_running : (kernel.table slot).state = .running :=
    occupancy.state_running (by rw [running]; rfl)
  have alive : (kernel.table slot).state.Alive := .inr (.inr state_running)
  cases performed with
  | yield =>
    rw [yield, view_enterSched]
    exact .quiet (Quiet.setState kernel.view alive (.inl rfl))
  | sleep address =>
    rw [sleep, view_enterSched]
    exact .quiet (Quiet.goToSleep kernel.view alive nofun)
  | closeFiles notInit console =>
    rw [view_setActivity]
    exact .closeFiles state_running notInit
  | exit exiting =>
    rw [exit, view_enterSched]
    exact .exit state_running exiting
  | wait waited => exact effect_waited (.refl _) state_running waited
  | forkFull full =>
    rw [view_setRet]
    exact .quiet (.refl _)
  | forkClaim found =>
    rw [view_setActivity]
    exact .claim state_running found
  | stackFail claimed =>
    rw [forkFail, view_setRet, view_setActivity]
    exact .abandonStack state_running claimed
  | @forkStack child claimed kstack =>
    rw [forkStack, view_setActivity]
    have fresh : ({ kernel with table := kernel.table.initEmbryo child kstack }.setThread child
        fun _ => ⟨.forkret, .user, 0⟩).activity =
        update kernel.view.activity child .user := by
      funext other
      rw [setThread_activity, update_apply]
      rfl
    have effect : Effect kernel.view _ _ := .stack state_running claimed kstack
    rw [← fresh] at effect
    exact effect
  | copyFail stacked =>
    rw [forkFail, view_setRet, view_setActivity]
    exact .abandonCopy state_running stacked
  | forkCopy stacked pgdir =>
    rw [forkCopy, view_setActivity]
    exact .copy state_running stacked pgdir
  | forkReady copied =>
    rw [forkReady, view_setRet, view_setActivity]
    exact .ready state_running copied
  | kill pid =>
    rw [kill, view_setRet]
    exact .kill slot pid
  | @setTickets tickets nonzero console =>
    rw [view_setRet]
    exact .quiet (Quiet.store kernel.view
      (fun proc => { proc with tickets := tickets, pass := (10000 : Int).tdiv tickets })
      alive rfl rfl rfl rfl rfl)
  | setOfile user fd file => exact .setOfile state_running user fd file
  | fault =>
    exact .quiet (Quiet.store kernel.view (fun proc => { proc with killed := true })
      alive rfl rfl rfl rfl rfl)

/-- The kernel refines the transitions of its view. -/
theorem effect_of_step (occupancy : Occupancy kernel) {kind : SchedKind}
    (twoScans : kind ≠ .schedulerB) {event : Event C}
    (step_eq : step kind kernel event = some target) :
    Effect kernel.view (kernel.call event) target.view := by
  obtain ⟨-, taken⟩ := taken_of_step step_eq
  cases taken with
  | stop stops halted =>
    have view_eq : target.view = kernel.view := by
      simp only [view, halted.table, halted.activity, halted.nextpid, halted.initproc]
    rw [view_eq]
    exact .quiet (.refl _)
  | grab single => exact absurd single twoScans
  | draw | acquire | lookEnd | resume | leave | back => exact .quiet (.refl _)
  | look scan picked accounted => exact .quiet (quiet_account picked accounted)
  | switch chosen =>
    exact .quiet (Quiet.setState kernel.view (.inr (.inl (occupancy.chosen _ _ chosen))) (.inr rfl))
  | resumeSleep resumed awake =>
    exact .quiet (Quiet.clearChan kernel.view (occupancy.state_running (by rw [resumed]; rfl)))
  | @resumeWait cpu slot target resumed waits waited =>
    have running : (kernel.table slot).state = .running :=
      occupancy.state_running (by rw [resumed]; rfl)
    have cleared : Quiet kernel.view { kernel with table := kernel.table.clearChan slot }.view :=
      Quiet.clearChan kernel.view running
    exact effect_waited cleared (by simpa [clearChan] using running) waited
  | @wakeup address free => exact .quiet (Quiet.wakeup1 kernel.view (some (.addr address)))
  | op running free performed =>
    rw [call_op running]
    exact effect_perform occupancy running performed

end Kernel

end Xv6.Process
