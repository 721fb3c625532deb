import Xv6.Process.Kernel.Step
import Xv6.Process.Occupancy.Core

/-!
# One CPU per process

Every step of a kernel whose scheduler only dispatches runnable processes keeps
the occupation invariant.  `scheduler_b` is excluded: it dispatches whatever its
last round left in `current`.
-/

namespace Xv6.Process

open Xv6.Transition Ptable Kernel Proc

universe u

variable {C : Type u} [DecidableEq C]

namespace Occupancy

variable {kernel target : Kernel C}

/-! ## The scheduler -/

variable {cpu : C} {slot : Slot} {table : Ptable} {kind : SchedKind}

section

variable (occupancy : Occupancy kernel)

include occupancy

theorem draw {update : Cpu → Cpu} (idle : (kernel.cpu cpu).phase = .idle)
    (drawn : ∀ own, (update own).phase = .drawn ∧ (update own).proc = own.proc) :
    Occupancy (kernel.setCpu cpu update) := by
  refine occupancy.frame rfl (fun other => ?_) (fun _ => Iff.rfl) (fun _ => id) occupancy.forks
  by_cases same : other = cpu
  · subst same
    simp [idle, drawn]
  · simp [same]

/-- A scheduler that takes the free lock starts its scan. -/
theorem acquire {update : Cpu → Cpu} (free : kernel.lock = none)
    (entry : (kernel.cpu cpu).phase = kind.entry)
    (keeps : ∀ own, (update own).phase = .scan 0 ∧ (update own).proc = own.proc) :
    Occupancy ({ kernel with lock := some cpu }.setCpu cpu update) := by
  have idle : (kernel.cpu cpu).phase.slot = none ∧ (kernel.cpu cpu).phase.executes = none := by
    cases kind <;> simp [entry, SchedKind.entry]
  refine occupancy.move (.of_setCpu update rfl (keeps _).1 ?_ rfl) (.inr free) nofun ?_ nofun
    occupancy.forks
  · rw [(keeps _).2, occupancy.current, idle.1]
    rfl
  · rw [idle.2]
    simp

/-- The scan finds a runnable process, which no CPU occupies. -/
theorem look {next : Nat} {counter : Int} (scan : (kernel.cpu cpu).phase = .scan next)
    (picked : pick kind kernel.table (kernel.cpu cpu) next = some (slot, counter))
    (accounted : account kind kernel.table slot = some table) :
    Occupancy (({ kernel with table := table }.setCpu cpu fun own =>
      { own with counter := counter }).setCpu cpu fun own =>
        { own with proc := some slot, phase := .chosen slot }) := by
  have ready := pick_runnable picked
  have holds : (kernel.cpu cpu).phase.holds = true := by simp [scan]
  obtain ⟨count, pass, rfl⟩ := account_eq_some accounted
  have state_eq : ∀ other, ((kernel.table.modify slot fun proc =>
      { proc with count := count, pass := pass }) other).state = (kernel.table other).state :=
    field_modify state rfl
  have moves : Moves kernel (({ kernel with table := kernel.table.modify slot fun proc =>
      { proc with count := count, pass := pass } }.setCpu cpu fun own =>
        { own with counter := counter }).setCpu cpu fun own =>
          { own with proc := some slot, phase := .chosen slot }) cpu (.chosen slot) :=
    ⟨fun other ne => by simp [ne], by simp, by simp, (occupancy.holder cpu).mpr holds⟩
  refine occupancy.move moves (.inl holds) ?_ ?_ ?_ ?_
  · rintro other ⟨⟩
    exact .inr (by simp [ready])
  · simp [state_eq, scan]
  · simpa [state_eq] using ready
  · exact occupancy.forks.keep (fun _ _ => id) fun child embryo _ => (state_eq child).trans embryo

/-- The chosen process becomes `RUNNING` on the CPU that chose it. -/
theorem switch (chosen : (kernel.cpu cpu).phase = .chosen slot) :
    Occupancy ({ kernel with table := kernel.table.setState slot .running }.setPhase cpu
      (.resumed slot)) := by
  have ready := occupancy.chosen cpu slot chosen
  have occupies : (kernel.cpu cpu).phase.slot = some slot := by simp [chosen]
  have holds : (kernel.cpu cpu).phase.holds = true := by simp [chosen]
  refine occupancy.move (.of_setCpu (fun own => { own with phase := .resumed slot }) rfl rfl
    ((occupancy.current cpu).trans occupies) ((occupancy.holder cpu).mpr holds)) (.inl holds)
    ?_ ?_ nofun (occupancy.forks.keep (fun _ _ => id) ?_)
  · rintro other ⟨⟩
    exact .inl occupies
  · intro other
    by_cases same : other = slot
    · subst same
      simp [setPhase, Ptable.setState]
    · simp [setPhase, Ptable.setState, same, Ne.symm same, chosen]
  · intro child embryo _
    have ne : child ≠ slot :=
      ne_of_apply_ne (fun slot => (kernel.table slot).state) (by simp [embryo, ready])
    simpa [setPhase, Ptable.setState, ne] using embryo

theorem leave (leaving : (kernel.cpu cpu).phase = .leaving slot) :
    Occupancy (kernel.setPhase cpu (.back slot)) := by
  have occupies : (kernel.cpu cpu).phase.slot = some slot := by simp [leaving]
  have holds : (kernel.cpu cpu).phase.holds = true := by simp [leaving]
  refine occupancy.move (.of_setCpu (fun own => { own with phase := .back slot }) rfl rfl
    ((occupancy.current cpu).trans occupies) ((occupancy.holder cpu).mpr holds)) (.inl holds)
    ?_ ?_ nofun occupancy.forks
  · rintro other ⟨⟩
    exact .inl occupies
  · simp [setPhase, leaving]

theorem back (returned : (kernel.cpu cpu).phase = .back slot) :
    Occupancy (kernel.back kind cpu slot) := by
  have holds : (kernel.cpu cpu).phase.holds = true := by simp [returned]
  refine occupancy.move (.of_setCpu _ rfl rfl rfl ((occupancy.holder cpu).mpr holds)) (.inl holds)
    nofun ?_ nofun occupancy.forks
  simp [Kernel.back, returned]

/-! ## The running process -/

/-- The process keeps running on its CPU and the lock is released. -/
theorem releaseTo {thread : Slot → Thread} (executes : (kernel.cpu cpu).phase.executes = some slot)
    (entitled : (kernel.cpu cpu).phase.holds = true ∨ kernel.lock = none)
    (states : ∀ other, ((table other).state = .running ↔ (kernel.table other).state = .running) ∧
      ((kernel.table other).state = .embryo → (table other).state = .embryo))
    (activity : ∀ other, (thread other).activity = kernel.activity other) :
    Occupancy ({ kernel with table := table, thread := thread }.releaseTo cpu slot) := by
  have occupies := Phase.slot_of_executes executes
  refine occupancy.move (.of_setCpu (fun own => { own with phase := .run slot }) rfl rfl
    ((occupancy.current cpu).trans occupies) rfl) entitled ?_ ?_ nofun
    (occupancy.forks.keep (fun other child building => activity other ▸ building)
      fun child embryo _ => (states child).2 embryo)
  · rintro other ⟨⟩
    exact .inl occupies
  · intro other
    change (table other).state = .running ↔ _
    rw [(states other).1, executes]
    by_cases same : other = slot
    · subst same
      simp [occupancy.state_running executes]
    · simp [Ne.symm same]

/-- The process gives up its `RUNNING` state and enters `sched`. -/
theorem enterSched (resume : Resume) (executes : (kernel.cpu cpu).phase.executes = some slot)
    (entitled : (kernel.cpu cpu).phase.holds = true ∨ kernel.lock = none)
    (stopped : (table slot).state ≠ .running)
    (others : ∀ other ≠ slot, ((table other).state = .running ↔
      (kernel.table other).state = .running) ∧ ((kernel.table other).state = .embryo →
      (table other).state = .embryo)) :
    Occupancy ({ kernel with table := table }.enterSched cpu slot resume) := by
  have occupies := Phase.slot_of_executes executes
  have own_running := occupancy.state_running executes
  refine occupancy.move (.of_setCpu (fun own => { own with phase := .leaving slot }) rfl rfl
    ((occupancy.current cpu).trans occupies) rfl) entitled ?_ ?_ nofun
    (occupancy.forks.keep (by simp) ?_)
  · rintro other ⟨⟩
    exact .inl occupies
  · intro other
    rw [executes]
    by_cases same : other = slot
    · subst same
      simp [stopped]
    · simp [(others other same).1, Ne.symm same]
  · intro child embryo _
    have ne : child ≠ slot :=
      ne_of_apply_ne (fun slot => (kernel.table slot).state) (by simp [embryo, own_running])
    exact (others child ne).2 embryo

/-- One pass of the loop of `wait`, from either of the two places that enter
it. -/
theorem waited (executes : (kernel.cpu cpu).phase.executes = some slot)
    (entitled : (kernel.cpu cpu).phase.holds = true ∨ kernel.lock = none)
    (waited : Waited kernel cpu slot target) : Occupancy target := by
  cases waited with
  | @reap child found =>
    obtain ⟨-, dead⟩ := waitScan_found found
    refine occupancy.releaseTo executes entitled (fun other => ?_)
      fun other => setRet_activity _ slot other _
    by_cases same : other = child
    · subst same
      simp [reap, dead]
    · simp [reap, same]
  | fail finished gives =>
    exact occupancy.releaseTo executes entitled (fun _ => ⟨Iff.rfl, id⟩)
      fun other => setRet_activity kernel slot other _
  | sleep finished =>
    refine occupancy.enterSched .wait executes entitled ?_ fun other ne => ?_
    · simp [goToSleep]
    · simp [goToSleep, ne]

theorem exit (running : (kernel.cpu cpu).phase = .run slot) (free : kernel.lock = none) :
    Occupancy (kernel.exit cpu slot) := by
  have wakes := (wakeup1_wakes kernel.table
    ((kernel.table slot).parent.map .proc)).trans (reparent_wakes _ slot kernel.initproc)
  refine occupancy.enterSched .zombie (by simp [running]) (.inr free) ?_ ?_
  · simp [Ptable.exit, Ptable.setState]
  · intro other ne
    simp only [Ptable.exit, Ptable.setState, Ptable.modify_of_ne _ _ ne]
    exact ⟨⟨fun held => wakes.reflects held (by decide),
      fun held => wakes.keeps held (by decide)⟩, fun held => wakes.keeps held (by decide)⟩

omit [DecidableEq C] in
/-- The claimed slot was unused, so no other fork was building it. -/
theorem forkClaim {child : Slot} (found : kernel.table.findUnused = some child) :
    Occupancy ({ kernel with
      table := kernel.table.claim child kernel.nextpid
      nextpid := Int32.wrap (kernel.nextpid + 1) }.setActivity slot (.claimed child)) := by
  have unused := findUnused_state found
  have state_of_ne other (ne : other ≠ child) :
      (kernel.table.claim child kernel.nextpid other).state = (kernel.table other).state := by
    simp [claim, ne]
  have ne_of_state {other : Slot} {state : ProcState} (held : (kernel.table other).state = state)
      (used : state ≠ .unused) : other ≠ child :=
    ne_of_apply_ne (fun slot => (kernel.table slot).state) (by rw [held, unused]; exact used)
  have fresh : ∀ other, (kernel.activity other).child ≠ some child := fun other building =>
    ne_of_state (occupancy.forks.embryo other child building) (by decide) rfl
  refine occupancy.frame rfl (fun _ => ⟨rfl, .inl rfl⟩) ?_ ?_ ⟨?_, ?_⟩
  · intro other
    by_cases same : other = child
    · subst same
      simp [claim, unused]
    · simp [state_of_ne other same]
  · intro other ready
    simpa [state_of_ne other (ne_of_state ready (by decide))] using ready
  · intro other built building
    simp only [Kernel.setActivity_activity] at building
    split at building
    · cases building
      simp [claim]
    · have embryo := occupancy.forks.embryo other built building
      simpa [state_of_ne built (ne_of_state embryo (by decide))] using embryo
  · intro first second built firstBuilds secondBuilds
    simp only [Kernel.setActivity_activity] at firstBuilds secondBuilds
    split at firstBuilds <;> split at secondBuilds
    · simp [*]
    · cases firstBuilds
      exact absurd secondBuilds (fresh second)
    · cases secondBuilds
      exact absurd firstBuilds (fresh first)
    · exact occupancy.forks.builder first second built firstBuilds secondBuilds

omit [DecidableEq C] in
/-- A fork that ends changes the state of its own embryo. -/
theorem finishFork (child : Slot) (state : ProcState) (value : Int)
    (building : (kernel.activity slot).child = some child)
    (child_state : (table child).state = state) (not_running : state ≠ .running)
    (others : ∀ other ≠ child, (table other).state = (kernel.table other).state) :
    Occupancy (({ kernel with table := table }.setActivity slot .user).setRet slot value) := by
  have embryo := occupancy.forks.embryo slot child building
  refine occupancy.frame rfl (fun _ => ⟨rfl, .inl rfl⟩) ?_ ?_ (occupancy.forks.keep ?_ ?_)
  · intro other
    by_cases same : other = child
    · subst same
      simp [child_state, not_running, embryo]
    · simp [others other same]
  · intro other ready
    have ne : other ≠ child := by
      rintro rfl
      rw [embryo] at ready
      contradiction
    simpa [others other ne] using ready
  · intro other built builds
    simp only [setRet_activity, Kernel.setActivity_activity] at builds
    split at builds
    · contradiction
    · exact builds
  · rintro other otherEmbryo ⟨builder, builds⟩
    simp only [setRet_activity, Kernel.setActivity_activity] at builds
    split at builds
    · contradiction
    · rename_i ne
      have other_ne : other ≠ child := by
        rintro rfl
        exact ne (occupancy.forks.builder builder slot other builds building)
      simpa [others other other_ne] using otherEmbryo

omit [DecidableEq C] in
theorem forkStack {child : Slot} (kstack : Nat) (claimed : kernel.activity slot = .claimed child) :
    Occupancy (kernel.forkStack slot child kstack) := by
  refine occupancy.store rfl rfl ?_ ?_
  · intro other
    by_cases same : other = child <;> simp [Kernel.forkStack, initEmbryo, same]
  · intro other built builds
    simp only [Kernel.forkStack, Kernel.setActivity_activity, Kernel.setThread_activity] at builds
    split at builds
    · rename_i own
      cases builds
      simp [own, claimed, Activity.child]
    · split at builds
      · contradiction
      · exact builds

theorem perform {operation : Op} (running : (kernel.cpu cpu).phase = .run slot)
    (free : operation.locks = true → kernel.lock = none)
    (performed : Performed kernel cpu slot operation target) : Occupancy target := by
  have executes : (kernel.cpu cpu).phase.executes = some slot := by simp [running]
  cases performed with
  | yield =>
    refine occupancy.enterSched .yield executes (.inr (free rfl)) ?_ fun other ne => ?_
    · simp [Ptable.setState]
    · simp [Ptable.setState, ne]
  | sleep address =>
    refine occupancy.enterSched .sleep executes (.inr (free rfl)) ?_ fun other ne => ?_
    · simp [goToSleep]
    · simp [goToSleep, ne]
  | closeFiles notInit console =>
    refine occupancy.store rfl rfl (field_modify state rfl) fun other built builds => ?_
    by_cases same : other = slot
    · simp [same, Activity.child] at builds
    · simpa [same] using builds
  | exit exiting => exact occupancy.exit running (free rfl)
  | wait waited => exact occupancy.waited executes (.inr (free rfl)) waited
  | forkFull full => exact occupancy.store rfl rfl (fun _ => rfl) (by simp)
  | forkClaim found => exact occupancy.forkClaim found
  | @stackFail child builds | @copyFail child builds =>
    refine occupancy.finishFork child .unused _
      (by simp [builds, Activity.child]) ?_ (by decide) fun other ne => ?_
    · simp [abandonStack, abandonCopy]
    · simp [abandonStack, abandonCopy, ne]
  | forkStack claimed kstack => exact occupancy.forkStack kstack claimed
  | @forkCopy child stacked pgdir =>
    refine occupancy.store rfl rfl (field_modify state rfl) fun other built builds => ?_
    by_cases same : other = slot
    · simpa [forkCopy, same, stacked, Activity.child] using builds
    · simpa [forkCopy, same] using builds
  | @forkReady child copied =>
    refine occupancy.finishFork child .runnable _
      (by simp [copied, Activity.child]) ?_ (by decide) fun other ne => ?_
    · simp [Ptable.setState]
    · simp [Ptable.setState, ne]
  | kill pid =>
    exact occupancy.wakes rfl rfl (kill_wakes kernel.table pid) (by simp [Kernel.kill])
  | setTickets nonzero console =>
    exact occupancy.store rfl rfl (field_modify state rfl) (by simp)
  | setOfile | fault =>
    exact occupancy.store rfl rfl (field_modify state rfl) fun _ _ => id

end

/-! ## Runs -/

theorem step (occupancy : Occupancy kernel) (twoScans : kind ≠ .schedulerB) {event : Event C}
    (step_eq : Kernel.step kind kernel event = some target) : Occupancy target := by
  obtain ⟨-, taken⟩ := taken_of_step step_eq
  cases taken with
  | stop stops halted =>
    refine occupancy.frame (halted.lock.resolve_left twoScans) (fun cpu => ?_) ?_ ?_ ?_
    · exact ⟨(halted.cpu cpu).2.1, .inl (halted.cpu cpu).1⟩
    · simp [halted.table]
    · simp [halted.table]
    · rw [halted.table, halted.activity]
      exact occupancy.forks
  | draw idle drawn => exact occupancy.draw idle fun _ => ⟨rfl, rfl⟩
  | acquire free entry keeps selects =>
    exact occupancy.acquire free entry fun own => ⟨(keeps own).1, (keeps own).2.1⟩
  | grab single => exact absurd single twoScans
  | @lookEnd cpu next scan ended =>
    have current : (kernel.cpu cpu).proc = none := (occupancy.current cpu).trans (by simp [scan])
    refine occupancy.move (.of_setCpu (fun own => { own with phase := .idle }) rfl rfl current rfl)
      (.inl (by simp [scan])) nofun ?_ nofun occupancy.forks
    simp [setPhase, scan]
  | look scan picked accounted => exact occupancy.look scan picked accounted
  | switch chosen => exact occupancy.switch chosen
  | resume resumed awake =>
    exact occupancy.releaseTo (by simp [resumed]) (.inl (by simp [resumed]))
      (fun _ => ⟨Iff.rfl, id⟩) fun _ => rfl
  | resumeSleep resumed awake =>
    refine occupancy.releaseTo (by simp [resumed]) (.inl (by simp [resumed])) (fun other => ?_)
      fun _ => rfl
    rw [clearChan, field_modify state rfl]
    exact ⟨Iff.rfl, id⟩
  | @resumeWait cpu slot target resumed waits waited =>
    have cleared : Occupancy { kernel with table := kernel.table.clearChan slot } :=
      occupancy.store rfl rfl (field_modify state rfl) fun _ _ => id
    exact cleared.waited (by simp [resumed]) (.inl (by simp [resumed])) waited
  | leave leaving => exact occupancy.leave leaving
  | back returned => exact occupancy.back returned
  | wakeup free =>
    exact occupancy.wakes rfl rfl (wakeup1_wakes kernel.table _) (fun _ _ => id)
  | op running free performed => exact occupancy.perform running free performed

theorem of_reachable {memory : Boot} (twoScans : kind ≠ .schedulerB)
    (reach : Reachable (Kernel.step kind) (Kernel.boot memory) kernel) : Occupancy kernel :=
  reach.invariant Occupancy (boot memory) fun _ _ _ occupancy step_eq =>
    occupancy.step twoScans step_eq

end Occupancy

/-! ## The claim about every reachable state -/

namespace Kernel

/-- In this step `wait` frees the kernel stack and the page directory of the
process in `child`. -/
def Frees (kernel : Kernel C) (event : Event C) (child : Slot) : Prop :=
  ∃ slot, kernel.waiter event = some slot ∧
    kernel.table.waitScan slot false slots = .found child

/-- Each process is current on at most one CPU, `RUNNING` means current while
the lock is free, and `wait` frees only a zombie that no CPU still occupies. -/
structure OneCpuPerProcess (kernel : Kernel C) : Prop where
  atMostOne : ∀ cpu other slot, (kernel.cpu cpu).proc = some slot →
    (kernel.cpu other).proc = some slot → cpu = other
  runningIff : kernel.lock = none → ∀ slot, (kernel.table slot).state = .running ↔
    ∃! cpu, (kernel.cpu cpu).proc = some slot
  freesZombie : ∀ event target child, step .scheduler kernel event = some target →
    kernel.Frees event child →
    (kernel.table child).state = .zombie ∧ (∀ cpu, (kernel.cpu cpu).proc ≠ some child) ∧
      (target.table child).kstack = none ∧ (target.table child).freed = true
  freesOnly : ∀ event target slot child, step .scheduler kernel event = some target →
    kernel.waiter event = some slot →
    (target.table child).kstack ≠ (kernel.table child).kstack ∨
      (target.table child).freed ≠ (kernel.table child).freed →
    (kernel.table child).state = .zombie ∧ ∀ cpu, (kernel.cpu cpu).proc ≠ some child

variable {cpu : C} {slot : Slot}

/-- The loop of `wait`, which a process that slept in it enters with its channel
cleared. -/
theorem waited_of_step {kind : SchedKind} {kernel target : Kernel C} {event : Event C}
    (waits : kernel.waiter event = some slot) (step_eq : step kind kernel event = some target) :
    ∃ cpu table, (kernel.cpu cpu).phase.executes = some slot ∧
      ((kernel.cpu cpu).phase.holds = true ∨ kernel.lock = none) ∧
      (∀ other, ∃ chan, table other = { kernel.table other with chan := chan }) ∧
      Waited { kernel with table := table } cpu slot target := by
  obtain ⟨-, taken⟩ := taken_of_step step_eq
  cases taken with
  | stop stops =>
    cases stops with
    | zombie resumed dead => simp [waiter, resumed, dead] at waits
    | @charge event slot dispatched => cases event <;> first | cases dispatched | cases waits
    | _ => cases waits
  | @resumeWait cpu waiting target resumed resume_eq waited =>
    obtain rfl : waiting = slot := by simpa [waiter, resumed, resume_eq] using waits
    exact ⟨cpu, _, by simp [resumed], .inl (by simp [resumed]),
      kernel.table.clearChan_chan waiting, waited⟩
  | @op cpu waiting operation target running free performed =>
    cases performed with
    | wait waited =>
      obtain rfl : waiting = slot := by simpa [waiter, running] using waits
      exact ⟨cpu, _, by simp [running], .inr (free rfl), fun _ => ⟨_, rfl⟩, waited⟩
    | _ => simp [waiter] at waits
  | resume resumed awake | resumeSleep resumed awake => simp [waiter, resumed, awake] at waits
  | _ => simp [waiter] at waits

omit [DecidableEq C] in
/-- While a running process holds the lock, no CPU occupies a zombie. -/
theorem zombie_not_current {kernel : Kernel C} (occupancy : Occupancy kernel) {child : Slot}
    (executes : (kernel.cpu cpu).phase.executes = some slot)
    (entitled : (kernel.cpu cpu).phase.holds = true ∨ kernel.lock = none)
    (dead : (kernel.table child).state = .zombie) (other : C) :
    (kernel.cpu other).proc ≠ some child := by
  intro current
  have occupies : (kernel.cpu other).phase.slot = some child :=
    (occupancy.current other).symm.trans current
  have lock_eq := occupancy.holder_of_not_running occupies (by simp [dead])
  rcases entitled with holds | free
  · have held := (occupancy.holder cpu).mpr holds
    have same : other = cpu := Option.some.inj (lock_eq.symm.trans held)
    subst same
    have slot_eq : child = slot :=
      Option.some.inj (occupies.symm.trans (Phase.slot_of_executes executes))
    rw [slot_eq, occupancy.state_running executes] at dead
    contradiction
  · rw [free] at lock_eq
    contradiction

/-- Any number of CPUs running `scheduler()` over any interleaving of dispatch,
yield, sleep, exit, wakeup, kill, fork and wait keep every process on one CPU. -/
theorem oneCpuPerProcess_of_reachable {memory : Boot} {kernel : Kernel C}
    (reach : Reachable (step .scheduler) (boot memory) kernel) : OneCpuPerProcess kernel := by
  have occupancy := Occupancy.of_reachable (by decide) reach
  constructor
  · intro cpu other slot first second
    rw [occupancy.current] at first second
    exact occupancy.exclusive cpu other slot first second
  · intro free slot
    -- With the lock free a CPU has a current process only while it runs it.
    have runs cpu : (kernel.cpu cpu).proc = some slot ↔ (kernel.cpu cpu).phase.executes =
        some slot := by
      rw [occupancy.current]
      refine ⟨fun occupies => ?_, Phase.slot_of_executes⟩
      by_contra idle
      have lock_eq := (occupancy.holder cpu).mpr (Phase.holds_of_slot occupies idle)
      rw [free] at lock_eq
      contradiction
    rw [occupancy.running slot]
    constructor
    · rintro ⟨cpu, executes⟩
      refine ⟨cpu, (runs cpu).mpr executes, fun other current => ?_⟩
      exact occupancy.exclusive other cpu slot
        (Phase.slot_of_executes ((runs other).mp current)) (Phase.slot_of_executes executes)
    · rintro ⟨cpu, current, -⟩
      exact ⟨cpu, (runs cpu).mp current⟩
  · rintro event target child step_eq ⟨waiting, waits, found⟩
    have dead := (Ptable.waitScan_found found).2
    obtain ⟨cpu, table, executes, entitled, same, waited⟩ := waited_of_step waits step_eq
    refine ⟨dead, zombie_not_current occupancy executes entitled dead, ?_⟩
    rw [← Ptable.waitScan_of_chan same] at found
    cases waited with
    | reap found' =>
      cases found.symm.trans found'
      simp [Ptable.reap]
    | fail finished | sleep finished => cases found.symm.trans finished
  · intro event target slot child step_eq waits frees
    obtain ⟨cpu, table, executes, entitled, same, waited⟩ := waited_of_step waits step_eq
    obtain ⟨chan, child_eq⟩ := same child
    cases waited with
    | @reap reaped found =>
      rw [Ptable.waitScan_of_chan same] at found
      have child_reaped : child = reaped := by
        by_contra ne
        simp [releaseTo, setPhase, setRet, Ptable.reap, ne, child_eq] at frees
      have dead := (Ptable.waitScan_found found).2
      rw [← child_reaped] at dead
      exact ⟨dead, zombie_not_current occupancy executes entitled dead⟩
    | fail finished => simp [releaseTo, setPhase, setRet, child_eq] at frees
    | sleep finished =>
      by_cases own : child = slot
      · simp [Ptable.goToSleep, own, own ▸ child_eq] at frees
      · simp [Ptable.goToSleep, own, child_eq] at frees

/-- The invariant at a state in which the second of two CPUs runs the first
process and the other CPU has looked at the table in vain. -/
theorem oneCpuPerProcess_two_cpus :
    ∃ kernel : Kernel (Fin 2),
      run (step .scheduler) (boot ⟨1, 2, 3⟩)
        [.acquire 1, .look 1, .switch 1, .resume 1, .acquire 0, .look 0] = some kernel ∧
      (kernel.table 0).state = .running ∧ OneCpuPerProcess kernel :=
  ⟨_, rfl, rfl, oneCpuPerProcess_of_reachable
    ⟨[.acquire 1, .look 1, .switch 1, .resume 1, .acquire 0, .look 0], rfl⟩⟩

end Kernel

end Xv6.Process
