import Xv6.Process.Kernel.Step
import Xv6.Process.Occupancy.Core

/-!
# The slots a scheduler may refer to

A scheduler divides by the tickets of the process it dispatches, so it matters
which slots can be dispatched: those that hold a process, and those a CPU, a
stale `current` of `scheduler_b` or a `fork` in progress still refers to.  A step
adds no slot to these except the embryo that `allocproc` has just initialized.
-/

namespace Xv6.Process

open Xv6.Int32 Xv6.Transition Ptable Proc

universe u

namespace Kernel

variable {C : Type u} {kernel target : Kernel C} {kind : SchedKind} {memory : Boot}

/-- Some scheduler may come to divide by the tickets of this slot: it holds a
process, or a CPU, a stale `current` or a `fork` in progress refers to it. -/
inductive Owes (kernel : Kernel C) (slot : Slot) : Prop
  | used (notUnused : (kernel.table slot).state ≠ .unused)
      (notEmbryo : (kernel.table slot).state ≠ .embryo)
  | placed (cpu : C) (occupies : (kernel.cpu cpu).phase.slot = some slot)
  | current (cpu : C) (stale : (kernel.cpu cpu).current = some slot)
  | stacked (builder : Slot) (stage : kernel.activity builder = .stacked slot)
  | copied (builder : Slot) (stage : kernel.activity builder = .copied slot)

variable {slot : Slot}

theorem Owes.of_state {state : ProcState} (held : (kernel.table slot).state = state)
    (notUnused : state ≠ .unused) (notEmbryo : state ≠ .embryo) : kernel.Owes slot :=
  .used (held ▸ notUnused) (held ▸ notEmbryo)

/-- The process `scheduler_b` selects is runnable or its old `current`. -/
theorem Owes.of_selectB {cpu : C}
    (selected : selectB kernel.table (kernel.cpu cpu).current = some slot) : kernel.Owes slot := by
  rcases selectB_eq_or_runnable kernel.table (kernel.cpu cpu).current with same | ready
  · exact .current cpu (same.symm.trans selected)
  · obtain ⟨other, other_eq, runnable⟩ := ready
    rw [← Option.some.inj (other_eq.symm.trans selected)]
    exact .of_state runnable (by decide) (by decide)

/-- The second state refers to no slot that the first does not refer to. -/
def Follows (kernel target : Kernel C) : Prop :=
  ∀ slot, target.Owes slot → kernel.Owes slot

namespace Follows

theorem frame
    (states : ∀ slot, (target.table slot).state = (kernel.table slot).state ∨
      (target.table slot).state = .unused ∨ (target.table slot).state = .embryo ∨
      kernel.Owes slot)
    (phases : ∀ cpu slot, (target.cpu cpu).phase.slot = some slot → kernel.Owes slot)
    (currents : ∀ cpu slot, (target.cpu cpu).current = some slot → kernel.Owes slot)
    (stages : ∀ builder slot,
      target.activity builder = .stacked slot ∨ target.activity builder = .copied slot →
      kernel.Owes slot) : Follows kernel target := by
  intro slot owed
  cases owed with
  | used notUnused notEmbryo =>
    rcases states slot with same | unused | embryo | before
    · exact .used (same ▸ notUnused) (same ▸ notEmbryo)
    · exact absurd unused notUnused
    · exact absurd embryo notEmbryo
    · exact before
  | placed cpu occupies => exact phases cpu slot occupies
  | current cpu stale => exact currents cpu slot stale
  | stacked builder stage => exact stages builder slot (.inl stage)
  | copied builder stage => exact stages builder slot (.inr stage)

/-- The activity of one process changes, to nothing that refers to a new slot. -/
theorem stages_of_setActivity (slot : Slot) (activity : Activity)
    (activities : ∀ other, target.activity other =
      if other = slot then activity else kernel.activity other)
    (own : ∀ child, activity = .stacked child ∨ activity = .copied child → kernel.Owes child)
    (builder child : Slot)
    (stage : target.activity builder = .stacked child ∨ target.activity builder = .copied child) :
    kernel.Owes child := by
  rw [activities] at stage
  split at stage
  · exact own child stage
  · rcases stage with stacked | copied
    · exact .stacked builder stacked
    · exact .copied builder copied

theorem stages_of_activity_eq (activity_eq : ∀ slot, target.activity slot = kernel.activity slot)
    (builder slot : Slot)
    (stage : target.activity builder = .stacked slot ∨ target.activity builder = .copied slot) :
    kernel.Owes slot := by
  rw [activity_eq] at stage
  rcases stage with stacked | copied
  · exact .stacked builder stacked
  · exact .copied builder copied

/-- A step that moves no CPU. -/
theorem store (cpu_eq : target.cpu = kernel.cpu)
    (states : ∀ slot, (target.table slot).state = (kernel.table slot).state ∨
      (target.table slot).state = .unused ∨ (target.table slot).state = .embryo ∨
      kernel.Owes slot)
    (stages : ∀ builder slot,
      target.activity builder = .stacked slot ∨ target.activity builder = .copied slot →
      kernel.Owes slot) : Follows kernel target :=
  frame states (fun cpu _ occupies => .placed cpu (cpu_eq ▸ occupies))
    (fun cpu _ stale => .current cpu (cpu_eq ▸ stale)) stages

/-- A process that is woken holds its slot. -/
theorem states_of_wakes {table : Ptable} (wakes : Wakes kernel.table table) (slot : Slot) :
    (table slot).state = (kernel.table slot).state ∨ kernel.Owes slot :=
  (wakes slot).imp_right fun woken => .of_state woken.1 (by decide) (by decide)

variable [DecidableEq C] {cpu : C} {slot : Slot} {table : Ptable}

/-- A step that moves one CPU, to a phase whose process is referred to. -/
theorem move (cpu : C) (others : ∀ other ≠ cpu, target.cpu other = kernel.cpu other)
    (phase : ∀ slot, (target.cpu cpu).phase.slot = some slot → kernel.Owes slot)
    (current : ∀ slot, (target.cpu cpu).current = some slot → kernel.Owes slot)
    (states : ∀ slot, (target.table slot).state = (kernel.table slot).state ∨
      (target.table slot).state = .unused ∨ kernel.Owes slot)
    (activity_eq : ∀ slot, target.activity slot = kernel.activity slot) :
    Follows kernel target := by
  refine frame (fun slot => ?_) ?_ ?_ (stages_of_activity_eq activity_eq)
  · exact (states slot).imp_right (Or.imp_right .inr)
  · intro other slot occupies
    by_cases same : other = cpu
    · exact phase slot (same ▸ occupies)
    · exact .placed other (others other same ▸ occupies)
  · intro other slot stale
    by_cases same : other = cpu
    · exact current slot (same ▸ stale)
    · exact .current other (others other same ▸ stale)

/-- A CPU moves to another phase, with no process or with the one it has, whose
state may change. -/
theorem setPhase {phase : Phase} (cpu_eq : target.cpu = (kernel.setPhase cpu phase).cpu)
    (kept : ∀ slot, phase.slot = some slot → (kernel.cpu cpu).phase.slot = some slot)
    (states : ∀ other, phase.slot ≠ some other →
      (target.table other).state = (kernel.table other).state ∨
      (target.table other).state = .unused ∨ kernel.Owes other)
    (activity_eq : ∀ other, target.activity other = kernel.activity other) :
    Follows kernel target := by
  refine move cpu (fun other ne => ?_) ?_ ?_ (fun other => ?_) activity_eq
  · simp [cpu_eq, Kernel.setPhase, ne]
  · intro other occupies
    refine .placed cpu (kept other ?_)
    simpa [cpu_eq, Kernel.setPhase] using occupies
  · intro other stale
    refine .current cpu ?_
    simpa [cpu_eq, Kernel.setPhase] using stale
  · by_cases own : phase.slot = some other
    · exact .inr (.inr (.placed cpu (kept other own)))
    · exact states other own

theorem enterSched (resume : Resume) (occupies : (kernel.cpu cpu).phase.slot = some slot)
    (states : ∀ other ≠ slot, (table other).state = (kernel.table other).state ∨
      (table other).state = .unused ∨ kernel.Owes other) :
    Follows kernel ({ kernel with table := table }.enterSched cpu slot resume) :=
  setPhase rfl (fun _ own => occupies.trans own) (fun other ne => states other fun same => ne
    (congrArg some same.symm)) (by simp)

theorem waited (occupies : (kernel.cpu cpu).phase.slot = some slot)
    (waited : Waited kernel cpu slot target) : Follows kernel target := by
  cases waited with
  | @reap child found =>
    refine setPhase rfl (fun _ own => occupies.trans own) (fun other _ => ?_)
      fun other => setRet_activity _ slot other _
    by_cases same : other = child <;> simp [reap, same]
  | fail finished gives =>
    exact setPhase rfl (fun _ own => occupies.trans own) (fun _ _ => .inl rfl)
      fun other => setRet_activity kernel slot other _
  | sleep finished =>
    refine enterSched .wait occupies fun other ne => ?_
    simp [goToSleep, ne]

end Follows

variable {slot : Slot}

theorem owes_of_forkStack {child : Slot} {kstack : Nat} {other : Slot}
    (owed : (kernel.forkStack slot child kstack).Owes other) :
    kernel.Owes other ∨ other = child := by
  have states : ∀ third, ((kernel.forkStack slot child kstack).table third).state =
      (kernel.table third).state := field_modify state rfl
  have stages builder :
      ((kernel.forkStack slot child kstack).activity builder = .stacked other → other = child ∨
      kernel.activity builder = .stacked other) ∧
      ((kernel.forkStack slot child kstack).activity builder = .copied other →
      kernel.activity builder = .copied other) := by
    simp only [forkStack, setActivity_activity, setThread_activity]
    split
    · simp +contextual [eq_comm]
    · split <;> simp +contextual
  cases owed with
  | used notUnused notEmbryo =>
    rw [states] at notUnused notEmbryo
    exact .inl (.used notUnused notEmbryo)
  | placed cpu occupies => exact .inl (.placed cpu occupies)
  | current cpu stale => exact .inl (.current cpu stale)
  | stacked builder stage =>
    rcases (stages builder).1 stage with same | before
    · exact .inr same
    · exact .inl (.stacked builder before)
  | copied builder stage => exact .inl (.copied builder ((stages builder).2 stage))

variable [DecidableEq C]

theorem follows_of_perform {cpu : C} {operation : Op} (running : (kernel.cpu cpu).phase = .run slot)
    (performed : Performed kernel cpu slot operation target) :
    Follows kernel target ∨
      ∃ builder kstack child, target = kernel.forkStack builder child kstack := by
  have occupies : (kernel.cpu cpu).phase.slot = some slot := by rw [running, Phase.slot]
  cases performed with
  | @forkStack child claimed kstack => exact .inr ⟨slot, kstack, child, rfl⟩
  | yield =>
    refine .inl (Follows.enterSched .yield occupies fun other ne => ?_)
    simp [setState, ne]
  | sleep address =>
    refine .inl (Follows.enterSched .sleep occupies fun other ne => ?_)
    simp [goToSleep, ne]
  | closeFiles notInit console =>
    exact .inl (.store rfl (fun other => .inl (field_modify state rfl other))
      (Follows.stages_of_setActivity slot .exiting (by simp) (by simp)))
  | exit exiting =>
    refine .inl (Follows.enterSched .zombie occupies fun other ne => ?_)
    rcases kernel.table.exit_state_of_ne ne with same | ⟨sleeping, -⟩
    · exact .inl same
    · exact .inr (.inr (.of_state sleeping (by decide) (by decide)))
  | wait waited => exact .inl (.waited occupies waited)
  | forkFull full =>
    exact .inl (.store rfl (fun _ => .inl rfl) (Follows.stages_of_activity_eq (by simp)))
  | @forkClaim child found =>
    refine .inl (.store rfl (fun other => ?_)
      (Follows.stages_of_setActivity slot (.claimed child) (by simp) (by simp)))
    by_cases same : other = child <;> simp [claim, same]
  | @stackFail child | @copyFail child =>
    refine .inl (.store rfl (fun other => ?_)
      (Follows.stages_of_setActivity slot .user (by simp [forkFail]) (by simp)))
    by_cases same : other = child <;> simp [forkFail, abandonStack, abandonCopy, same]
  | @forkCopy child stacked pgdir =>
    refine .inl (.store rfl (fun other => .inl (field_modify state rfl other))
      (Follows.stages_of_setActivity slot (.copied child) (by simp [forkCopy]) ?_))
    rintro built (impossible | copied)
    · contradiction
    · cases copied
      exact .stacked slot stacked
  | @forkReady child copied =>
    refine .inl (.store rfl (fun other => ?_)
      (Follows.stages_of_setActivity slot .user (by simp [forkReady]) (by simp)))
    by_cases same : other = child
    · rw [same]
      exact .inr (.inr (.inr (.copied slot copied)))
    · simp [forkReady, setState, same]
  | kill pid =>
    exact .inl (.store rfl (fun other =>
      (Follows.states_of_wakes (kernel.table.kill_wakes pid) other).imp_right (.inr ∘ .inr))
      (Follows.stages_of_activity_eq (by simp [kill])))
  | setTickets nonzero console =>
    exact .inl (.store rfl (fun other => .inl (field_modify state rfl other))
      (Follows.stages_of_activity_eq (by simp)))
  | setOfile | fault =>
    exact .inl (.store rfl (fun other => .inl (field_modify state rfl other))
      (Follows.stages_of_activity_eq fun _ => rfl))

theorem follows_of_taken {event : Event C} (taken : Taken kind kernel event target) :
    Follows kernel target ∨
      ∃ builder kstack child, target = kernel.forkStack builder child kstack := by
  cases taken with
  | stop stops halted =>
    refine .inl (.frame (fun other => .inl (by rw [halted.table])) (fun cpu other => ?_)
      (fun cpu other stale => ?_) (Follows.stages_of_activity_eq (congrFun halted.activity)))
    · rw [(halted.cpu cpu).1]
      exact .placed cpu
    · rcases halted.current cpu with same | selected
      · exact .current cpu (same.symm.trans stale)
      · exact .of_selectB (selected.symm.trans stale)
  | @draw cpu winner idle drawn =>
    exact .inl (.move cpu (fun other ne => by simp [ne]) (by simp)
      (fun _ stale => .current cpu (by simpa using stale)) (fun _ => .inl rfl) fun _ => rfl)
  | @acquire cpu update free entry keeps selects =>
    exact .inl (.move cpu (fun other ne => by simp [ne]) (by simp [keeps])
      (fun _ stale => .current cpu (by simpa [keeps] using stale)) (fun _ => .inl rfl) fun _ => rfl)
  | @grab cpu chosen table single selected accounted =>
    obtain ⟨count, pass, rfl⟩ := account_eq_some accounted
    refine .inl (.move cpu (fun other ne => by simp [ne]) (fun other occupies => ?_)
      (fun other stale => .of_selectB (by simpa using stale))
      (fun other => .inl (field_modify state rfl other)) fun _ => rfl)
    exact .of_selectB (selected.trans (by simpa using occupies))
  | lookEnd scan ended =>
    exact .inl (.setPhase rfl (by simp) (fun _ _ => .inl rfl) fun _ => rfl)
  | @look cpu next chosen counter table scan picked accounted =>
    obtain ⟨count, pass, rfl⟩ := account_eq_some accounted
    refine .inl (.move cpu (fun other ne => by simp [ne]) (fun other occupies => ?_)
      (fun _ stale => .current cpu (by simpa using stale))
      (fun other => .inl (field_modify state rfl other)) fun _ => rfl)
    obtain rfl : chosen = other := by simpa using occupies
    exact .of_state (pick_runnable picked) (by decide) (by decide)
  | @switch cpu chosen chosen_eq =>
    refine .inl (.setPhase rfl (by simp [chosen_eq]) (fun other ne => ?_) fun _ => rfl)
    have other_ne : other ≠ chosen := fun same => ne (by simp [same])
    simp [Kernel.setPhase, setState, other_ne]
  | resume stands | leave stands =>
    exact .inl (.setPhase rfl (by simp [stands]) (fun _ _ => .inl rfl) fun _ => rfl)
  | resumeSleep resumed awake =>
    exact .inl (.setPhase rfl (by simp [resumed])
      (fun other _ => .inl (field_modify state rfl other)) fun _ => rfl)
  | @resumeWait cpu waiting target resumed waits waited =>
    have cleared : Follows kernel { kernel with table := kernel.table.clearChan waiting } :=
      .store rfl (fun other => .inl (field_modify state rfl other))
        (Follows.stages_of_activity_eq fun _ => rfl)
    exact .inl fun slot owed => cleared slot (Follows.waited (by simp [resumed]) waited slot owed)
  | @back cpu placed returned =>
    exact .inl (.move cpu (fun other ne => by simp [Kernel.back, ne]) (by simp [Kernel.back])
      (fun _ stale => .current cpu (by simpa [Kernel.back] using stale)) (fun _ => .inl rfl)
      fun _ => rfl)
  | wakeup free =>
    exact .inl (.store rfl (fun other => (Follows.states_of_wakes
      (kernel.table.wakeup1_wakes _) other).imp_right (.inr ∘ .inr))
      (Follows.stages_of_activity_eq fun _ => rfl))
  | op running free performed => exact follows_of_perform running performed

/-- A step refers to no new slot, except to an embryo with a fresh account. -/
theorem owes_of_step {event : Event C} (step_eq : step kind kernel event = some target)
    (owed : target.Owes slot) :
    kernel.Owes slot ∨ (target.table slot).tickets = 1 ∧ (target.table slot).pass = 1 := by
  rcases follows_of_taken (taken_of_step step_eq).2 with
    follows | ⟨builder, kstack, child, rfl⟩
  · exact .inl (follows slot owed)
  · refine (owes_of_forkStack owed).imp_right fun fresh => ?_
    simp [forkStack, initEmbryo, fresh]

end Kernel

end Xv6.Process
