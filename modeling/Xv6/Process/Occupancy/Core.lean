import Mathlib.Tactic.Common
import Xv6.Process.Kernel.Core

/-!
# Occupation of the CPUs

The scheduler acquires `ptable.lock`, the process it switches to releases it,
and the process that switches back has acquired it again.  This module states
which CPU phases hold the lock and which occupy a process, and proves that the
hand-over keeps every process on at most one CPU.

A locked section moves exactly one CPU (`Occupancy.move`); every other step
leaves the phases alone and changes states only between `unused`, `embryo`,
`sleeping` and `runnable` (`Occupancy.frame`).
-/

namespace Xv6.Process

universe u

/-- The process a CPU in this phase has as its current one. -/
@[simp]
def Phase.slot : Phase → Option Slot
  | .idle | .drawn | .scan _ => none
  | .chosen slot | .resumed slot | .run slot | .leaving slot | .back slot => some slot

/-- The CPU holds `ptable.lock` in this phase. -/
@[simp]
def Phase.holds : Phase → Bool
  | .idle | .drawn | .run _ => false
  | .scan _ | .chosen _ | .resumed _ | .leaving _ | .back _ => true

/-- The process whose code the CPU executes while the process is `RUNNING`. -/
@[simp]
def Phase.executes : Phase → Option Slot
  | .resumed slot | .run slot => some slot
  | .idle | .drawn | .scan _ | .chosen _ | .leaving _ | .back _ => none

variable {phase : Phase}

theorem Phase.slot_of_executes {slot : Slot} (executes : phase.executes = some slot) :
    phase.slot = some slot := by
  cases phase <;> first | contradiction | exact executes

theorem Phase.holds_of_slot {slot : Slot} (occupies : phase.slot = some slot)
    (idle : phase.executes ≠ some slot) : phase.holds = true := by
  cases phase <;> first | contradiction | rfl

/-- The child that a `fork` in progress is building. -/
def Activity.child : Activity → Option Slot
  | .claimed child | .stacked child | .copied child => some child
  | .user | .exiting => none

/-- Every `fork` in progress has an embryo of its own. -/
structure Forks (table : Ptable) (activity : Slot → Activity) : Prop where
  embryo : ∀ slot child, (activity slot).child = some child → (table child).state = .embryo
  builder : ∀ first second child, (activity first).child = some child →
    (activity second).child = some child → first = second

/-- Forks in progress keep their embryos when no activity gains a child and no
such embryo changes its state. -/
theorem Forks.keep {table table' : Ptable} {activity activity' : Slot → Activity}
    (forks : Forks table activity)
    (children : ∀ slot child, (activity' slot).child = some child →
      (activity slot).child = some child)
    (states : ∀ child, (table child).state = .embryo →
      (∃ slot, (activity' slot).child = some child) → (table' child).state = .embryo) :
    Forks table' activity' where
  embryo slot child building :=
    states child (forks.embryo slot child (children slot child building)) ⟨slot, building⟩
  builder first second child firstBuilds secondBuilds :=
    forks.builder first second child (children first child firstBuilds)
      (children second child secondBuilds)

variable {C : Type u}

/-- The occupation invariant. -/
structure Occupancy (kernel : Kernel C) : Prop where
  holder : ∀ cpu, kernel.lock = some cpu ↔ (kernel.cpu cpu).phase.holds = true
  current : ∀ cpu, (kernel.cpu cpu).proc = (kernel.cpu cpu).phase.slot
  exclusive : ∀ cpu other slot, (kernel.cpu cpu).phase.slot = some slot →
    (kernel.cpu other).phase.slot = some slot → cpu = other
  running : ∀ slot, (kernel.table slot).state = .running ↔
    ∃ cpu, (kernel.cpu cpu).phase.executes = some slot
  chosen : ∀ cpu slot, (kernel.cpu cpu).phase = .chosen slot →
    (kernel.table slot).state = .runnable
  forks : Forks kernel.table kernel.activity

namespace Occupancy

variable {kernel target : Kernel C}

variable {cpu : C} {slot : Slot}

/-- The process on a CPU that runs it is `RUNNING`. -/
theorem state_running (occupancy : Occupancy kernel)
    (executes : (kernel.cpu cpu).phase.executes = some slot) :
    (kernel.table slot).state = .running :=
  (occupancy.running slot).mpr ⟨cpu, executes⟩

/-- Only the lock holder can have a current process that is not `RUNNING`. -/
theorem holder_of_not_running (occupancy : Occupancy kernel)
    (occupies : (kernel.cpu cpu).phase.slot = some slot)
    (stopped : (kernel.table slot).state ≠ .running) : kernel.lock = some cpu := by
  apply (occupancy.holder cpu).mpr
  apply Phase.holds_of_slot occupies
  intro executes
  exact stopped (occupancy.state_running executes)

/-! ## Two kinds of steps -/

/-- One CPU moves to a new phase, and the lock follows it. -/
structure Moves (kernel target : Kernel C) (cpu : C) (phase : Phase) : Prop where
  others : ∀ other ≠ cpu, target.cpu other = kernel.cpu other
  phase_eq : (target.cpu cpu).phase = phase
  proc_eq : (target.cpu cpu).proc = phase.slot
  lock_eq : target.lock = if phase.holds = true then some cpu else none

variable {phase : Phase}

theorem Moves.of_setCpu [DecidableEq C] (update : Cpu → Cpu)
    (cpu_eq : target.cpu = (kernel.setCpu cpu update).cpu)
    (phase_eq : (update (kernel.cpu cpu)).phase = phase)
    (proc_eq : (update (kernel.cpu cpu)).proc = phase.slot)
    (lock_eq : target.lock = if phase.holds = true then some cpu else none) :
    Moves kernel target cpu phase where
  others other ne := by simp [cpu_eq, ne]
  phase_eq := by simpa [cpu_eq] using phase_eq
  proc_eq := by simpa [cpu_eq] using proc_eq
  lock_eq := lock_eq

section

variable (occupancy : Occupancy kernel)

include occupancy

/-- A move of the CPU that holds the lock, or that finds it free, keeps the
invariant when states change as the new phase says. -/
theorem move (moves : Moves kernel target cpu phase)
    (entitled : (kernel.cpu cpu).phase.holds = true ∨ kernel.lock = none)
    (occupies : ∀ slot, phase.slot = some slot →
      (kernel.cpu cpu).phase.slot = some slot ∨ (kernel.table slot).state ≠ .running)
    (running : ∀ slot, (target.table slot).state = .running ↔ phase.executes = some slot ∨
      (kernel.table slot).state = .running ∧ (kernel.cpu cpu).phase.executes ≠ some slot)
    (chosen : ∀ slot, phase = .chosen slot → (target.table slot).state = .runnable)
    (forks : Forks target.table target.activity) : Occupancy target := by
  have others := moves.others
  -- No other CPU holds the lock before the move.
  have unlocked other (ne : other ≠ cpu) : kernel.lock ≠ some other := by
    intro lock_eq
    rcases entitled with holds | free
    · rw [(occupancy.holder cpu).mpr holds] at lock_eq
      exact ne (Option.some.inj lock_eq).symm
    · rw [free] at lock_eq
      contradiction
  have released other (ne : other ≠ cpu) : (kernel.cpu other).phase.holds = false := by
    by_contra holds
    exact unlocked other ne ((occupancy.holder other).mpr (by simpa using holds))
  have apart slot (phase_slot : phase.slot = some slot) other (ne : other ≠ cpu) :
      (kernel.cpu other).phase.slot ≠ some slot := by
    intro occupied
    rcases occupies slot phase_slot with here | stopped
    · exact ne (occupancy.exclusive other cpu slot occupied here)
    · exact unlocked other ne (occupancy.holder_of_not_running occupied stopped)
  constructor
  · intro other
    by_cases same : other = cpu
    · subst same
      rw [moves.phase_eq, moves.lock_eq]
      split <;> simp_all
    · rw [others other same, released other same, moves.lock_eq]
      split
      · simp [Ne.symm same]
      · simp
  · intro other
    by_cases same : other = cpu
    · rw [same, moves.phase_eq, moves.proc_eq]
    · rw [others other same]
      exact occupancy.current other
  · intro first second slot firstOccupies secondOccupies
    by_cases firstSame : first = cpu <;> by_cases secondSame : second = cpu
    · rw [firstSame, secondSame]
    · subst firstSame
      rw [moves.phase_eq] at firstOccupies
      rw [others second secondSame] at secondOccupies
      exact absurd secondOccupies (apart slot firstOccupies second secondSame)
    · subst secondSame
      rw [moves.phase_eq] at secondOccupies
      rw [others first firstSame] at firstOccupies
      exact absurd firstOccupies (apart slot secondOccupies first firstSame)
    · rw [others first firstSame] at firstOccupies
      rw [others second secondSame] at secondOccupies
      exact occupancy.exclusive first second slot firstOccupies secondOccupies
  · intro slot
    rw [running slot, occupancy.running slot]
    constructor
    · rintro (executes | ⟨⟨other, executes⟩, left⟩)
      · exact ⟨cpu, by rw [moves.phase_eq]; exact executes⟩
      · have ne : other ≠ cpu := by
          rintro rfl
          exact left executes
        exact ⟨other, by rw [others other ne]; exact executes⟩
    · rintro ⟨other, executes⟩
      by_cases same : other = cpu
      · subst same
        exact .inl (by rw [← moves.phase_eq]; exact executes)
      · rw [others other same] at executes
        refine .inr ⟨⟨other, executes⟩, fun here => same ?_⟩
        exact occupancy.exclusive other cpu slot (Phase.slot_of_executes executes)
          (Phase.slot_of_executes here)
  · intro other slot picked
    by_cases same : other = cpu
    · subst same
      exact chosen slot (by rw [← moves.phase_eq]; exact picked)
    · rw [others other same] at picked
      have idle := released other same
      rw [picked] at idle
      contradiction
  · exact forks

section

variable (lock_eq : target.lock = kernel.lock)
include lock_eq

/-- A step that moves no CPU between the phases the invariant distinguishes. -/
theorem frame
    (cpus : ∀ cpu, (target.cpu cpu).proc = (kernel.cpu cpu).proc ∧
      ((target.cpu cpu).phase = (kernel.cpu cpu).phase ∨ (kernel.cpu cpu).phase = .idle ∧
      (target.cpu cpu).phase = .drawn))
    (running : ∀ slot, (target.table slot).state = .running ↔ (kernel.table slot).state = .running)
    (runnable : ∀ slot, (kernel.table slot).state = .runnable →
      (target.table slot).state = .runnable)
    (forks : Forks target.table target.activity) : Occupancy target := by
  have phase_eq cpu : (target.cpu cpu).phase.holds = (kernel.cpu cpu).phase.holds ∧
      (target.cpu cpu).phase.slot = (kernel.cpu cpu).phase.slot ∧ (target.cpu cpu).phase.executes =
      (kernel.cpu cpu).phase.executes := by
    rcases (cpus cpu).2 with same | ⟨idle, drawn⟩ <;> simp_all
  constructor
  · intro cpu
    rw [lock_eq, (phase_eq cpu).1]
    exact occupancy.holder cpu
  · intro cpu
    rw [(cpus cpu).1, (phase_eq cpu).2.1]
    exact occupancy.current cpu
  · intro first second slot
    rw [(phase_eq first).2.1, (phase_eq second).2.1]
    exact occupancy.exclusive first second slot
  · intro slot
    rw [running slot, occupancy.running slot]
    exact exists_congr fun cpu => by rw [(phase_eq cpu).2.2]
  · intro cpu slot picked
    rcases (cpus cpu).2 with same | ⟨-, drawn⟩
    · exact runnable slot (occupancy.chosen cpu slot (same.symm.trans picked))
    · rw [drawn] at picked
      contradiction
  · exact forks

/-- A step that moves no CPU and only wakes processes. -/
theorem wakes (cpu_eq : target.cpu = kernel.cpu) (wakes : Ptable.Wakes kernel.table target.table)
    (children : ∀ slot child, (target.activity slot).child = some child →
      (kernel.activity slot).child = some child) :
    Occupancy target := by
  refine occupancy.frame lock_eq (fun _ => by simp [cpu_eq]) ?_ ?_ ?_
  · intro slot
    exact ⟨fun held => wakes.reflects held (by decide), fun held => wakes.keeps held (by decide)⟩
  · exact fun slot held => wakes.keeps held (by decide)
  · exact occupancy.forks.keep children fun child held _ => wakes.keeps held (by decide)

/-- A step that moves no CPU and changes no state. -/
theorem store (cpu_eq : target.cpu = kernel.cpu)
    (states : ∀ slot, (target.table slot).state = (kernel.table slot).state)
    (children : ∀ slot child, (target.activity slot).child = some child →
      (kernel.activity slot).child = some child) :
    Occupancy target :=
  occupancy.wakes lock_eq cpu_eq (fun slot => .inl (states slot)) children

end

end

theorem boot (memory : Kernel.Boot) : Occupancy (Kernel.boot memory : Kernel C) := by
  have states slot : ((Kernel.userinit memory) slot).state ≠ .running := by
    unfold Kernel.userinit Ptable.initEmbryo Ptable.claim
    by_cases first : slot = 0 <;> simp [first, Proc.zero]
  constructor
  · simp [Kernel.boot, Cpu.initial]
  · simp [Kernel.boot, Cpu.initial]
  · simp [Kernel.boot, Cpu.initial]
  · simp [Kernel.boot, Cpu.initial, states]
  · simp [Kernel.boot, Cpu.initial]
  · constructor <;> simp [Kernel.boot, Activity.child]

end Occupancy

end Xv6.Process
