import Xv6.Process.Table

/-!
# Process identifiers

Identifiers are handed out in increasing order and never reused before the
counter overflows.  An abandoned embryo leaves its identifier in an unused
slot, so distinctness is an invariant of all slots with a non-zero `pid`, not
only of the processes.
-/

namespace Xv6.Process

/-- The invariant of the identifiers in the table. -/
structure PidTable (table : Ptable) (nextpid : Int) : Prop where
  positive : 0 < nextpid
  bound : ∀ slot, 0 ≤ (table slot).pid ∧ (table slot).pid < nextpid
  named : ∀ slot, (table slot).state ≠ .unused → 0 < (table slot).pid
  distinct : ∀ first second, (table first).pid = (table second).pid →
    (table first).pid ≠ 0 → first = second

namespace PidTable

variable {table : Ptable} {nextpid : Int}

section

variable (pids : PidTable table nextpid)
include pids

/-- A change that touches no identifier and brings no unused slot into use. -/
theorem keep {target : Ptable} (pid_eq : ∀ slot, (target slot).pid = (table slot).pid)
    (used : ∀ slot, (target slot).state ≠ .unused → (table slot).state ≠ .unused) :
    PidTable target nextpid where
  positive := pids.positive
  bound slot := by
    rw [pid_eq]
    exact pids.bound slot
  named slot inUse := by
    rw [pid_eq]
    exact pids.named slot (used slot inUse)
  distinct first second := by
    rw [pid_eq, pid_eq]
    exact pids.distinct first second

theorem modify {slot : Slot} {update : Proc → Proc}
    (pid_eq : (update (table slot)).pid = (table slot).pid)
    (used : (update (table slot)).state ≠ .unused → (table slot).state ≠ .unused) :
    PidTable (table.modify slot update) nextpid := by
  apply pids.keep <;> intro other <;> by_cases same : other = slot
  · simpa [same] using pid_eq
  · simp [same]
  · simpa [same] using used
  · simp [same]

/-- `allocproc` gives the claimed slot the next identifier. -/
theorem claim (child : Slot) :
    PidTable (table.claim child nextpid) (nextpid + 1) where
  positive := by
    have := pids.positive
    omega
  bound slot := by
    have := pids.bound slot
    by_cases same : slot = child <;> simp [Ptable.claim, same] <;> grind
  named slot := by
    have := pids.positive
    by_cases same : slot = child
    · simp [Ptable.claim, same, this]
    · simpa [Ptable.claim, same] using pids.named slot
  distinct first second equal nonzero := by
    have firstBound := pids.bound first
    have secondBound := pids.bound second
    by_cases firstSame : first = child <;> by_cases secondSame : second = child
    · rw [firstSame, secondSame]
    · simp [Ptable.claim, firstSame, secondSame] at equal
      omega
    · simp [Ptable.claim, firstSame, secondSame] at equal
      omega
    · simp only [Ptable.claim, Ptable.modify_of_ne _ _ firstSame,
        Ptable.modify_of_ne _ _ secondSame] at equal nonzero
      exact pids.distinct first second equal nonzero

/-- `wait` clears the identifier of the zombie it reaps. -/
theorem reap (child : Slot) :
    PidTable (table.reap child) nextpid where
  positive := pids.positive
  bound slot := by
    by_cases same : slot = child
    · simpa [Ptable.reap, same] using pids.positive
    · simpa [Ptable.reap, same] using pids.bound slot
  named slot := by
    by_cases same : slot = child
    · simp [Ptable.reap, same]
    · simpa [Ptable.reap, same] using pids.named slot
  distinct first second equal nonzero := by
    by_cases firstSame : first = child
    · simp [Ptable.reap, firstSame] at nonzero
    by_cases secondSame : second = child
    · simp only [Ptable.reap] at equal nonzero
      simp [secondSame] at equal
      exact absurd equal nonzero
    · simp only [Ptable.reap, Ptable.modify_of_ne _ _ firstSame,
        Ptable.modify_of_ne _ _ secondSame] at equal nonzero
      exact pids.distinct first second equal nonzero

end

end PidTable

end Xv6.Process
