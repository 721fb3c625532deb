import Mathlib.Logic.Function.Basic

/-!
# Who holds a lock

A system stores the holder of every lock, and the place a party has reached in
its code says which locks it must hold there.  `Owned` relates the two: whoever
claims a lock is its holder.  `Move` says what one party may do to the locks: it
touches no lock, takes one that nobody claims, or gives away one it holds.
-/

namespace Xv6.Locks

open Function

universe u v

variable {L : Type u} {H : Type v}

/-- Whoever claims a lock holds it. -/
def Owned (locks : L → Option H) (claims : H → L → Prop) : Prop :=
  ∀ holder lock, claims holder lock → locks lock = some holder

/-- A change of the locks by one party, which afterwards claims the locks it
wants. -/
structure Move (locks locks' : L → Option H) (claims : H → L → Prop) (mover : H)
    (wanted : L → Prop) : Prop where
  keeps : ∀ holder lock, holder ≠ mover → claims holder lock → locks' lock = some holder
  gets : ∀ lock, wanted lock → locks' lock = some mover

namespace Owned

variable {locks locks' : L → Option H} {claims claims' : H → L → Prop}

/-- Nobody claims a lock that is free. -/
theorem not_claims_of_free (owned : Owned locks claims) {lock : L} (free : locks lock = none)
    (holder : H) : ¬claims holder lock := by
  intro claimed
  have held := owned holder lock claimed
  rw [free] at held
  contradiction

/-- Nobody claims a lock that another party holds. -/
theorem not_claims_of_ne (owned : Owned locks claims) {lock : L} {holder other : H}
    (held : locks lock = some holder) (ne : other ≠ holder) : ¬claims other lock := by
  intro claimed
  have held' := owned other lock claimed
  rw [held] at held'
  exact ne (Option.some.inj held').symm

/-- A move keeps the ownership when it changes the claims of the mover only. -/
theorem of_move {mover : H} {wanted : L → Prop} (move : Move locks locks' claims mover wanted)
    (others : ∀ other lock, other ≠ mover → claims' other lock → claims other lock)
    (own : ∀ lock, claims' mover lock → wanted lock) : Owned locks' claims' := by
  intro holder lock claimed
  by_cases same : holder = mover
  · subst same
    exact move.gets lock (own lock claimed)
  · exact move.keeps holder lock same (others holder lock same claimed)

end Owned

namespace Move

variable {locks : L → Option H} {claims : H → L → Prop} {mover : H} {wanted : L → Prop}

/-- Touch no lock. -/
theorem stay (owned : Owned locks claims) (own : ∀ lock, wanted lock → claims mover lock) :
    Move locks locks claims mover wanted where
  keeps holder lock _ claimed := owned holder lock claimed
  gets lock needed := owned mover lock (own lock needed)

variable [DecidableEq L]

/-- Take a lock that nobody claims. -/
theorem acquire (owned : Owned locks claims) {taken : L} (free : ∀ holder, ¬claims holder taken)
    (own : ∀ lock, wanted lock → lock = taken ∨ claims mover lock) :
    Move locks (update locks taken (some mover)) claims mover wanted where
  keeps holder lock _ claimed := by
    have kept : lock ≠ taken := by
      rintro rfl
      exact free holder claimed
    rw [update_of_ne kept]
    exact owned holder lock claimed
  gets lock needed := by
    by_cases same : lock = taken
    · rw [same, update_self]
    · rw [update_of_ne same]
      exact owned mover lock ((own lock needed).resolve_left same)

/-- Give away a lock: release it, or pass it to a party that claims nothing. -/
theorem giveAway (owned : Owned locks claims) {given : L} (held : locks given = some mover)
    (own : ∀ lock, wanted lock → lock ≠ given ∧ claims mover lock) (value : Option H) :
    Move locks (update locks given value) claims mover wanted where
  keeps holder lock ne claimed := by
    have kept : lock ≠ given := by
      rintro rfl
      exact owned.not_claims_of_ne held ne claimed
    rw [update_of_ne kept]
    exact owned holder lock claimed
  gets lock needed := by
    obtain ⟨kept, claimed⟩ := own lock needed
    rw [update_of_ne kept]
    exact owned mover lock claimed

end Move

end Xv6.Locks
