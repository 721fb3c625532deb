import Mathlib.Data.Finset.Card
import Mathlib.Data.Fintype.Basic
import Mathlib.Logic.Function.Basic

/-!
# Custody

Members of a finite set may have a guardian.  A ward is gained, released, or
handed over together with all other wards of its guardian.  The ledger of a
guardian balances: what it has and has released is what it has gained and
received from others.
-/

namespace Xv6.Custody

universe u

/-- A change of custody. -/
inductive Change (S : Type u) where
  | keep
  | gain (guardian ward : S)
  | release (guardian ward : S)
  | handOver (leaver heir : S)
  deriving DecidableEq

/-- The roles in the changes of custody. -/
inductive Role where
  | gainer
  | newcomer
  | releaser
  | dismissed
  | leaver
  | heir
  deriving DecidableEq

variable {S : Type u} [DecidableEq S]

namespace Change

/-- The guardians after a change. -/
def apply (custody : S → Option S) : Change S → S → Option S
  | .keep => custody
  | .gain guardian ward => Function.update custody ward (some guardian)
  | .release _ ward => Function.update custody ward none
  | .handOver leaver heir => fun ward =>
    if custody ward = some leaver then some heir else custody ward

/-- Only members that are present take part, except that a ward is absent when
it is gained.  A ward is released by its own guardian, and nobody hands wards
over to itself. -/
def Allowed (custody : S → Option S) (present : S → Prop) : Change S → Prop
  | .keep => True
  | .gain guardian ward => present guardian ∧ ¬present ward ∧ custody ward = none
  | .release guardian ward => present guardian ∧ custody ward = some guardian
  | .handOver leaver heir => present leaver ∧ present heir ∧ leaver ≠ heir

/-- The members that are present after a change: a ward joins when it is gained,
and a guardian leaves when it hands over its wards. -/
def Present (present : S → Prop) : Change S → S → Prop
  | .keep | .release _ _ => present
  | .gain _ ward => fun member => member = ward ∨ present member
  | .handOver leaver _ => fun member => member ≠ leaver ∧ present member

/-- The member that has a role in a change. -/
def part : Role → Change S → Option S
  | .gainer, .gain guardian _ => some guardian
  | .newcomer, .gain _ ward => some ward
  | .releaser, .release guardian _ => some guardian
  | .dismissed, .release _ ward => some ward
  | .leaver, .handOver leaver _ => some leaver
  | .heir, .handOver _ heir => some heir
  | _, _ => none

end Change

variable [Fintype S]

/-- The wards of a guardian. -/
def wards (custody : S → Option S) (guardian : S) : Finset S :=
  Finset.univ.filter fun ward => custody ward = some guardian

variable {custody : S → Option S} {guardian ward : S}

@[simp]
theorem mem_wards : ward ∈ wards custody guardian ↔ custody ward = some guardian := by
  simp [wards]

/-- The number of wards that change hands with a leaver. -/
def Change.passed (custody : S → Option S) : Change S → Nat
  | .handOver leaver _ => (wards custody leaver).card
  | _ => 0

theorem wards_gain (free : custody ward = none) (other : S) :
    wards ((Change.gain guardian ward).apply custody) other =
      if guardian = other then insert ward (wards custody other) else wards custody other := by
  ext member
  by_cases same : member = ward <;> by_cases own : guardian = other <;>
    simp [Change.apply, same, own, free]

theorem wards_release (own : custody ward = some guardian) (other : S) :
    wards ((Change.release guardian ward).apply custody) other =
      if guardian = other then (wards custody other).erase ward else wards custody other := by
  ext member
  by_cases same : member = ward <;> by_cases equal : guardian = other <;>
    simp [Change.apply, same, equal, own]

theorem wards_handOver {leaver heir : S} {other : S} (stays : other ≠ leaver) :
    wards ((Change.handOver leaver heir).apply custody) other =
      if heir = other then wards custody other ∪ wards custody leaver
      else wards custody other := by
  ext member
  by_cases passed : custody member = some leaver <;> by_cases equal : heir = other <;>
    simp [Change.apply, passed, equal, stays.symm]

/-- One change keeps the ledger of a guardian that stays balanced. -/
theorem card_wards_apply {present : S → Prop} {change : Change S}
    (allowed : change.Allowed custody present) (stays : change.part .leaver ≠ some guardian) :
    (wards (change.apply custody) guardian).card +
        (if change.part .releaser = some guardian then 1 else 0) =
      (wards custody guardian).card + (if change.part .gainer = some guardian then 1 else 0) +
        (if change.part .heir = some guardian then change.passed custody else 0) := by
  cases change with
  | keep => rfl
  | gain holder ward =>
    obtain ⟨-, -, free⟩ := allowed
    rw [wards_gain free]
    by_cases own : holder = guardian
    · have fresh : ward ∉ wards custody guardian := by simp [free]
      simp [own, Change.part, fresh]
    · simp [own, Change.part]
  | release holder ward =>
    obtain ⟨-, held⟩ := allowed
    rw [wards_release held]
    by_cases own : holder = guardian
    · have member : ward ∈ wards custody guardian := by simp [held, own]
      simp only [own, Change.part]
      exact Finset.card_erase_add_one member
    · simp [own, Change.part]
  | handOver leaver heir =>
    have ne : guardian ≠ leaver := by
      rintro rfl
      exact stays rfl
    rw [wards_handOver ne]
    by_cases own : heir = guardian
    · have disjoint : Disjoint (wards custody guardian) (wards custody leaver) := by
        rw [Finset.disjoint_left]
        intro member first second
        rw [mem_wards] at first second
        exact ne (Option.some.inj (first.symm.trans second))
      simp [own, Change.part, Change.passed, Finset.card_union_of_disjoint disjoint]
    · simp [own, Change.part]

end Xv6.Custody
