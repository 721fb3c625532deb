import Mathlib.Algebra.BigOperators.Group.Finset.Piecewise
import Mathlib.Algebra.BigOperators.Group.Finset.Sigma
import Mathlib.Data.Fintype.Basic
import Mathlib.Logic.Function.Basic

/-!
# Counting references

Each member of a finite set may refer to one target.  When one member changes its
reference, the count of the old target drops by one and that of the new target
grows by one.
-/

namespace Xv6.Custody

open Finset Function

universe u v

variable {ι : Type u} {α : Type v} [Fintype ι] [DecidableEq α]

/-- How many members refer to the target. -/
def references (refers : ι → Option α) (target : α) : Nat :=
  (Finset.univ.filter fun member => refers member = some target).card

variable {refers : ι → Option α} {target : α}

theorem references_eq_zero_iff :
    references refers target = 0 ↔ ∀ member, refers member ≠ some target := by
  rw [references, card_eq_zero]
  simp

variable {member : ι}

theorem references_pos (refers_eq : refers member = some target) :
    0 < references refers target := by
  rw [Nat.pos_iff_ne_zero, Ne, references_eq_zero_iff]
  exact fun none => none member refers_eq

theorem references_eq_one (refers_eq : refers member = some target)
    (only : ∀ other, refers other = some target → other = member) :
    references refers target = 1 := by
  rw [references, card_eq_one]
  refine ⟨member, ext fun other => ?_⟩
  rw [mem_filter, mem_singleton]
  constructor
  · exact fun refers_other => only other refers_other.2
  · rintro rfl
    exact ⟨mem_univ _, refers_eq⟩

theorem references_congr {refers' : ι → Option α}
    (same : ∀ member, refers' member = some target ↔ refers member = some target) :
    references refers' target = references refers target := by
  simp only [references, same]

omit [Fintype ι] in
/-- One reference, as a list. -/
theorem count_toList (refers : Option α) (target : α) :
    refers.toList.count target = if refers = some target then 1 else 0 := by
  cases refers with
  | none => rfl
  | some other => simp [List.count_singleton]

/-- Every member that refers to something is counted once. -/
theorem sum_references [Fintype α] (refers : ι → Option α) :
    ∑ target, references refers target = (univ.filter fun member => refers member ≠ none).card := by
  simp only [references, card_filter]
  rw [sum_comm]
  refine sum_congr rfl fun member _ => ?_
  cases refers member with
  | none => simp
  | some target => simp

variable [DecidableEq ι]

/-- One member exchanges its reference. -/
theorem references_update (refers : ι → Option α) (member : ι) (new : Option α) (target : α) :
    references (update refers member new) target +
        (if refers member = some target then 1 else 0) =
      references refers target + (if new = some target then 1 else 0) := by
  simp only [references, card_filter]
  rw [← add_sum_erase univ _ (mem_univ member),
    ← add_sum_erase univ (fun other => if refers other = some target then 1 else 0)
      (mem_univ member)]
  have others other (mem : other ∈ univ.erase member) :
      (if update refers member new other = some target then 1 else 0) = if refers other =
      some target then 1 else 0 := by
    rw [update_of_ne (ne_of_mem_erase mem)]
  rw [sum_congr rfl others, update_self]
  omega

end Xv6.Custody
