import Mathlib.Algebra.Notation.Defs
import Mathlib.Logic.Basic

/-!
# Items in places, and a table of marks

Every place holds an item of a region or nothing, which is written zero.  No item
is in two places, and a table marks the items that are in a place.  An item that is
not marked can be put into an empty place, and places can be emptied.
-/

namespace Xv6.Custody

universe u v

variable {κ : Type u} {β : Type v} [Zero β]

/-- The places hold distinct items of the region, and the marks tell which items they hold. -/
structure Marking (region : β → Prop) (held : κ → β) (mark : β → Bool) : Prop where
  zero : ¬region 0
  inside : ∀ place, held place ≠ 0 → region (held place)
  exclusive : ∀ place other, held place ≠ 0 → held place = held other → place = other
  marked : ∀ item, region item → (mark item = true ↔ ∃ place, held place = item)

namespace Marking

variable {region : β → Prop} {held held' : κ → β} {mark mark' : β → Bool}

section

variable (marking : Marking region held mark)

include marking

theorem mark_held {place : κ} (used : held place ≠ 0) : mark (held place) = true :=
  (marking.marked _ (marking.inside place used)).mpr ⟨place, rfl⟩

/-- An item without a mark is in no place. -/
theorem held_ne {item : β} (fresh : mark item = false) (inside : region item) (place : κ) :
    held place ≠ item := by
  intro same
  rw [(marking.marked item inside).mpr ⟨place, same⟩] at fresh
  cases fresh

/-- Different places hold different items. -/
theorem held_ne_held {place other : κ} (used : held place ≠ 0) (ne : place ≠ other) :
    held place ≠ held other :=
  fun same => ne (marking.exclusive place other used same)

/-- Marks outside the region do not matter. -/
theorem congr (same : ∀ place, held' place = held place)
    (marks : ∀ item, region item → mark' item = mark item) : Marking region held' mark' where
  zero := marking.zero
  inside := by
    intro place
    rw [same]
    exact marking.inside place
  exclusive := by
    intro place other
    rw [same, same]
    exact marking.exclusive place other
  marked := by
    intro item inside
    simp only [marks item inside, same, marking.marked item inside]

/-- An item without a mark is put into an empty place. -/
theorem put {target : κ} {item : β} (fresh : mark item = false) (inside : region item)
    (filled : held' target = item) (others : ∀ place ≠ target, held' place = held place)
    (empty : held target = 0)
    (marks : ∀ other, region other → (mark' other = true ↔ other = item ∨ mark other = true)) :
    Marking region held' mark' where
  zero := marking.zero
  inside := by
    intro place used
    by_cases eq : place = target
    · rw [eq, filled]
      exact inside
    · rw [others place eq] at used ⊢
      exact marking.inside place used
  exclusive := by
    intro place other used same
    by_cases placeEq : place = target
    · by_cases otherEq : other = target
      · rw [placeEq, otherEq]
      · rw [placeEq, filled, others other otherEq] at same
        exact (marking.held_ne fresh inside other same.symm).elim
    rw [others place placeEq] at used same
    by_cases otherEq : other = target
    · rw [otherEq, filled] at same
      exact (marking.held_ne fresh inside place same).elim
    · rw [others other otherEq] at same
      exact marking.exclusive place other used same
  marked := by
    intro other otherInside
    rw [marks other otherInside, marking.marked other otherInside]
    constructor
    · rintro (rfl | ⟨place, rfl⟩)
      · exact ⟨target, filled⟩
      · by_cases eq : place = target
        · rw [eq, empty] at otherInside
          exact (marking.zero otherInside).elim
        · exact ⟨place, others place eq⟩
    · rintro ⟨place, rfl⟩
      by_cases eq : place = target
      · exact .inl (by rw [eq, filled])
      · exact .inr ⟨place, (others place eq).symm⟩

/-- Some places are emptied, and their items lose their marks. -/
theorem clear {gone : κ → Prop} (emptied : ∀ place, gone place → held' place = 0)
    (others : ∀ place, ¬gone place → held' place = held place)
    (marks : ∀ item, region item → (mark' item = true ↔ mark item = true ∧ ∀ place, gone place →
      held place ≠ item)) :
    Marking region held' mark' where
  zero := marking.zero
  inside := by
    intro place used
    by_cases isGone : gone place
    · exact (used (emptied place isGone)).elim
    · rw [others place isGone] at used ⊢
      exact marking.inside place used
  exclusive := by
    intro place other used same
    by_cases isGone : gone place
    · exact (used (emptied place isGone)).elim
    by_cases otherGone : gone other
    · rw [same, emptied other otherGone] at used
      exact (used rfl).elim
    · rw [others place isGone] at used same
      rw [others other otherGone] at same
      exact marking.exclusive place other used same
  marked := by
    intro item inside
    rw [marks item inside, marking.marked item inside]
    constructor
    · rintro ⟨⟨place, rfl⟩, kept⟩
      exact ⟨place, others place fun isGone => kept place isGone rfl⟩
    · rintro ⟨place, rfl⟩
      by_cases isGone : gone place
      · rw [emptied place isGone] at inside
        exact (marking.zero inside).elim
      · rw [others place isGone] at inside ⊢
        have used : held place ≠ 0 := fun zero => marking.zero (zero ▸ inside)
        exact ⟨⟨place, rfl⟩, fun other otherGone same =>
          isGone (marking.exclusive place other used same.symm ▸ otherGone)⟩

end

end Marking

end Xv6.Custody
