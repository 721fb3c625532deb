import Mathlib.Data.List.Nodup
import Mathlib.Logic.Function.Basic

/-!
# Singly linked lists

A list of cells is given by the pointer to its first cell and the `next` pointer
of every cell.  `Linked` relates the pointers to the list of cells they run
through; `findEnd` is the loop that looks for the null pointer at the end, and
`link` stores a new cell there.
-/

namespace Xv6

open Function

universe u

variable {α : Type u}

/-- Following `next` from `start` runs through the cells. -/
def Linked (next : α → Option α) : Option α → List α → Prop
  | start, [] => start = none
  | start, cell :: rest => start = some cell ∧ Linked next (next cell) rest

/-- The place of a pointer: the head pointer, or the `next` field of a cell. -/
abbrev Place (α : Type u) := Option α

/-- The pointer at a place. -/
def fetch (next : α → Option α) (head : Option α) : Place α → Option α
  | none => head
  | some cell => next cell

/-- The loop that follows the pointers from a place on until it finds a null
pointer; `none` when it has not ended after `fuel` iterations. -/
def findEnd (next : α → Option α) (head : Option α) : Nat → Place α → Option (Place α)
  | 0, _ => none
  | fuel + 1, place =>
    match fetch next head place with
    | none => some place
    | some cell => findEnd next head fuel (some cell)

namespace Linked

variable {next : α → Option α} {start head : Option α} {cells : List α}

/-- The loop finds the last cell, or stays where it is in front of no cell. -/
theorem findEnd_eq {place : Place α} {fuel : Nat}
    (linked : Linked next (fetch next head place) cells) (enough : cells.length < fuel) :
    findEnd next head fuel place = some (cells.getLast?.or place) := by
  induction cells generalizing place fuel with
  | nil =>
    obtain ⟨fuel, rfl⟩ := Nat.exists_eq_add_one_of_ne_zero (Nat.ne_zero_of_lt enough)
    rw [findEnd, linked]
    rfl
  | cons cell rest ih =>
    obtain ⟨fuel, rfl⟩ := Nat.exists_eq_add_one_of_ne_zero (Nat.ne_zero_of_lt enough)
    have behind : Linked next (fetch next head (some cell)) rest := linked.2
    rw [findEnd, linked.1]
    dsimp only
    rw [ih behind (by simpa using enough)]
    cases rest with
    | nil => rfl
    | cons second rest =>
      rfl

variable [DecidableEq α]

/-- A store to a cell outside of the list. -/
theorem update_of_notMem (linked : Linked next start cells) {cell : α} (outside : cell ∉ cells)
    (value : Option α) : Linked (update next cell value) start cells := by
  induction cells generalizing start with
  | nil => exact linked
  | cons first rest ih =>
    have ne : first ≠ cell := fun same => outside (by simp [same])
    refine ⟨linked.1, ?_⟩
    rw [update_of_ne ne]
    exact ih linked.2 fun member => outside (List.mem_cons_of_mem _ member)

/-- A store to the last cell extends the list. -/
theorem update_last {last cell : α} (linked : Linked next start (cells ++ [last]))
    (nodup : (cells ++ [last]).Nodup) (ne : cell ≠ last) (ends : next cell = none) :
    Linked (update next last (some cell)) start (cells ++ [last] ++ [cell]) := by
  induction cells generalizing start with
  | nil =>
    refine ⟨linked.1, ?_⟩
    rw [update_self]
    refine ⟨rfl, ?_⟩
    rw [update_of_ne ne]
    exact ends
  | cons first rest ih =>
    obtain ⟨fresh, restNodup⟩ := List.nodup_cons.mp nodup
    have notLast : first ≠ last := fun same => fresh (by simp [same])
    refine ⟨linked.1, ?_⟩
    rw [update_of_ne notLast]
    exact ih linked.2 restNodup

end Linked

variable [DecidableEq α]

/-- Store a pointer at a place: the head pointer and the `next` fields after it. -/
def link (next : α → Option α) (head : Option α) (cell : α) : Place α → Option α × (α → Option α)
  | none => (some cell, next)
  | some last => (head, update next last (some cell))

/-- A cell stored at the end extends the list. -/
theorem Linked.link {next : α → Option α} {head : Option α} {cells : List α} {cell : α}
    (linked : Linked next head cells) (nodup : cells.Nodup) (fresh : cell ∉ cells)
    (ends : next cell = none) :
    Linked (Xv6.link next head cell cells.getLast?).2 (Xv6.link next head cell cells.getLast?).1
      (cells ++ [cell]) := by
  rcases cells.eq_nil_or_concat with rfl | ⟨rest, last, rfl⟩
  · exact ⟨rfl, ends⟩
  · rw [List.concat_eq_append] at linked nodup fresh ⊢
    have ne : cell ≠ last := fun same => fresh (by simp [same])
    rw [List.getLast?_concat]
    exact linked.update_last nodup ne ends

end Xv6
