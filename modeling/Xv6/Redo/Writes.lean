import Mathlib.Data.List.Nodup
import Mathlib.Logic.Function.Basic

/-!
# Sequences of atomic writes

A store maps addresses to values, and a procedure is known by the sequence of
writes it performs.  A crash keeps an arbitrary prefix of that sequence, so a
property that must survive a crash has to hold throughout it.

`restart` runs a recovery procedure that may itself be stopped any number of
times before one run completes, and `restart_of_throughout` is the rule by which
such a procedure is proved correct.
-/

namespace Xv6.Redo

open List

universe u v

variable {α : Type u} {β : Type v} [DecidableEq α]

/-- The store after one write. -/
def write (store : α → β) (entry : α × β) : α → β :=
  Function.update store entry.1 entry.2

/-- The store after a sequence of writes. -/
def replay (store : α → β) (writes : List (α × β)) : α → β :=
  writes.foldl write store

section

variable (store : α → β)

@[simp]
theorem replay_nil : replay store [] = store :=
  rfl

@[simp]
theorem replay_cons (entry : α × β) (writes : List (α × β)) :
    replay store (entry :: writes) = replay (write store entry) writes :=
  rfl

theorem replay_append (first second : List (α × β)) :
    replay store (first ++ second) = replay (replay store first) second :=
  foldl_append

@[simp]
theorem write_self (address : α) (value : β) :
    write store (address, value) address = value :=
  Function.update_self ..

theorem write_of_ne {entry : α × β} {address : α} (ne : address ≠ entry.1) :
    write store entry address = store address :=
  Function.update_of_ne ne ..

/-- What an address holds depends on no other address. -/
theorem replay_congr {store store' : α → β} {address : α} (same : store address = store' address)
    (writes : List (α × β)) : replay store writes address = replay store' writes address := by
  induction writes generalizing store store' with
  | nil => exact same
  | cons entry writes ih =>
    rw [replay_cons, replay_cons]
    apply ih
    by_cases written : address = entry.1
    · subst written
      rw [write_self, write_self]
    · rw [write_of_ne store written, write_of_ne store' written, same]

/-- An address that is not written keeps its value. -/
theorem replay_of_not_mem {writes : List (α × β)} {address : α}
    (absent : address ∉ writes.map Prod.fst) : replay store writes address = store address := by
  induction writes generalizing store with
  | nil => rfl
  | cons entry writes ih =>
    simp only [map_cons, mem_cons, not_or] at absent
    rw [replay_cons, ih _ absent.2, write_of_ne store absent.1]

/-- An address that is written once holds the value written to it. -/
theorem replay_of_mem {writes : List (α × β)} {address : α} {value : β}
    (nodup : (writes.map Prod.fst).Nodup) (member : (address, value) ∈ writes) :
    replay store writes address = value := by
  induction writes generalizing store with
  | nil => contradiction
  | cons entry writes ih =>
    rw [map_cons, nodup_cons] at nodup
    rw [replay_cons]
    rcases mem_cons.mp member with rfl | later
    · rw [replay_of_not_mem _ nodup.1, write_self]
    · exact ih _ nodup.2 later

end

/-! ## Properties that survive a crash -/

/-- The property holds after every prefix of the writes. -/
def Throughout (property : (α → β) → Prop) : (α → β) → List (α × β) → Prop
  | store, [] => property store
  | store, entry :: writes => property store ∧ Throughout property (write store entry) writes

namespace Throughout

variable {property : (α → β) → Prop} {store : α → β} {writes : List (α × β)}

theorem take (throughout : Throughout property store writes) (count : Nat) :
    property (replay store (writes.take count)) := by
  induction writes generalizing store count with
  | nil =>
    rw [take_nil]
    exact throughout
  | cons entry writes ih =>
    cases count with
    | zero => exact throughout.1
    | succ count => exact ih throughout.2 count

theorem append {second : List (α × β)} (first : Throughout property store writes)
    (rest : Throughout property (replay store writes) second) :
    Throughout property store (writes ++ second) := by
  induction writes generalizing store with
  | nil => exact rest
  | cons entry writes ih => exact ⟨first.1, ih first.2 rest⟩

/-- A property that every single write preserves. -/
theorem of_preserved (initial : property store)
    (preserved : ∀ current, ∀ entry ∈ writes, property current → property (write current entry)) :
    Throughout property store writes := by
  induction writes generalizing store with
  | nil => exact initial
  | cons entry writes ih =>
    refine ⟨initial, ih (preserved store entry mem_cons_self initial) ?_⟩
    exact fun current later member => preserved current later (mem_cons_of_mem _ member)

theorem mono {weaker : (α → β) → Prop} (throughout : Throughout property store writes)
    (weaken : ∀ current, property current → weaker current) : Throughout weaker store writes := by
  induction writes generalizing store with
  | nil => exact weaken _ throughout
  | cons entry writes ih => exact ⟨weaken _ throughout.1, ih throughout.2⟩

end Throughout

/-! ## Recovery -/

/-- Run a procedure from the store a crash has left, with one more crash for
each number in the list: the run is stopped after that many writes and started
again.  The last run completes. -/
def restart (attempt : (α → β) → Option (List (α × β))) :
    List Nat → (α → β) → Option (α → β)
  | [], store => (attempt store).map (replay store)
  | crash :: crashes, store =>
    (attempt store).bind fun writes => restart attempt crashes (replay store (writes.take crash))

/-- Recovery completes, however often it is stopped, if a property of the store
holds throughout its writes and each complete run reaches the goal. -/
theorem restart_of_throughout {attempt : (α → β) → Option (List (α × β))}
    (property goal : (α → β) → Prop)
    (correct : ∀ store, property store → ∃ writes, attempt store = some writes ∧
      Throughout property store writes ∧ goal (replay store writes))
    (crashes : List Nat) {store : α → β} (initial : property store) :
    ∃ final, restart attempt crashes store = some final ∧ goal final := by
  induction crashes generalizing store with
  | nil =>
    obtain ⟨writes, attempt_eq, -, reached⟩ := correct store initial
    exact ⟨replay store writes, by simp [restart, attempt_eq], reached⟩
  | cons crash crashes ih =>
    obtain ⟨writes, attempt_eq, throughout, -⟩ := correct store initial
    obtain ⟨final, final_eq, reached⟩ := ih (throughout.take crash)
    exact ⟨final, by simp [restart, attempt_eq, final_eq], reached⟩

end Xv6.Redo
