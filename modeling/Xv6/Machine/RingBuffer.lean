import Mathlib.Data.Fin.Basic
import Mathlib.Data.List.Basic
import Mathlib.Data.Nat.ModEq
import Mathlib.Logic.Function.Basic

/-!
# Ring buffers with free-running counters

A buffer of `size` cells with two counters of `width` bits that are never reset:
elements are stored at `nwrite % size` and taken from `nread % size`, and both
counters wrap at `2^width`.  When `size` divides `2^width`, the buffer represents
a queue whatever the number of elements that went through it: `Represents`
relates it to the list of all elements ever stored and to the number of those
that have been taken.
-/

namespace Xv6

open List Nat

universe u

/-- The cells and the counters. -/
structure RingBuffer (α : Type u) (size width : Nat) where
  data : Fin size → α
  nread : BitVec width
  nwrite : BitVec width

namespace RingBuffer

variable {α : Type u} {size width : Nat}

/-- No element is in the buffer. -/
def Empty (ring : RingBuffer α size width) : Prop := ring.nread = ring.nwrite

/-- No cell is free. -/
def Full (ring : RingBuffer α size width) : Prop :=
  ring.nwrite = ring.nread + BitVec.ofNat width size

instance (ring : RingBuffer α size width) : Decidable ring.Empty :=
  inferInstanceAs (Decidable (_ = _))

instance (ring : RingBuffer α size width) : Decidable ring.Full :=
  inferInstanceAs (Decidable (_ = _))

variable [NeZero size]

/-- The cell that belongs to a value of a counter. -/
def cell (size : Nat) [NeZero size] (counter : BitVec width) : Fin size :=
  Fin.ofNat size counter.toNat

/-- Store an element and count it. -/
def push (ring : RingBuffer α size width) (element : α) : RingBuffer α size width :=
  { ring with
    data := Function.update ring.data (cell size ring.nwrite) element
    nwrite := ring.nwrite + 1 }

/-- The element to be taken next. -/
def front (ring : RingBuffer α size width) : α := ring.data (cell size ring.nread)

/-- Count the element that has been taken. -/
def pop (ring : RingBuffer α size width) : RingBuffer α size width :=
  { ring with nread := ring.nread + 1 }

/-- Give back the cell of the element stored last. -/
def retract (ring : RingBuffer α size width) : RingBuffer α size width :=
  { ring with nwrite := ring.nwrite - 1 }

/-- The contents of consecutive cells, from the cell of a counter on. -/
def window (data : Fin size → α) (start : BitVec width) (count : Nat) : List α :=
  (List.range count).map fun index => data (cell size (start + BitVec.ofNat width index))

/-- `stored` are all the elements ever stored, of which `taken` have been taken;
the others are in the buffer. -/
structure Represents (ring : RingBuffer α size width) (stored : List α) (taken : Nat) : Prop where
  nread : ring.nread = BitVec.ofNat width taken
  nwrite : ring.nwrite = BitVec.ofNat width stored.length
  le : taken ≤ stored.length
  room : stored.length ≤ taken + size
  content : ∀ index (bound : index < stored.length), taken ≤ index →
    ring.data (Fin.ofNat size index) = stored[index]

variable {first second : Nat}

omit [NeZero size] in
theorem ofNat_inj_of_window (le : first ≤ second)
    (window : second ≤ first + size) (wide : size < 2 ^ width)
    (equal : BitVec.ofNat width first = BitVec.ofNat width second) : first = second := by
  have mod_eq : first % 2 ^ width = second % 2 ^ width := by
    simpa using congrArg BitVec.toNat equal
  obtain ⟨distance, rfl⟩ := Nat.exists_eq_add_of_le le
  have divides : 2 ^ width ∣ distance := by
    have := (modEq_iff_dvd' le).mp mod_eq
    simpa using this
  have := eq_zero_of_dvd_of_lt divides (by omega)
  omega

omit [NeZero size] in
/-- Within a window of the size of the buffer, the wrapping difference of two
counters is the difference of the numbers they stand for. -/
theorem toNat_ofNat_sub (le : first ≤ second)
    (window : second ≤ first + size) (wide : size < 2 ^ width) :
    (BitVec.ofNat width second - BitVec.ofNat width first).toNat = second - first := by
  obtain ⟨count, rfl⟩ := Nat.exists_eq_add_of_le le
  rw [BitVec.ofNat_add, BitVec.add_comm, BitVec.add_sub_cancel, BitVec.toNat_ofNat,
    mod_eq_of_lt (by omega)]
  omega

/-- A counter and the number it stands for belong to the same cell. -/
theorem cell_ofNat (divides : size ∣ 2 ^ width) (count : Nat) :
    cell size (BitVec.ofNat width count) = Fin.ofNat size count := by
  simp [cell, Fin.ofNat, mod_mod_of_dvd count divides]

/-- Two positions less than `size` apart have different cells. -/
theorem cell_ne (lt : first < second) (window : second < first + size) :
    Fin.ofNat size first ≠ Fin.ofNat size second := by
  intro equal
  have mod_eq : first % size = second % size := congrArg Fin.val equal
  have divides := (modEq_iff_dvd' lt.le).mp mod_eq
  have := eq_zero_of_dvd_of_lt divides (by omega)
  omega

namespace Represents

variable {ring : RingBuffer α size width} {stored : List α} {taken : Nat}

section

variable (represents : ring.Represents stored taken)

include represents

section

variable (wide : size < 2 ^ width)
include wide

theorem empty_iff : ring.Empty ↔ taken = stored.length := by
  rw [Empty, represents.nread, represents.nwrite]
  constructor
  · exact ofNat_inj_of_window represents.le represents.room wide
  · rintro rfl
    rfl

theorem full_iff : ring.Full ↔ stored.length = taken + size := by
  rw [Full, represents.nread, represents.nwrite, ← BitVec.ofNat_add]
  constructor
  · intro equal
    have le := represents.le
    exact ofNat_inj_of_window represents.room (by omega) wide equal
  · intro equal
    rw [equal]

/-- The wrapping difference of the counters is the number of elements in the buffer. -/
theorem distance :
    (ring.nwrite - ring.nread).toNat = stored.length - taken := by
  rw [represents.nread, represents.nwrite]
  exact toNat_ofNat_sub represents.le represents.room wide

theorem push (divides : size ∣ 2 ^ width) (notFull : ¬ring.Full)
    (element : α) : (ring.push element).Represents (stored ++ [element]) taken where
  nread := represents.nread
  nwrite := by simp [RingBuffer.push, represents.nwrite, BitVec.ofNat_add]
  le := by
    have := represents.le
    simp only [length_append]
    omega
  room := by
    have room := represents.room
    have := mt (represents.full_iff wide).mpr notFull
    simp only [length_append, length_singleton]
    omega
  content index bound after := by
    have room := represents.room
    have := mt (represents.full_iff wide).mpr notFull
    simp only [RingBuffer.push, represents.nwrite, cell_ofNat divides]
    by_cases last : index = stored.length
    · subst last
      simp
    have bound' : index < stored.length := by
      simp only [length_append, length_singleton] at bound
      omega
    rw [Function.update_of_ne (cell_ne bound' (by omega)), getElem_append_left bound']
    exact represents.content index bound' after

end

/-- The last element can be given back as long as it has not been taken. -/
theorem retract (more : taken < stored.length) : ring.retract.Represents stored.dropLast taken where
  nread := represents.nread
  nwrite := by
    obtain ⟨rest, length_eq⟩ := Nat.exists_eq_add_of_le (Nat.one_le_of_lt more)
    rw [RingBuffer.retract, represents.nwrite, length_dropLast, length_eq,
      add_comm, BitVec.ofNat_add]
    exact BitVec.add_sub_cancel _ _
  le := by
    rw [length_dropLast]
    omega
  room := by
    have := represents.room
    rw [length_dropLast]
    omega
  content index bound after := by
    rw [length_dropLast] at bound
    rw [getElem_dropLast]
    exact represents.content index (by omega) after

/-- The cells between two positions hold what was stored there. -/
theorem window (divides : size ∣ 2 ^ width) {start count : Nat} (after : taken ≤ start)
    (bound : start + count ≤ stored.length) :
    RingBuffer.window ring.data (BitVec.ofNat width start) count =
      (stored.drop start).take count := by
  apply ext_getElem
  · simp only [RingBuffer.window, length_map, length_range, length_take,
      length_drop]
    omega
  · intro index inWindow inStored
    simp only [RingBuffer.window, length_map, length_range] at inWindow
    simp only [RingBuffer.window, getElem_map, getElem_range, getElem_take,
      getElem_drop, ← BitVec.ofNat_add, cell_ofNat divides]
    exact represents.content (start + index) (by omega) (by omega)

/-- Elements are taken in the order in which they were stored. -/
theorem pop (wide : size < 2 ^ width) (divides : size ∣ 2 ^ width) (notEmpty : ¬ring.Empty) :
    ring.pop.Represents stored (taken + 1) ∧
      stored.take (taken + 1) = stored.take taken ++ [ring.front] := by
  have le := represents.le
  have room := represents.room
  have more := mt (represents.empty_iff wide).mpr notEmpty
  have bound : taken < stored.length := by omega
  have front_eq : ring.front = stored[taken] := by
    rw [front, represents.nread, cell_ofNat divides]
    exact represents.content taken bound (le_refl _)
  constructor
  · exact
      { nread := by simp [RingBuffer.pop, represents.nread, BitVec.ofNat_add]
        nwrite := represents.nwrite
        le := bound
        room := by omega
        content := fun index bound after => represents.content index bound (by omega) }
  · rw [front_eq, take_append_getElem bound]

end

end Represents

end RingBuffer

end Xv6
