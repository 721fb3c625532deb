import Mathlib.Data.List.Basic

/-!
# Overwriting a part of a list

`overwrite items off src` replaces the items from a position on and may append some.
A list of records of one width is read record by record; overwriting one whole record
leaves the others.
-/

namespace Xv6

open List

universe u

variable {α : Type u} {items : List α} {off width index : Nat}

/-- The items with some of them replaced from a position on. -/
def overwrite (items : List α) (off : Nat) (src : List α) : List α :=
  items.take off ++ src ++ items.drop (off + src.length)

theorem overwrite_nil (items : List α) (off : Nat) : overwrite items off [] = items := by
  simp [overwrite]

theorem length_overwrite (inside : off ≤ items.length) (src : List α) :
    (overwrite items off src).length = max items.length (off + src.length) := by
  simp only [overwrite, length_append, length_take, length_drop]
  omega

theorem getElem?_overwrite (inside : off ≤ items.length) (src : List α) (index : Nat) :
    (overwrite items off src)[index]? =
      if index < off ∨ off + src.length ≤ index then items[index]? else src[index - off]? := by
  have front : (items.take off).length = off := length_take_of_le inside
  rw [overwrite]
  split
  · rename_i outside
    rcases outside with before | behind
    · rw [append_assoc, getElem?_append_left (by omega), getElem?_take_of_lt before]
    · rw [getElem?_append_right (by simp only [length_append]; omega), getElem?_drop]
      congr 1
      simp only [length_append]
      omega
  · rw [getElem?_append_left (by simp only [length_append]; omega),
      getElem?_append_right (by omega), front]

/-- Two writes side by side are one write. -/
theorem overwrite_append (inside : off ≤ items.length) (first second : List α) :
    overwrite (overwrite items off first) (off + first.length) second =
      overwrite items off (first ++ second) := by
  have inside' : off + first.length ≤ (overwrite items off first).length := by
    rw [length_overwrite inside]
    omega
  refine ext_getElem? fun index => ?_
  rw [getElem?_overwrite inside', getElem?_overwrite inside, getElem?_overwrite inside,
    length_append, getElem?_append]
  by_cases before : index < off
  · rw [if_pos (by omega), if_pos (by omega), if_pos (by omega)]
  by_cases within : index < off + first.length
  · rw [if_pos (by omega), if_neg (by omega), if_neg (by omega), if_pos (by omega)]
  by_cases behind : off + first.length + second.length ≤ index
  · rw [if_pos (by omega), if_pos (by omega), if_pos (by omega)]
  · rw [if_neg (by omega), if_neg (by omega), if_neg (by omega)]
    congr 1
    omega

/-! ## Records -/

/-- The record at a position. -/
def recordAt (width : Nat) (items : List α) (index : Nat) : List α :=
  (items.drop (width * index)).take width

/-- A record ends in front of the records behind it. -/
theorem record_end_le {count : Nat} (bound : index < count) :
    width * index + width ≤ width * count := by
  exact Nat.mul_le_mul_left width bound

theorem recordAt_overwrite_self {record : List α} (inside : width * index ≤ items.length)
    (length : record.length = width) :
    recordAt width (overwrite items (width * index) record) index = record := by
  rw [recordAt, overwrite, append_assoc, drop_left' (length_take_of_le inside), take_left' length]

theorem recordAt_overwrite_of_ne {record : List α} {other : Nat} (ne : other ≠ index)
    (inside : width * index ≤ items.length) (length : record.length = width) :
    recordAt width (overwrite items (width * index) record) other = recordAt width items other := by
  refine ext_getElem? fun position => ?_
  rw [recordAt, recordAt, getElem?_take, getElem?_take]
  split
  · rw [getElem?_drop, getElem?_drop, getElem?_overwrite inside, if_pos]
    rcases Nat.lt_or_gt_of_ne ne with before | behind
    · have next : width * other + width ≤ width * index := record_end_le before
      omega
    · have next : width * index + width ≤ width * other := record_end_le behind
      omega
  · rfl

end Xv6
