import Mathlib.Logic.Function.Basic
import Xv6.Machine.Int32

/-!
# The two versions of `memmove`

The kernel copies downwards where the destination begins inside the source.  The user
library always copies upwards, so it reads again what it has already overwritten.
-/

namespace Xv6.Memmove

open Function Xv6.Int32

/-- The bytes of an address space. -/
abbrev Memory := Nat → BitVec 8

/-- `while(n-- > 0) *d++ = *s++`. -/
def copyUp : Memory → Nat → Nat → Nat → Memory
  | mem, _, _, 0 => mem
  | mem, d, s, n + 1 => copyUp (update mem d (mem s)) (d + 1) (s + 1) n

/-- `while(n-- > 0) *--d = *--s`. -/
def copyDown : Memory → Nat → Nat → Nat → Memory
  | mem, _, _, 0 => mem
  | mem, d, s, n + 1 => copyDown (update mem (d - 1) (mem (s - 1))) (d - 1) (s - 1) n

/-- The kernel's `memmove`; the sum of a pointer and a number wraps. -/
def memmove (mem : Memory) (dst src n : Nat) : Memory :=
  if src < dst ∧ dst < (src + n) % 4294967296 then copyDown mem (dst + n) (src + n) n
  else copyUp mem dst src n

/-- The user library's `memmove`, where `n` is an `int`. -/
def ulibMemmove (mem : Memory) (vdst vsrc : Nat) (n : Int) : Memory :=
  copyUp mem vdst vsrc n.toNat

/-- The destination holds what the source held, and everything else is as before. -/
def moved (mem : Memory) (dst src n : Nat) : Memory := fun a =>
  if dst ≤ a ∧ a < dst + n then mem (src + (a - dst)) else mem a

/-- The destination already holds the bytes that are overwritten before they are read, or
all bytes if their number is not an `int`. -/
def Kept (mem : Memory) (dst src n : Nat) : Prop :=
  ∀ i < n, src < dst ∧ dst + i < src + n ∨ intMax < n → mem (dst + i) = mem (src + i)

variable {mem : Memory} {d s n a : Nat}

theorem copyUp_outside (outside : a < d ∨ d + n ≤ a) : copyUp mem d s n a = mem a := by
  induction n generalizing mem d s with
  | zero => rfl
  | succ n ih =>
    rw [copyUp, ih (by omega), update_of_ne (by omega)]

theorem copyUp_add (k : Nat) :
    copyUp mem d s (k + n) = copyUp (copyUp mem d s k) (d + k) (s + k) n := by
  induction k generalizing mem d s with
  | zero => rw [Nat.zero_add]; rfl
  | succ k ih =>
    rw [Nat.succ_add, copyUp, ih, copyUp, Nat.succ_add_eq_add_succ, Nat.succ_add_eq_add_succ]

/-- Upwards is right if nothing is overwritten too early, or only with what it holds. -/
theorem copyUp_eq_moved (kept : s < d → ∀ i, d + i < s + n → mem (d + i) = mem (s + i)) :
    copyUp mem d s n = moved mem d s n := by
  induction n generalizing mem d s with
  | zero =>
    funext a
    rw [moved, if_neg (by omega)]
    rfl
  | succ n ih =>
    have first j (at_d : s + j = d) (positive : 0 < j) (le : j ≤ n) : mem d = mem s :=
      kept (by omega) 0 (by omega)
    have reread j (positive : 0 < j) (le : j ≤ n) : update mem d (mem s) (s + j) = mem (s + j) := by
      by_cases at_d : s + j = d
      · rw [at_d, update_self, first j at_d positive le]
      · rw [update_of_ne at_d]
    rw [copyUp, ih]
    · funext a
      unfold moved
      rcases Nat.lt_trichotomy a d with below | rfl | above
      · rw [if_neg (by omega), if_neg (by omega), update_of_ne (by omega)]
      · rw [if_neg (by omega), if_pos (by omega), update_self, Nat.sub_self, Nat.add_zero]
      · by_cases inside : a < d + (n + 1)
        · have offset : s + 1 + (a - (d + 1)) = s + (a - d) := by omega
          rw [if_pos (by omega), if_pos (by omega), offset]
          exact reread _ (by omega) (by omega)
        · rw [if_neg (by omega), if_neg (by omega), update_of_ne (by omega)]
    · intro below i bound
      rw [update_of_ne (by omega), Nat.add_assoc, Nat.add_assoc, reread _ (by omega) (by omega)]
      exact kept (by omega) _ (by omega)

/-- Upwards is right only then: the first byte that is spoilt is copied on. -/
theorem kept_of_copyUp_eq (right : copyUp mem d s n = moved mem d s n) (below : s < d) (i : Nat)
    (bound : d + i < s + n) : mem (d + i) = mem (s + i) := by
  induction i using Nat.strong_induction_on with
  | h i ih =>
    have start : copyUp mem d s (i + (d - s)) = moved mem d s (i + (d - s)) :=
      copyUp_eq_moved fun _ j less => ih j (by omega) (by omega)
    have read : s + (i + (d - s)) = d + i := by omega
    obtain ⟨rest, rfl⟩ : ∃ rest, n = i + (d - s) + (rest + 1) := ⟨n - (i + (d - s)) - 1, by omega⟩
    have value := congrFun right (d + (i + (d - s)))
    rw [copyUp_add, start, copyUp, copyUp_outside (by omega), update_self, moved, moved,
      if_pos (by omega), if_pos (by omega), Nat.add_sub_cancel_left, read,
      Nat.add_sub_cancel_left] at value
    exact value.symm

theorem copyDown_eq_moved (below : s ≤ d) : copyDown mem (d + n) (s + n) n = moved mem d s n := by
  induction n generalizing mem with
  | zero =>
    funext a
    rw [moved, if_neg (by omega)]
    rfl
  | succ n ih =>
    change copyDown (update mem (d + n) (mem (s + n))) (d + n) (s + n) n = _
    rw [ih]
    funext a
    unfold moved
    by_cases last : a = d + n
    · rw [last, if_neg (by omega), if_pos (by omega), update_self, Nat.add_sub_cancel_left]
    · by_cases inside : d ≤ a ∧ a < d + n
      · rw [if_pos inside, if_pos (by omega), update_of_ne (by omega)]
      · rw [if_neg inside, if_neg (by omega), update_of_ne last]

/-- The kernel's version is always right. -/
theorem memmove_eq_moved (fits : d + n ≤ 4294967296) : memmove mem d s n = moved mem d s n := by
  unfold memmove
  split
  · rename_i inside
    exact copyDown_eq_moved (Nat.le_of_lt inside.1)
  · exact copyUp_eq_moved fun below i bound => by omega

theorem toNat_wrap (fits : n ≤ 4294967296) : (wrap n).toNat = if intMax < n then 0 else n := by
  unfold wrap Int.bmod intMax
  dsimp only
  split <;> split <;> omega

/-- Both versions move the bytes exactly if the user library reads nothing that it has
spoilt and gets a number of bytes that is an `int`, or the bytes are there already. -/
theorem memmove_and_ulibMemmove_eq_moved_iff (mem : Memory) (dst src n : Nat)
    (srcFits : src + n ≤ 4294967296) (dstFits : dst + n ≤ 4294967296) :
    memmove mem dst src n = moved mem dst src n ∧
      ulibMemmove mem dst src (wrap n) = moved mem dst src n ↔ Kept mem dst src n := by
  rw [and_iff_right (memmove_eq_moved dstFits), ulibMemmove, toNat_wrap (by omega), Kept]
  split
  · rename_i large
    constructor
    · intro right i bound _
      have value := congrFun right (dst + i)
      rw [moved, if_pos (by omega), Nat.add_sub_cancel_left] at value
      exact value
    · intro kept
      funext a
      unfold moved
      split
      · rename_i inside
        have value := kept (a - dst) (by omega) (.inr large)
        rw [Nat.add_sub_cancel' inside.1] at value
        exact value
      · rfl
  · rename_i small
    constructor
    · intro right i _ spoilt
      obtain ⟨below, bound⟩ := spoilt.resolve_right small
      exact kept_of_copyUp_eq right below i bound
    · intro kept
      exact copyUp_eq_moved fun below i bound => kept i (by omega) (.inl ⟨below, bound⟩)

/-- Two bytes move down by one. -/
theorem memmove_and_ulibMemmove_eq_moved_iff_down :
    memmove (BitVec.ofNat 8) 10 11 2 = moved (BitVec.ofNat 8) 10 11 2 ∧
      ulibMemmove (BitVec.ofNat 8) 10 11 (wrap (2 : Nat)) = moved (BitVec.ofNat 8) 10 11 2 :=
  (memmove_and_ulibMemmove_eq_moved_iff _ 10 11 2 (by decide) (by decide)).mpr
    (by unfold Kept intMax; omega)

/-- Two bytes move up by one; the user library copies the first one twice. -/
theorem ulibMemmove_ne_moved_overlapping :
    ulibMemmove (BitVec.ofNat 8) 11 10 2 12 = 10 ∧ moved (BitVec.ofNat 8) 11 10 2 12 = 11 := by
  decide

end Xv6.Memmove
