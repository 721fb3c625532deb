import Mathlib.Algebra.Ring.Int.Defs
import Mathlib.Data.Int.Basic

/-!
# Signed 32-bit arithmetic

Machine integers are kept as `Int` values, reduced by `wrap` wherever the
hardware would reduce them.  Division truncates toward zero, and a zero divisor
raises the processor's divide error, which `divide?` reports as `none`.
-/

namespace Xv6.Int32

/-- The largest signed 32-bit value. -/
def intMax : Int := 2147483647

/-- Reduce an exact result to the signed 32-bit range. -/
def wrap (value : Int) : Int :=
  value.bmod 4294967296

theorem wrap_eq_self {value : Int} (lower : -2147483648 ≤ value) (upper : value ≤ intMax) :
    wrap value = value := by
  unfold intMax at upper
  unfold wrap
  rw [Int.bmod_eq_iff (by decide)]
  refine ⟨by omega, by omega, ?_⟩
  simp

theorem wrap_range (value : Int) : -2147483648 ≤ wrap value ∧ wrap value ≤ intMax := by
  unfold wrap Int.bmod intMax
  dsimp only
  split <;> omega

/-- Incrementing always changes a value. -/
theorem wrap_add_one_ne (value : Int) : wrap (value + 1) ≠ value := by
  unfold wrap Int.bmod
  dsimp only
  split <;> omega

/-- Reduction may be postponed over a sum. -/
theorem wrap_wrap_add (left right : Int) : wrap (wrap left + right) = wrap (left + right) := by
  exact Int.bmod_add_bmod

/-- Reduction keeps the low 32 bits. -/
theorem wrap_emod (value : Int) : wrap value % 4294967296 = value % 4294967296 := by
  exact Int.bmod_emod

/-- Truncating division; `none` is the divide error. -/
def divide? (numerator denominator : Int) : Option Int :=
  if denominator = 0 then none else some (numerator.tdiv denominator)

@[simp]
theorem divide?_eq_none_iff {numerator denominator : Int} :
    divide? numerator denominator = none ↔ denominator = 0 := by
  unfold divide?
  split <;> simp [*]

theorem divide?_eq_some_iff {numerator denominator quotient : Int} :
    divide? numerator denominator = some quotient ↔
      denominator ≠ 0 ∧ quotient = numerator.tdiv denominator := by
  unfold divide?
  split
  · simp [*]
  · simp [*, eq_comm]

end Xv6.Int32
