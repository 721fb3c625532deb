import Mathlib.Algebra.Order.Group.Abs
import Mathlib.Algebra.Order.Group.Int
import Mathlib.Tactic.Abel

/-!
# Least-first service

Clients carry a virtual time, their *pass*.  A round serves at most one client,
one whose pass is least, and advances that pass by the client's stride.  The
module proves what such rounds preserve: the spread of the passes stays bounded
by the initial spread and the largest stride, and so does the imbalance of the
service each client has received in proportion to its stride.
-/

namespace Xv6.Stride

universe u v

variable {ι : Type u} {α : Type v}

/-- The virtual time of every client, and how often it has been served. -/
structure Ledger (ι : Type u) (α : Type v) where
  pass : ι → α
  count : ι → Nat

section Order

variable [AddCommGroup α] [LinearOrder α]

/-- No two clients are further apart than the bound. -/
def Spread (clients : Set ι) (pass : ι → α) (bound : α) : Prop :=
  ∀ first ∈ clients, ∀ second ∈ clients, pass first - pass second ≤ bound

variable [DecidableEq ι]

/-- One round serves at most one client, a least one. -/
def Round (clients : Set ι) (stride : ι → α) (before after : Ledger ι α) : Prop :=
  ∃ served : Option ι,
    (∀ least, served = some least → least ∈ clients ∧
      ∀ client ∈ clients, before.pass least ≤ before.pass client) ∧
    ∀ client ∈ clients,
      after.pass client = before.pass client + (if served = some client then stride client else 0) ∧
        after.count client = before.count client + if served = some client then 1 else 0

/-- Every pass is the initial one plus a stride for each time of service. -/
def Paid (clients : Set ι) (stride start : ι → α) (ledger : Ledger ι α) : Prop :=
  ∀ client ∈ clients, ledger.pass client = start client + ledger.count client • stride client

variable {clients : Set ι} {stride start : ι → α} {before after : Ledger ι α}

omit [LinearOrder α] in
/-- The pass of a client that has been served once more. -/
theorem add_succ_nsmul (base step : α) (count : Nat) :
    base + count • step + step = base + (count + 1) • step := by
  rw [succ_nsmul, add_assoc]

theorem Paid.round (paid : Paid clients stride start before)
    (round : Round clients stride before after) : Paid clients stride start after := by
  obtain ⟨served, -, updates⟩ := round
  intro client member
  obtain ⟨pass_eq, count_eq⟩ := updates client member
  rw [pass_eq, count_eq, paid client member]
  split
  · exact add_succ_nsmul _ _ _
  · rw [add_zero, Nat.add_zero]

variable [IsOrderedAddMonoid α]

/-- Serving a least client keeps the spread: nobody falls further behind, and
the served client gets ahead of a client at its own level by one stride only. -/
theorem Spread.round {bound : α} (spread : Spread clients before.pass bound)
    (nonneg : ∀ client ∈ clients, 0 ≤ stride client)
    (small : ∀ client ∈ clients, stride client ≤ bound)
    (round : Round clients stride before after) : Spread clients after.pass bound := by
  obtain ⟨served, least, updates⟩ := round
  intro first firstMember second secondMember
  rw [(updates first firstMember).1, (updates second secondMember).1]
  have apart := spread first firstMember second secondMember
  by_cases firstServed : served = some first
  · obtain ⟨-, minimal⟩ := least first firstServed
    by_cases same : first = second
    · subst same
      simpa using (nonneg first firstMember).trans (small first firstMember)
    have secondUnserved : served ≠ some second := by
      rw [firstServed]
      simpa using same
    rw [if_pos firstServed, if_neg secondUnserved, add_zero]
    calc before.pass first + stride first - before.pass second
        = stride first + (before.pass first - before.pass second) := by abel
      _ ≤ stride first + 0 := by
        gcongr
        exact sub_nonpos.mpr (minimal second secondMember)
      _ ≤ bound := by
        rw [add_zero]
        exact small first firstMember
  · rw [if_neg firstServed, add_zero]
    split
    · calc before.pass first - (before.pass second + stride second)
          ≤ before.pass first - before.pass second := by
            gcongr
            exact le_add_of_nonneg_right (nonneg second secondMember)
        _ ≤ bound := apart
    · rw [add_zero]
      exact apart

omit [DecidableEq ι] in
/-- Two clients have received service in proportion to their strides, up to
twice the spread. -/
theorem Paid.share_le {ledger : Ledger ι α} {bound : α}
    (paid : Paid clients stride start ledger) (initial : Spread clients start bound)
    (spread : Spread clients ledger.pass bound) {first second : ι}
    (firstMember : first ∈ clients) (secondMember : second ∈ clients) :
    |ledger.count first • stride first - ledger.count second • stride second| ≤ bound + bound := by
  have ahead {first second : ι} (firstMember : first ∈ clients) (secondMember : second ∈ clients) :
      ledger.count first • stride first - ledger.count second • stride second ≤ bound + bound := by
    have split : ledger.count first • stride first - ledger.count second • stride second =
        (ledger.pass first - ledger.pass second) + (start second - start first) := by
      rw [paid first firstMember, paid second secondMember]
      abel
    rw [split]
    exact add_le_add (spread first firstMember second secondMember)
      (initial second secondMember first firstMember)
  rw [abs_le', neg_sub]
  exact ⟨ahead firstMember secondMember, ahead secondMember firstMember⟩

end Order

end Xv6.Stride
