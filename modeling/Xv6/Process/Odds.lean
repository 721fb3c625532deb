import Mathlib.Data.Finset.Card
import Mathlib.Data.Finset.Range
import Mathlib.Order.Interval.Finset.Nat
import Xv6.Process.Lottery

/-!
# Lottery odds

The draws of `scheduler1` run from 0 to `total_tickets`, both included, so there is
one draw more than there are tickets.  The sum of the first runnable process reaches
the draw 0 as well, and that process wins one draw more than it has tickets.
-/

namespace Xv6.Process

open Xv6.Int32 List

variable {table : Ptable} {winner : Nat}

/-- The process that the inner loop of `scheduler1` dispatches first. -/
def firstDispatched (slice : Slot → Ptable → Ptable) (winner : Nat) (table : Ptable) :
    Option Slot :=
  (lotteryRound slice winner table).2.head?

/-- The number of draws up to `total` that dispatch a process first. -/
def draws (slice : Slot → Ptable → Ptable) (total : Nat) (table : Ptable) (slot : Slot) : Nat :=
  ((Finset.range (total + 1)).filter fun winner =>
    firstDispatched slice winner table = some slot).card

/-- With positive tickets whose sum is a machine integer, the process dispatched
first is the winner of the draw. -/
theorem firstDispatched_eq_some_iff (slice : Slot → Ptable → Ptable)
    (positive : ∀ slot, (table slot).state = .runnable → 1 ≤ (table slot).tickets)
    (machine : ticketsIn table slots ≤ intMax) (draw : winner ≤ ticketsIn table slots)
    {before after : List Slot} {slot : Slot} (split : slots = before ++ slot :: after) :
    firstDispatched slice winner table = some slot ↔ IsWinner table winner before slot := by
  have bounded other (ready : (table other).state = .runnable) :
      (table other).tickets ≤ intMax := by
    obtain ⟨front, back, parts⟩ := append_of_mem (mem_slots other)
    have frontNonneg := ticketsIn_nonneg positive front
    have backNonneg := ticketsIn_nonneg positive back
    rw [parts, ticketsIn_append, ticketsIn_cons_of_runnable ready] at machine
    omega
  have won front other back (parts : slots = front ++ other :: back)
      (isWinner : IsWinner table winner front other) : firstDispatched slice winner table =
      some other := by
    rw [firstDispatched, lotteryRound_of_isWinner slice positive bounded (draw.trans machine)
      parts isWinner, head?_cons]
  refine ⟨?_, won before slot after split⟩
  intro dispatched
  by_cases ready : ∃ other ∈ slots, (table other).state = .runnable
  · obtain ⟨front, other, back, parts, isWinner⟩ := exists_isWinner positive ready draw
    have same := (won front other back parts isWinner).symm.trans dispatched
    have nodup := slots_nodup
    cases same
    rcases split_cases (split.symm.trans parts) with
      ⟨rfl, -, -⟩ | ⟨between, rfl⟩ | ⟨between, rfl⟩
    · exact isWinner
    · rw [split] at nodup
      simp [nodup_append] at nodup
    · rw [parts] at nodup
      simp [nodup_append] at nodup
  · rw [firstDispatched] at dispatched
    rcases lotteryLoop_spec slice winner 0 slots table with
      ⟨-, idle⟩ | ⟨front, other, back, parts, otherReady, -⟩
    · have nobody : (lotteryRound slice winner table).2 = [] := idle
      rw [nobody] at dispatched
      contradiction
    · exact absurd ⟨other, mem_slots other, otherReady⟩ ready

/-- Behind a runnable process, the winning draws are those above the sum in front. -/
theorem isWinner_iff_of_ready
    (positive : ∀ slot, (table slot).state = .runnable → 1 ≤ (table slot).tickets)
    {before : List Slot} {slot : Slot} (ready : (table slot).state = .runnable)
    (front : ∃ other ∈ before, (table other).state = .runnable) :
    IsWinner table winner before slot ↔
      ticketsIn table before < winner ∧ winner ≤ ticketsIn table before + (table slot).tickets := by
  have sum_eq : ticketsIn table (before ++ [slot]) =
      ticketsIn table before + (table slot).tickets := by
    rw [ticketsIn_append, ticketsIn_cons_of_runnable ready, ticketsIn_nil, Int.add_zero]
  constructor
  · rintro ⟨-, reaches, first⟩
    refine ⟨?_, sum_eq ▸ reaches⟩
    -- The last runnable process in front has the sum of all of them.
    by_contra reached
    obtain ⟨earlier, other, later, split, isWinner⟩ :=
      exists_isWinner positive front (not_lt.mp reached)
    have below := first earlier other later split isWinner.runnable
    have reaches := isWinner.reaches
    omega
  · rintro ⟨above, reaches⟩
    refine ⟨ready, sum_eq ▸ reaches, ?_⟩
    intro earlier other later split _
    have behind := ticketsIn_nonneg positive later
    rw [split, append_cons, ticketsIn_append] at above
    omega

/-- The first runnable process wins the draw 0 as well. -/
theorem isWinner_iff_of_first {before : List Slot} {slot : Slot}
    (ready : (table slot).state = .runnable)
    (front : ∀ other ∈ before, (table other).state ≠ .runnable) :
    IsWinner table winner before slot ↔ winner ≤ (table slot).tickets := by
  have sum_eq : ticketsIn table (before ++ [slot]) = (table slot).tickets := by
    have frontSum : ticketsIn table before = 0 := by
      rw [ticketsIn, filter_eq_nil_iff.mpr, map_nil, sum_nil]
      simpa using front
    rw [ticketsIn_append, ticketsIn_cons_of_runnable ready, ticketsIn_nil]
    omega
  constructor
  · intro isWinner
    exact sum_eq ▸ isWinner.reaches
  · intro reaches
    refine ⟨ready, sum_eq ▸ reaches, ?_⟩
    intro earlier other later split otherReady
    exact absurd otherReady (front other (by simp [split]))

section Counting

variable (slice : Slot → Ptable → Ptable) {total : Nat} {before after : List Slot} {slot : Slot}

section

variable (positive : ∀ slot, (table slot).state = .runnable → 1 ≤ (table slot).tickets)

include positive

section

variable (sum_eq : total = ticketsIn table slots)
include sum_eq

/-- The number of draws that a process wins, from a description of those draws. -/
theorem draws_eq_card (machine : total ≤ intMax)
    (split : slots = before ++ slot :: after) {won : Finset Nat}
    (wins : ∀ winner, IsWinner table winner before slot ↔ winner ∈ won) :
    draws slice total table slot = won.card := by
  unfold draws
  congr 1
  ext winner
  rw [Finset.mem_filter, Finset.mem_range, ← wins]
  constructor
  · rintro ⟨inRange, dispatched⟩
    exact (firstDispatched_eq_some_iff slice positive (sum_eq ▸ machine) (by omega) split).mp
      dispatched
  · intro isWinner
    have inRange : winner ≤ ticketsIn table slots := by
      have reaches := isWinner.reaches
      have behind := ticketsIn_nonneg positive after
      rw [split, append_cons, ticketsIn_append]
      omega
    exact ⟨by omega, (firstDispatched_eq_some_iff slice positive (sum_eq ▸ machine) inRange
      split).mpr isWinner⟩

/-- A runnable process behind another one wins as many draws as it has tickets. -/
theorem draws_of_ready (machine : total ≤ intMax)
    (split : slots = before ++ slot :: after) (ready : (table slot).state = .runnable)
    (front : ∃ other ∈ before, (table other).state = .runnable) :
    (draws slice total table slot : Int) = (table slot).tickets := by
  have frontNonneg := ticketsIn_nonneg positive before
  have ticket := positive slot ready
  have wins winner : IsWinner table winner before slot ↔ winner ∈ Finset.Ioc
      (ticketsIn table before).toNat
      ((ticketsIn table before).toNat + (table slot).tickets.toNat) := by
    rw [isWinner_iff_of_ready positive ready front, Finset.mem_Ioc]
    omega
  rw [draws_eq_card slice positive sum_eq machine split wins, Nat.card_Ioc]
  omega

/-- The first runnable process wins one draw more than it has tickets. -/
theorem draws_of_first (machine : total ≤ intMax)
    (split : slots = before ++ slot :: after) (ready : (table slot).state = .runnable)
    (front : ∀ other ∈ before, (table other).state ≠ .runnable) :
    (draws slice total table slot : Int) = (table slot).tickets + 1 := by
  have ticket := positive slot ready
  have wins winner : IsWinner table winner before slot ↔ winner ∈ Finset.range
      ((table slot).tickets.toNat + 1) := by
    rw [isWinner_iff_of_first ready front, Finset.mem_range]
    omega
  rw [draws_eq_card slice positive sum_eq machine split wins, Finset.card_range]
  omega

end

end

end Counting

/-- Some process is the first runnable one. -/
theorem exists_first (ready : ∃ slot, (table slot).state = .runnable) :
    ∃ before slot after, slots = before ++ slot :: after ∧ (table slot).state = .runnable ∧
      ∀ other ∈ before, (table other).state ≠ .runnable := by
  obtain ⟨slot, slotReady⟩ := ready
  have some : (slots.find? fun slot => (table slot).state = .runnable).isSome := by
    rw [find?_isSome]
    exact ⟨slot, mem_slots slot, by simpa using slotReady⟩
  obtain ⟨first, found⟩ := Option.isSome_iff_exists.mp some
  obtain ⟨isReady, before, after, split, front⟩ := find?_eq_some_iff_append.mp found
  exact ⟨before, first, after, split, by simpa using isReady, by simpa using front⟩

/-- The draws that processes win are in proportion to their tickets, and every draw
dispatches a process. -/
def FairOdds (slice : Slot → Ptable → Ptable) (total : Nat) (table : Ptable) : Prop :=
  (∀ slot other, (table slot).state = .runnable → (table other).state = .runnable →
      draws slice total table slot * (table other).tickets =
        draws slice total table other * (table slot).tickets) ∧
    ∀ winner ≤ total, (firstDispatched slice winner table).isSome

instance (slice : Slot → Ptable → Ptable) (total : Nat) (table : Ptable) :
    Decidable (FairOdds slice total table) :=
  inferInstanceAs (Decidable (_ ∧ _))

/-- When `total_tickets` is the sum of the tickets of the runnable processes, the
odds are fair exactly if one process is runnable. -/
theorem fairOdds_iff (slice : Slot → Ptable → Ptable) {total : Nat}
    (positive : ∀ slot, (table slot).state = .runnable → 1 ≤ (table slot).tickets)
    (sum_eq : total = ticketsIn table slots) (machine : total ≤ intMax) :
    FairOdds slice total table ↔ ∃! slot, (table slot).state = .runnable := by
  constructor
  · rintro ⟨fair, decided⟩
    have ready : ∃ slot, (table slot).state = .runnable := by
      obtain ⟨slot, dispatched⟩ := Option.isSome_iff_exists.mp (decided 0 (Nat.zero_le _))
      obtain ⟨before, after, split⟩ := List.append_of_mem (mem_slots slot)
      have isWinner := (firstDispatched_eq_some_iff slice positive (sum_eq ▸ machine)
        (ticketsIn_nonneg positive slots) split).mp dispatched
      exact ⟨slot, isWinner.runnable⟩
    obtain ⟨before, first, after, split, firstReady, front⟩ := exists_first ready
    refine ⟨first, firstReady, ?_⟩
    intro other otherReady
    by_contra ne
    -- Another runnable process stands behind the first one and wins too few draws.
    obtain ⟨front', after', split'⟩ := List.append_of_mem (mem_slots other)
    have behind : first ∈ front' := by
      rcases split_cases (split.symm.trans split') with
        ⟨-, same, -⟩ | ⟨between, rfl⟩ | ⟨between, rfl⟩
      · exact absurd same.symm ne
      · exact absurd otherReady (front other (by simp))
      · simp
    have firstDraws := draws_of_first slice positive sum_eq machine split firstReady front
    have otherDraws := draws_of_ready slice positive sum_eq machine split' otherReady
      ⟨first, behind, firstReady⟩
    have equal := fair first other firstReady otherReady
    have ticket := positive other otherReady
    rw [firstDraws, otherDraws, Int.add_mul, Int.mul_comm] at equal
    omega
  · rintro ⟨slot, ready, only⟩
    refine ⟨?_, ?_⟩
    · intro first other firstReady otherReady
      rw [only first firstReady, only other otherReady]
    · intro winner draw
      have inRange : (winner : Int) ≤ ticketsIn table slots := by omega
      obtain ⟨before, found, after, split, isWinner⟩ :=
        exists_isWinner positive ⟨slot, mem_slots slot, ready⟩ inRange
      rw [(firstDispatched_eq_some_iff slice positive (sum_eq ▸ machine) inRange split).mpr
        isWinner]
      rfl

/-- The odds of a single process with one ticket. -/
theorem fairOdds_loneProc : FairOdds yieldSlice 1 (loneProc .runnable) :=
  (fairOdds_iff yieldSlice (by decide +kernel) (by decide +kernel) (by decide)).mpr
    ⟨0, by decide +kernel, by decide +kernel⟩

/-- A table with two runnable processes of one ticket each. -/
def twoProcs : Ptable := fun slot =>
  if slot = 0 ∨ slot = 1 then { Proc.zero with pid := slot, state := .runnable, tickets := 1 }
  else Proc.zero

/-- Of the three draws of two processes with one ticket each, the first process wins
two; without a runnable process the draw 0 dispatches nobody. -/
theorem unfairOdds_twoProcs :
    (∀ slot, (twoProcs slot).state = .runnable → 1 ≤ (twoProcs slot).tickets) ∧
      ticketsIn twoProcs slots = 2 ∧ draws yieldSlice 2 twoProcs 0 = 2 ∧
      draws yieldSlice 2 twoProcs 1 = 1 ∧ ¬FairOdds yieldSlice 2 twoProcs ∧
      ticketsIn (loneProc .sleeping) slots = 0 ∧
      ¬FairOdds yieldSlice 0 (loneProc .sleeping) := by
  decide +kernel

end Xv6.Process
