import Mathlib.Data.List.Induction
import Xv6.Process.Table

/-!
# The scheduler loops

The four schedulers of `proc.c` differ only in how one round picks processes.
This module embeds the picking: the two scans of `scheduler`, the single scan
of `scheduler_b`, the draw and the running ticket sum of `scheduler1`, and the
plain scan of `scheduler2`.

A round of `scheduler` as a whole is `schedulerRound`.  What the rest of the
kernel does while a dispatched process runs is a parameter: `slice` maps the
table at the switch to the table when the process switches back.
-/

namespace Xv6.Process

open Xv6.Int32 List Option

/-! ## Stride selection -/

/-- The variables of the first scan of `scheduler`. -/
structure Selection where
  minPass : Int
  wPid : Int
  deriving DecidableEq, Repr

/-- One visit of the first scan of `scheduler`. -/
def selectStep (table : Ptable) (found : Selection) (slot : Slot) : Selection :=
  if (table slot).state ≠ .runnable then found
  else if (table slot).pass < found.minPass ∨ found.minPass < 0 then
    ⟨(table slot).pass, (table slot).pid⟩
  else found

/-- The first scan of `scheduler`: the new value of `w_pid`, whose old value is
kept when no process is runnable. -/
def select (table : Ptable) (wPid : Int) : Int :=
  (slots.foldl (selectStep table) ⟨-1, wPid⟩).wPid

/-- The slot the first scan settles on: least pass among the runnable slots,
and the lowest index among those. -/
structure IsLeast (table : Ptable) (visited : List Slot) (slot : Slot) : Prop where
  runnable : (table slot).state = .runnable
  least : ∀ other ∈ visited, (table other).state = .runnable →
    (table slot).pass ≤ (table other).pass
  first : ∃ before after, visited = before ++ slot :: after ∧
    ∀ other ∈ before, (table other).state = .runnable →
      (table slot).pass < (table other).pass

/-- The first scan over any part of the table with non-negative passes. -/
theorem foldl_selectStep (table : Ptable) (wPid : Int) (visited : List Slot)
    (nonneg : ∀ slot ∈ visited, (table slot).state = .runnable → 0 ≤ (table slot).pass) :
    ((∀ slot ∈ visited, (table slot).state ≠ .runnable) ∧
        visited.foldl (selectStep table) ⟨-1, wPid⟩ = ⟨-1, wPid⟩) ∨
      ∃ slot, IsLeast table visited slot ∧
        visited.foldl (selectStep table) ⟨-1, wPid⟩ = ⟨(table slot).pass, (table slot).pid⟩ := by
  induction visited using reverseRecOn with
  | nil => exact .inl ⟨by simp, rfl⟩
  | append_singleton visited last ih =>
    have nonnegVisited slot (member : slot ∈ visited) : (table slot).state = .runnable →
        0 ≤ (table slot).pass := nonneg slot (mem_append_left _ member)
    by_cases ready : (table last).state = .runnable
    · rcases ih nonnegVisited with ⟨noneReady, fold_eq⟩ | ⟨slot, least, fold_eq⟩
      · refine .inr ⟨last, ⟨ready, ?_, visited, [], rfl, ?_⟩, ?_⟩
        · intro other member otherReady
          rcases mem_append.mp member with member | member
          · exact absurd otherReady (noneReady other member)
          · rw [mem_singleton.mp member]
        · intro other member otherReady
          exact absurd otherReady (noneReady other member)
        · simp [fold_eq, selectStep, ready]
      · have nonnegSlot : 0 ≤ (table slot).pass := by
          obtain ⟨before, after, split, -⟩ := least.first
          exact nonnegVisited slot (by simp [split]) least.runnable
        by_cases smaller : (table last).pass < (table slot).pass
        · refine .inr ⟨last, ⟨ready, ?_, visited, [], rfl, ?_⟩, ?_⟩
          · intro other member otherReady
            rcases mem_append.mp member with member | member
            · exact (smaller.trans_le (least.least other member otherReady)).le
            · rw [mem_singleton.mp member]
          · intro other member otherReady
            exact smaller.trans_le (least.least other member otherReady)
          · simp [fold_eq, selectStep, ready, smaller]
        obtain ⟨before, after, split, strict⟩ := least.first
        refine .inr ⟨slot, ⟨least.runnable, ?_, before, after ++ [last], ?_, strict⟩, ?_⟩
        · exact forall_mem_append.mpr ⟨least.least, by simp [not_lt.mp smaller]⟩
        · simp [split]
        · simp [fold_eq, selectStep, smaller, not_lt.mpr nonnegSlot]
    · rcases ih nonnegVisited with ⟨noneReady, fold_eq⟩ | ⟨slot, least, fold_eq⟩
      · exact .inl ⟨forall_mem_append.mpr ⟨noneReady, forall_mem_singleton.mpr ready⟩,
          by simp [fold_eq, selectStep, ready]⟩
      · obtain ⟨before, after, split, strict⟩ := least.first
        refine .inr ⟨slot, ⟨least.runnable, ?_, before, after ++ [last], ?_, strict⟩, ?_⟩
        · exact forall_mem_append.mpr ⟨least.least, by simp [ready]⟩
        · simp [split]
        · simp [fold_eq, selectStep, ready]

/-- The first scan of `scheduler` over the whole table. -/
theorem select_spec (table : Ptable) (wPid : Int)
    (nonneg : ∀ slot, (table slot).state = .runnable → 0 ≤ (table slot).pass) :
    ((∀ slot, (table slot).state ≠ .runnable) ∧ select table wPid = wPid) ∨
      ∃ slot, IsLeast table slots slot ∧ select table wPid = (table slot).pid := by
  rcases foldl_selectStep table wPid slots (fun slot _ => nonneg slot) with
    ⟨noneReady, fold_eq⟩ | ⟨slot, least, fold_eq⟩
  · exact .inl ⟨fun slot => noneReady slot (mem_slots slot), by rw [select, fold_eq]⟩
  · exact .inr ⟨slot, least, by rw [select, fold_eq]⟩

/-- The test of the second scan of `scheduler`. -/
def Matches (table : Ptable) (wPid : Int) (slot : Slot) : Prop :=
  (table slot).state = .runnable ∧ (table slot).pid = wPid

instance (table : Ptable) (wPid : Int) (slot : Slot) : Decidable (Matches table wPid slot) :=
  inferInstanceAs (Decidable (_ ∧ _))

/-- The second scan of `scheduler`, which goes on after every process that
switches back.  The result lists the dispatched slots in order; `none` is a
divide error. -/
def dispatchLoop (slice : Slot → Ptable → Ptable) (wPid : Int) :
    List Slot → Ptable → Option (Ptable × List Slot)
  | [], table => some (table, [])
  | slot :: rest, table =>
    if Matches table wPid slot then do
      let charged ← table.charge slot
      let (final, dispatched) ←
        dispatchLoop slice wPid rest (slice slot (charged.setState slot .running))
      some (final, slot :: dispatched)
    else
      dispatchLoop slice wPid rest table

/-- A visit of the second scan that dispatches. -/
theorem dispatchLoop_cons_of_matches {slice : Slot → Ptable → Ptable} {wPid : Int} {slot : Slot}
    {rest dispatched : List Slot} {table final : Ptable} (isMatch : Matches table wPid slot)
    (result : dispatchLoop slice wPid (slot :: rest) table = some (final, dispatched)) :
    ∃ charged later, table.charge slot = some charged ∧
      dispatchLoop slice wPid rest (slice slot (charged.setState slot .running)) =
        some (final, later) ∧ dispatched = slot :: later := by
  simp only [dispatchLoop, if_pos isMatch, bind_eq_bind, bind_eq_some_iff, Prod.exists] at result
  obtain ⟨charged, charge_eq, other, later, loop_eq, rfl, rfl⟩ := result
  exact ⟨charged, later, charge_eq, loop_eq, rfl⟩

/-- One iteration of the outer loop of `scheduler`: the final table, the value
of `w_pid` it leaves behind, and the dispatched slots. -/
def schedulerRound (slice : Slot → Ptable → Ptable) (wPid : Int) (table : Ptable) :
    Option (Ptable × Int × List Slot) :=
  (dispatchLoop slice (select table wPid) slots table).map fun result =>
    (result.1, select table wPid, result.2)

/-! ## The other schedulers -/

/-- One visit of the scan of `scheduler_b`, over `min_pass` and `current`. -/
def selectStepB (table : Ptable) (found : Int × Option Slot) (slot : Slot) :
    Int × Option Slot :=
  if (table slot).state ≠ .runnable then found
  else if found.1 < 0 ∨ (table slot).pass < found.1 then ((table slot).pass, some slot)
  else found

/-- The scan of `scheduler_b`: the new value of `current`. -/
def selectB (table : Ptable) (current : Option Slot) : Option Slot :=
  (slots.foldl (selectStepB table) (-1, current)).2

/-- A scanned process of `scheduler_b` is runnable; otherwise `current` is the
one left over from an earlier round. -/
theorem selectB_eq_or_runnable (table : Ptable) (current : Option Slot) :
    selectB table current = current ∨
      ∃ slot, selectB table current = some slot ∧ (table slot).state = .runnable := by
  unfold selectB
  have general : ∀ (visited : List Slot) (found : Int × Option Slot),
      (visited.foldl (selectStepB table) found).2 = found.2 ∨
        ∃ slot, (visited.foldl (selectStepB table) found).2 = some slot ∧
          (table slot).state = .runnable := by
    intro visited
    induction visited with
    | nil => exact fun found => .inl rfl
    | cons first rest ih =>
      intro found
      rw [foldl_cons]
      rcases ih (selectStepB table found first) with kept | picked
      · rw [kept]
        unfold selectStepB
        split
        · exact .inl rfl
        · rename_i ready
          rw [not_not] at ready
          split
          · exact .inr ⟨first, rfl, ready⟩
          · exact .inl rfl
      · exact .inr picked
  exact general slots (-1, current)

/-- `rndm_gen`, in the 32-bit `unsigned long` of the target. -/
def rndmGen (sd : Int) : Nat :=
  ((sd * 279470273) % 4294967296).toNat % 4294967291

/-- The draw of `scheduler1`; `none` is the divide error of a zero modulus. -/
def draw? (sd totalTickets : Int) : Option Nat :=
  let modulus := ((totalTickets + 1) % 4294967296).toNat
  if modulus = 0 then none else some (rndmGen sd % modulus)

/-- The modulus of the draw is zero exactly for the ticket total `-1`. -/
theorem draw?_eq_none_iff {sd totalTickets : Int} (lower : -2147483648 ≤ totalTickets)
    (upper : totalTickets ≤ intMax) : draw? sd totalTickets = none ↔ totalTickets = -1 := by
  unfold intMax at upper
  unfold draw?
  dsimp only
  split
  · simp only [true_iff]
    omega
  · simp only [reduceCtorEq, false_iff]
    omega

/-- The scan of `scheduler1` over the slots still to be visited: the next
process whose running ticket sum reaches the draw, and that sum. -/
def lotteryNext (table : Ptable) (winner : Nat) : Int → List Slot → Option (Slot × Int)
  | _, [] => none
  | counter, slot :: rest =>
    if (table slot).state ≠ .runnable then lotteryNext table winner counter rest
    else
      let counter := wrap (counter + (table slot).tickets)
      if (counter % 4294967296).toNat < winner then lotteryNext table winner counter rest
      else some (slot, counter)

theorem lotteryNext_runnable {table : Ptable} {winner : Nat} {counter total : Int}
    {visited : List Slot} {slot : Slot}
    (found : lotteryNext table winner counter visited = some (slot, total)) :
    (table slot).state = .runnable := by
  induction visited generalizing counter with
  | nil => simp [lotteryNext] at found
  | cons first rest ih =>
    simp only [lotteryNext] at found
    split at found
    · exact ih found
    · rename_i ready
      split at found
      · exact ih found
      · simp only [some.injEq, Prod.mk.injEq] at found
        exact found.1 ▸ not_not.mp ready

end Xv6.Process
