import Xv6.Process.Lottery
import Xv6.Process.VirtualTime.Selection

/-!
# The range of the passes

`scheduler` adds the stride `10000/tickets` to the pass of the process it dispatches.
The stride is 0 for more than 10000 tickets, and the sum is a machine integer.  The
passes mean something as long as neither end of the range is reached at a dispatch.
-/

namespace Xv6.Process.Kernel

open Xv6.Int32 Xv6.Transition Ptable Int

universe u

variable {C : Type u} [DecidableEq C] {kernel target : Kernel C} {memory : Boot} {event : Event C}
  {events : List (Event C)}

/-- A step at which the passes mean something: a dispatch raises the pass of the
dispatched process, no pass becomes negative, and the scan of a round selects the
first process of least pass, whatever the last round has left in `w_pid`. -/
structure Meaningful (kernel : Kernel C) (event : Event C) : Prop where
  raises : ∀ slot, dispatches .scheduler kernel event = some slot →
    ∀ target, step .scheduler kernel event = some target →
      (kernel.table slot).pass < (target.table slot).pass
  nonneg : ∀ target, step .scheduler kernel event = some target →
    ∀ slot, 0 ≤ (target.table slot).pass
  selects : ∀ wPid, (∃ slot, (kernel.table slot).state = .runnable) →
    ∃ slot, IsLeast kernel.table slots slot ∧ select kernel.table wPid = (kernel.table slot).pid

/-- A process is dispatched only with at most 10000 tickets and a pass that leaves
room for its stride. -/
def InRange (kernel : Kernel C) (event : Event C) : Prop :=
  ∀ slot, dispatches .scheduler kernel event = some slot →
    (kernel.table slot).tickets ≤ 10000 ∧
      (kernel.table slot).pass + strideOf kernel.table slot ≤ intMax

instance (kernel : Kernel C) (event : Event C) : Decidable (InRange kernel event) :=
  inferInstanceAs (Decidable (∀ _, _))

/-- The stride of a process with tickets is one of 0 to 10000, and 0 for more than
10000 tickets. -/
theorem stride_range {tickets : Int} (positive : 1 ≤ tickets) :
    0 ≤ (10000 : Int).tdiv tickets ∧ (10000 : Int).tdiv tickets ≤ 10000 ∧
      (10000 < tickets → (10000 : Int).tdiv tickets = 0) := by
  rw [tdiv_eq_ediv_of_nonneg (by decide)]
  refine ⟨ediv_nonneg (by decide) (by omega), ediv_le_self _ (by decide), ?_⟩
  intro many
  exact ediv_eq_zero_of_lt (by decide) many

/-- A sum that overflows once is negative. -/
theorem wrap_neg_of_overflow {value : Int} (above : intMax < value)
    (bound : value ≤ intMax + 10000) :
    wrap value < 0 := by
  unfold intMax at above bound
  unfold wrap bmod
  dsimp only
  split <;> omega

omit [DecidableEq C] in
/-- Without negative passes a round selects a process of least pass. -/
theorem selects_of_nonneg (nonneg : ∀ slot, 0 ≤ (kernel.table slot).pass) (wPid : Int)
    (ready : ∃ slot, (kernel.table slot).state = .runnable) :
    ∃ slot, IsLeast kernel.table slots slot ∧
      select kernel.table wPid = (kernel.table slot).pid := by
  rcases select_spec kernel.table wPid (fun slot _ => nonneg slot) with ⟨idle, -⟩ | found
  · obtain ⟨slot, slotReady⟩ := ready
    exact absurd slotReady (idle slot)
  · exact found

/-! ## One step -/

section Step

variable (positive : ∀ slot, (kernel.table slot).state = .runnable →
    1 ≤ (kernel.table slot).tickets ∧ (kernel.table slot).tickets ≤ intMax)
  (nonneg : ∀ slot, 0 ≤ (kernel.table slot).pass)
  (tickets : ∀ slot tickets, kernel.call event = some ⟨slot, .setTickets tickets⟩ → 1 ≤ tickets)
  (step_eq : step .scheduler kernel event = some target)

include positive nonneg tickets step_eq

/-- In range no pass becomes negative. -/
theorem nonneg_of_step (inRange : InRange kernel event) (slot : Slot) :
    0 ≤ (target.table slot).pass := by
  have before := nonneg slot
  cases accountChange_of_step step_eq slot with
  | same tickets_eq pass_eq => rwa [pass_eq]
  | charged dispatched nonzero tickets_eq pass_eq =>
    have stride := stride_range (positive slot (runnable_of_dispatches dispatched)).1
    have room := (inRange slot dispatched).2
    unfold strideOf at room
    rw [pass_eq, wrap_eq_self (by omega) room]
    omega
  | ticketed call_eq nonzero tickets_eq pass_eq =>
    rw [pass_eq]
    exact (stride_range (tickets slot _ call_eq)).1
  | initialized init tickets_eq pass_eq =>
    rw [pass_eq]
    decide

/-- At one step the passes mean something exactly if the dispatch is in range. -/
theorem meaningful_step_iff : Meaningful kernel event ↔ InRange kernel event := by
  constructor
  · intro meaningful slot dispatched
    obtain ⟨lower, -⟩ := positive slot (runnable_of_dispatches dispatched)
    obtain ⟨strideNonneg, strideLe, strideZero⟩ := stride_range lower
    have before := nonneg slot
    have raised := meaningful.raises slot dispatched target step_eq
    have after := meaningful.nonneg target step_eq slot
    obtain ⟨-, pass_eq⟩ := account_of_dispatches dispatched (by omega) step_eq
    rw [pass_eq] at raised after
    have room : (kernel.table slot).pass + strideOf kernel.table slot ≤ intMax := by
      by_contra overflow
      have passLe : (kernel.table slot).pass ≤ intMax := (raised.trans_le (wrap_range _).2).le
      unfold strideOf at overflow
      have := wrap_neg_of_overflow (not_le.mp overflow) (by omega)
      omega
    refine ⟨?_, room⟩
    by_contra many
    rw [strideZero (not_le.mp many), add_zero] at raised
    rw [strideOf, strideZero (not_le.mp many), add_zero] at room
    rw [wrap_eq_self (by omega) room] at raised
    omega
  · intro inRange
    refine ⟨?_, ?_, fun wPid ready => selects_of_nonneg nonneg wPid ready⟩
    · intro slot dispatched after after_eq
      cases step_eq.symm.trans after_eq
      obtain ⟨lower, -⟩ := positive slot (runnable_of_dispatches dispatched)
      obtain ⟨upper, room⟩ := inRange slot dispatched
      have stride := stride_pos lower upper
      have before := nonneg slot
      obtain ⟨-, pass_eq⟩ := account_of_dispatches dispatched (by omega) step_eq
      unfold strideOf at room
      rw [pass_eq, wrap_eq_self (by omega) room]
      omega
    · intro after after_eq
      cases step_eq.symm.trans after_eq
      exact nonneg_of_step positive nonneg tickets step_eq inRange

end Step

/-! ## Runs -/

omit [DecidableEq C] in
theorem PositiveTickets.left {before after : List (Event C)}
    (positive : PositiveTickets (before ++ after)) : PositiveTickets before :=
  fun cpu tickets member => positive cpu tickets (List.mem_append_left _ member)

/-- The tickets of the runnable processes in a run with positive ticket numbers. -/
theorem runnable_tickets_of_run
    (execution : run (step .scheduler) (boot memory) events = some kernel)
    (positive : PositiveTickets events) (slot : Slot)
    (ready : (kernel.table slot).state = .runnable) :
    1 ≤ (kernel.table slot).tickets ∧ (kernel.table slot).tickets ≤ intMax :=
  (tickets_of_run execution positive).1 slot (.of_state ready (by decide) (by decide))

/-- In a run whose dispatches are in range no pass is negative. -/
theorem nonneg_of_run (execution : run (step .scheduler) (boot memory) events = some kernel)
    (positive : PositiveTickets events)
    (inRange : Along (step .scheduler) InRange (boot memory) events) (slot : Slot) :
    0 ≤ (kernel.table slot).pass := by
  induction events using List.reverseRecOn generalizing kernel slot with
  | nil =>
    cases execution
    by_cases first : slot = 0
    · simp [boot, userinit, initEmbryo, first]
    · simp [boot, userinit, initEmbryo, claim, Proc.zero, first]
  | append_singleton events event ih =>
    obtain ⟨middle, before, step_eq⟩ := run_concat_eq_some_iff.mp execution
    obtain ⟨earlier, now⟩ := (along_concat before).mp inRange
    exact nonneg_of_step (runnable_tickets_of_run before positive.left)
      (ih before positive.left earlier)
      (fun slot tickets call_eq => (positive.of_call (by simp) call_eq).1) step_eq now slot

/-- In a run with positive ticket numbers the passes mean something at every step
exactly if every dispatch is in range. -/
theorem meaningful_iff (execution : run (step .scheduler) (boot memory) events = some kernel)
    (positive : PositiveTickets events) :
    Along (step .scheduler) Meaningful (boot memory) events ↔
      Along (step .scheduler) InRange (boot memory) events := by
  induction events using List.reverseRecOn generalizing kernel with
  | nil => exact Iff.rfl
  | append_singleton events event ih =>
    obtain ⟨middle, before, step_eq⟩ := run_concat_eq_some_iff.mp execution
    rw [along_concat before, along_concat before, ih before positive.left]
    refine and_congr_right fun earlier => ?_
    exact meaningful_step_iff (runnable_tickets_of_run before positive.left)
      (nonneg_of_run before positive.left earlier)
      (fun slot tickets call_eq => (positive.of_call (by simp) call_eq).1) step_eq

/-- A process takes `tickets` tickets and yields, and is dispatched again. -/
def ticketedTurn (tickets : Int) : List (Event Unit) :=
  [.acquire (), .look (), .switch (), .resume (), .op () (.setTickets tickets), .op () .yield,
    .leave (), .back (), .look (), .acquire (), .look ()]

theorem positiveTickets_ticketedTurn {tickets : Int} (lower : 1 ≤ tickets)
    (upper : tickets ≤ intMax) : PositiveTickets (ticketedTurn tickets) := by
  intro cpu asked member
  simp [ticketedTurn] at member
  subst member
  exact ⟨lower, upper⟩

/-- The passes of a process with five tickets. -/
theorem meaningful_ticketedTurn :
    (run (step .scheduler) (boot ⟨1, 2, 3⟩) (ticketedTurn 5)).isSome ∧
      Along (step .scheduler) Meaningful (boot ⟨1, 2, 3⟩) (ticketedTurn 5) := by
  have executes : (run (step .scheduler) (boot ⟨1, 2, 3⟩) (ticketedTurn 5)).isSome := by
    decide +kernel
  obtain ⟨kernel, execution⟩ := Option.isSome_iff_exists.mp executes
  exact ⟨executes, (meaningful_iff execution
    (positiveTickets_ticketedTurn (by decide) (by decide))).mpr (by decide +kernel)⟩

/-- The stride of a process with 10001 tickets is 0: its second dispatch leaves the
pass at 0. -/
theorem stuck_ticketedTurn :
    PositiveTickets (ticketedTurn 10001) ∧
      (run (step .scheduler) (boot ⟨1, 2, 3⟩) ((ticketedTurn 10001).dropLast)).map (fun kernel =>
          ((kernel.table 0).pass, dispatches .scheduler kernel (.look ()))) = some (0, some 0) ∧
      (run (step .scheduler) (boot ⟨1, 2, 3⟩) (ticketedTurn 10001)).map (fun kernel =>
        (kernel.table 0).pass) = some 0 :=
  ⟨positiveTickets_ticketedTurn (by decide) (by decide), by decide +kernel, by decide +kernel⟩

end Xv6.Process.Kernel
