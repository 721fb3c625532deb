import Xv6.Process.Account.Changes

/-!
# When the ticket arithmetic divides by zero

The stride schedulers divide by the tickets of the process they dispatch,
`set_tickets` by its argument, and `scheduler1` takes a remainder modulo
`total_tickets + 1`.  No path of the kernel stores a zero into `tickets` except
`set_tickets(0)`, so a process that can be dispatched has non-zero tickets.

A run ends in a divide error exactly if a process called `set_tickets(0)`, or if
`scheduler1` drew a winner while the 32-bit sum of all arguments of
`set_tickets` was `-1`.
-/

namespace Xv6.Process

open Xv6.Int32 Xv6.Transition List

universe u

/-- What an event adds to `total_tickets`. -/
def Event.tickets {C : Type u} : Event C → Int
  | .op _ (.setTickets tickets) => tickets
  | _ => 0

namespace Kernel

variable {C : Type u} {kernel target : Kernel C} {kind : SchedKind} {memory : Boot}

/-- Every slot a scheduler may divide by has non-zero tickets. -/
abbrev Ticketed (kernel : Kernel C) : Prop :=
  kernel.Accounts fun tickets _ => tickets ≠ 0

/-- The step divides by zero. -/
def DividesByZero (kernel : Kernel C) : Event C → Prop
  | .op _ (.setTickets tickets) => tickets = 0
  | .draw _ => kernel.totalTickets = -1
  | _ => False

/-! ## One step -/

theorem no_divideError {state : Kernel C} (alive : kernel.trap = none)
    (same : state.trap = kernel.trap) : state.trap ≠ some .divideError := by
  rw [same, alive]
  nofun

/-- A process that can be dispatched is charged without a divide error. -/
theorem account_ne_none (ticketed : kernel.Ticketed) {event : Event C} {slot : Slot}
    (dispatched : dispatches kind kernel event = some slot) :
    account kind kernel.table slot ≠ none := by
  have nonzero : (kernel.table slot).tickets ≠ 0 := by
    apply ticketed
    cases event with
    | look cpu =>
      simp only [dispatches] at dispatched
      split at dispatched
      · obtain ⟨⟨found, counter⟩, picked, rfl⟩ := Option.map_eq_some_iff.mp dispatched
        exact .of_state (pick_runnable picked) (by decide) (by decide)
      · contradiction
    | acquire cpu =>
      obtain ⟨-, selected⟩ := Option.ite_none_right_eq_some.mp dispatched
      exact .of_selectB selected
    | _ => cases dispatched
  cases kind with
  | scheduler | schedulerB => simp [account, Ptable.charge, nonzero]
  | scheduler1 | scheduler2 => simp [account]

variable [DecidableEq C]

/-- The divide error in one step, from a state whose processes have tickets. -/
theorem step_trap (ticketed : kernel.Ticketed) {total : Int}
    (total_eq : kernel.totalTickets = wrap total) {event : Event C}
    (step_eq : step kind kernel event = some target) :
    target.trap = some .divideError ↔ kernel.DividesByZero event := by
  obtain ⟨lower, upper⟩ := wrap_range total
  rw [← total_eq] at lower upper
  obtain ⟨alive, taken⟩ := taken_of_step step_eq
  cases taken with
  | stop stops halted trap_eq =>
    rw [trap_eq]
    cases stops with
    | draw failed => exact iff_of_true rfl ((draw?_eq_none_iff lower upper).mp failed)
    | charge slot dispatched failed =>
      exact absurd failed (account_ne_none ticketed dispatched)
    | setTickets => exact iff_of_true rfl rfl
    | _ => exact iff_of_false nofun id
  | draw idle drawn =>
    refine iff_of_false (no_divideError alive rfl) fun zero => ?_
    rw [(draw?_eq_none_iff lower upper).mpr zero] at drawn
    contradiction
  | resumeWait resumed waits waited =>
    cases waited <;> exact iff_of_false (no_divideError alive rfl) id
  | op running free performed =>
    cases performed with
    | setTickets nonzero => exact iff_of_false (no_divideError alive rfl) nonzero
    | wait waited => cases waited <;> exact iff_of_false (no_divideError alive rfl) id
    | _ => exact iff_of_false (no_divideError alive rfl) id
  | _ => exact iff_of_false (no_divideError alive rfl) id

/-! ## Runs -/

omit [DecidableEq C] in
theorem totalAfter_wrap (total : Int) (event : Event C) :
    totalAfter (wrap total) event = wrap (total + event.tickets) := by
  cases event with
  | op cpu operation =>
    cases operation with
    | setTickets tickets => exact wrap_wrap_add total tickets
    | _ => simp [totalAfter, Event.tickets]
  | _ => simp [totalAfter, Event.tickets]

/-- The sum of all arguments of `set_tickets` in a schedule. -/
def ticketSum (events : List (Event C)) : Int :=
  (events.map Event.tickets).sum

/-- No process calls `set_tickets(0)`, and no lottery is drawn while the ticket
total is `-1`. -/
structure NoZeroDivisor (events : List (Event C)) : Prop where
  arguments : ∀ cpu tickets, .op cpu (.setTickets tickets) ∈ events → tickets ≠ 0
  draws : ∀ before cpu after, events = before ++ .draw cpu :: after →
    wrap (ticketSum before) ≠ -1

omit [DecidableEq C] in
theorem noZeroDivisor_concat {events : List (Event C)} {event : Event C} {state : Kernel C}
    (total_eq : state.totalTickets = wrap (ticketSum events)) :
    NoZeroDivisor (events ++ [event]) ↔ NoZeroDivisor events ∧ ¬state.DividesByZero event := by
  constructor
  · intro fits
    refine ⟨⟨fun cpu tickets member => ?_, fun before cpu after split => ?_⟩, fun zero => ?_⟩
    · exact fits.arguments cpu tickets (mem_append_left _ member)
    · exact fits.draws before cpu (after ++ [event]) (by rw [split]; simp)
    · unfold DividesByZero at zero
      split at zero
      · exact fits.arguments _ _ (mem_append_right _ (mem_singleton_self _)) zero
      · exact fits.draws events _ [] rfl (total_eq ▸ zero)
      · exact zero
  · rintro ⟨fits, nonzero⟩
    constructor
    · intro cpu tickets member
      rcases mem_append.mp member with earlier | last
      · exact fits.arguments cpu tickets earlier
      · rw [← mem_singleton.mp last] at nonzero
        exact nonzero
    · intro before cpu after split
      rcases after.eq_nil_or_concat with rfl | ⟨rest, last, rfl⟩
      · obtain ⟨rfl, last_eq⟩ := append_inj' split rfl
        cases last_eq
        exact fun zero => nonzero (total_eq.trans zero)
      · have split' : events ++ [event] = (before ++ .draw cpu :: rest) ++ [last] := by
          rw [split]
          simp
        exact fits.draws before cpu rest (append_inj' split' rfl).1

/-- No run of any of the schedulers ends in a divide error, except after
`set_tickets(0)` or a draw with the ticket total `-1`. -/
theorem no_divideError_iff {events : List (Event C)}
    (execution : run (step kind) (boot memory) events = some kernel) :
    kernel.trap ≠ some .divideError ↔ NoZeroDivisor events := by
  have tracked : kernel.Ticketed ∧ kernel.totalTickets = wrap (ticketSum events) ∧
      (kernel.trap ≠ some .divideError ↔ NoZeroDivisor events) := by
    refine run_induction (fun events (kernel : Kernel C) =>
      kernel.Ticketed ∧ kernel.totalTickets = wrap (ticketSum events) ∧
        (kernel.trap ≠ some .divideError ↔ NoZeroDivisor events)) ?_ ?_ execution
    · refine ⟨.boot Int.one_ne_zero memory, rfl, iff_of_true nofun ⟨nofun, ?_⟩⟩
      intro before cpu after split
      simp at split
    · rintro events state event target - ⟨ticketed, total_eq, divides_iff⟩ step_eq
      have alive := (taken_of_step step_eq).1
      have earlier : NoZeroDivisor events := divides_iff.mp (by simp [alive])
      refine ⟨ticketed.step Int.one_ne_zero (fun _ _ => id) (fun _ _ _ => id) step_eq, ?_, ?_⟩
      · rw [(step_counters step_eq).2, total_eq, totalAfter_wrap]
        simp [ticketSum]
      · rw [noZeroDivisor_concat total_eq]
        apply (not_congr (step_trap ticketed total_eq step_eq)).trans
        simp [earlier]
  exact tracked.2.2

/-- The first process calls `set_tickets`. -/
def callSetTickets (tickets : Int) : List (Event Unit) :=
  [.acquire (), .look (), .switch (), .resume (), .op () (.setTickets tickets)]

/-- A proper ticket count does no harm. -/
theorem no_divideError_iff_five :
    ∃ kernel : Kernel Unit,
      run (step .scheduler) (boot ⟨1, 2, 3⟩) (callSetTickets 5) = some kernel ∧
      (kernel.trap ≠ some .divideError ↔ NoZeroDivisor (callSetTickets 5)) ∧
      NoZeroDivisor (callSetTickets 5) := by
  obtain ⟨kernel, execution⟩ : ∃ kernel : Kernel Unit,
      run (step .scheduler) (boot ⟨1, 2, 3⟩) (callSetTickets 5) = some kernel := ⟨_, rfl⟩
  refine ⟨kernel, execution, no_divideError_iff execution, ?_, ?_⟩
  · simp [callSetTickets]
  · intro before cpu after split
    have drawn : .draw cpu ∈ callSetTickets 5 := by
      rw [split]
      simp
    simp [callSetTickets] at drawn

/-- `set_tickets(0)` divides by zero, and so does the first lottery after
`set_tickets(-1)`. -/
theorem divideError_of_setTickets :
    (∃ kernel : Kernel Unit,
      run (step .scheduler) (boot ⟨1, 2, 3⟩) (callSetTickets 0) = some kernel ∧
      kernel.trap = some .divideError) ∧
    ∃ kernel : Kernel Unit,
      run (step .scheduler1) (boot ⟨1, 2, 3⟩)
        (.draw () :: callSetTickets (-1) ++
          [.op () .yield, .leave (), .back (), .look (), .draw ()]) = some kernel ∧
      kernel.trap = some .divideError :=
  ⟨⟨_, rfl, rfl⟩, Option.map_eq_some_iff.mp (by decide +kernel)⟩

end Kernel

end Xv6.Process
