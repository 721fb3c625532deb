import Xv6.Process.Account.Changes
import Xv6.Process.Rounds

/-!
# Lottery draws

One iteration of `scheduler1` adds up the tickets of the runnable processes in
table order and dispatches the first one at which the sum reaches the draw.  The
loop goes on after the process has switched back, and the sum stays at or above
the draw, so every runnable process behind the winner is dispatched as well.  On
the other hand `total_tickets`, which bounds the draw, counts every call of
`set_tickets` and is never reduced, so the sum may end below the draw.
-/

namespace Xv6.Process

open Xv6.Int32 Xv6.Transition List Int

universe u

/-- The loop of `scheduler1` over the slots still to be visited: the final table
and the dispatched slots. -/
def lotteryLoop (slice : Slot → Ptable → Ptable) (winner : Nat) :
    Int → List Slot → Ptable → Ptable × List Slot
  | _, [], table => (table, [])
  | counter, slot :: rest, table =>
    if (table slot).state ≠ .runnable then lotteryLoop slice winner counter rest table
    else
      let counter := wrap (counter + (table slot).tickets)
      if (counter % 4294967296).toNat < winner then
        lotteryLoop slice winner counter rest table
      else
        let (final, dispatched) := lotteryLoop slice winner counter rest
          (slice slot ((table.countRun slot).setState slot .running))
        (final, slot :: dispatched)

/-- One iteration of the outer loop of `scheduler1` after the draw. -/
def lotteryRound (slice : Slot → Ptable → Ptable) (winner : Nat) (table : Ptable) :
    Ptable × List Slot :=
  lotteryLoop slice winner 0 slots table

/-- The tickets of the runnable processes among some slots. -/
def ticketsIn (table : Ptable) (visited : List Slot) : Int :=
  ((visited.filter fun slot => (table slot).state = .runnable).map fun slot =>
    (table slot).tickets).sum

/-- The process in `slot`, behind the slots `before`, is the first runnable one
whose running ticket sum reaches the draw. -/
structure IsWinner (table : Ptable) (winner : Nat) (before : List Slot) (slot : Slot) : Prop where
  runnable : (table slot).state = .runnable
  reaches : winner ≤ ticketsIn table (before ++ [slot])
  first : ∀ earlier other later, before = earlier ++ other :: later →
    (table other).state = .runnable → ticketsIn table (earlier ++ [other]) < winner

/-- The table when the dispatched process switches back. -/
def switchedBack (slice : Slot → Ptable → Ptable) (table : Ptable) (slot : Slot) : Ptable :=
  slice slot ((table.countRun slot).setState slot .running)

@[simp]
theorem ticketsIn_nil (table : Ptable) : ticketsIn table [] = 0 :=
  rfl

theorem ticketsIn_append (table : Ptable) (first second : List Slot) :
    ticketsIn table (first ++ second) = ticketsIn table first + ticketsIn table second := by
  simp [ticketsIn]

variable {slot : Slot}

theorem ticketsIn_cons_of_runnable {table : Ptable} (ready : (table slot).state = .runnable)
    (rest : List Slot) :
    ticketsIn table (slot :: rest) = (table slot).tickets + ticketsIn table rest := by
  simp [ticketsIn, ready]

theorem ticketsIn_cons_of_not_runnable {table : Ptable} (notReady : (table slot).state ≠ .runnable)
    (rest : List Slot) : ticketsIn table (slot :: rest) = ticketsIn table rest := by
  simp [ticketsIn, notReady]

/-! ## The scan -/

/-- The ticket sum up to a slot, as the counter of `scheduler1` compares it. -/
def Below (table : Ptable) (winner : Nat) (base : Int) (visited : List Slot) : Prop :=
  ∀ before slot after, visited = before ++ slot :: after → (table slot).state = .runnable →
    ((base + ticketsIn table (before ++ [slot])) % 4294967296).toNat < winner

variable {base : Int} {rest : List Slot}

theorem below_cons_of_not_runnable {table : Ptable} {winner : Nat}
    (notReady : (table slot).state ≠ .runnable) :
    Below table winner base (slot :: rest) ↔ Below table winner base rest := by
  constructor
  · intro below before other after split ready
    have := below (slot :: before) other after (by rw [split]; rfl) ready
    rwa [cons_append, ticketsIn_cons_of_not_runnable notReady] at this
  · intro below before other after split ready
    cases before with
    | nil =>
      cases split
      exact absurd ready notReady
    | cons first before =>
      cases split
      rw [cons_append, ticketsIn_cons_of_not_runnable notReady]
      exact below before other after rfl ready

theorem below_cons_of_runnable {table : Ptable} {winner : Nat}
    (ready : (table slot).state = .runnable) :
    Below table winner base (slot :: rest) ↔
      ((base + (table slot).tickets) % 4294967296).toNat < winner ∧
        Below table winner (base + (table slot).tickets) rest := by
  constructor
  · intro below
    constructor
    · have := below [] slot rest rfl ready
      rwa [nil_append, ticketsIn_cons_of_runnable ready, ticketsIn_nil, add_zero] at this
    · intro before other after split otherReady
      have := below (slot :: before) other after (by rw [split]; rfl) otherReady
      rwa [cons_append, ticketsIn_cons_of_runnable ready, ← add_assoc] at this
  · rintro ⟨own, below⟩ before other after split otherReady
    cases before with
    | nil =>
      cases split
      rwa [nil_append, ticketsIn_cons_of_runnable ready, ticketsIn_nil, add_zero]
    | cons first before =>
      cases split
      rw [cons_append, ticketsIn_cons_of_runnable ready, ← add_assoc]
      exact below before other after rfl otherReady

/-- The loop dispatches nobody, or it dispatches the first process whose ticket
sum is not below the draw and goes on behind it. -/
theorem lotteryLoop_spec (slice : Slot → Ptable → Ptable) (winner : Nat) (base : Int)
    (visited : List Slot) (table : Ptable) :
    (Below table winner base visited ∧
        (lotteryLoop slice winner (wrap base) visited table).2 = []) ∨
      ∃ before slot after, visited = before ++ slot :: after ∧
        (table slot).state = .runnable ∧ Below table winner base before ∧
        ¬((base + ticketsIn table (before ++ [slot])) % 4294967296).toNat < winner ∧
        (lotteryLoop slice winner (wrap base) visited table).2 =
          slot :: (lotteryLoop slice winner (wrap (base + ticketsIn table (before ++ [slot])))
            after (switchedBack slice table slot)).2 := by
  induction visited generalizing base with
  | nil => exact .inl ⟨fun before _ _ split => by simp at split, rfl⟩
  | cons first rest ih =>
    by_cases ready : (table first).state = .runnable
    · have counter_eq : wrap (wrap base + (table first).tickets) =
          wrap (base + (table first).tickets) := wrap_wrap_add _ _
      rw [lotteryLoop, if_neg (not_not.mpr ready)]
      simp only [counter_eq, wrap_emod]
      by_cases below : ((base + (table first).tickets) % 4294967296).toNat < winner
      · simp only [if_pos below]
        rcases ih (base + (table first).tickets) with
          ⟨belowRest, none⟩ | ⟨before, slot, after, split, isReady, belowRest, reached, later⟩
        · exact .inl ⟨(below_cons_of_runnable ready).mpr ⟨below, belowRest⟩, none⟩
        · refine .inr ⟨first :: before, slot, after, by rw [split]; rfl, isReady,
            (below_cons_of_runnable ready).mpr ⟨below, belowRest⟩, ?_⟩
          rw [cons_append, ticketsIn_cons_of_runnable ready, ← add_assoc]
          exact ⟨reached, later⟩
      · simp only [if_neg below]
        refine .inr ⟨[], first, rest, rfl, ready, fun before _ _ split => by simp at split, ?_⟩
        rw [nil_append, ticketsIn_cons_of_runnable ready, ticketsIn_nil, add_zero]
        exact ⟨below, rfl⟩
    · rw [lotteryLoop, if_pos ready]
      rcases ih base with
        ⟨belowRest, none⟩ | ⟨before, slot, after, split, isReady, belowRest, reached, later⟩
      · exact .inl ⟨(below_cons_of_not_runnable ready).mpr belowRest, none⟩
      · refine .inr ⟨first :: before, slot, after, by rw [split]; rfl, isReady,
          (below_cons_of_not_runnable ready).mpr belowRest, ?_⟩
        rw [cons_append, ticketsIn_cons_of_not_runnable ready]
        exact ⟨reached, later⟩

/-! ## The winner -/

variable {table : Ptable} {winner : Nat}

theorem ticketsIn_nonneg
    (positive : ∀ slot, (table slot).state = .runnable → 1 ≤ (table slot).tickets)
    (visited : List Slot) : 0 ≤ ticketsIn table visited := by
  induction visited with
  | nil => exact le_refl _
  | cons slot rest ih =>
    by_cases ready : (table slot).state = .runnable
    · have := positive slot ready
      rw [ticketsIn_cons_of_runnable ready]
      omega
    · rwa [ticketsIn_cons_of_not_runnable ready]

variable {before : List Slot}

/-- The sum in front of the first winner is at most the draw. -/
theorem ticketsIn_le_of_first (first : ∀ earlier other later, before = earlier ++ other :: later →
      (table other).state = .runnable → ticketsIn table (earlier ++ [other]) < winner) :
    ticketsIn table before ≤ winner := by
  induction before using reverseRecOn with
  | nil => exact natCast_nonneg winner
  | append_singleton before last ih =>
    by_cases ready : (table last).state = .runnable
    · exact (first before last [] rfl ready).le
    · rw [ticketsIn_append, ticketsIn_cons_of_not_runnable ready, ticketsIn_nil, add_zero]
      apply ih
      intro earlier other later split otherReady
      exact first earlier other (later ++ [last]) (by rw [split]; simp) otherReady

/-- With enough tickets there is a winner. -/
theorem exists_isWinner
    (positive : ∀ slot, (table slot).state = .runnable → 1 ≤ (table slot).tickets)
    {visited : List Slot} (ready : ∃ slot ∈ visited, (table slot).state = .runnable)
    (enough : winner ≤ ticketsIn table visited) :
    ∃ before slot after, visited = before ++ slot :: after ∧ IsWinner table winner before slot := by
  induction visited using reverseRecOn with
  | nil => simp at ready
  | append_singleton visited last ih =>
    by_cases earlier : (∃ slot ∈ visited, (table slot).state = .runnable) ∧
        winner ≤ ticketsIn table visited
    · obtain ⟨before, slot, after, rfl, isWinner⟩ := ih earlier.1 earlier.2
      exact ⟨before, slot, after ++ [last], by simp, isWinner⟩
    have lastReady : (table last).state = .runnable := by
      by_contra notReady
      refine earlier ⟨?_, ?_⟩
      · obtain ⟨slot, member, slotReady⟩ := ready
        rcases mem_append.mp member with member | member
        · exact ⟨slot, member, slotReady⟩
        · exact absurd (mem_singleton.mp member ▸ slotReady) notReady
      · rwa [ticketsIn_append, ticketsIn_cons_of_not_runnable notReady, ticketsIn_nil,
          add_zero] at enough
    refine ⟨visited, last, [], rfl, lastReady, enough, ?_⟩
    intro before other after split otherReady
    by_contra reached
    refine earlier ⟨⟨other, by simp [split], otherReady⟩, ?_⟩
    rw [split, append_cons, ticketsIn_append]
    have := ticketsIn_nonneg positive after
    omega

/-- The sum at the first winner does not overflow. -/
theorem IsWinner.not_below (isWinner : IsWinner table winner before slot) (draw : winner ≤ intMax)
    (bounded : (table slot).tickets ≤ intMax) :
    ¬((0 + ticketsIn table (before ++ [slot])) % 4294967296).toNat < winner := by
  have reaches := isWinner.reaches
  have front := ticketsIn_le_of_first isWinner.first
  have upper : ticketsIn table (before ++ [slot]) < 4294967296 := by
    unfold intMax at draw bounded
    rw [ticketsIn_append, ticketsIn_cons_of_runnable isWinner.runnable, ticketsIn_nil]
    omega
  omega

/-- In front of the winner the sums are below the draw. -/
theorem IsWinner.below (isWinner : IsWinner table winner before slot)
    (positive : ∀ slot, (table slot).state = .runnable → 1 ≤ (table slot).tickets) :
    Below table winner 0 before := by
  intro earlier other later split ready
  have below := isWinner.first earlier other later split ready
  have nonneg := ticketsIn_nonneg positive (earlier ++ [other])
  omega

/-- The loop first dispatches the winner. -/
theorem lotteryRound_of_isWinner {after : List Slot} (slice : Slot → Ptable → Ptable)
    (positive : ∀ slot, (table slot).state = .runnable → 1 ≤ (table slot).tickets)
    (bounded : ∀ slot, (table slot).state = .runnable → (table slot).tickets ≤ intMax)
    (draw : winner ≤ intMax) (split : slots = before ++ slot :: after)
    (isWinner : IsWinner table winner before slot) :
    (lotteryRound slice winner table).2 =
      slot :: (lotteryLoop slice winner (wrap (ticketsIn table (before ++ [slot]))) after
        (switchedBack slice table slot)).2 := by
  have notBelow := isWinner.not_below draw (bounded slot isWinner.runnable)
  have front := isWinner.below positive
  rcases lotteryLoop_spec slice winner 0 slots table with
    ⟨below, -⟩ | ⟨before', slot', after', split', ready', front', notBelow', dispatched⟩
  · exact absurd (below before slot after split isWinner.runnable) notBelow
  · rcases split_cases (split.symm.trans split') with
      ⟨rfl, rfl, rfl⟩ | ⟨between, rfl⟩ | ⟨between, rfl⟩
    · rw [zero_add] at dispatched
      exact dispatched
    · exact absurd (front before' slot' between rfl ready') notBelow'
    · exact absurd (front' before slot between rfl isWinner.runnable) notBelow

/-- The runnable processes have enough tickets for the draw, and when the winner
switches back, the ticket sum is below the draw at every runnable process behind
it. -/
structure Decisive (slice : Slot → Ptable → Ptable) (winner : Nat) (table : Ptable) : Prop where
  enough : winner ≤ ticketsIn table slots
  quiet : ∀ before slot after, slots = before ++ slot :: after → IsWinner table winner before slot →
    Below (switchedBack slice table slot) winner (ticketsIn table (before ++ [slot])) after

/-- A round dispatches the winner and nobody else exactly if the draw is decisive. -/
theorem dispatches_winner_iff (slice : Slot → Ptable → Ptable)
    (positive : ∀ slot, (table slot).state = .runnable → 1 ≤ (table slot).tickets)
    (bounded : ∀ slot, (table slot).state = .runnable → (table slot).tickets ≤ intMax)
    (draw : winner ≤ intMax) (ready : ∃ slot, (table slot).state = .runnable) :
    (∃ before slot after, slots = before ++ slot :: after ∧ IsWinner table winner before slot ∧
        (lotteryRound slice winner table).2 = [slot]) ↔ Decisive slice winner table := by
  constructor
  · rintro ⟨before, slot, after, split, isWinner, dispatched⟩
    refine ⟨?_, ?_⟩
    · have reaches := isWinner.reaches
      have behind := ticketsIn_nonneg positive after
      rw [split, append_cons, ticketsIn_append]
      omega
    · intro before' slot' after' split' isWinner'
      have first := lotteryRound_of_isWinner slice positive bounded draw split' isWinner'
      rw [first] at dispatched
      obtain ⟨-, none⟩ := cons.inj dispatched
      rcases lotteryLoop_spec slice winner (ticketsIn table (before' ++ [slot'])) after'
          (switchedBack slice table slot') with ⟨below, -⟩ | ⟨_, _, _, -, -, -, -, more⟩
      · exact below
      · rw [none] at more
        contradiction
  · intro decisive
    obtain ⟨slot, slotReady⟩ := ready
    obtain ⟨before, slot, after, split, isWinner⟩ :=
      exists_isWinner positive ⟨slot, mem_slots slot, slotReady⟩ decisive.enough
    refine ⟨before, slot, after, split, isWinner, ?_⟩
    rw [lotteryRound_of_isWinner slice positive bounded draw split isWinner]
    rcases lotteryLoop_spec slice winner (ticketsIn table (before ++ [slot])) after
        (switchedBack slice table slot) with
      ⟨-, none⟩ | ⟨passed, other, rest, split', otherReady, -, notBelow, -⟩
    · rw [none]
    · exact absurd
        (decisive.quiet before slot after split isWinner passed other rest split' otherReady)
        notBelow

/-! ## Reachable states -/

namespace Kernel

variable {C : Type u} [DecidableEq C] {kernel : Kernel C} {memory : Boot}

/-- Every call of `set_tickets` in a schedule asks for a positive number of tickets. -/
def PositiveTickets (events : List (Event C)) : Prop :=
  ∀ cpu tickets, .op cpu (.setTickets tickets) ∈ events → 1 ≤ tickets ∧ tickets ≤ intMax

variable {events : List (Event C)}

omit [DecidableEq C] in
/-- The argument of a call of `set_tickets` in such a schedule. -/
theorem PositiveTickets.of_call {event : Event C} {slot : Slot} {tickets : Int}
    (positive : PositiveTickets events) (member : event ∈ events)
    (call_eq : kernel.call event = some ⟨slot, .setTickets tickets⟩) :
    1 ≤ tickets ∧ tickets ≤ intMax := by
  cases event with
  | op cpu operation =>
    simp only [call] at call_eq
    split at call_eq
    · cases call_eq
      exact positive cpu tickets member
    · contradiction
  | _ => contradiction

/-- In a run with positive ticket numbers every runnable process has tickets, and
the total is a machine integer. -/
theorem tickets_of_run {kind : SchedKind}
    (execution : run (step kind) (boot memory) events = some kernel)
    (positive : PositiveTickets events) :
    (kernel.Accounts fun tickets _ => 1 ≤ tickets ∧ tickets ≤ intMax) ∧
      kernel.totalTickets ≤ intMax := by
  refine run_induction (fun events (kernel : Kernel C) => PositiveTickets events →
    (kernel.Accounts fun tickets _ => 1 ≤ tickets ∧ tickets ≤ intMax) ∧
      kernel.totalTickets ≤ intMax) ?_ ?_ execution positive
  · intro _
    exact ⟨.boot ⟨le_refl _, by decide⟩ memory, by simp [boot, intMax]⟩
  · intro events state event target _ tracked step_eq positive
    obtain ⟨accounts, total⟩ := tracked fun cpu tickets member =>
      positive cpu tickets (mem_append_left _ member)
    refine ⟨accounts.step ⟨le_refl _, by decide⟩ (fun _ _ held => held) ?_ step_eq, ?_⟩
    · intro slot tickets call_eq _
      exact positive.of_call (by simp) call_eq
    · rw [(step_counters step_eq).2]
      unfold totalAfter
      split
      · exact (wrap_range _).2
      · exact total

/-- In every state of a run with positive ticket numbers, and for every draw up to
`total_tickets`, a round of `scheduler1` dispatches the first process whose running
ticket sum reaches the draw, and nobody else, exactly if the draw is decisive. -/
theorem lotteryRound_iff {events : List (Event C)}
    (execution : run (step .scheduler1) (boot memory) events = some kernel)
    (positive : PositiveTickets events) {winner : Nat} (draw : winner ≤ kernel.totalTickets)
    (ready : ∃ slot, (kernel.table slot).state = .runnable) (slice : Slot → Ptable → Ptable) :
    (∃ before slot after, slots = before ++ slot :: after ∧
        IsWinner kernel.table winner before slot ∧
        (lotteryRound slice winner kernel.table).2 = [slot]) ↔
      Decisive slice winner kernel.table := by
  obtain ⟨accounts, total⟩ := tickets_of_run execution positive
  have tickets slot (isReady : (kernel.table slot).state = .runnable) :
      1 ≤ (kernel.table slot).tickets ∧ (kernel.table slot).tickets ≤ intMax :=
    accounts slot (.of_state isReady (by decide) (by decide))
  exact dispatches_winner_iff slice (fun slot isReady => (tickets slot isReady).1)
    (fun slot isReady => (tickets slot isReady).2) (draw.trans total) ready

/-- The first process calls `set_tickets(1)` twice and yields. -/
def ticketRun : List (Event Unit) :=
  [.draw (), .acquire (), .look (), .switch (), .resume (), .op () (.setTickets 1),
    .op () (.setTickets 1), .op () .yield, .leave (), .back (), .look ()]

theorem positiveTickets_ticketRun : PositiveTickets ticketRun := by
  intro cpu tickets member
  simp [ticketRun] at member
  subst member
  exact ⟨le_refl _, by decide⟩

/-- A draw that the tickets of the only process reach, which is dispatched. -/
theorem lotteryRound_ticketRun :
    ∃ kernel : Kernel Unit, run (step .scheduler1) (boot ⟨1, 2, 3⟩) ticketRun = some kernel ∧
      (lotteryRound yieldSlice 1 kernel.table).2 = [0] ∧
      Decisive yieldSlice 1 kernel.table := by
  obtain ⟨kernel, execution, total, ready, reaches, dispatched⟩ :
    ∃ kernel ∈ run (step .scheduler1) (boot ⟨1, 2, 3⟩) ticketRun, 1 ≤ kernel.totalTickets ∧
      (kernel.table 0).state = .runnable ∧ 1 ≤ ticketsIn kernel.table [0] ∧
      (lotteryRound yieldSlice 1 kernel.table).2 = [0] := by decide +kernel
  exact ⟨kernel, execution, dispatched, (lotteryRound_iff execution positiveTickets_ticketRun total
    ⟨0, ready⟩ yieldSlice).mp ⟨[], 0, slots.tail, rfl, ⟨ready, reaches, by simp⟩, dispatched⟩⟩

/-- The first process forks, and parent and child yield. -/
def forkRun : List (Event Unit) :=
  [.draw (), .acquire (), .look (), .switch (), .resume (), .op () .forkClaim,
    .op () (.forkStack (some 5)), .op () (.forkCopy (some 6)), .op () .forkReady, .op () .yield,
    .leave (), .back (), .look (), .switch (), .resume (), .op () .yield, .leave (), .back (),
    .look ()]

/-- After a fork the draw 0 dispatches two processes; after two calls of
`set_tickets(1)` the draw 2 dispatches nobody. -/
theorem lotteryRound_not_one :
    (run (step .scheduler1) (boot ⟨1, 2, 3⟩) forkRun).map (fun kernel =>
        (kernel.totalTickets, (lotteryRound yieldSlice 0 kernel.table).2)) =
          some (0, [0, 1]) ∧
      (run (step .scheduler1) (boot ⟨1, 2, 3⟩) ticketRun).map (fun kernel =>
        (kernel.totalTickets, (kernel.table 0).state,
          (lotteryRound yieldSlice 2 kernel.table).2)) = some (2, .runnable, []) := by
  decide +kernel

end Kernel

end Xv6.Process
