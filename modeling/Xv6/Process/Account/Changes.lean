import Xv6.Process.Account.References

/-!
# Changes of tickets and passes

Tickets and passes change in three places only: a stride scheduler charges the
process it dispatches, `set_tickets` resets its caller, and `allocproc`
initializes an embryo.  `AccountChange` says so for every step of the kernel.
-/

namespace Xv6.Process

open Xv6.Int32 Xv6.Transition Ptable Option

universe u

/-- Two tables with the same tickets and passes. -/
def Ptable.SameAccounts (before after : Ptable) : Prop :=
  ∀ slot, (after slot).tickets = (before slot).tickets ∧ (after slot).pass = (before slot).pass

namespace Ptable.SameAccounts

section

variable (table : Ptable)

theorem refl : SameAccounts table table :=
  fun _ => ⟨rfl, rfl⟩

theorem trans {before middle after : Ptable} (first : SameAccounts before middle)
    (second : SameAccounts middle after) : SameAccounts before after :=
  fun slot => ⟨(second slot).1.trans (first slot).1, (second slot).2.trans (first slot).2⟩

theorem modify (slot : Slot) {update : Proc → Proc}
    (tickets : (update (table slot)).tickets = (table slot).tickets)
    (pass : (update (table slot)).pass = (table slot).pass) :
    SameAccounts table (table.modify slot update) :=
  fun other => ⟨field_modify Proc.tickets tickets other, field_modify Proc.pass pass other⟩

theorem wakeup1 (chan : Option Chan) :
    SameAccounts table (table.wakeup1 chan) := by
  intro slot
  rw [wakeup1_apply]
  exact ⟨rfl, rfl⟩

theorem kill (pid : Int) : SameAccounts table (table.kill pid).2 := by
  intro slot
  obtain ⟨_, _, record_eq⟩ := table.kill_fields pid slot
  rw [record_eq]
  exact ⟨rfl, rfl⟩

theorem exit (leaver init : Slot) :
    SameAccounts table (table.exit leaver init) := by
  intro slot
  obtain ⟨_, _, record_eq⟩ := table.exit_fields leaver init slot
  rw [record_eq]
  exact ⟨rfl, rfl⟩

end

end Ptable.SameAccounts

namespace Kernel

variable {C : Type u} {kernel target : Kernel C} {kind : SchedKind}

/-- The event completes the allocation of the embryo in `child`. -/
def Initializes (kernel : Kernel C) (event : Event C) (child : Slot) : Prop :=
  ∃ slot kstack, kernel.call event = some ⟨slot, .forkStack (some kstack)⟩ ∧
    kernel.activity slot = .claimed child

/-- How a step changes the tickets and the pass of one slot. -/
inductive AccountChange (kind : SchedKind) (kernel : Kernel C) (event : Event C) (slot : Slot)
    (after : Proc) : Prop
  | same (tickets_eq : after.tickets = (kernel.table slot).tickets)
      (pass_eq : after.pass = (kernel.table slot).pass)
  | charged (dispatched : dispatches kind kernel event = some slot)
      (nonzero : (kernel.table slot).tickets ≠ 0)
      (tickets_eq : after.tickets = (kernel.table slot).tickets)
      (pass_eq : after.pass =
        wrap ((kernel.table slot).pass + (10000 : Int).tdiv (kernel.table slot).tickets))
  | ticketed {tickets : Int} (call_eq : kernel.call event = some ⟨slot, .setTickets tickets⟩)
      (nonzero : tickets ≠ 0) (tickets_eq : after.tickets = tickets)
      (pass_eq : after.pass = (10000 : Int).tdiv tickets)
  | initialized (init : kernel.Initializes event slot) (tickets_eq : after.tickets = 1)
      (pass_eq : after.pass = 1)

variable {event : Event C} {slot : Slot}

theorem AccountChange.of_same (same : kernel.table.SameAccounts target.table) :
    AccountChange kind kernel event slot (target.table slot) :=
  .same (same slot).1 (same slot).2

variable [DecidableEq C]

variable {placed : Slot} {table : Ptable}

omit [DecidableEq C] in
/-- A dispatch charges the process under the stride schedulers only. -/
theorem accountChange_of_dispatch (dispatched : dispatches kind kernel event = some placed)
    (accounted : account kind kernel.table placed = some table) (slot : Slot) :
    AccountChange kind kernel event slot (table slot) := by
  cases kind with
  | scheduler | schedulerB =>
    obtain ⟨nonzero, rfl⟩ := charge_eq_some accounted
    by_cases same : slot = placed
    · subst same
      exact .charged dispatched nonzero (by simp) (by simp)
    · exact .same (by simp [same]) (by simp [same])
  | scheduler1 =>
    cases accounted
    have same : kernel.table.SameAccounts (kernel.table.countRun placed) := .modify _ _ rfl rfl
    exact .same (same slot).1 (same slot).2
  | scheduler2 =>
    cases accounted
    exact .same rfl rfl

theorem Waited.sameAccounts {cpu : C} (waited : Waited kernel cpu slot target) :
    kernel.table.SameAccounts target.table := by
  cases waited with
  | fail => exact .refl _
  | reap | sleep => exact .modify _ _ rfl rfl

theorem accountChange_of_perform {cpu : C} {operation : Op}
    (running : (kernel.cpu cpu).phase = .run placed)
    (performed : Performed kernel cpu placed operation target) (slot : Slot) :
    AccountChange kind kernel (.op cpu operation) slot (target.table slot) := by
  have call_eq : kernel.call (.op cpu operation) = some ⟨placed, operation⟩ := call_op running
  cases performed with
  | exit exiting => exact .of_same (.exit _ _ _)
  | wait waited => exact .of_same waited.sameAccounts
  | forkFull full => exact .of_same (.refl _)
  | kill pid => exact .of_same (.kill _ _)
  | @forkStack child claimed kstack =>
    by_cases same : slot = child
    · subst same
      refine .initialized ⟨placed, kstack, call_eq, claimed⟩ ?_ ?_ <;> simp [forkStack, initEmbryo]
    · refine .same ?_ ?_ <;> simp [forkStack, initEmbryo, same]
  | setTickets nonzero console =>
    by_cases same : slot = placed
    · subst same
      exact .ticketed call_eq nonzero (by simp) (by simp)
    · exact .same (by simp [same]) (by simp [same])
  | _ => exact .of_same (.modify _ _ rfl rfl)

/-- The changes of tickets and passes in one step. -/
theorem accountChange_of_step (step_eq : step kind kernel event = some target) (slot : Slot) :
    AccountChange kind kernel event slot (target.table slot) := by
  obtain ⟨-, taken⟩ := taken_of_step step_eq
  cases taken with
  | stop stops halted => exact .same (by rw [halted.table]) (by rw [halted.table])
  | draw | acquire | lookEnd | resume | leave | back => exact .of_same (.refl _)
  | grab single selected accounted =>
    subst single
    exact accountChange_of_dispatch (by simp [dispatches, selected]) accounted slot
  | look scan picked accounted =>
    exact accountChange_of_dispatch (by simp [dispatches, scan, picked]) accounted slot
  | switch | resumeSleep => exact .of_same (.modify _ _ rfl rfl)
  | resumeWait resumed waits waited =>
    exact .of_same (.trans (.modify _ _ rfl rfl) waited.sameAccounts)
  | wakeup free => exact .of_same (.wakeup1 _ _)
  | op running free performed => exact accountChange_of_perform running performed slot

omit [DecidableEq C] in
/-- `scheduler` dispatches runnable processes. -/
theorem runnable_of_dispatches (dispatched : dispatches .scheduler kernel event = some slot) :
    (kernel.table slot).state = .runnable := by
  cases event with
  | look cpu =>
    simp only [dispatches] at dispatched
    split at dispatched
    · obtain ⟨⟨found, counter⟩, picked, rfl⟩ := map_eq_some_iff.mp dispatched
      obtain ⟨found, search, pair_eq⟩ := map_eq_some_iff.mp picked
      cases pair_eq
      have isMatch : Matches kernel.table (kernel.cpu cpu).wPid found := by
        simpa using List.find?_some search
      exact isMatch.1
    · contradiction
  | _ => contradiction

/-- A dispatch by `scheduler` charges the dispatched process. -/
theorem account_of_dispatches (dispatched : dispatches .scheduler kernel event = some slot)
    (nonzero : (kernel.table slot).tickets ≠ 0)
    (step_eq : step .scheduler kernel event = some target) :
    (target.table slot).tickets = (kernel.table slot).tickets ∧
      (target.table slot).pass =
        wrap ((kernel.table slot).pass + (10000 : Int).tdiv (kernel.table slot).tickets) := by
  obtain ⟨-, taken⟩ := taken_of_step step_eq
  cases taken with
  | look scan picked accounted =>
    simp only [dispatches, scan, picked, map_some, some.injEq] at dispatched
    subst dispatched
    obtain ⟨-, rfl⟩ := charge_eq_some accounted
    simp
  | lookEnd scan ended => simp [dispatches, scan, ended] at dispatched
  | stop stops halted =>
    cases stops with
    | charge other dispatched' failed =>
      cases dispatched.symm.trans dispatched'
      simp [account, charge, nonzero] at failed
    | _ => cases dispatched
  | _ => cases dispatched

/-! ## Properties of the accounts -/

/-- The tickets and the pass of every slot a scheduler may refer to have the
property. -/
def Accounts (property : Int → Int → Prop) (kernel : Kernel C) : Prop :=
  ∀ slot, kernel.Owes slot → property (kernel.table slot).tickets (kernel.table slot).pass

namespace Accounts

variable {property : Int → Int → Prop}

omit [DecidableEq C] in
theorem boot (fresh : property 1 1) (memory : Boot) :
    (Kernel.boot memory : Kernel C).Accounts property := by
  intro slot owed
  cases owed with
  | used notUnused notEmbryo =>
    by_cases first : slot = 0
    · simpa [Kernel.boot, userinit, initEmbryo, first] using fresh
    · exact absurd (by simp [Kernel.boot, userinit, initEmbryo, claim, Proc.zero, first]) notUnused
  | placed cpu occupies => cases occupies
  | current cpu stale => cases stale
  | stacked builder stage => cases stage
  | copied builder stage => cases stage

/-- A property of the accounts is kept if fresh processes have it, charging keeps
it and every `set_tickets` establishes it. -/
theorem step (accounts : kernel.Accounts property) {event : Event C} (fresh : property 1 1)
    (charged : ∀ slot, dispatches kind kernel event = some slot →
      property (kernel.table slot).tickets (kernel.table slot).pass →
      property (kernel.table slot).tickets
        (wrap ((kernel.table slot).pass + (10000 : Int).tdiv (kernel.table slot).tickets)))
    (ticketed : ∀ slot tickets, kernel.call event = some ⟨slot, .setTickets tickets⟩ →
      tickets ≠ 0 → property tickets ((10000 : Int).tdiv tickets))
    (step_eq : Kernel.step kind kernel event = some target) : target.Accounts property := by
  intro slot owed
  rcases owes_of_step step_eq owed with before | fresh_eq
  · have held := accounts slot before
    cases accountChange_of_step step_eq slot with
    | same tickets_eq pass_eq => rwa [tickets_eq, pass_eq]
    | charged dispatched nonzero tickets_eq pass_eq =>
      rw [tickets_eq, pass_eq]
      exact charged slot dispatched held
    | ticketed call_eq nonzero tickets_eq pass_eq =>
      rw [tickets_eq, pass_eq]
      exact ticketed slot _ call_eq nonzero
    | initialized init tickets_eq pass_eq => rwa [tickets_eq, pass_eq]
  · rwa [fresh_eq.1, fresh_eq.2]

end Accounts

end Kernel

end Xv6.Process
