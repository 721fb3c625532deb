import Xv6.Process.Account.Changes
import Xv6.Process.Family.Tenure

/-!
# What the stride scheduler dispatches

On one CPU the second scan of `scheduler` dispatches the process that the first
scan selected, and no other: when the scan goes on after a switch, the selected
process still occupies its slot, so no later slot carries its `pid`.  Hence
every dispatched process has the least pass among the runnable ones.

This needs distinct identifiers and passes that are not negative, so the runs
are those that allocate fewer than `2^31 - 1` identifiers, pass ticket counts
from 1 to 10000 to `set_tickets` and overflow no pass.
-/

namespace Xv6.Process

open Xv6.Int32 Xv6.Transition Ptable Phase

/-- A call of `set_tickets` has an argument from 1 to 10000. -/
def Op.proper : Op → Bool
  | .setTickets tickets => 1 ≤ tickets ∧ tickets ≤ 10000
  | _ => true

namespace Kernel

variable {kernel target : Kernel Unit} {memory : Boot} {event : Event Unit}

/-- The stride of the process in a slot. -/
def strideOf (table : Ptable) (slot : Slot) : Int :=
  (10000 : Int).tdiv (table slot).tickets

/-- The step overflows no pass and passes a proper ticket count. -/
structure Regular (kernel : Kernel Unit) (event : Event Unit) : Prop where
  fits : ∀ slot ∈ dispatches .scheduler kernel event,
    (kernel.table slot).pass + strideOf kernel.table slot ≤ intMax
  proper : ∀ call ∈ kernel.call event, call.operation.proper = true

instance (kernel : Kernel Unit) (event : Event Unit) : Decidable (kernel.Regular event) :=
  decidable_of_iff (_ ∧ _) ⟨fun both => ⟨both.1, both.2⟩, fun regular => ⟨regular.1, regular.2⟩⟩

/-- Tickets from 1 to 10000, and a pass that has not overflowed. -/
structure Account (tickets pass : Int) : Prop where
  lower : 1 ≤ tickets
  upper : tickets ≤ 10000
  nonneg : 0 ≤ pass

theorem Account.fresh : Account 1 1 := ⟨by decide, by decide, by decide⟩

variable {tickets : Int}

theorem stride_pos (lower : 1 ≤ tickets) (upper : tickets ≤ 10000) :
    1 ≤ (10000 : Int).tdiv tickets := by
  rw [Int.tdiv_eq_ediv_of_nonneg (by decide)]
  exact Int.le_ediv_of_mul_le (by omega) (by omega)

/-- The pass after a dispatch that does not overflow. -/
theorem wrap_charge {pass : Int} (account : Account tickets pass)
    (fits : pass + (10000 : Int).tdiv tickets ≤ intMax) :
    wrap (pass + (10000 : Int).tdiv tickets) = pass + (10000 : Int).tdiv tickets := by
  have := stride_pos account.lower account.upper
  have := account.nonneg
  exact wrap_eq_self (by omega) fits

/-- Regular steps keep the accounts in range. -/
theorem accounts_of_step (accounts : kernel.Accounts Account) (regular : kernel.Regular event)
    (step_eq : step .scheduler kernel event = some target) : target.Accounts Account := by
  refine accounts.step .fresh ?_ ?_ step_eq
  · intro slot dispatched account
    have positive := stride_pos account.lower account.upper
    rw [wrap_charge account (regular.fits slot dispatched)]
    exact ⟨account.lower, account.upper, by have := account.nonneg; omega⟩
  · intro slot tickets call_eq nonzero
    obtain ⟨lower, upper⟩ : 1 ≤ tickets ∧ tickets ≤ 10000 := by
      simpa [Op.proper] using regular.proper _ call_eq
    exact ⟨lower, upper, by have := stride_pos lower upper; omega⟩

/-! ## The selected process -/

/-- While the CPU scans, a process that the rest of the scan would dispatch has
the least pass; while it has a process, that process was selected. -/
structure Selected (kernel : Kernel Unit) : Prop where
  least : ∀ next, (kernel.cpu ()).phase = .scan next → ∀ slot : Slot, next ≤ slot.val →
    Matches kernel.table (kernel.cpu ()).wPid slot →
    ∀ other, (kernel.table other).state = .runnable →
      (kernel.table slot).pass ≤ (kernel.table other).pass
  placed : ∀ slot, (kernel.cpu ()).phase.slot = some slot →
    kernel.table.Tenant slot (kernel.cpu ()).wPid

namespace Selected

theorem boot (memory : Boot) : (Kernel.boot memory).Selected :=
  ⟨nofun, nofun⟩

/-- A CPU that neither scans nor has a process. -/
theorem of_idle (idle : (target.cpu ()).phase = .idle) : target.Selected :=
  ⟨by simp [idle], by simp [idle]⟩

/-- The CPU has a process that was selected. -/
theorem of_tenant (slot : Slot) (occupies : (target.cpu ()).phase.slot = some slot)
    (tenant : target.table.Tenant slot (target.cpu ()).wPid) : target.Selected where
  least next scan := by
    rw [scan] at occupies
    contradiction
  placed other occupies' := by
    cases occupies.symm.trans occupies'
    exact tenant

theorem acquire (accounts : kernel.Accounts Account) (pids : PidTable kernel.table kernel.nextpid)
    {update : Cpu → Cpu} (phase : ∀ own, (update own).phase = .scan 0)
    (wPid : ∀ own, (update own).wPid = select kernel.table own.wPid) :
    ({ kernel with lock := some () }.setCpu () update).Selected := by
  refine ⟨fun next scan slot _ isMatch other ready => ?_, by simp [phase]⟩
  have nonneg slot (ready : (kernel.table slot).state = .runnable) : 0 ≤ (kernel.table slot).pass :=
    (accounts slot (.of_state ready (by decide) (by decide))).nonneg
  simp only [setCpu_cpu, if_pos, setCpu_table, wPid] at isMatch ready ⊢
  rcases select_spec kernel.table (kernel.cpu ()).wPid nonneg with ⟨noneReady, -⟩ | found
  · exact absurd ready (noneReady other)
  · obtain ⟨chosen, least, select_eq⟩ := found
    have same : slot = chosen := by
      apply pids.distinct
      · rw [isMatch.2, select_eq]
      · have := pids.named slot (by rw [isMatch.1]; decide)
        omega
    rw [same]
    exact least.least other (mem_slots other) ready

variable {slot : Slot}

/-- A process that runs keeps the CPU, so it stays the selected one. -/
theorem of_executes (selected : kernel.Selected) (occupancy : Occupancy kernel)
    (executes : (kernel.cpu ()).phase.executes = some slot)
    (step_eq : step .scheduler kernel event = some target)
    (occupies : (target.cpu ()).phase.slot = some slot)
    (wPid_eq : (target.cpu ()).wPid = (kernel.cpu ()).wPid) : target.Selected := by
  have running := occupancy.state_running executes
  have tenant : kernel.view.table.Tenant slot (kernel.cpu ()).wPid :=
    selected.placed slot (slot_of_executes executes)
  have effect := effect_of_step occupancy (by decide) step_eq
  refine .of_tenant slot occupies ?_
  rw [wPid_eq]
  exact tenant.of_alive (.inr (.inr running)) effect occupancy.forks

theorem back (selected : kernel.Selected) (pids : PidTable kernel.table kernel.nextpid)
    (returned : (kernel.cpu ()).phase = .back slot) :
    (kernel.back .scheduler () slot).Selected := by
  refine ⟨fun next scan later after isMatch => ?_, by simp [Kernel.back]⟩
  have next_eq : next = slot.val + 1 := by simpa [Kernel.back] using scan.symm
  simp only [Kernel.back, setCpu_cpu, if_pos, setCpu_table] at isMatch
  -- The selected process still has its slot, so no later slot has its identifier.
  have tenant := selected.placed slot (by rw [returned, Phase.slot])
  have same : later = slot := by
    apply pids.distinct
    · rw [isMatch.2, tenant.pid_eq]
    · have := pids.named later (by rw [isMatch.1]; decide)
      omega
  rw [same] at after
  omega

end Selected

variable {slot : Slot}

theorem Waited.cpu_eq {cpu : Unit} (waited : Waited kernel cpu slot target) :
    (target.cpu ()).phase.slot = some slot ∧ (target.cpu ()).wPid = (kernel.cpu ()).wPid := by
  cases waited <;> simp [releaseTo, enterSched, setPhase, setRet]

/-- An operation leaves the process on its CPU. -/
theorem cpu_of_performed {cpu : Unit} {operation : Op} (running : (kernel.cpu ()).phase = .run slot)
    (performed : Performed kernel cpu slot operation target) :
    (target.cpu ()).phase.slot = some slot ∧ (target.cpu ()).wPid = (kernel.cpu ()).wPid := by
  have unmoved : (kernel.cpu ()).phase.slot = some slot := by rw [running, Phase.slot]
  cases performed with
  | yield | sleep address | exit exiting => simp [yield, sleep, exit, enterSched, setPhase]
  | wait waited => exact waited.cpu_eq
  | _ => exact ⟨unmoved, rfl⟩

/-- The selection survives every step. -/
theorem Selected.step (selected : kernel.Selected) (occupancy : Occupancy kernel)
    (accounts : kernel.Accounts Account) (pids : PidTable kernel.table kernel.nextpid)
    (step_eq : step .scheduler kernel event = some target) : target.Selected := by
  obtain ⟨-, taken⟩ := taken_of_step step_eq
  cases taken with
  | stop stops halted =>
    obtain ⟨phase_eq, -, wPid_eq⟩ := halted.cpu ()
    exact ⟨by simpa only [phase_eq, wPid_eq, halted.table] using selected.least,
      by simpa only [phase_eq, wPid_eq, halted.table] using selected.placed⟩
  | draw idle drawn => exact ⟨by simp, by simp⟩
  | acquire free entry keeps selects =>
    exact .acquire accounts pids (fun own => (keeps own).1) (selects rfl)
  | grab single => contradiction
  | lookEnd scan ended => exact .of_idle (by simp [setPhase])
  | @look cpu next slot counter table scan picked accounted =>
    obtain ⟨found, search, pair_eq⟩ := Option.map_eq_some_iff.mp picked
    cases pair_eq
    have isMatch : Matches kernel.table (kernel.cpu ()).wPid slot := by
      simpa using List.find?_some search
    obtain ⟨count, pass, rfl⟩ := account_eq_some accounted
    refine .of_tenant slot (by simp) ⟨?_, by simpa using isMatch.2⟩
    simp only [setCpu_table, modify_self, isMatch.1]
    exact ⟨by decide, by decide⟩
  | @switch cpu slot chosen =>
    have tenant := selected.placed slot (by rw [chosen, Phase.slot])
    refine .of_tenant slot (by simp [setPhase]) ⟨?_, ?_⟩
    · simp only [setPhase, setCpu_table, setState, modify_self]
      exact ⟨by decide, by decide⟩
    · simpa [setPhase, setState] using tenant.pid_eq
  | resume resumed | resumeSleep resumed =>
    exact selected.of_executes occupancy (by rw [resumed, executes]) step_eq
      (by simp [releaseTo, setPhase]) (by simp [releaseTo, setPhase])
  | resumeWait resumed waits waited =>
    exact selected.of_executes occupancy (by rw [resumed, executes]) step_eq
      waited.cpu_eq.1 waited.cpu_eq.2
  | @leave cpu slot leaving =>
    have tenant := selected.placed slot (by rw [leaving, Phase.slot])
    exact .of_tenant slot (by simp [setPhase]) (by simpa [setPhase] using tenant)
  | back returned => exact selected.back pids returned
  | wakeup free =>
    -- The lock is free, so the CPU is idle or runs its process.
    have released : (kernel.cpu ()).phase.holds = false := by
      by_contra holds
      have held := (occupancy.holder ()).mpr (by simpa using holds)
      rw [free] at held
      contradiction
    cases phase_eq : (kernel.cpu ()).phase with
    | run slot =>
      exact selected.of_executes occupancy (by rw [phase_eq, executes]) step_eq
        (by rw [phase_eq, Phase.slot]) rfl
    | idle => exact .of_idle phase_eq
    | drawn => exact ⟨by simp [phase_eq], by simp [phase_eq]⟩
    | _ =>
      rw [phase_eq] at released
      contradiction
  | op running free performed =>
    obtain ⟨occupies, wPid_eq⟩ := cpu_of_performed running performed
    exact selected.of_executes occupancy (by rw [running, executes]) step_eq occupies wPid_eq

/-- A slot that is still to be visited. -/
theorem le_of_mem_drop_slots {next : Nat} (member : slot ∈ slots.drop next) : next ≤ slot.val := by
  obtain ⟨index, bound, slot_eq⟩ := List.mem_drop_iff_getElem.mp member
  have value_eq : next + index = slot.val := by
    simpa [slots] using congrArg Fin.val slot_eq
  omega

/-- The dispatched process has the least pass of the runnable ones. -/
theorem Selected.dispatch_least (selected : kernel.Selected)
    (dispatched : dispatches .scheduler kernel event = some slot) :
    (kernel.table slot).state = .runnable ∧
      ∀ other, (kernel.table other).state = .runnable →
        (kernel.table slot).pass ≤ (kernel.table other).pass := by
  cases event with
  | look cpu =>
    simp only [dispatches] at dispatched
    split at dispatched
    · rename_i next scan
      simp only [pick, Option.map_map, Function.comp_def, Option.map_id'] at dispatched
      have isMatch : Matches kernel.table (kernel.cpu ()).wPid slot := by
        simpa using List.find?_some dispatched
      have later := le_of_mem_drop_slots (List.mem_of_find?_eq_some dispatched)
      exact ⟨isMatch.1, selected.least next scan slot later isMatch⟩
    · contradiction
  | _ => contradiction

/-! ## Runs -/

/-- What holds in every state of a regular run. -/
structure Sound (kernel : Kernel Unit) : Prop where
  occupancy : Occupancy kernel
  pids : PidTable kernel.table kernel.nextpid
  accounts : kernel.Accounts Account
  selected : kernel.Selected

/-- The run allocates fewer than `2^31 - 1` identifiers, and every step of it is
regular. -/
structure RegularRun (memory : Boot) (events : List (Event Unit)) : Prop where
  few : 1 + (countAlong (step .scheduler) allocates (boot memory) events : Int) < intMax
  regular : Along (step .scheduler) Regular (boot memory) events

theorem RegularRun.of_append {first second : List (Event Unit)}
    (regularRun : RegularRun memory (first ++ second))
    (execution : run (step .scheduler) (boot memory) first = some kernel) :
    RegularRun memory first := by
  obtain ⟨few, regular⟩ := regularRun
  rw [countAlong_append execution] at few
  exact ⟨by omega, ((along_append execution).mp regular).1⟩

theorem sound_of_run {events : List (Event Unit)}
    (execution : run (step .scheduler) (boot memory) events = some kernel)
    (regularRun : RegularRun memory events) : kernel.Sound := by
  have both : RegularRun memory events → kernel.Accounts Account ∧ kernel.Selected := by
    refine run_induction (fun events (kernel : Kernel Unit) =>
      RegularRun memory events → kernel.Accounts Account ∧ kernel.Selected)
      (fun _ => ⟨.boot .fresh memory, .boot memory⟩) ?_ execution
    intro events state event target before ih step_eq regularRun
    have earlier := regularRun.of_append before
    obtain ⟨accounts, selected⟩ := ih earlier
    have regular := ((along_concat before).mp regularRun.regular).2
    exact ⟨accounts_of_step accounts regular step_eq,
      selected.step (.of_reachable (by decide) (.of_run before)) accounts
        (pidTable_of_run (by decide) before earlier.few) step_eq⟩
  exact ⟨.of_reachable (by decide) (.of_run execution),
    pidTable_of_run (by decide) execution regularRun.few,
    (both regularRun).1, (both regularRun).2⟩

end Kernel

end Xv6.Process
