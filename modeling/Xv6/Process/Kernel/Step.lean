import Xv6.Process.Kernel.Core
import Xv6.Transition.Core

/-!
# Steps of the kernel

The step function of the multiprocessor kernel and its inversion: `Taken` lists
every outcome of a step with the condition under which it is enabled, and
`Performed` does the same for the operations of a running process.  Invariant
proofs go by cases on these two relations.
-/

namespace Xv6.Process

open Xv6.Int32 Xv6.Transition Option

universe u

/-- An operation with the process that performs it. -/
structure Call where
  slot : Slot
  operation : Op

namespace Kernel

variable {C : Type u} [DecidableEq C]

/-- One step of the kernel; `none` when the event is not enabled. -/
def step (kind : SchedKind) : Step (Kernel C) (Event C) := fun kernel event =>
  if kernel.trap ≠ none then none
  else
    match event with
    | .draw cpu =>
      if kind = .scheduler1 ∧ (kernel.cpu cpu).phase = .idle then some (kernel.draw cpu)
      else none
    | .acquire cpu =>
      if kernel.lock = none ∧ (kernel.cpu cpu).phase = kind.entry then
        some (kernel.acquire kind cpu)
      else none
    | .look cpu =>
      match (kernel.cpu cpu).phase with
      | .scan next => some (kernel.look kind cpu next)
      | _ => none
    | .switch cpu =>
      match (kernel.cpu cpu).phase with
      | .chosen slot => some (kernel.switch cpu slot)
      | _ => none
    | .resume cpu =>
      match (kernel.cpu cpu).phase with
      | .resumed slot => some (kernel.resume cpu slot)
      | _ => none
    | .leave cpu =>
      match (kernel.cpu cpu).phase with
      | .leaving slot => some (kernel.leave cpu slot)
      | _ => none
    | .back cpu =>
      match (kernel.cpu cpu).phase with
      | .back slot => some (kernel.back kind cpu slot)
      | _ => none
    | .wakeup address =>
      if kernel.lock = none then
        some { kernel with table := kernel.table.wakeup1 (some (.addr address)) }
      else none
    | .op cpu operation =>
      match (kernel.cpu cpu).phase with
      | .run slot =>
        if operation.locks = true ∧ kernel.lock ≠ none then none
        else kernel.perform cpu slot operation
      | _ => none

/-! ## What a step can do -/

/-- The call a kernel event makes, if it is an operation of a running process. -/
def call (kernel : Kernel C) : Event C → Option Call
  | .op cpu operation =>
    match (kernel.cpu cpu).phase with
    | .run slot => some ⟨slot, operation⟩
    | _ => none
  | _ => none

variable {kernel : Kernel C} {cpu : C} {slot : Slot} {operation : Op}

omit [DecidableEq C] in
theorem call_op (running : (kernel.cpu cpu).phase = .run slot) :
    kernel.call (.op cpu operation) = some ⟨slot, operation⟩ := by
  simp [call, running]

/-- The process an event dispatches, from its choice to `proc = p`. -/
def dispatches (kind : SchedKind) (kernel : Kernel C) : Event C → Option Slot
  | .look cpu =>
    match (kernel.cpu cpu).phase with
    | .scan next => (pick kind kernel.table (kernel.cpu cpu) next).map Prod.fst
    | _ => none
  | .acquire cpu =>
    if kind = .schedulerB then selectB kernel.table (kernel.cpu cpu).current else none
  | _ => none

/-- The process that runs a pass of the loop of `wait` in a step. -/
def waiter (kernel : Kernel C) : Event C → Option Slot
  | .op cpu .wait =>
    match (kernel.cpu cpu).phase with
    | .run slot => some slot
    | _ => none
  | .resume cpu =>
    match (kernel.cpu cpu).phase with
    | .resumed slot => if (kernel.thread slot).resume = .wait then some slot else none
    | _ => none
  | _ => none

/-- The event allocates an identifier. -/
def allocates (kernel : Kernel C) : Event C → Bool
  | .op _ .forkClaim => kernel.table.findUnused.isSome
  | _ => false

/-- `total_tickets` after an event. -/
def totalAfter (total : Int) : Event C → Int
  | .op _ (.setTickets tickets) => wrap (total + tickets)
  | _ => total

/-- What stops the kernel in a step. -/
inductive Stops (kind : SchedKind) (kernel : Kernel C) : Event C → Trap → Prop
  | draw {cpu : C} (failed : draw? (wrap ((kernel.cpu cpu).sd + 1)) kernel.totalTickets = none) :
      Stops kind kernel (.draw cpu) .divideError
  | pageFault {cpu : C} : Stops kind kernel (.acquire cpu) .pageFault
  | charge {event : Event C} (slot : Slot) (dispatched : dispatches kind kernel event = some slot)
      (failed : account kind kernel.table slot = none) : Stops kind kernel event .divideError
  | useAfterFree {cpu : C} : Stops kind kernel (.switch cpu) .useAfterFree
  | zombie {cpu : C} {slot : Slot} (resumed : (kernel.cpu cpu).phase = .resumed slot)
      (dead : (kernel.thread slot).resume = .zombie) :
      Stops kind kernel (.resume cpu) (.panic "zombie exit")
  | running {cpu : C} : Stops kind kernel (.leave cpu) (.panic "sched running")
  | init {cpu : C} : Stops kind kernel (.op cpu .closeFiles) (.panic "init exiting")
  | setTickets {cpu : C} : Stops kind kernel (.op cpu (.setTickets 0)) .divideError

/-- What a step that stops the kernel has changed before. -/
structure Halted (kind : SchedKind) (kernel target : Kernel C) : Prop where
  table : target.table = kernel.table
  thread : target.thread = kernel.thread
  cpu : ∀ cpu, (target.cpu cpu).phase = (kernel.cpu cpu).phase ∧
    (target.cpu cpu).proc = (kernel.cpu cpu).proc ∧ (target.cpu cpu).wPid = (kernel.cpu cpu).wPid
  current : ∀ cpu, (target.cpu cpu).current = (kernel.cpu cpu).current ∨
    (target.cpu cpu).current = selectB kernel.table (kernel.cpu cpu).current
  lock : kind = .schedulerB ∨ target.lock = kernel.lock
  nextpid : target.nextpid = kernel.nextpid
  initproc : target.initproc = kernel.initproc

omit [DecidableEq C] in
theorem Halted.activity {kind : SchedKind} {kernel target : Kernel C}
    (halted : Halted kind kernel target) : target.activity = kernel.activity := by
  unfold Kernel.activity
  rw [halted.thread]

/-- The outcomes of the loop of `wait`. -/
inductive Waited (kernel : Kernel C) (cpu : C) (slot : Slot) : Kernel C → Prop
  | reap {child : Slot} (found : kernel.table.waitScan slot false slots = .found child) :
      Waited kernel cpu slot (({ kernel with table := kernel.table.reap child }.setRet slot
        (kernel.table child).pid).releaseTo cpu slot)
  | fail {havekids : Bool} (finished : kernel.table.waitScan slot false slots = .finished havekids)
      (gives : havekids = false ∨ (kernel.table slot).killed = true) :
      Waited kernel cpu slot ((kernel.setRet slot (-1)).releaseTo cpu slot)
  | sleep {havekids : Bool}
      (finished : kernel.table.waitScan slot false slots = .finished havekids) :
      Waited kernel cpu slot
        ({ kernel with table := kernel.table.goToSleep slot (.proc slot) }.enterSched cpu slot
          .wait)

/-- The outcomes of `perform` that do not stop the kernel. -/
inductive Performed (kernel : Kernel C) (cpu : C) (slot : Slot) : Op → Kernel C → Prop
  | yield : Performed kernel cpu slot .yield (kernel.yield cpu slot)
  | sleep (address : Nat) :
      Performed kernel cpu slot (.sleep address) (kernel.sleep cpu slot address)
  | closeFiles (notInit : slot ≠ kernel.initproc) (console : List String) :
      Performed kernel cpu slot .closeFiles
        ({ kernel with
          console := console, table := kernel.table.closeFiles slot }.setActivity slot .exiting)
  | exit (exiting : kernel.activity slot = .exiting) :
      Performed kernel cpu slot .exit (kernel.exit cpu slot)
  | wait {target : Kernel C} (waited : Waited kernel cpu slot target) :
      Performed kernel cpu slot .wait target
  | forkFull (full : kernel.table.findUnused = none) :
      Performed kernel cpu slot .forkClaim (kernel.setRet slot (-1))
  | forkClaim {child : Slot} (found : kernel.table.findUnused = some child) :
      Performed kernel cpu slot .forkClaim
        ({ kernel with
          table := kernel.table.claim child kernel.nextpid
          nextpid := wrap (kernel.nextpid + 1) }.setActivity slot (.claimed child))
  | stackFail {child : Slot} (claimed : kernel.activity slot = .claimed child) :
      Performed kernel cpu slot (.forkStack none)
        (kernel.forkFail slot (kernel.table.abandonStack child))
  | forkStack {child : Slot} (claimed : kernel.activity slot = .claimed child)
      (kstack : Nat) :
      Performed kernel cpu slot (.forkStack (some kstack)) (kernel.forkStack slot child kstack)
  | copyFail {child : Slot} (stacked : kernel.activity slot = .stacked child) :
      Performed kernel cpu slot (.forkCopy none)
        (kernel.forkFail slot (kernel.table.abandonCopy child))
  | forkCopy {child : Slot} (stacked : kernel.activity slot = .stacked child)
      (pgdir : Nat) :
      Performed kernel cpu slot (.forkCopy (some pgdir)) (kernel.forkCopy slot child pgdir)
  | forkReady {child : Slot} (copied : kernel.activity slot = .copied child) :
      Performed kernel cpu slot .forkReady (kernel.forkReady slot child)
  | kill (pid : Int) : Performed kernel cpu slot (.kill pid) (kernel.kill slot pid)
  | setTickets {tickets : Int} (nonzero : tickets ≠ 0) (console : List String) :
      Performed kernel cpu slot (.setTickets tickets)
        ({ kernel with
          totalTickets := wrap (kernel.totalTickets + tickets)
          table := kernel.table.modify slot fun proc =>
            { proc with tickets := tickets, pass := (10000 : Int).tdiv tickets }
          console := console }.setRet slot 0)
  | setOfile (user : kernel.activity slot = .user) (fd : Fin nofile)
      (file : Option Nat) :
      Performed kernel cpu slot (.setOfile fd file) (kernel.setOfile slot fd file)
  | fault : Performed kernel cpu slot .fault (kernel.fault slot)

/-- The outcomes of `step`, with the condition each one requires. -/
inductive Taken (kind : SchedKind) (kernel : Kernel C) : Event C → Kernel C → Prop
  | stop {event : Event C} {target : Kernel C} {trap : Trap} (stops : Stops kind kernel event trap)
      (halted : Halted kind kernel target) (trap_eq : target.trap = some trap)
      (total_eq : target.totalTickets = totalAfter kernel.totalTickets event) :
      Taken kind kernel event target
  | draw {cpu : C} {winner : Nat} (idle : (kernel.cpu cpu).phase = .idle)
      (drawn : draw? (wrap ((kernel.cpu cpu).sd + 1)) kernel.totalTickets = some winner) :
      Taken kind kernel (.draw cpu) (kernel.setCpu cpu fun own =>
        { own with sd := wrap ((kernel.cpu cpu).sd + 1), winner := winner, phase := .drawn })
  | acquire {cpu : C} {update : Cpu → Cpu} (free : kernel.lock = none)
      (entry : (kernel.cpu cpu).phase = kind.entry)
      (keeps : ∀ own, (update own).phase = .scan 0 ∧ (update own).proc = own.proc ∧
        (update own).current = own.current)
      (selects : kind = .scheduler → ∀ own, (update own).wPid = select kernel.table own.wPid) :
      Taken kind kernel (.acquire cpu) ({ kernel with lock := some cpu }.setCpu cpu update)
  | grab {cpu : C} {slot : Slot} {table : Ptable} (single : kind = .schedulerB)
      (selected : selectB kernel.table (kernel.cpu cpu).current = some slot)
      (accounted : account kind kernel.table slot = some table) :
      Taken kind kernel (.acquire cpu)
        (({ kernel with lock := some cpu, table := table }.setCpu cpu fun own =>
          { own with current := selectB kernel.table (kernel.cpu cpu).current }).setCpu cpu
            fun own => { own with proc := some slot, phase := .chosen slot })
  | lookEnd {cpu : C} {next : Nat} (scan : (kernel.cpu cpu).phase = .scan next)
      (ended : pick kind kernel.table (kernel.cpu cpu) next = none) :
      Taken kind kernel (.look cpu) ({ kernel with lock := none }.setPhase cpu .idle)
  | look {cpu : C} {next : Nat} {slot : Slot} {counter : Int} {table : Ptable}
      (scan : (kernel.cpu cpu).phase = .scan next)
      (picked : pick kind kernel.table (kernel.cpu cpu) next = some (slot, counter))
      (accounted : account kind kernel.table slot = some table) :
      Taken kind kernel (.look cpu)
        (({ kernel with table := table }.setCpu cpu fun own =>
          { own with counter := counter }).setCpu cpu fun own =>
            { own with proc := some slot, phase := .chosen slot })
  | switch {cpu : C} {slot : Slot} (chosen : (kernel.cpu cpu).phase = .chosen slot) :
      Taken kind kernel (.switch cpu)
        ({ kernel with table := kernel.table.setState slot .running }.setPhase cpu (.resumed slot))
  | resume {cpu : C} {slot : Slot} (resumed : (kernel.cpu cpu).phase = .resumed slot)
      (awake : (kernel.thread slot).resume ≠ .wait) :
      Taken kind kernel (.resume cpu) (kernel.releaseTo cpu slot)
  | resumeSleep {cpu : C} {slot : Slot} (resumed : (kernel.cpu cpu).phase = .resumed slot)
      (awake : (kernel.thread slot).resume ≠ .wait) :
      Taken kind kernel (.resume cpu)
        ({ kernel with table := kernel.table.clearChan slot }.releaseTo cpu slot)
  | resumeWait {cpu : C} {slot : Slot} {target : Kernel C}
      (resumed : (kernel.cpu cpu).phase = .resumed slot)
      (waits : (kernel.thread slot).resume = .wait)
      (waited : Waited { kernel with table := kernel.table.clearChan slot } cpu slot target) :
      Taken kind kernel (.resume cpu) target
  | leave {cpu : C} {slot : Slot} (leaving : (kernel.cpu cpu).phase = .leaving slot) :
      Taken kind kernel (.leave cpu) (kernel.setPhase cpu (.back slot))
  | back {cpu : C} {slot : Slot} (returned : (kernel.cpu cpu).phase = .back slot) :
      Taken kind kernel (.back cpu) (kernel.back kind cpu slot)
  | wakeup {address : Nat} (free : kernel.lock = none) :
      Taken kind kernel (.wakeup address)
        { kernel with table := kernel.table.wakeup1 (some (.addr address)) }
  | op {cpu : C} {slot : Slot} {operation : Op} {target : Kernel C}
      (running : (kernel.cpu cpu).phase = .run slot)
      (free : operation.locks = true → kernel.lock = none)
      (performed : Performed kernel cpu slot operation target) :
      Taken kind kernel (.op cpu operation) target

/-! ## Every step is listed -/

variable {kind : SchedKind} {event : Event C} {target : Kernel C}

theorem waited (kernel : Kernel C) (cpu : C) (slot : Slot) :
    Waited kernel cpu slot (kernel.waitLoop cpu slot) := by
  unfold waitLoop
  split
  · exact .reap ‹_›
  · split
    · exact .fail ‹_› ‹_›
    · exact .sleep ‹_›

/-- The kernel stops before it has stored anything that schedulers or processes
see. -/
theorem Stops.taken {console : List String} {total : Int} {trap : Trap}
    (stops : Stops kind kernel event trap)
    (total_eq : total = totalAfter kernel.totalTickets event) :
    Taken kind kernel event ({ kernel with console := console, totalTickets := total }.stop trap) :=
  .stop stops ⟨rfl, rfl, fun _ => ⟨rfl, rfl, rfl⟩, fun _ => .inl rfl, .inr rfl, rfl, rfl⟩ rfl
    total_eq

theorem taken_look {next : Nat} (scan : (kernel.cpu cpu).phase = .scan next) :
    Taken kind kernel (.look cpu) (kernel.look kind cpu next) := by
  unfold look
  split
  · exact .lookEnd scan ‹_›
  · rename_i slot counter picked
    unfold dispatch
    split
    · refine .stop (.charge slot (by simp [dispatches, scan, picked]) ‹_›)
        ⟨rfl, rfl, fun other => ?_, fun other => .inl ?_, .inr rfl, rfl, rfl⟩ rfl rfl
      all_goals by_cases own : other = cpu <;> simp [stop, own]
    · exact .look scan picked ‹_›

/-- `scheduler_b` dispatches the process it has selected at once. -/
theorem taken_acquire (free : kernel.lock = none) (entry : (kernel.cpu cpu).phase = kind.entry) :
    Taken kind kernel (.acquire cpu) (kernel.acquire kind cpu) := by
  unfold acquire
  cases kind with
  | scheduler => exact .acquire free entry (fun _ => ⟨rfl, rfl, rfl⟩) fun _ _ => rfl
  | scheduler1 | scheduler2 => exact .acquire free entry (fun _ => ⟨rfl, rfl, rfl⟩) nofun
  | schedulerB =>
    have halted (trap : Trap) : Halted .schedulerB kernel
        (({ kernel with lock := some cpu }.setCpu cpu fun own =>
          { own with current := selectB kernel.table (kernel.cpu cpu).current }).stop trap) := by
      refine ⟨rfl, rfl, fun other => ?_, fun other => ?_, .inl rfl, rfl, rfl⟩
      all_goals by_cases own : other = cpu <;> simp [stop, own]
    dsimp only
    split
    · exact .stop .pageFault (halted _) rfl rfl
    · rename_i slot selected
      unfold dispatch
      split
      · exact .stop (.charge slot (by simp [dispatches, selected]) ‹_›) (halted _) rfl rfl
      · exact .grab rfl selected ‹_›

theorem taken_resume (resumed : (kernel.cpu cpu).phase = .resumed slot) :
    Taken kind kernel (.resume cpu) (kernel.resume cpu slot) := by
  unfold resume
  split
  · exact .resume resumed (by simp [*])
  · exact .resume resumed (by simp [*])
  · exact .resumeSleep resumed (by simp [*])
  · exact .resumeWait resumed ‹_› (waited _ cpu slot)
  · exact (Stops.zombie resumed ‹_›).taken rfl

/-- The operations of a running process; `exit` of the first process and
`set_tickets(0)` stop the kernel. -/
theorem taken_perform (running : (kernel.cpu cpu).phase = .run slot)
    (free : operation.locks = true → kernel.lock = none)
    (performed : kernel.perform cpu slot operation = some target) :
    Taken kind kernel (.op cpu operation) target := by
  unfold perform at performed
  split at performed
  all_goals first
    | contradiction
    | cases some.inj performed
  · exact .op running free .yield
  · exact .op running free (.sleep _)
  · unfold closeFiles
    split
    · exact Stops.init.taken rfl
    · exact .op running free (.closeFiles ‹_› _)
  · exact .op running free (.exit ‹_›)
  · exact .op running free (.wait (waited kernel cpu slot))
  · unfold forkClaim
    split
    · exact .op running free (.forkFull ‹_›)
    · exact .op running free (.forkClaim ‹_›)
  · exact .op running free (.stackFail ‹_›)
  · exact .op running free (.forkStack ‹_› _)
  · exact .op running free (.copyFail ‹_›)
  · exact .op running free (.forkCopy ‹_› _)
  · exact .op running free (.forkReady ‹_›)
  · exact .op running free (.kill _)
  · unfold setTickets Ptable.setTickets
    split
    · rename_i tickets _ _ failed
      obtain rfl : tickets = 0 := by simpa using failed
      exact Stops.setTickets.taken rfl
    · rename_i stored
      obtain ⟨stride, divided, rfl⟩ := map_eq_some_iff.mp stored
      obtain ⟨nonzero, rfl⟩ := divide?_eq_some_iff.mp divided
      exact .op running free (.setTickets nonzero _)
  · exact .op running free (.setOfile ‹_› _ _)
  · exact .op running free .fault

/-- Every successful step is one of the listed outcomes, taken by a kernel that
has not stopped. -/
theorem taken_of_step (step_eq : step kind kernel event = some target) :
    kernel.trap = none ∧ Taken kind kernel event target := by
  obtain ⟨alive, step_eq⟩ := ite_none_left_eq_some.mp step_eq
  refine ⟨not_not.mp alive, ?_⟩
  cases event with
  | draw cpu =>
    obtain ⟨⟨lottery, idle⟩, drawn⟩ := ite_none_right_eq_some.mp step_eq
    cases drawn
    unfold draw
    dsimp only
    split
    · exact (Stops.draw ‹_›).taken rfl
    · exact .draw idle ‹_›
  | acquire cpu =>
    obtain ⟨⟨free, entry⟩, acquired⟩ := ite_none_right_eq_some.mp step_eq
    cases acquired
    exact taken_acquire free entry
  | wakeup address =>
    obtain ⟨free, woken⟩ := ite_none_right_eq_some.mp step_eq
    cases woken
    exact .wakeup free
  | look cpu | resume cpu | back cpu =>
    simp only at step_eq
    split at step_eq
    · cases step_eq
      first
        | exact taken_look ‹_›
        | exact taken_resume ‹_›
        | exact .back ‹_›
    · contradiction
  | switch cpu =>
    simp only [switch] at step_eq
    split at step_eq
    · cases step_eq
      split
      · exact Stops.useAfterFree.taken rfl
      · exact .switch ‹_›
    · contradiction
  | leave cpu =>
    simp only [leave] at step_eq
    split at step_eq
    · cases step_eq
      split
      · exact Stops.running.taken rfl
      · exact .leave ‹_›
    · contradiction
  | op cpu operation =>
    simp only at step_eq
    split at step_eq
    · obtain ⟨enabled, performed⟩ := ite_none_left_eq_some.mp step_eq
      refine taken_perform ‹_› (fun locks => ?_) performed
      by_contra held
      exact enabled ⟨locks, held⟩
    · contradiction

/-! ## The global counters -/

/-- Only `allocproc` moves the identifier counter, and only `set_tickets` the
ticket total. -/
theorem step_counters (step_eq : step kind kernel event = some target) :
    target.nextpid =
        (if kernel.allocates event = true then wrap (kernel.nextpid + 1) else kernel.nextpid) ∧
      target.totalTickets = totalAfter kernel.totalTickets event := by
  obtain ⟨-, taken⟩ := taken_of_step step_eq
  cases taken with
  | stop stops halted trap_eq total_eq =>
    refine ⟨?_, total_eq⟩
    rw [halted.nextpid]
    cases stops with
    | @charge event slot dispatched failed => cases event <;> first | rfl | cases dispatched
    | _ => rfl
  | resumeWait resumed waits waited => cases waited <;> exact ⟨rfl, rfl⟩
  | op running free performed =>
    cases performed with
    | wait waited => cases waited <;> exact ⟨rfl, rfl⟩
    | forkFull full => simp [allocates, full, totalAfter, setRet, setThread]
    | forkClaim found => simp [allocates, found, totalAfter, setActivity, setThread]
    | _ => exact ⟨rfl, rfl⟩
  | _ => exact ⟨rfl, rfl⟩

end Kernel

end Xv6.Process
