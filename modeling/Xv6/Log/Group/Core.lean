import Xv6.Log.Core
import Xv6.Transition.Core

/-!
# File system operations over the log

Any set `P` of processes runs file system operations between `begin_op` and
`end_op`.  Each step is one critical section of `log.lock`, or a piece of code
that runs without the lock: the checks at the head of `log_write`, the changes an
operation makes to its buffers, and the stages of `commit`.

A process that sleeps in `begin_op` continues when `end_op` wakes the channel or
when it is killed; either way it tests the condition again.  A panic is recorded
in `trap` and stops the system, and so is a store behind the end of
`log.lh.block`.
-/

namespace Xv6.Log

open Xv6.Transition

universe u

/-- How far the `commit` of a process has come. -/
inductive Stage where
  | start
  | logged
  | headed
  | installed
  | cleared
  | finished
  deriving DecidableEq, Repr

/-- Where a process is.  `logging` has passed the checks of `log_write` and not
yet acquired the lock. -/
inductive Pc where
  | idle
  | asleep
  | woken
  | inOp
  | logging (blockno : Blockno)
  | commit (stage : Stage)
  deriving DecidableEq, Repr

/-- The process is between `begin_op` and `end_op`. -/
def Pc.active : Pc → Bool
  | .inOp | .logging _ => true
  | .idle | .asleep | .woken | .commit _ => false

/-- What stops the system. -/
inductive Trap where
  | panic (message : String)
  | overrun
  deriving DecidableEq, Repr

/-- The variables of `log.c`, the device, and where every process is. -/
structure State (P : Type u) where
  outstanding : Int
  committing : Bool
  lh : Header
  dev : Dev
  pc : P → Pc
  trap : Option Trap

/-- The steps of the system. -/
inductive Event (P : Type u) where
  | beginOp (process : P)
  | kill (process : P)
  | modify (process : P) (blockno : Blockno) (data : Block)
  | logWrite (process : P) (blockno : Blockno)
  | logRecord (process : P)
  | endOp (process : P)
  | commit (process : P)

namespace State

variable {P : Type u} [DecidableEq P]

/-- Move one process. -/
def setPc (state : State P) (process : P) (pc : Pc) : State P :=
  { state with pc := Function.update state.pc process pc }

/-- `wakeup(&log)`. -/
def wakeup (state : State P) : State P :=
  { state with
    pc := fun process => if state.pc process = .asleep then .woken else state.pc process }

/-- Stop the system. -/
def stop (state : State P) (trap : Trap) : State P :=
  { state with trap := some trap }

/-- One pass of the loop of `begin_op`. -/
def beginOp (state : State P) (process : P) : State P :=
  if state.committing then state.setPc process .asleep
  else if state.lh.Full state.outstanding then state.setPc process .asleep
  else { state with outstanding := state.outstanding + 1 }.setPc process .inOp

/-- The checks of `log_write`, made without the lock. -/
def logWrite (log : Area) (state : State P) (process : P) (blockno : Blockno) : State P :=
  if state.lh.block.length ≥ logsize ∨ (state.lh.block.length : Int) ≥ (log.size : Int) - 1 then
    state.stop (.panic "too big a transaction")
  else if state.outstanding < 1 then state.stop (.panic "log_write outside of trans")
  else state.setPc process (.logging blockno)

/-- The critical section of `log_write`: a block that is already listed is
absorbed. -/
def logRecord (state : State P) (process : P) (blockno : Blockno) : State P :=
  if blockno ∈ state.lh.block then state.setPc process .inOp
  else if room : state.lh.block.length < logsize then
    { state with lh := state.lh.push blockno room }.setPc process .inOp
  else state.stop .overrun

/-- The first critical section of `end_op`. -/
def endOp (state : State P) (process : P) : State P :=
  let left := { state with outstanding := state.outstanding - 1 }
  if state.committing then left.stop (.panic "log.committing")
  else if left.outstanding = 0 then
    { left with committing := true }.setPc process (.commit .start)
  else (left.setPc process .idle).wakeup

/-- The next stage of `commit`, and the last critical section of `end_op`. -/
def commit (log : Area) (state : State P) (process : P) (stage : Stage) : State P :=
  match stage with
  | .start =>
    if state.lh.block.length > 0 then
      { state with dev := log.writeLog state.lh state.dev }.setPc process (.commit .logged)
    else state.setPc process (.commit .finished)
  | .logged =>
    { state with dev := log.writeHead state.lh state.dev }.setPc process (.commit .headed)
  | .headed =>
    { state with dev := log.installTrans state.lh state.dev }.setPc process (.commit .installed)
  | .installed => { state with lh := .empty }.setPc process (.commit .cleared)
  | .cleared =>
    { state with dev := log.writeHead state.lh state.dev }.setPc process (.commit .finished)
  | .finished => ({ state with committing := false }.setPc process .idle).wakeup

/-- A disk full of zeros, with nothing in the cache. -/
def blankDev : Dev := .opened (fun _ _ => 0) fun _ => none

/-- The system when no process has called `begin_op` yet. -/
def boot (dev : Dev) : State P where
  outstanding := 0
  committing := false
  lh := .empty
  dev := dev
  pc := fun _ => .idle
  trap := none

/-- One step of the system; `none` when the event is not enabled. -/
def step (log : Area) : Step (State P) (Event P) := fun state event =>
  if state.trap ≠ none then none
  else
    match event with
    | .beginOp process =>
      match state.pc process with
      | .idle | .woken => some (state.beginOp process)
      | _ => none
    | .kill process =>
      match state.pc process with
      | .asleep => some (state.setPc process .woken)
      | _ => none
    | .modify process blockno data =>
      match state.pc process with
      | .inOp => some { state with dev := state.dev.store blockno data }
      | _ => none
    | .logWrite process blockno =>
      match state.pc process with
      | .inOp => some (state.logWrite log process blockno)
      | _ => none
    | .logRecord process =>
      match state.pc process with
      | .logging blockno => some (state.logRecord process blockno)
      | _ => none
    | .endOp process =>
      match state.pc process with
      | .inOp => some (state.endOp process)
      | _ => none
    | .commit process =>
      match state.pc process with
      | .commit stage => some (state.commit log process stage)
      | _ => none

/-- The outcomes of `step`, with the condition each event requires. -/
inductive Taken (log : Area) (state : State P) : Event P → State P → Prop
  | beginOp {process : P} (waiting : state.pc process = .idle ∨ state.pc process = .woken) :
      Taken log state (.beginOp process) (state.beginOp process)
  | kill {process : P} (asleep : state.pc process = .asleep) :
      Taken log state (.kill process) (state.setPc process .woken)
  | modify {process : P} (inOp : state.pc process = .inOp) (blockno : Blockno) (data : Block) :
      Taken log state (.modify process blockno data)
        { state with dev := state.dev.store blockno data }
  | logWrite {process : P} (inOp : state.pc process = .inOp) (blockno : Blockno) :
      Taken log state (.logWrite process blockno) (state.logWrite log process blockno)
  | logRecord {process : P} {blockno : Blockno} (logging : state.pc process = .logging blockno) :
      Taken log state (.logRecord process) (state.logRecord process blockno)
  | endOp {process : P} (inOp : state.pc process = .inOp) :
      Taken log state (.endOp process) (state.endOp process)
  | commit {process : P} {stage : Stage} (commits : state.pc process = .commit stage) :
      Taken log state (.commit process) (state.commit log process stage)

theorem taken_of_step {log : Area} {state target : State P} {event : Event P}
    (step_eq : step log state event = some target) :
    state.trap = none ∧ Taken log state event target := by
  unfold step at step_eq
  split at step_eq
  · contradiction
  · rename_i alive
    refine ⟨not_not.mp alive, ?_⟩
    cases event with
    | beginOp process =>
      simp only at step_eq
      split at step_eq
      · cases step_eq
        exact .beginOp (.inl ‹_›)
      · cases step_eq
        exact .beginOp (.inr ‹_›)
      · contradiction
    | kill process | modify process blockno data | logWrite process blockno | logRecord process
    | endOp process | commit process =>
      simp only at step_eq
      split at step_eq
      · cases step_eq
        constructor
        assumption
      · contradiction

end State

end Xv6.Log
