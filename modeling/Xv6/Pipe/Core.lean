import Xv6.Machine.Block
import Xv6.Machine.RingBuffer
import Xv6.Process.Table
import Xv6.Transition.Core

/-!
# Pipes

The processes of the table call `pipewrite`, `piperead` and `pipeclose` of
`pipe.c` on one pipe, and anyone may be killed.  Every acquisition and release of
the pipe's lock is a step of its own, and so is every iteration of the copy
loops, every `wakeup`, and every stage of `sleep` up to `sched`; `wakeup` and
`kill` take `ptable.lock` for one step.

Besides the pipe, the state keeps what the processes did: the activation record
of every call of `pipewrite`, the bytes stored, each with the call that stored
it, and the bytes that calls of `piperead` returned.
-/

namespace Xv6.Pipes

open Xv6.Process Xv6.Transition

/-- `PIPESIZE`. -/
def pipesize : Nat := 512

instance : NeZero pipesize := ⟨by decide⟩

/-- `struct pipe` without its lock.  The counters are `uint`s. -/
structure Pipe where
  ring : RingBuffer Byte pipesize 32
  readopen : Bool
  writeopen : Bool

/-- The channel `&p->nread`: the lock takes 52 bytes and the data 512. -/
def nreadChan (p : Nat) : Chan := .addr (p + 564)

/-- The channel `&p->nwrite`. -/
def nwriteChan (p : Nat) : Chan := .addr (p + 568)

/-- The lock of the pipe and `ptable.lock`. -/
inductive Lock where
  | pipe
  | ptable
  deriving DecidableEq, Repr

/-- Who may hold a lock.  A process that enters `sched` leaves `ptable.lock` to
the scheduler of its cpu. -/
inductive Holder where
  | process (slot : Slot)
  | scheduler
  deriving DecidableEq, Repr

/-- The stages of `sleep(chan, &p->lock)`. -/
inductive Nap where
  /-- at `acquire(&ptable.lock)` -/
  | calling
  /-- at `release(lk)` -/
  | handover
  /-- at `proc->chan = chan` -/
  | drowsy
  /-- in `sched` -/
  | asleep
  /-- back from `sched` -/
  | rising
  deriving DecidableEq, Repr

/-- The places of `pipewrite`. -/
inductive WriteAt where
  /-- at `acquire(&p->lock)`, also at the end of `sleep` -/
  | entering
  /-- at the head of the loops -/
  | loop
  /-- the buffer is full: at `wakeup(&p->nread)` -/
  | signal
  /-- in `sleep(&p->nwrite, &p->lock)` -/
  | nap (nap : Nap)
  /-- behind the loop: at `wakeup(&p->nread)` -/
  | done
  /-- at `release(&p->lock)`, before the return -/
  | leave (ret : Int)
  deriving DecidableEq, Repr

/-- The places of `piperead`. -/
inductive ReadAt where
  /-- at `acquire(&p->lock)`, also at the end of `sleep` -/
  | entering
  /-- at the test for an empty pipe -/
  | test
  /-- in `sleep(&p->nread, &p->lock)` -/
  | nap (nap : Nap)
  /-- at the head of the copy loop, with the bytes copied so far -/
  | copy (got : List Byte)
  /-- at `wakeup(&p->nwrite)` -/
  | signal (got : List Byte)
  /-- at `release(&p->lock)`, before the return -/
  | leave (got : List Byte) (ret : Int)
  deriving DecidableEq, Repr

/-- The places of `pipeclose`. -/
inductive CloseAt where
  /-- at `acquire(&p->lock)` -/
  | entering
  /-- at the store to `writeopen` or `readopen` -/
  | flag
  /-- at the `wakeup` -/
  | signal
  /-- at `release(&p->lock)` -/
  | leave
  deriving DecidableEq, Repr

/-- What a process does with the pipe.  A writer is in the call with the given
number. -/
inductive Pc where
  | idle
  | write (call : Nat) (place : WriteAt)
  | read (n : Int) (place : ReadAt)
  | close (writable : Bool) (place : CloseAt)
  deriving DecidableEq, Repr

/-- The activation record of a call of `pipewrite`; `since` is the value of `i`
when the call last acquired the lock. -/
structure Frame where
  n : Int
  addr : Nat → Byte
  i : Nat
  since : Nat
  ret : Option Int

/-- The pipe, the processes, and the history of the pipe. -/
structure State where
  table : Ptable
  locks : Lock → Option Holder
  pipe : Pipe
  freed : Bool
  pc : Slot → Pc
  calls : Nat
  frames : Nat → Frame
  stored : List (Nat × Byte)
  returned : List Byte

/-- The steps of the system. -/
inductive Event where
  /-- a process calls `pipewrite(p, addr, n)` -/
  | write (slot : Slot) (n : Int) (addr : Nat → Byte)
  /-- a process calls `piperead(p, addr, n)` -/
  | read (slot : Slot) (n : Int)
  /-- a process calls `pipeclose(p, writable)` -/
  | close (slot : Slot) (writable : Bool)
  /-- the next step of a process in its call -/
  | go (slot : Slot)
  /-- a scheduler switches to a process -/
  | dispatch (slot : Slot)
  /-- a scheduler releases `ptable.lock` -/
  | schedRelease
  /-- `kill(pid)` -/
  | kill (pid : Int)
  /-- `wakeup` of a channel by anyone else -/
  | wakeup (chan : Option Chan)
  /-- a process outside of the pipe changes its record in any way, for instance
  by sleeping on some channel for another reason -/
  | other (slot : Slot) (proc : Proc)

namespace State

/-- Move one process. -/
def move (state : State) (slot : Slot) (pc : Pc) : State :=
  { state with pc := Function.update state.pc slot pc }

/-- Store the holder of a lock. -/
def setLock (state : State) (lock : Lock) (holder : Option Holder) : State :=
  { state with locks := Function.update state.locks lock holder }

/-- `acquire` succeeds when the lock is free. -/
def acquire (state : State) (lock : Lock) (slot : Slot) : Option State :=
  if state.locks lock = none then some (state.setLock lock (some (.process slot))) else none

/-- `release`. -/
def release (state : State) (lock : Lock) : State :=
  state.setLock lock none

/-- Replace the process table. -/
def setTable (state : State) (table : Ptable) : State :=
  { state with table := table }

/-- Replace the pipe. -/
def setPipe (state : State) (pipe : Pipe) : State :=
  { state with pipe := pipe }

/-- Store to the activation record of a call. -/
def setFrame (state : State) (call : Nat) (frame : Frame) : State :=
  { state with frames := Function.update state.frames call frame }

/-- `wakeup`, which takes `ptable.lock` for its scan. -/
def wakeup (state : State) (chan : Option Chan) : Option State :=
  if state.locks .ptable = none then some (state.setTable (state.table.wakeup1 chan)) else none

/-- A stage of `sleep(chan, &p->lock)`.  The process is at `stage nap`, and at
`again` when it has to acquire the lock of the pipe again. -/
def napStep (state : State) (slot : Slot) (chan : Chan) (stage : Nap → Pc) (again : Pc) :
    Nap → Option State
  | .calling => (state.acquire .ptable slot).map (·.move slot (stage .handover))
  | .handover => some ((state.release .pipe).move slot (stage .drowsy))
  | .drowsy =>
    some (((state.setTable (state.table.goToSleep slot chan)).setLock .ptable
      (some .scheduler)).move slot (stage .asleep))
  | .asleep => none
  | .rising =>
    some (((state.setTable (state.table.clearChan slot)).release .ptable).move slot again)

/-- `p->data[p->nwrite++ % PIPESIZE] = addr[i]` and `i++`. -/
def store (state : State) (call : Nat) : State :=
  let frame := state.frames call
  let byte := frame.addr frame.i
  { state with
    pipe := { state.pipe with ring := state.pipe.ring.push byte }
    stored := state.stored ++ [(call, byte)] }.setFrame call { frame with i := frame.i + 1 }

/-- The next step of a process in `pipewrite`. -/
def writeStep (p : Nat) (state : State) (slot : Slot) (call : Nat) : WriteAt → Option State
  | .entering =>
    (state.acquire .pipe slot).map fun locked =>
      (locked.setFrame call
        { state.frames call with since := (state.frames call).i }).move slot (.write call .loop)
  | .loop =>
    if ((state.frames call).i : Int) < (state.frames call).n then
      if state.pipe.ring.Full then
        if state.pipe.readopen = false ∨ (state.table slot).killed = true then
          some (state.move slot (.write call (.leave (-1))))
        else some (state.move slot (.write call .signal))
      else some (state.store call)
    else some (state.move slot (.write call .done))
  | .signal =>
    (state.wakeup (some (nreadChan p))).map (·.move slot (.write call (.nap .calling)))
  | .nap nap =>
    state.napStep slot (nwriteChan p) (fun nap => .write call (.nap nap))
      (.write call .entering) nap
  | .done =>
    (state.wakeup (some (nreadChan p))).map
      (·.move slot (.write call (.leave (state.frames call).n)))
  | .leave ret =>
    some (((state.setFrame call { state.frames call with ret := some ret }).release
      .pipe).move slot .idle)

/-- The next step of a process in `piperead`. -/
def readStep (p : Nat) (state : State) (slot : Slot) (n : Int) : ReadAt → Option State
  | .entering => (state.acquire .pipe slot).map (·.move slot (.read n .test))
  | .test =>
    if state.pipe.ring.Empty ∧ state.pipe.writeopen = true then
      if (state.table slot).killed = true then
        some (state.move slot (.read n (.leave [] (-1))))
      else some (state.move slot (.read n (.nap .calling)))
    else some (state.move slot (.read n (.copy [])))
  | .nap nap =>
    state.napStep slot (nreadChan p) (fun nap => .read n (.nap nap)) (.read n .entering) nap
  | .copy got =>
    if (got.length : Int) < n ∧ ¬state.pipe.ring.Empty then
      some ((state.setPipe { state.pipe with ring := state.pipe.ring.pop }).move slot
        (.read n (.copy (got ++ [state.pipe.ring.front]))))
    else some (state.move slot (.read n (.signal got)))
  | .signal got =>
    (state.wakeup (some (nwriteChan p))).map (·.move slot (.read n (.leave got got.length)))
  | .leave got _ =>
    some (({ state with returned := state.returned ++ got }.release .pipe).move slot .idle)

/-- The next step of a process in `pipeclose`. -/
def closeStep (p : Nat) (state : State) (slot : Slot) (writable : Bool) : CloseAt → Option State
  | .entering => (state.acquire .pipe slot).map (·.move slot (.close writable .flag))
  | .flag =>
    let pipe :=
      if writable then { state.pipe with writeopen := false }
      else { state.pipe with readopen := false }
    some ((state.setPipe pipe).move slot (.close writable .signal))
  | .signal =>
    (state.wakeup (some (if writable then nreadChan p else nwriteChan p))).map
      (·.move slot (.close writable .leave))
  | .leave =>
    -- `kfree` follows the release when both ends are closed
    let freed := !state.pipe.readopen && !state.pipe.writeopen
    some (({ state with freed := freed }.release .pipe).move slot .idle)

/-- The next step of a process in its call. -/
def goStep (p : Nat) (state : State) (slot : Slot) : Option State :=
  match state.pc slot with
  | .idle => none
  | .write call place => state.writeStep p slot call place
  | .read n place => state.readStep p slot n place
  | .close writable place => state.closeStep p slot writable place

/-- The process is in `sched`, called from `sleep`. -/
def napping (state : State) (slot : Slot) : Option (Nap → Pc) :=
  match state.pc slot with
  | .write call (.nap .asleep) => some fun nap => .write call (.nap nap)
  | .read n (.nap .asleep) => some fun nap => .read n (.nap nap)
  | _ => none

/-- A process that runs outside of the pipe calls one of its functions. -/
def call (state : State) (slot : Slot) (pc : Pc) : Option State :=
  if state.pc slot = .idle ∧ (state.table slot).state = .running ∧ state.freed = false then
    some (state.move slot pc)
  else none

/-- One step of the system on the pipe at address `p`; `none` when the event is
not enabled.  Nothing is enabled inside of a pipe that has been freed. -/
def step (p : Nat) : Step State Event := fun state event =>
  match event with
  | .write slot n addr =>
    { state with calls := state.calls + 1 }.setFrame state.calls ⟨n, addr, 0, 0, none⟩
      |>.call slot (.write state.calls .entering)
  | .read slot n => state.call slot (.read n .entering)
  | .close slot writable => state.call slot (.close writable .entering)
  | .go slot => if state.freed = true then none else state.goStep p slot
  | .dispatch slot =>
    if (state.locks .ptable = none ∨ state.locks .ptable = some .scheduler) ∧
        (state.table slot).state = .runnable then
      (state.napping slot).map fun stage =>
        ((state.setTable (state.table.setState slot .running)).setLock .ptable
          (some (.process slot))).move slot (stage .rising)
    else none
  | .schedRelease =>
    if state.locks .ptable = some .scheduler then some (state.release .ptable) else none
  | .kill pid =>
    if state.locks .ptable = none then some (state.setTable (state.table.kill pid).2)
    else none
  | .wakeup chan => state.wakeup chan
  | .other slot proc =>
    if state.locks .ptable = none ∧ state.pc slot = .idle then
      some (state.setTable (state.table.modify slot fun _ => proc))
    else none

/-- A pipe just made by `pipealloc`, in a page with arbitrary contents.  Nobody
has called anything, and the table is arbitrary. -/
def start (table : Ptable) (data : Fin pipesize → Byte) : State where
  table := table
  locks := fun _ => none
  pipe := ⟨⟨data, 0, 0⟩, true, true⟩
  freed := false
  pc := fun _ => .idle
  calls := 0
  frames := fun _ => ⟨0, fun _ => 0, 0, 0, none⟩
  stored := []
  returned := []

end State

end Xv6.Pipes
