import Xv6.Process.Table
import Xv6.Transition.Core

/-!
# Sleeping on a condition

Processes wait for a condition on data that a lock `lk` protects:

    acquire(lk);  while(!condition) sleep(chan, lk);  ...  release(lk);

and wakers change the data and call `wakeup(chan)`:

    acquire(lk);  change the data;  wakeup(chan);  release(lk);

Every acquisition and every release is a step of its own, so that a run is an
arbitrary interleaving of the critical sections.  The sleepers are the processes
of the table and the wakers form an arbitrary type: a waker is a process in
another role or an interrupt handler.  `lk` may be `ptable.lock` itself; `sleep`
then keeps the lock it was called with, and a waker calls `wakeup1`, because
`wakeup` would acquire the lock a second time.
-/

namespace Xv6.Process.Sleep

open Xv6.Transition

universe u v

/-- The locks involved: `ptable.lock` and any other spinlock. -/
inductive Lock where
  | ptable
  | other
  deriving DecidableEq, Repr

/-- Who may hold a lock.  A process that enters `sched` leaves `ptable.lock` to
the scheduler of its cpu. -/
inductive Holder (W : Type u) where
  | sleeper (slot : Slot)
  | waker (waker : W)
  | scheduler
  deriving DecidableEq

/-- Where a process is in its loop around `sleep`. -/
inductive Sleeper where
  /-- outside of the loop -/
  | idle
  /-- at `acquire(lk)` -/
  | entering
  /-- at the test of the condition -/
  | testing
  /-- in `sleep`, at `acquire(&ptable.lock)` -/
  | calling
  /-- in `sleep`, at `release(lk)` -/
  | handover
  /-- in `sleep`, at `proc->chan = chan` -/
  | drowsy
  /-- in `sched` -/
  | asleep
  /-- back from `sched` -/
  | rising
  /-- behind the loop -/
  | leaving
  deriving DecidableEq, Repr

/-- Where a waker is in its critical section. -/
inductive Waker where
  /-- outside of the critical section -/
  | idle
  /-- at `acquire(lk)` -/
  | entering
  /-- changing the data -/
  | changing
  /-- at `wakeup(chan)`, after the condition became true -/
  | raised
  /-- in `wakeup`, at `wakeup1(chan)` -/
  | waking
  /-- at `release(lk)` -/
  | woken
  deriving DecidableEq, Repr

/-- The waker holds `lk` and is not in `wakeup`. -/
def Waker.atWork : Waker → Bool
  | .changing | .raised | .woken => true
  | .idle | .entering | .waking => false

/-- The process table, the two locks, the data that `lk` protects, and where
everyone is. -/
structure State (W : Type u) (D : Type v) where
  table : Ptable
  locks : Lock → Option (Holder W)
  data : D
  sleeper : Slot → Sleeper
  waker : W → Waker

/-- The steps of the system. -/
inductive Event (W : Type u) (D : Type v) where
  /-- the next step of a process in its loop -/
  | sleeper (slot : Slot)
  /-- a killed process leaves its loop -/
  | giveUp (slot : Slot)
  /-- a process behind its loop changes the data -/
  | consume (slot : Slot) (data : D)
  /-- the next step of a waker -/
  | waker (waker : W)
  /-- a waker changes the data -/
  | change (waker : W) (data : D)
  /-- a scheduler switches to a process -/
  | dispatch (slot : Slot)
  /-- a scheduler releases `ptable.lock` -/
  | schedRelease
  /-- `kill(pid)` -/
  | kill (pid : Int)
  /-- `wakeup` of a channel by anyone else -/
  | wakeup (chan : Option Chan)
  /-- a process outside of the loop changes its record in any way, for instance
  by sleeping on some channel for another reason -/
  | other (slot : Slot) (proc : Proc)

namespace State

variable {W : Type u} {D : Type v} [DecidableEq W]

/-- Move one process. -/
def moveSleeper (state : State W D) (slot : Slot) (pc : Sleeper) : State W D :=
  { state with sleeper := Function.update state.sleeper slot pc }

/-- Move one waker. -/
def moveWaker (state : State W D) (waker : W) (pc : Waker) : State W D :=
  { state with waker := Function.update state.waker waker pc }

/-- Store the holder of a lock. -/
def setLock (state : State W D) (lock : Lock) (holder : Option (Holder W)) : State W D :=
  { state with locks := Function.update state.locks lock holder }

/-- `acquire` succeeds when the lock is free. -/
def acquire (state : State W D) (lock : Lock) (holder : Holder W) : Option (State W D) :=
  if state.locks lock = none then some (state.setLock lock (some holder)) else none

omit [DecidableEq W] in
theorem map_acquire_eq_some_iff {state target : State W D} {lock : Lock} {holder : Holder W}
    {next : State W D → State W D} :
    (state.acquire lock holder).map next = some target ↔
      state.locks lock = none ∧ next (state.setLock lock (some holder)) = target := by
  unfold acquire
  split <;> simp_all

/-- `release`. -/
def release (state : State W D) (lock : Lock) : State W D :=
  state.setLock lock none

/-- Replace the process table. -/
def setTable (state : State W D) (table : Ptable) : State W D :=
  { state with table := table }

/-- Replace the data. -/
def setData (state : State W D) (data : D) : State W D :=
  { state with data := data }

end State

/-- A place where processes sleep: the lock and the channel they pass to
`sleep`, and the condition they wait for. -/
structure Site (D : Type v) where
  lk : Lock
  chan : Chan
  condition : D → Bool

namespace Site

variable {W : Type u} {D : Type v} [DecidableEq W]

/-- The next step of a process in its loop around `sleep`. -/
def sleeperStep (site : Site D) (state : State W D) (slot : Slot) : Option (State W D) :=
  match state.sleeper slot with
  | .idle =>
    if (state.table slot).state = .running then some (state.moveSleeper slot .entering)
    else none
  | .entering =>
    (state.acquire site.lk (.sleeper slot)).map (·.moveSleeper slot .testing)
  | .testing =>
    if site.condition state.data then some (state.moveSleeper slot .leaving)
    -- `sleep` tests `lk != &ptable.lock` before it touches a lock
    else if site.lk = .ptable then some (state.moveSleeper slot .drowsy)
    else some (state.moveSleeper slot .calling)
  | .calling =>
    (state.acquire .ptable (.sleeper slot)).map (·.moveSleeper slot .handover)
  | .handover => some ((state.release site.lk).moveSleeper slot .drowsy)
  | .drowsy =>
    some (((state.setTable (state.table.goToSleep slot site.chan)).setLock .ptable
      (some .scheduler)).moveSleeper slot .asleep)
  | .asleep => none
  | .rising =>
    let awake := state.setTable (state.table.clearChan slot)
    if site.lk = .ptable then some (awake.moveSleeper slot .testing)
    else some ((awake.release .ptable).moveSleeper slot .entering)
  | .leaving => some ((state.release site.lk).moveSleeper slot .idle)

/-- The next step of a waker.  In `changing` it leaves without a wakeup: it has
not made the condition true. -/
def wakerStep (site : Site D) (state : State W D) (waker : W) : Option (State W D) :=
  match state.waker waker with
  | .idle => some (state.moveWaker waker .entering)
  | .entering => (state.acquire site.lk (.waker waker)).map (·.moveWaker waker .changing)
  | .changing | .woken => some ((state.release site.lk).moveWaker waker .idle)
  | .raised =>
    if site.lk = .ptable then
      some ((state.setTable (state.table.wakeup1 (some site.chan))).moveWaker waker .woken)
    else (state.acquire .ptable (.waker waker)).map (·.moveWaker waker .waking)
  | .waking =>
    some (((state.setTable (state.table.wakeup1 (some site.chan))).release .ptable).moveWaker
      waker .woken)

/-- One step of the system; `none` when the event is not enabled. -/
def step (site : Site D) : Step (State W D) (Event W D) := fun state event =>
  match event with
  | .sleeper slot => site.sleeperStep state slot
  | .giveUp slot =>
    if state.sleeper slot = .testing ∧ (state.table slot).killed = true then
      some (state.moveSleeper slot .leaving)
    else none
  | .consume slot data =>
    -- whoever makes the condition true is a waker
    if state.sleeper slot = .leaving ∧
        (site.condition data = true → site.condition state.data = true) then
      some (state.setData data)
    else none
  | .waker waker => site.wakerStep state waker
  | .change waker data =>
    if (state.waker waker).atWork = true then
      if site.condition data = true ∧ site.condition state.data = false then
        some ((state.setData data).moveWaker waker .raised)
      else some (state.setData data)
    else none
  | .dispatch slot =>
    if (state.locks .ptable = none ∨ state.locks .ptable = some .scheduler) ∧
        state.sleeper slot = .asleep ∧ (state.table slot).state = .runnable then
      some (((state.setTable (state.table.setState slot .running)).setLock .ptable
        (some (.sleeper slot))).moveSleeper slot .rising)
    else none
  | .schedRelease =>
    if state.locks .ptable = some .scheduler then some (state.release .ptable) else none
  | .kill pid =>
    if state.locks .ptable = none then some (state.setTable (state.table.kill pid).2)
    else none
  | .wakeup chan =>
    if state.locks .ptable = none then some (state.setTable (state.table.wakeup1 chan))
    else none
  | .other slot proc =>
    if state.locks .ptable = none ∧ state.sleeper slot = .idle then
      some (state.setTable (state.table.modify slot fun _ => proc))
    else none

end Site

/-- Nobody is in the loop or in a critical section, and the locks are free.  The
table is arbitrary. -/
def State.start (W : Type u) {D : Type v} (table : Ptable) (data : D) : State W D where
  table := table
  locks := fun _ => none
  data := data
  sleeper := fun _ => .idle
  waker := fun _ => .idle

end Xv6.Process.Sleep
