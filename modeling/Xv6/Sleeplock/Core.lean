import Xv6.Process.Sleep.Core

/-!
# Sleep-locks

The functions of `sleeplock.c` on one lock:

    acquiresleep:  acquire(&lk->lk);  while(lk->locked) sleep(lk, &lk->lk);
                   lk->locked = 1;  lk->pid = proc->pid;  release(&lk->lk);
    releasesleep:  acquire(&lk->lk);  lk->locked = 0;  lk->pid = 0;
                   wakeup(lk);  release(&lk->lk);

The loop of `acquiresleep` is a loop around `sleep`, and `releasesleep` is a waker, so
both take their steps from the site at which processes wait for `lk->locked = 0`.  The
stores to the lock are steps of their own.  A process may do anything else while it is
in neither function, except that it keeps its pid while it holds the lock.
-/

namespace Xv6.Process

open Xv6.Transition

/-- `struct sleeplock`.  The inner spinlock is the lock `other` of the site. -/
structure Sleeplock where
  locked : Bool
  pid : Int
  deriving DecidableEq, Repr

namespace Sleeplock

/-- The stores of `initsleeplock`. -/
def init : Sleeplock where
  locked := false
  pid := 0

/-- `sleep(lk, &lk->lk)` waits at the address of the sleep-lock. -/
def site (chan : Chan) : Sleep.Site Sleeplock where
  lk := .other
  chan := chan
  condition lock := !lock.locked

/-- Where a process is in its use of the sleep-lock. -/
inductive Phase where
  /-- in neither function, without the lock -/
  | outside
  /-- in `acquiresleep`, up to `lk->locked = 1` -/
  | acquiring
  /-- in `acquiresleep`, at `release(&lk->lk)` -/
  | taking
  /-- back from `acquiresleep` -/
  | holding
  /-- in `releasesleep`, up to `lk->locked = 0` -/
  | releasing
  /-- in `releasesleep`, from `wakeup(lk)` on -/
  | waking
  deriving DecidableEq, Repr

/-- The process is between its `acquiresleep` and its `releasesleep`: between the store that
takes the lock and the store that gives it up. -/
def Phase.holds : Phase → Bool
  | .taking | .holding | .releasing => true
  | .outside | .acquiring | .waking => false

/-- The site of the lock, and where the processes are. -/
structure State where
  sleep : Sleep.State Slot Sleeplock
  phase : Slot → Phase

/-- Nobody uses the lock.  The table is arbitrary. -/
def start (table : Ptable) : State where
  sleep := .start Slot table init
  phase := fun _ => .outside

/-- One process comes to another phase. -/
def State.moveTo (state : State) (slot : Slot) (phase : Phase)
    (sleep : Sleep.State Slot Sleeplock) : State where
  sleep := sleep
  phase := Function.update state.phase slot phase

/-- The next step of a process in `acquiresleep`. -/
def acquiresleep (chan : Chan) (state : State) (slot : Slot) : Option State :=
  match state.phase slot with
  | .outside => ((site chan).sleeperStep state.sleep slot).map (state.moveTo slot .acquiring)
  | .acquiring =>
    if state.sleep.sleeper slot = .leaving then
      let lock : Sleeplock := { locked := true, pid := (state.sleep.table slot).pid }
      some (state.moveTo slot .taking (state.sleep.setData lock))
    else ((site chan).sleeperStep state.sleep slot).map (state.moveTo slot .acquiring)
  | .taking => ((site chan).sleeperStep state.sleep slot).map (state.moveTo slot .holding)
  | .holding | .releasing | .waking => none

/-- The next step of a process in `releasesleep`, which the holder calls. -/
def releasesleep (chan : Chan) (state : State) (slot : Slot) : Option State :=
  match state.phase slot with
  | .holding => ((site chan).wakerStep state.sleep slot).map (state.moveTo slot .releasing)
  | .releasing =>
    if state.sleep.waker slot = .changing then
      let lock : Sleeplock := { locked := false, pid := 0 }
      some (state.moveTo slot .waking ((state.sleep.setData lock).moveWaker slot .raised))
    else ((site chan).wakerStep state.sleep slot).map (state.moveTo slot .releasing)
  | .waking =>
    if state.sleep.waker slot = .woken then
      ((site chan).wakerStep state.sleep slot).map (state.moveTo slot .outside)
    else ((site chan).wakerStep state.sleep slot).map (state.moveTo slot .waking)
  | .outside | .acquiring | .taking => none

/-- The result of `holdingsleep`, which reads `lk->locked` with the inner spinlock held. -/
def holdingsleep (lock : Sleeplock) : Bool :=
  lock.locked

/-- The functions that test `holdingsleep` first.  `iunlock` also tests its pointer and the
reference count of the inode. -/
inductive Guard where
  | bwrite
  | brelse
  | iderw
  | iunlock (null : Bool) (ref : Int)

/-- The panic of the function, when the test fails. -/
def Guard.panic (lock : Sleeplock) : Guard → Option String
  | .bwrite => if !holdingsleep lock then some "bwrite" else none
  | .brelse => if !holdingsleep lock then some "brelse" else none
  | .iderw => if !holdingsleep lock then some "iderw: buf not locked" else none
  | .iunlock null ref => if null || !holdingsleep lock || ref < 1 then some "iunlock" else none

/-- The steps of the system. -/
inductive Event where
  /-- the next step of a process in `acquiresleep` -/
  | acquiresleep (slot : Slot)
  /-- the next step of a process in `releasesleep` -/
  | releasesleep (slot : Slot)
  /-- a scheduler switches to a process -/
  | dispatch (slot : Slot)
  /-- a scheduler releases `ptable.lock` -/
  | schedRelease
  /-- `kill(pid)` -/
  | kill (pid : Int)
  /-- `wakeup` of a channel by anyone else -/
  | wakeup (chan : Option Chan)
  /-- a process outside of `acquiresleep` changes its record -/
  | other (slot : Slot) (proc : Proc)

/-- One step of the system; `none` when the event is not enabled. -/
def step (chan : Chan) : Step State Event := fun state event =>
  let environment (event : Sleep.Event Slot Sleeplock) : Option State :=
    ((site chan).step state.sleep event).map fun sleep => { state with sleep := sleep }
  match event with
  | .acquiresleep slot => acquiresleep chan state slot
  | .releasesleep slot => releasesleep chan state slot
  | .dispatch slot => environment (.dispatch slot)
  | .schedRelease => environment .schedRelease
  | .kill pid => environment (.kill pid)
  | .wakeup woken => environment (.wakeup woken)
  | .other slot proc =>
    -- the pid of a process changes only after it has exited
    if state.phase slot = .outside ∨ proc.pid = (state.sleep.table slot).pid then
      environment (.other slot proc)
    else none

end Sleeplock

end Xv6.Process
