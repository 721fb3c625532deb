import Mathlib.Data.Int.Notation
import Mathlib.Logic.Function.Basic
import Xv6.Transition.Core

/-!
# Spinlocks, interrupts and context switches

`spinlock.c` turns interrupts off while a lock is held.  It keeps the depth of the
nesting (`ncli`) and the interrupt flag at its outermost level (`intena`) in the record
of the cpu, although both belong to a kernel thread that `sched` may take to another
cpu.  This module embeds `pushcli`, `popcli`, `acquire` and `release` on any number of
cpus, the switch from a process to the scheduler of its cpu in `sched`, and the switch
from a scheduler to a process, in both of which `ptable.lock` changes hands.

A step is one of a cpu.  A kernel thread releases only locks it has acquired, and calls
`popcli` only after `pushcli`, in any order otherwise.  It changes the interrupt flag by
itself (`sti`, `cli`, the entry of a trap and the return from it) only where it is in no
such section.
-/

namespace Xv6.Spinlock

open Xv6.Transition

universe u v w

/-! ## One cpu -/

/-- The fields of `struct cpu` for the nesting, and the flag `FL_IF` of the cpu. -/
structure Cpu where
  ncli : Int
  intena : Bool
  interrupts : Bool
  deriving DecidableEq, Repr

/-- `pushcli`. -/
def Cpu.pushcli (cpu : Cpu) : Cpu where
  ncli := cpu.ncli + 1
  intena := if cpu.ncli = 0 then cpu.interrupts else cpu.intena
  interrupts := false

/-- `popcli`, with the text of the panic. -/
def Cpu.popcli (cpu : Cpu) : Except String Cpu :=
  if cpu.interrupts = true then .error "popcli - interruptible"
  else if cpu.ncli - 1 < 0 then .error "popcli"
  else .ok { cpu with
    ncli := cpu.ncli - 1
    interrupts := decide (cpu.ncli - 1 = 0) && cpu.intena }

/-! ## Kernel threads -/

/-- A kernel thread: the scheduler of a cpu, or that of a process. -/
inductive Thread (C : Type u) (P : Type v) where
  | scheduler (c : C)
  | process (p : P)
  deriving DecidableEq

/-- Where a kernel thread is. -/
inductive Place (L : Type w) where
  /-- between calls -/
  | ready
  /-- in `acquire`, at the loop around `xchg` -/
  | acquiring (lk : L)
  /-- in `release`, at `popcli()` -/
  | releasing
  /-- in `swtch` -/
  | switched
  /-- in `sched`, back from `swtch` -/
  | resuming
  /-- a new process, whose first switch leads to `forkret` -/
  | fresh
  deriving DecidableEq

/-- The thread runs on a cpu. -/
def Place.onCpu {L : Type w} : Place L → Bool
  | .ready | .acquiring _ | .releasing | .resuming => true
  | .switched | .fresh => false

/-- The thread is inside of `acquire` or `release`, with the `pushcli` of the call. -/
def Place.pushed {L : Type w} : Place L → Nat
  | .acquiring _ | .releasing => 1
  | .ready | .switched | .resuming | .fresh => 0

/-- A kernel thread: the locks it holds, the calls of `pushcli` outside of `acquire` that it has
not undone, and the variable `intena` of `sched`.  `outermost` records for the statements what
the interrupt flag was at the last `pushcli` that was not nested in another one. -/
structure Kthread (L : Type w) where
  place : Place L
  held : List L
  pushes : Nat
  intena : Bool
  outermost : Option Bool

/-- The spinlocks held by the thread and its open calls of `pushcli`. -/
def Kthread.depth {L : Type w} (thread : Kthread L) : Nat :=
  thread.held.length + thread.pushes + thread.place.pushed

/-- The flag that an outermost `pushcli` sees. -/
def Kthread.record {L : Type w} (thread : Kthread L) (interrupts : Bool) : Kthread L :=
  { thread with
    outermost := if thread.depth = 0 then some interrupts else thread.outermost }

/-! ## The machine -/

variable {C : Type u} {P : Type v} {L : Type w}

/-- The cpus, the thread that each of them runs, the threads, and for every spinlock that is
locked the cpu in its field `cpu`. -/
structure State (C : Type u) (P : Type v) (L : Type w) where
  cpus : C → Cpu
  running : C → Thread C P
  threads : Thread C P → Kthread L
  locks : L → Option C

/-- Every cpu is about to enter its scheduler for the first time. -/
def State.start (interrupts : C → Bool) : State C P L where
  cpus := fun c => { ncli := 0, intena := false, interrupts := interrupts c }
  running := .scheduler
  threads := fun thread =>
    { place := match thread with
        | .scheduler _ => .ready
        | .process _ => .fresh
      held := [], pushes := 0, intena := false, outermost := none }
  locks := fun _ => none

/-- `holding`, called on the cpu `c`. -/
def State.holding [DecidableEq C] (state : State C P L) (c : C) (lk : L) : Bool :=
  state.locks lk = some c

variable [DecidableEq C] [DecidableEq P] [DecidableEq L]

/-- The thread that runs on the cpu. -/
def State.current (state : State C P L) (c : C) : Kthread L :=
  state.threads (state.running c)

/-- Store the state of a cpu. -/
def State.setCpu (state : State C P L) (c : C) (cpu : Cpu) : State C P L :=
  { state with cpus := Function.update state.cpus c cpu }

/-- Store the state of a thread. -/
def State.setThread (state : State C P L) (thread : Thread C P) (kthread : Kthread L) :
    State C P L :=
  { state with threads := Function.update state.threads thread kthread }

/-- Store the state of the thread that runs on the cpu. -/
def State.setCurrent (state : State C P L) (c : C) (kthread : Kthread L) : State C P L :=
  state.setThread (state.running c) kthread

/-- Store the field `locked` of a lock together with its field `cpu`. -/
def State.setLock (state : State C P L) (lk : L) (holder : Option C) : State C P L :=
  { state with locks := Function.update state.locks lk holder }

/-- `swtch` to another thread. -/
def State.swtch (state : State C P L) (c : C) (thread : Thread C P) : State C P L :=
  { state with running := Function.update state.running c thread }

/-- `pushcli()` on a cpu, which leaves the thread there in another place. -/
def State.pushcli (state : State C P L) (c : C) (kthread : Kthread L) : State C P L :=
  (state.setCpu c (state.cpus c).pushcli).setCurrent c
    { kthread with outermost := ((state.current c).record (state.cpus c).interrupts).outermost }

/-- `popcli()` on a cpu, which leaves the thread there in another place. -/
def State.popcli (state : State C P L) (c : C) (kthread : Kthread L) : Option (State C P L) :=
  match (state.cpus c).popcli with
  | .ok cpu => some ((state.setCpu c cpu).setCurrent c kthread)
  | .error _ => none

/-- The steps of the machine. -/
inductive Event (C : Type u) (P : Type v) (L : Type w) where
  /-- `acquire(lk)`, up to the loop around `xchg` -/
  | acquire (c : C) (lk : L)
  /-- the `xchg` of `acquire` has read 0 -/
  | locked (c : C)
  /-- `release(lk)`, up to `popcli()` -/
  | release (c : C) (lk : L)
  /-- the `popcli()` of `release` -/
  | released (c : C)
  /-- `pushcli()` outside of `acquire` -/
  | pushcli (c : C)
  /-- `popcli()` outside of `release` -/
  | popcli (c : C)
  /-- `sti`, `cli`, a trap or the return from one -/
  | interrupts (c : C) (enabled : Bool)
  /-- `sched()`, up to `swtch` -/
  | sched (c : C)
  /-- the end of `sched()`, after `swtch` -/
  | resume (c : C)
  /-- the scheduler switches to a process -/
  | dispatch (c : C) (p : P)
  /-- `allocproc` makes a new process in a slot whose old process runs no more -/
  | allocproc (p : P)

/-- One step of the machine with its lock `ptable.lock`; `none` when the event is not enabled
or the call panics. -/
def step (ptable : L) : Step (State C P L) (Event C P L) := fun state event =>
  match event with
  | .acquire c lk =>
    if (state.current c).place = .ready ∧ state.holding c lk = false then
      some (state.pushcli c { state.current c with place := .acquiring lk })
    else none
  | .locked c =>
    match (state.current c).place with
    | .acquiring lk =>
      if state.locks lk = none then
        some ((state.setLock lk (some c)).setCurrent c
          { state.current c with place := .ready, held := lk :: (state.current c).held })
      else none
    | _ => none
  | .release c lk =>
    if (state.current c).place = .ready ∧ lk ∈ (state.current c).held ∧
        state.holding c lk = true then
      some ((state.setLock lk none).setCurrent c
        { state.current c with place := .releasing, held := (state.current c).held.erase lk })
    else none
  | .released c =>
    if (state.current c).place = .releasing then
      state.popcli c { state.current c with place := .ready }
    else none
  | .pushcli c =>
    if (state.current c).place = .ready then
      some (state.pushcli c
        { state.current c with pushes := (state.current c).pushes + 1 })
    else none
  | .popcli c =>
    if (state.current c).place = .ready ∧ 0 < (state.current c).pushes then
      state.popcli c { state.current c with pushes := (state.current c).pushes - 1 }
    else none
  | .interrupts c enabled =>
    if (state.current c).place = .ready ∧ (state.current c).depth = 0 then
      some (state.setCpu c { state.cpus c with interrupts := enabled })
    else none
  | .sched c =>
    match state.running c with
    | .scheduler _ => none
    | .process p =>
      -- the tests of `sched`, of which that of `proc->state` does not concern the locks
      if (state.current c).place = .ready ∧ (state.current c).held = [ptable] ∧
          (state.current c).pushes = 0 ∧ state.holding c ptable = true ∧
          (state.cpus c).ncli = 1 ∧ (state.cpus c).interrupts = false then
        some (((state.setThread (.process p)
          { state.current c with
            place := .switched, held := [], intena := (state.cpus c).intena }).setThread
          (.scheduler c)
          { state.threads (.scheduler c) with place := .ready, held := [ptable] }).swtch c
          (.scheduler c))
      else none
  | .resume c =>
    if (state.current c).place = .resuming then
      some ((state.setCpu c { state.cpus c with intena := (state.current c).intena }).setCurrent c
        { state.current c with place := .ready })
    else none
  | .dispatch c p =>
    if state.running c = .scheduler c ∧ (state.current c).place = .ready ∧
        (state.current c).held = [ptable] ∧ (state.current c).pushes = 0 ∧
        (state.threads (.process p)).place.onCpu = false then
      some (((state.setThread (.scheduler c)
        { state.current c with place := .switched, held := [] }).setThread (.process p)
        { state.threads (.process p) with
          held := [ptable]
          place := if (state.threads (.process p)).place = .fresh then .ready
            else .resuming }).swtch c (.process p))
    else none
  | .allocproc p =>
    if (state.threads (.process p)).place.onCpu = false then
      some (state.setThread (.process p)
        { state.threads (.process p) with place := .fresh, outermost := none })
    else none

end Xv6.Spinlock
