import Xv6.Process.Scheduler

/-!
# The multiprocessor kernel of `proc.c`

Any set `C` of CPUs runs the scheduler loop over one process table.  The model
takes one step for each critical section of `ptable.lock`, except that the
sections that end in `sched()` are cut where the lock is handed over: a process
changes its state (`leaving`), its kernel stack is left by `swtch` (`back`), and
the scheduler clears `proc` and goes on with its scan.  Likewise a dispatch sets
`proc` (`chosen`), then the state and the stack (`resumed`), and the resumed
thread releases the lock the scheduler acquired.  The stores that `fork`,
`exit` and `set_tickets` make without the lock are steps of their own, so other
CPUs may move between them.

A panic or a processor fault is recorded in `trap` and stops the kernel.
-/

namespace Xv6.Process

open Xv6.Int32

universe u

/-- The scheduler a kernel is built with; `main.c` starts `scheduler`. -/
inductive SchedKind where
  | scheduler
  | schedulerB
  | scheduler1
  | scheduler2
  deriving DecidableEq, Repr

/-- What stops the kernel. -/
inductive Trap where
  | divideError
  | pageFault
  | useAfterFree
  | panic (message : String)
  deriving DecidableEq, Repr

/-- Where a switched-out thread continues when it is switched to. -/
inductive Resume where
  | forkret
  | yield
  | sleep
  | wait
  | zombie
  deriving DecidableEq, Repr

/-- What a thread is doing between its critical sections.  The three middle
constructors are the stages of `fork`: the child's slot is claimed, the child
has a kernel stack, and the parent has been copied into it. -/
inductive Activity where
  | user
  | claimed (child : Slot)
  | stacked (child : Slot)
  | copied (child : Slot)
  | exiting
  deriving DecidableEq, Repr

/-- The control state of a process's kernel thread, with the value its last
system call returned. -/
structure Thread where
  resume : Resume
  activity : Activity
  ret : Int
  deriving DecidableEq, Repr

/-- Where a CPU is.  `scan next` is the second loop of the scheduler, about to
look at the slot with index `next`. -/
inductive Phase where
  | idle
  | drawn
  | scan (next : Nat)
  | chosen (slot : Slot)
  | resumed (slot : Slot)
  | run (slot : Slot)
  | leaving (slot : Slot)
  | back (slot : Slot)
  deriving DecidableEq, Repr

/-- The phase in which a scheduler acquires the lock: `scheduler1` has drawn a
winner before. -/
def SchedKind.entry : SchedKind → Phase
  | .scheduler1 => .drawn
  | _ => .idle

/-- A CPU with the local variables of its scheduler loop. -/
structure Cpu where
  phase : Phase
  proc : Option Slot
  wPid : Int
  current : Option Slot
  sd : Int
  winner : Nat
  counter : Int
  deriving DecidableEq, Repr

/-- A CPU that has just entered its scheduler. -/
def Cpu.initial : Cpu where
  phase := .idle
  proc := none
  wPid := 0
  current := none
  sd := 0
  winner := 0
  counter := 0

/-- The kernel state shared by all CPUs. -/
structure Kernel (C : Type u) where
  table : Ptable
  thread : Slot → Thread
  cpu : C → Cpu
  lock : Option C
  nextpid : Int
  totalTickets : Int
  initproc : Slot
  console : List String
  trap : Option Trap

/-- The operations a running process performs on the process table.  The
arguments of the stages of `fork` are the results of `kalloc` and `copyuvm`. -/
inductive Op where
  | yield
  | sleep (address : Nat)
  | closeFiles
  | exit
  | wait
  | forkClaim
  | forkStack (kstack : Option Nat)
  | forkCopy (pgdir : Option Nat)
  | forkReady
  | kill (pid : Int)
  | setTickets (tickets : Int)
  | setOfile (fd : Fin nofile) (file : Option Nat)
  | fault
  deriving DecidableEq

/-- The operation begins by acquiring `ptable.lock`. -/
def Op.locks : Op → Bool
  | .yield | .sleep _ | .exit | .wait | .forkClaim | .forkReady | .kill _ => true
  | .closeFiles | .forkStack _ | .forkCopy _ | .setTickets _ | .setOfile _ _ | .fault => false

/-- The steps of the kernel. -/
inductive Event (C : Type u) where
  | draw (cpu : C)
  | acquire (cpu : C)
  | look (cpu : C)
  | switch (cpu : C)
  | resume (cpu : C)
  | leave (cpu : C)
  | back (cpu : C)
  | wakeup (address : Nat)
  | op (cpu : C) (operation : Op)
  deriving DecidableEq

namespace Kernel

variable {C : Type u} [DecidableEq C]

/-! ## State updates -/

/-- What the thread of a process is doing. -/
def activity (kernel : Kernel C) (slot : Slot) : Activity :=
  (kernel.thread slot).activity

/-- Store to the variables of one CPU. -/
def setCpu (kernel : Kernel C) (cpu : C) (update : Cpu → Cpu) : Kernel C :=
  { kernel with
    cpu := fun other => if other = cpu then update (kernel.cpu other) else kernel.cpu other }

/-- Change the control state of one thread. -/
def setThread (kernel : Kernel C) (slot : Slot) (update : Thread → Thread) : Kernel C :=
  { kernel with
    thread := fun other =>
      if other = slot then update (kernel.thread other) else kernel.thread other }

/-- Move one CPU to another phase. -/
def setPhase (kernel : Kernel C) (cpu : C) (phase : Phase) : Kernel C :=
  kernel.setCpu cpu fun own => { own with phase := phase }

/-- Change what a thread is doing. -/
def setActivity (kernel : Kernel C) (slot : Slot) (activity : Activity) : Kernel C :=
  kernel.setThread slot fun thread => { thread with activity := activity }

/-- Return from a system call. -/
def setRet (kernel : Kernel C) (slot : Slot) (value : Int) : Kernel C :=
  kernel.setThread slot fun thread => { thread with ret := value }

/-- A thread that holds the lock has set its state and calls `sched`. -/
def enterSched (kernel : Kernel C) (cpu : C) (slot : Slot) (resume : Resume) : Kernel C :=
  ({ kernel with lock := some cpu }.setThread slot fun thread =>
    { thread with resume := resume }).setPhase cpu (.leaving slot)

/-- A thread releases the lock and goes on running. -/
def releaseTo (kernel : Kernel C) (cpu : C) (slot : Slot) : Kernel C :=
  { kernel with lock := none }.setPhase cpu (.run slot)

/-- Stop the kernel. -/
def stop (kernel : Kernel C) (trap : Trap) : Kernel C :=
  { kernel with trap := some trap }

section

variable (kernel : Kernel C) (slot : Slot)

section

omit [DecidableEq C]

@[simp]
theorem thread_activity :
    (kernel.thread slot).activity = kernel.activity slot :=
  rfl

@[simp]
theorem activity_mk (table : Ptable) (thread : Slot → Thread) (cpu : C → Cpu) (lock : Option C)
    (nextpid totalTickets : Int) (initproc : Slot) (console : List String) (trap : Option Trap) :
    (Kernel.mk table thread cpu lock nextpid totalTickets initproc console trap).activity slot =
      (thread slot).activity :=
  rfl

@[simp]
theorem setThread_thread (slot other : Slot) (update : Thread → Thread) :
    (kernel.setThread slot update).thread other =
      if other = slot then update (kernel.thread other) else kernel.thread other :=
  rfl

@[simp]
theorem setThread_activity (slot other : Slot) (update : Thread → Thread) :
    (kernel.setThread slot update).activity other =
      if other = slot then (update (kernel.thread other)).activity else kernel.activity other := by
  simp only [activity, setThread_thread]
  split <;> rfl

@[simp]
theorem setThread_table (update : Thread → Thread) :
    (kernel.setThread slot update).table = kernel.table :=
  rfl

@[simp]
theorem setThread_cpu (update : Thread → Thread) :
    (kernel.setThread slot update).cpu = kernel.cpu :=
  rfl

@[simp]
theorem setRet_table (value : Int) :
    (kernel.setRet slot value).table = kernel.table :=
  rfl

@[simp]
theorem setRet_activity (slot other : Slot) (value : Int) :
    (kernel.setRet slot value).activity other = kernel.activity other := by
  simp only [activity, setRet, setThread_thread]
  split <;> rfl

@[simp]
theorem setActivity_table (activity : Activity) :
    (kernel.setActivity slot activity).table = kernel.table :=
  rfl

@[simp]
theorem setActivity_activity (slot other : Slot) (activity : Activity) :
    (kernel.setActivity slot activity).activity other =
      if other = slot then activity else kernel.activity other := by
  simp only [Kernel.activity, setActivity, setThread_thread]
  split <;> rfl

end

@[simp]
theorem setCpu_cpu (cpu other : C) (update : Cpu → Cpu) :
    (kernel.setCpu cpu update).cpu other =
      if other = cpu then update (kernel.cpu other) else kernel.cpu other :=
  rfl

variable (cpu : C) (update : Cpu → Cpu)

@[simp]
theorem setCpu_table :
    (kernel.setCpu cpu update).table = kernel.table :=
  rfl

@[simp]
theorem setCpu_thread :
    (kernel.setCpu cpu update).thread = kernel.thread :=
  rfl

@[simp]
theorem enterSched_table (slot : Slot) (resume : Resume) :
    (kernel.enterSched cpu slot resume).table = kernel.table :=
  rfl

@[simp]
theorem enterSched_activity (slot other : Slot) (resume : Resume) :
    (kernel.enterSched cpu slot resume).activity other = kernel.activity other := by
  simp only [activity, enterSched, setPhase, setCpu_thread, setThread_thread]
  split <;> rfl

@[simp]
theorem releaseTo_table (slot : Slot) :
    (kernel.releaseTo cpu slot).table = kernel.table :=
  rfl

end

/-! ## The scheduler -/

/-- The process the second loop of a round dispatches next, together with the
running ticket sum of `scheduler1`. -/
def pick (kind : SchedKind) (table : Ptable) (cpu : Cpu) (next : Nat) : Option (Slot × Int) :=
  match kind with
  | .scheduler =>
    ((slots.drop next).find? fun slot => Matches table cpu.wPid slot).map (·, cpu.counter)
  | .scheduler1 => lotteryNext table cpu.winner cpu.counter (slots.drop next)
  | .scheduler2 =>
    ((slots.drop next).find? fun slot => (table slot).state = .runnable).map (·, cpu.counter)
  | .schedulerB => none

/-- The stores to the accounting fields of a dispatched process. -/
def account (kind : SchedKind) (table : Ptable) (slot : Slot) : Option Ptable :=
  match kind with
  | .scheduler | .schedulerB => table.charge slot
  | .scheduler1 => some (table.countRun slot)
  | .scheduler2 => some table

theorem pick_runnable {kind : SchedKind} {table : Ptable} {cpu : Cpu} {next : Nat}
    {slot : Slot} {counter : Int} (picked : pick kind table cpu next = some (slot, counter)) :
    (table slot).state = .runnable := by
  cases kind with
  | scheduler =>
    obtain ⟨found, search, pair_eq⟩ := Option.map_eq_some_iff.mp picked
    cases pair_eq
    have test : Matches table cpu.wPid slot := by simpa using List.find?_some search
    exact test.1
  | schedulerB => contradiction
  | scheduler1 => exact lotteryNext_runnable picked
  | scheduler2 =>
    obtain ⟨found, search, pair_eq⟩ := Option.map_eq_some_iff.mp picked
    cases pair_eq
    simpa using List.find?_some search

/-- The accounting touches only `count` and `pass` of the dispatched process. -/
theorem account_eq_some {kind : SchedKind} {table charged : Ptable} {slot : Slot}
    (accounted : account kind table slot = some charged) :
    ∃ count pass, charged = table.modify slot fun proc =>
      { proc with count := count, pass := pass } := by
  have stored : ∀ update : Proc → Proc, (∀ proc, ∃ count pass, update proc =
      { proc with count := count, pass := pass }) →
      ∃ count pass, table.modify slot update = table.modify slot fun proc =>
        { proc with count := count, pass := pass } := by
    intro update shape
    obtain ⟨count, pass, update_eq⟩ := shape (table slot)
    refine ⟨count, pass, funext fun other => ?_⟩
    by_cases same : other = slot
    · subst same
      simp [update_eq]
    · simp [same]
  cases kind with
  | scheduler | schedulerB =>
    obtain ⟨stride, -, rfl⟩ := Option.map_eq_some_iff.mp accounted
    exact stored _ fun proc => ⟨_, _, rfl⟩
  | scheduler1 =>
    cases accounted
    exact stored _ fun proc => ⟨_, _, rfl⟩
  | scheduler2 =>
    cases accounted
    obtain ⟨count, pass, modify_eq⟩ := stored id fun proc => ⟨_, _, rfl⟩
    refine ⟨count, pass, modify_eq ▸ funext fun other => ?_⟩
    by_cases same : other = slot <;> simp [same]

/-- The dispatch of a process up to `proc = p`. -/
def dispatch (kind : SchedKind) (kernel : Kernel C) (cpu : C) (slot : Slot) : Kernel C :=
  match account kind kernel.table slot with
  | none => kernel.stop .divideError
  | some table =>
    { kernel with table := table }.setCpu cpu fun own =>
      { own with proc := some slot, phase := .chosen slot }

/-- `acquire(&ptable.lock)` at the head of a round, with the first loop of the
stride schedulers. -/
def acquire (kind : SchedKind) (kernel : Kernel C) (cpu : C) : Kernel C :=
  let held := { kernel with lock := some cpu }
  match kind with
  | .scheduler =>
    held.setCpu cpu fun own =>
      { own with wPid := select kernel.table own.wPid, phase := .scan 0 }
  | .schedulerB =>
    let current := selectB kernel.table (kernel.cpu cpu).current
    let held := held.setCpu cpu fun own => { own with current := current }
    match current with
    | none => held.stop .pageFault
    | some slot => held.dispatch kind cpu slot
  | .scheduler1 =>
    held.setCpu cpu fun own => { own with counter := 0, phase := .scan 0 }
  | .scheduler2 => held.setPhase cpu (.scan 0)

/-- The draw at the head of a round of `scheduler1`. -/
def draw (kernel : Kernel C) (cpu : C) : Kernel C :=
  let sd := wrap ((kernel.cpu cpu).sd + 1)
  match draw? sd kernel.totalTickets with
  | none => kernel.stop .divideError
  | some winner =>
    kernel.setCpu cpu fun own =>
      { own with sd := sd, winner := winner, phase := .drawn }

/-- Go on with the second loop: dispatch its next process, or release the lock
at the end of the table. -/
def look (kind : SchedKind) (kernel : Kernel C) (cpu : C) (next : Nat) : Kernel C :=
  match pick kind kernel.table (kernel.cpu cpu) next with
  | none => { kernel with lock := none }.setPhase cpu .idle
  | some (slot, counter) =>
    (kernel.setCpu cpu fun own => { own with counter := counter }).dispatch kind cpu slot

/-- `p->state = RUNNING` and the switch to the stack of the process. -/
def switch (kernel : Kernel C) (cpu : C) (slot : Slot) : Kernel C :=
  if (kernel.table slot).kstack = none then kernel.stop .useAfterFree
  else { kernel with table := kernel.table.setState slot .running }.setPhase cpu (.resumed slot)

/-- The end of `sched`: check the state and leave the kernel stack. -/
def leave (kernel : Kernel C) (cpu : C) (slot : Slot) : Kernel C :=
  if (kernel.table slot).state = .running then kernel.stop (.panic "sched running")
  else kernel.setPhase cpu (.back slot)

/-- `proc = 0` in the scheduler after the switch has returned.  `scheduler_b`
has no second loop. -/
def back (kind : SchedKind) (kernel : Kernel C) (cpu : C) (slot : Slot) : Kernel C :=
  kernel.setCpu cpu fun own =>
    { own with
      proc := none
      phase := .scan (if kind = .schedulerB then nproc else slot + 1) }

/-! ## Threads -/

/-- The body of the loop of `wait`, run with the lock held. -/
def waitLoop (kernel : Kernel C) (cpu : C) (slot : Slot) : Kernel C :=
  match kernel.table.waitScan slot false slots with
  | .found child =>
    ({ kernel with table := kernel.table.reap child }.setRet slot
      (kernel.table child).pid).releaseTo cpu slot
  | .finished havekids =>
    if havekids = false ∨ (kernel.table slot).killed = true then
      (kernel.setRet slot (-1)).releaseTo cpu slot
    else
      { kernel with table := kernel.table.goToSleep slot (.proc slot) }.enterSched cpu slot .wait

/-- A thread continues after the scheduler has switched to it. -/
def resume (kernel : Kernel C) (cpu : C) (slot : Slot) : Kernel C :=
  match (kernel.thread slot).resume with
  | .forkret | .yield => kernel.releaseTo cpu slot
  | .sleep => { kernel with table := kernel.table.clearChan slot }.releaseTo cpu slot
  | .wait => { kernel with table := kernel.table.clearChan slot }.waitLoop cpu slot
  | .zombie => kernel.stop (.panic "zombie exit")

/-- The line `exit` prints. -/
def runsMessage (proc : Proc) : String :=
  "number of runs of " ++ proc.name ++ " is  " ++ toString proc.count ++ "\n"

/-- The lines `set_tickets` prints. -/
def ticketMessages (proc : Proc) (tickets stride : Int) : List String :=
  ["ticket value for " ++ proc.name ++ " set to :" ++ toString tickets ++ "\n",
    "Stride value for " ++ proc.name ++ " is : " ++ toString stride ++ "\n"]

/-- `set_tickets`, called by the process in `slot`. -/
def setTickets (kernel : Kernel C) (slot : Slot) (tickets : Int) : Kernel C :=
  let counted := { kernel with totalTickets := wrap (kernel.totalTickets + tickets) }
  match kernel.table.setTickets slot tickets with
  | none => counted.stop .divideError
  | some table =>
    { counted with
      table := table
      console := kernel.console ++
        ticketMessages (kernel.table slot) tickets (table slot).pass }.setRet slot 0

/-- `yield`, up to `sched`. -/
def yield (kernel : Kernel C) (cpu : C) (slot : Slot) : Kernel C :=
  { kernel with table := kernel.table.setState slot .runnable }.enterSched cpu slot .yield

/-- `sleep` on an address with a lock other than `ptable.lock`, up to `sched`. -/
def sleep (kernel : Kernel C) (cpu : C) (slot : Slot) (address : Nat) : Kernel C :=
  { kernel with table := kernel.table.goToSleep slot (.addr address) }.enterSched cpu slot .sleep

/-- The beginning of `exit`, before it acquires the lock. -/
def closeFiles (kernel : Kernel C) (slot : Slot) : Kernel C :=
  let printed := { kernel with console := kernel.console ++ [runsMessage (kernel.table slot)] }
  if slot = kernel.initproc then printed.stop (.panic "init exiting")
  else { printed with table := kernel.table.closeFiles slot }.setActivity slot .exiting

/-- `exit` under the lock, up to `sched`. -/
def exit (kernel : Kernel C) (cpu : C) (slot : Slot) : Kernel C :=
  { kernel with table := kernel.table.exit slot kernel.initproc }.enterSched cpu slot .zombie

/-- The search of `allocproc` under the lock. -/
def forkClaim (kernel : Kernel C) (slot : Slot) : Kernel C :=
  match kernel.table.findUnused with
  | none => kernel.setRet slot (-1)
  | some child =>
    { kernel with
      table := kernel.table.claim child kernel.nextpid
      nextpid := wrap (kernel.nextpid + 1) }.setActivity slot (.claimed child)

/-- `fork` has given up its embryo for want of memory and returns. -/
def forkFail (kernel : Kernel C) (slot : Slot) (table : Ptable) : Kernel C :=
  ({ kernel with table := table }.setActivity slot .user).setRet slot (-1)

/-- The rest of `allocproc`: the child's first context returns to `forkret`. -/
def forkStack (kernel : Kernel C) (slot child : Slot) (kstack : Nat) : Kernel C :=
  ({ kernel with table := kernel.table.initEmbryo child kstack }.setThread child
    fun _ => ⟨.forkret, .user, 0⟩).setActivity slot (.stacked child)

/-- `fork` after `copyuvm` has succeeded. -/
def forkCopy (kernel : Kernel C) (slot child : Slot) (pgdir : Nat) : Kernel C :=
  { kernel with
    table := kernel.table.copyParent child slot pgdir }.setActivity slot (.copied child)

/-- The end of `fork` under the lock. -/
def forkReady (kernel : Kernel C) (slot child : Slot) : Kernel C :=
  ({ kernel with table := kernel.table.setState child .runnable }.setActivity slot .user).setRet
    slot (kernel.table child).pid

/-- `kill`. -/
def kill (kernel : Kernel C) (slot : Slot) (pid : Int) : Kernel C :=
  { kernel with table := (kernel.table.kill pid).2 }.setRet slot (kernel.table.kill pid).1

/-- A store to the caller's descriptor table, as `open`, `dup`, `pipe` and
`close` make it. -/
def setOfile (kernel : Kernel C) (slot : Slot) (fd : Fin nofile) (file : Option Nat) :
    Kernel C :=
  { kernel with
    table := kernel.table.modify slot fun proc =>
      { proc with ofile := fun other => if other = fd then file else proc.ofile other } }

/-- The store of `trap` to a process that misbehaved in user space. -/
def fault (kernel : Kernel C) (slot : Slot) : Kernel C :=
  { kernel with table := kernel.table.modify slot fun proc => { proc with killed := true } }

/-- One operation of the process that runs on a CPU. -/
def perform (kernel : Kernel C) (cpu : C) (slot : Slot) (operation : Op) : Option (Kernel C) :=
  match operation, kernel.activity slot with
  | .yield, _ => some (kernel.yield cpu slot)
  | .sleep address, _ => some (kernel.sleep cpu slot address)
  | .closeFiles, .user => some (kernel.closeFiles slot)
  | .exit, .exiting => some (kernel.exit cpu slot)
  | .wait, .user => some (kernel.waitLoop cpu slot)
  | .forkClaim, .user => some (kernel.forkClaim slot)
  | .forkStack none, .claimed child =>
    some (kernel.forkFail slot (kernel.table.abandonStack child))
  | .forkStack (some kstack), .claimed child => some (kernel.forkStack slot child kstack)
  | .forkCopy none, .stacked child =>
    some (kernel.forkFail slot (kernel.table.abandonCopy child))
  | .forkCopy (some pgdir), .stacked child => some (kernel.forkCopy slot child pgdir)
  | .forkReady, .copied child => some (kernel.forkReady slot child)
  | .kill pid, .user => some (kernel.kill slot pid)
  | .setTickets tickets, .user => some (kernel.setTickets slot tickets)
  | .setOfile fd file, .user => some (kernel.setOfile slot fd file)
  | .fault, .user => some (kernel.fault slot)
  | _, _ => none

/-! ## Boot -/

/-- The addresses `userinit` obtains: the kernel stack and the page directory of
the first process, and the root directory. -/
structure Boot where
  kstack : Nat
  pgdir : Nat
  root : Nat

/-- `userinit`: the table with the first process in it. -/
def userinit (memory : Boot) : Ptable :=
  let zeroed : Ptable := fun _ => Proc.zero
  ((zeroed.claim 0 1).initEmbryo 0 memory.kstack).modify 0 fun proc =>
    { proc with
      pgdir := some memory.pgdir
      sz := 4096
      name := "initcode"
      cwd := some memory.root
      state := .runnable }

/-- The kernel when its CPUs enter the scheduler. -/
def boot (memory : Boot) : Kernel C where
  table := userinit memory
  thread := fun _ => ⟨.forkret, .user, 0⟩
  cpu := fun _ => Cpu.initial
  lock := none
  nextpid := 2
  totalTickets := 0
  initproc := 0
  console := []
  trap := none

end Kernel

end Xv6.Process
