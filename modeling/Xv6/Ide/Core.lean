import Xv6.Log.Core
import Xv6.Machine.Linked
import Xv6.Transition.Core

/-!
# The disk drivers

`ide.c` queues the buffers of the processes in `iderw` and gives the device one
request at a time; the interrupt handler `ideintr` finishes the request at the
head of the queue and starts the next one.  `memide.c` is the driver for a disk in
memory, whose `iderw` transfers the block at once.

Every section of `idelock` is one step: a call of `iderw` up to `sleep`, its
continuation after `sleep`, and an interrupt.  The device executes the command it
was given in a step of its own and then interrupts once.  Processes lock buffers
and change those they have locked as they like while they are not in `iderw`.

Besides the queue, the state keeps the history: what was done with the buffers,
and the requests that were queued, issued to the device and completed.
-/

namespace Xv6.Ide

open Function Xv6.Log Xv6.Transition

universe u

/-- The part of `struct buf` that the users of a buffer change. -/
structure Contents where
  dev : BitVec 32
  blockno : Blockno
  valid : Bool
  dirty : Bool
  data : Block

/-- `struct buf`, with the process that holds its lock. -/
structure Buf (P : Type u) extends Contents where
  holder : Option P

/-- There is nothing to do for a buffer that is valid and not dirty. -/
def Contents.Clean (buf : Contents) : Prop := buf.valid = true ∧ buf.dirty = false

instance (buf : Contents) : Decidable buf.Clean := inferInstanceAs (Decidable (_ ∧ _))

/-! ## The driver in memory -/

/-- The buffers and the disk of `memide.c`. -/
structure Mem (P : Type u) (n : Nat) where
  bufs : Fin n → Buf P
  disk : Disk

/-- What the users of the drivers do. -/
inductive Op (P : Type u) (n : Nat) where
  | lock (p : P) (b : Fin n)
  | unlock (b : Fin n)
  | store (b : Fin n) (contents : Contents)
  | rw (b : Fin n)

/-- A buffer after its transfer. -/
def Contents.transferred (buf : Contents) (disk : Disk) : Contents :=
  { buf with
    valid := true
    dirty := false
    data := if buf.dirty then buf.data else disk buf.blockno }

namespace Mem

variable {P : Type u} {n : Nat}

/-- Replace what the users of a buffer may change. -/
def setContents (mem : Mem P n) (b : Fin n) (contents : Contents) : Mem P n :=
  { mem with bufs := update mem.bufs b ⟨contents, (mem.bufs b).holder⟩ }

/-- Replace the holder of a lock. -/
def setHolder (mem : Mem P n) (b : Fin n) (holder : Option P) : Mem P n :=
  { mem with bufs := update mem.bufs b { mem.bufs b with holder := holder } }

/-- The transfer in `iderw` of `memide.c`. -/
def transfer (mem : Mem P n) (b : Fin n) : Mem P n :=
  let buf := mem.bufs b
  { mem.setContents b (buf.transferred mem.disk) with
    disk := if buf.dirty then update mem.disk buf.blockno buf.data else mem.disk }

/-- `iderw` of `memide.c`. -/
def iderw (disksize : Nat) (mem : Mem P n) (b : Fin n) : Except String (Mem P n) :=
  if (mem.bufs b).holder.isNone then .error "iderw: buf not locked"
  else if (mem.bufs b).Clean then .error "iderw: nothing to do"
  else if (mem.bufs b).dev ≠ 1 then .error "iderw: request not for disk 1"
  else if disksize ≤ (mem.bufs b).blockno.toNat then .error "iderw: block out of range"
  else .ok (mem.transfer b)

/-- One operation of a user. -/
def perform (disksize : Nat) (mem : Mem P n) : Op P n → Except String (Mem P n)
  | .lock p b => .ok (mem.setHolder b (some p))
  | .unlock b => .ok (mem.setHolder b none)
  | .store b contents => .ok (mem.setContents b contents)
  | .rw b => mem.iderw disksize b

/-- Operations one after another. -/
def runOps (disksize : Nat) : Mem P n → List (Op P n) → Except String (Mem P n)
  | mem, [] => .ok mem
  | mem, op :: ops => (mem.perform disksize op).bind fun next => runOps disksize next ops

end Mem

/-! ## The queued driver -/

/-- A command in the registers of the device: the drive, the sector, and the data
of a write. -/
inductive Command where
  | read (drive : Bool) (sector : Blockno)
  | write (drive : Bool) (sector : Blockno) (data : Block)

/-- The device.  When it is done, it holds the data of a read and interrupts. -/
inductive Device where
  | idle
  | busy (command : Command)
  | done (data : Option Block)

/-- The places of a process: outside of `iderw`, asleep in it, or about to look at
its buffer again.  A process in `iderw` has a buffer and the number of its request. -/
inductive Pc (n : Nat) where
  | idle
  | asleep (b : Fin n) (request : Nat)
  | ready (b : Fin n) (request : Nat)
  deriving DecidableEq

/-- The driver, the processes, and the history. -/
structure State (P : Type u) (n : Nat) where
  bufs : Fin n → Buf P
  qnext : Fin n → Option (Fin n)
  idequeue : Option (Fin n)
  disks : Bool → Disk
  device : Device
  pc : P → Pc n
  panic : Option String
  trace : List (Op P n)
  queued : List (Fin n)
  issued : List (Fin n)
  completed : List (Fin n)

/-- The steps of the system. -/
inductive Event (P : Type u) (n : Nat) where
  | lock (p : P) (b : Fin n)
  | unlock (p : P) (b : Fin n)
  | store (p : P) (b : Fin n) (contents : Contents)
  /-- a process calls `iderw` on a buffer it has locked -/
  | call (p : P) (b : Fin n)
  /-- a process that sleeps in `iderw` is woken for another reason -/
  | rouse (p : P)
  /-- a process returns from `sleep` in `iderw` -/
  | resume (p : P)
  /-- the device executes its command -/
  | execute
  /-- `ideintr` -/
  | intr

/-- The drive selected by `(b->dev&1)<<4`. -/
def Contents.drive (buf : Contents) : Bool := buf.dev.getLsbD 0

/-- The sector in the four address registers, which take 28 bits; a block is one
sector. -/
def sectorOf (blockno : Blockno) : Blockno := blockno &&& 0x0fffffff#32

/-- The command `idestart` gives to the device. -/
def Contents.command (buf : Contents) : Command :=
  if buf.dirty then .write buf.drive (sectorOf buf.blockno) buf.data
  else .read buf.drive (sectorOf buf.blockno)

namespace State

variable {P : Type u} {n : Nat}

/-- Stop the kernel. -/
def stop (state : State P n) (message : String) : State P n :=
  { state with panic := some message }

/-- Replace what the users of a buffer may change. -/
def setContents (state : State P n) (b : Fin n) (contents : Contents) : State P n :=
  { state with bufs := update state.bufs b ⟨contents, (state.bufs b).holder⟩ }

/-- Replace the holder of a lock. -/
def setHolder (state : State P n) (b : Fin n) (holder : Option P) : State P n :=
  { state with bufs := update state.bufs b { state.bufs b with holder := holder } }

/-- Write down what a user has done. -/
def record (state : State P n) (op : Op P n) : State P n :=
  { state with trace := state.trace ++ [op] }

/-- `idestart`, and what follows it.  `idewait` does not return while the device is
busy. -/
def idestart (state : State P n) (b : Fin n) (andThen : State P n → State P n) :
    Option (State P n) :=
  if fssize ≤ (state.bufs b).blockno.toNat then some (state.stop "incorrect blockno")
  else
    match state.device with
    | .busy _ => none
    | _ =>
      some (andThen
        { state with
          device := .busy (state.bufs b).command
          issued := state.issued ++ [b] })

/-- Append a buffer to the queue; `none` when the loop does not end. -/
def append (state : State P n) (b : Fin n) : Option (State P n) :=
  let qnext := update state.qnext b none
  (findEnd qnext state.idequeue (n + 1) none).map fun place =>
    { state with
      idequeue := (link qnext state.idequeue b place).1
      qnext := (link qnext state.idequeue b place).2
      queued := state.queued ++ [b] }

variable [DecidableEq P]

/-- Move one process. -/
def move (state : State P n) (p : P) (pc : Pc n) : State P n :=
  { state with pc := update state.pc p pc }

/-- The loop at the end of `iderw`: return, or sleep on the buffer. -/
def waitFor (state : State P n) (p : P) (b : Fin n) (request : Nat) : State P n :=
  if (state.bufs b).Clean then state.move p .idle else state.move p (.asleep b request)

/-- `iderw` of `ide.c`, by the holder of the lock. -/
def iderw (havedisk1 : Bool) (state : State P n) (p : P) (b : Fin n) : Option (State P n) :=
  if (state.bufs b).Clean then some (state.stop "iderw: nothing to do")
  else if (state.bufs b).dev ≠ 0 ∧ havedisk1 = false then
    some (state.stop "iderw: ide disk 1 not present")
  else do
    let appended ← (state.record (.rw b)).append b
    if appended.idequeue = some b then
      appended.idestart b fun started => started.waitFor p b state.queued.length
    else some (appended.waitFor p b state.queued.length)

/-- The device executes a command. -/
def execute (state : State P n) : Command → State P n
  | .read drive sector => { state with device := .done (some (state.disks drive sector)) }
  | .write drive sector data =>
    { state with
      device := .done none
      disks := update state.disks drive
        (update (state.disks drive) sector data) }

/-- `wakeup(b)`. -/
def wakeup (state : State P n) (b : Fin n) : State P n :=
  { state with
    pc := fun p =>
      match state.pc p with
      | .asleep other request => if other = b then .ready b request else .asleep other request
      | other => other }

/-- The stores of `ideintr` to the buffer at the head of the queue, and the wakeup of
the process that waits for it. -/
def complete (state : State P n) (b : Fin n) (data : Option Block) : State P n :=
  let buf := state.bufs b
  { (state.setContents b
      { buf.toContents with
        valid := true
        dirty := false
        data := if buf.dirty then buf.data else data.getD buf.data }).wakeup b with
    idequeue := state.qnext b
    device := .idle
    completed := state.completed ++ [b] }

/-- `ideintr`. -/
def ideintr (state : State P n) (data : Option Block) : Option (State P n) :=
  match state.idequeue with
  | none => some { state with device := .idle }
  | some b =>
    let finished := state.complete b data
    match finished.idequeue with
    | none => some finished
    | some next => finished.idestart next id

/-- One step of the system; `none` when the event is not enabled. -/
def step (havedisk1 : Bool) : Step (State P n) (Event P n) := fun state event =>
  if state.panic ≠ none then none
  else
    match event with
    | .lock p b =>
      if (state.bufs b).holder = none then
        some ((state.setHolder b (some p)).record (.lock p b))
      else none
    | .unlock p b =>
      if (state.bufs b).holder = some p ∧ state.pc p = .idle then
        some ((state.setHolder b none).record (.unlock b))
      else none
    | .store p b contents =>
      if (state.bufs b).holder = some p ∧ state.pc p = .idle then
        some ((state.setContents b contents).record (.store b contents))
      else none
    | .call p b =>
      if (state.bufs b).holder = some p ∧ state.pc p = .idle then state.iderw havedisk1 p b
      else none
    | .rouse p =>
      match state.pc p with
      | .asleep b request => some (state.move p (.ready b request))
      | _ => none
    | .resume p =>
      match state.pc p with
      | .ready b request => some (state.waitFor p b request)
      | _ => none
    | .execute =>
      match state.device with
      | .busy command => some (state.execute command)
      | _ => none
    | .intr =>
      match state.device with
      | .done data => state.ideintr data
      | _ => none

end State

/-- The driver after `ideinit`, with some buffers and disks. -/
def boot {P : Type u} {n : Nat} (bufs : Fin n → Contents) (disks : Bool → Disk) :
    State P n where
  bufs := fun b => ⟨bufs b, none⟩
  qnext := fun _ => none
  idequeue := none
  disks := disks
  device := .idle
  pc := fun _ => .idle
  panic := none
  trace := []
  queued := []
  issued := []
  completed := []

end Xv6.Ide
