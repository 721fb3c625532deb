import Xv6.Log.Core
import Xv6.Transition.Core

/-!
# The buffer cache of `bio.c`

Processes read blocks into buffers, change them in place, hand them to `log_write`
and release them, and the last `end_op` commits.  A buffer is found by its device
and block number, or the least recently used one that is neither referenced nor
dirty is recycled; `iderw` is that of `memide.c`.

`bread` is two steps, since it may wait in `acquiresleep` after `bget` has left its
critical section, and `brelse` is two steps for the same reason.  The committing
process runs the statements of `commit` one at a time, with any steps of the others
in between.  A panic is recorded in `trap` and stops the system.
-/

namespace Xv6.Buffers

open Function Xv6.Log Xv6.Redo Xv6.Transition

universe u

/-! ## Buffers -/

/-- The number of a device. -/
abbrev Device := BitVec 32

/-- `ROOTDEV` as the number of a device. -/
def rootdev : Device := BitVec.ofNat 32 Xv6.rootdev

/-- `NBUF`, the number of buffers. -/
def nbuf : Nat := maxopblocks * 3

/-- An index into `bcache.buf`. -/
abbrev Bufno := Fin nbuf

/-- `struct buf`, with the process that has its sleep lock. -/
structure Buf (P : Type u) where
  valid : Bool
  dirty : Bool
  dev : Device
  blockno : Blockno
  lock : Option P
  refcnt : Nat
  data : Block

/-- `iderw`: write the buffer if it is dirty and read it otherwise. -/
def iderw {P : Type u} (disksize : Nat) (disk : Disk) (buf : Buf P) :
    Except String (Buf P × Disk) :=
  if buf.lock = none then .error "iderw: buf not locked"
  else if buf.valid = true ∧ buf.dirty = false then .error "iderw: nothing to do"
  else if buf.dev ≠ 1 then .error "iderw: request not for disk 1"
  else if buf.blockno.toNat ≥ disksize then .error "iderw: block out of range"
  else if buf.dirty then
    .ok ({ buf with dirty := false, valid := true }, write disk (buf.blockno, buf.data))
  else .ok ({ buf with data := disk buf.blockno, valid := true }, disk)

/-- The buffers in the order of their links, from `head.next` to `head.prev`. -/
structure Lru where
  order : List Bufno
  perm : order.Perm (List.finRange nbuf)

namespace Lru

/-- The list that `binit` links: every buffer is inserted at the front. -/
def binit : Lru :=
  ⟨(List.finRange nbuf).reverse, List.reverse_perm _⟩

theorem mem_order (lru : Lru) (b : Bufno) : b ∈ lru.order :=
  lru.perm.mem_iff.mpr (List.mem_finRange b)

/-- Move a buffer to the front. -/
def toFront (lru : Lru) (b : Bufno) : Lru :=
  ⟨b :: lru.order.erase b, (List.perm_cons_erase (lru.mem_order b)).symm.trans lru.perm⟩

end Lru

/-- `bcache`. -/
structure Bcache (P : Type u) where
  buf : Bufno → Buf P
  lru : Lru

namespace Bcache

variable {P : Type u}

/-- The first loop of `bget`. -/
def lookup (bcache : Bcache P) (dev : Device) (blockno : Blockno) : Option Bufno :=
  bcache.lru.order.find? fun b =>
    (bcache.buf b).dev = dev ∧ (bcache.buf b).blockno = blockno

/-- The second loop of `bget`. -/
def victim (bcache : Bcache P) : Option Bufno :=
  bcache.lru.order.reverse.find? fun b =>
    (bcache.buf b).refcnt = 0 ∧ (bcache.buf b).dirty = false

/-- Replace one buffer. -/
def set (bcache : Bcache P) (b : Bufno) (buf : Buf P) : Bcache P :=
  { bcache with buf := update bcache.buf b buf }

end Bcache

/-! ## The program of `commit` -/

/-- What `commit` does with buffers.  `copy` is `memmove` from the buffer of one
block to that of another with the `bwrite` after it, and `head` the stores of
`write_head` with its `bwrite`. -/
inductive Instr where
  | bread (blockno : Blockno)
  | copy (target source : Blockno)
  | head
  | brelse (blockno : Blockno)
  deriving DecidableEq

/-- The statements of `commit`; a loop is at the value of `tail`.  `finish` is the
last critical section of `end_op`, which then returns. -/
inductive Stmt where
  | commit
  | writeLog (tail : Nat)
  | writeHead
  | installTrans (tail : Nat)
  | clear
  | finish
  | instr (instr : Instr)
  deriving DecidableEq

/-- The body of the loop of `write_log`. -/
def writeLogBody (log : Area) (tail : Nat) (block : Blockno) : List Instr :=
  [.bread (log.logBlock tail), .bread block, .copy (log.logBlock tail) block,
    .brelse block, .brelse (log.logBlock tail)]

/-- The body of the loop of `install_trans`. -/
def installTransBody (log : Area) (tail : Nat) (block : Blockno) : List Instr :=
  [.bread (log.logBlock tail), .bread block, .copy block (log.logBlock tail),
    .brelse (log.logBlock tail), .brelse block]

/-- The body of `write_head`. -/
def writeHeadBody (log : Area) : List Instr :=
  [.bread log.start, .head, .brelse log.start]

/-- What a call stands for, and what remains of a loop after its test: a loop tests
`tail < log.lh.n` and reads `log.lh.block[tail]` in every pass. -/
def expand (log : Area) (lh : Header) : Stmt → List Stmt
  | .commit =>
    if lh.block.length > 0 then
      [.writeLog 0, .writeHead, .installTrans 0, .clear, .writeHead]
    else []
  | .writeLog tail =>
    match lh.block[tail]? with
    | some block => (writeLogBody log tail block).map .instr ++ [.writeLog (tail + 1)]
    | none => []
  | .writeHead => (writeHeadBody log).map .instr
  | .installTrans tail =>
    match lh.block[tail]? with
    | some block => (installTransBody log tail block).map .instr ++ [.installTrans (tail + 1)]
    | none => []
  | .clear | .finish | .instr _ => []

/-! ## The system -/

/-- Where a process is: in `acquiresleep` for a buffer, between changing a buffer
and `log_write`, or in `brelse` after `releasesleep`. -/
inductive Pc where
  | idle
  | waiting (b : Bufno)
  | modified (b : Bufno)
  | releasing (b : Bufno)
  deriving DecidableEq

/-- A process: where it is, whether it is between `begin_op` and `end_op`, and what
remains of its `commit`. -/
structure Proc where
  pc : Pc
  inOp : Bool
  todo : List Stmt

/-- The process executes no kernel code of the cache or the log. -/
def Proc.Free (proc : Proc) : Prop :=
  proc.pc = .idle ∧ proc.todo = []

instance (proc : Proc) : Decidable proc.Free :=
  inferInstanceAs (Decidable (_ ∧ _))

/-- The buffer cache, the disk, the variables of `log.c` and the processes. -/
structure State (P : Type u) where
  bcache : Bcache P
  disk : Disk
  outstanding : Int
  committing : Bool
  lh : Header
  proc : P → Proc
  trap : Option String

/-- The calls of the processes; `go` continues a call. -/
inductive Event (P : Type u) where
  | beginOp (p : P)
  | bread (p : P) (dev : Device) (blockno : Blockno)
  | modify (p : P) (blockno : Blockno) (data : Block)
  | logWrite (p : P)
  | brelse (p : P) (blockno : Blockno)
  | endOp (p : P)
  | go (p : P)

/-- The process that takes a step. -/
def Event.process {P : Type u} : Event P → P
  | .beginOp p | .bread p _ _ | .modify p _ _ | .logWrite p | .brelse p _ | .endOp p | .go p => p

namespace State

variable {P : Type u} [DecidableEq P]

/-- Stop the system. -/
def stop (state : State P) (message : String) : State P :=
  { state with trap := some message }

/-- Move one process. -/
def setPc (state : State P) (p : P) (pc : Pc) : State P :=
  { state with proc := update state.proc p { state.proc p with pc := pc } }

/-- Set what remains of the `commit` of a process. -/
def setTodo (state : State P) (p : P) (todo : List Stmt) : State P :=
  { state with proc := update state.proc p { state.proc p with todo := todo } }

/-- Let a process begin or end an operation. -/
def setInOp (state : State P) (p : P) (inOp : Bool) : State P :=
  { state with proc := update state.proc p { state.proc p with inOp := inOp } }

/-- Replace one buffer. -/
def setBuf (state : State P) (b : Bufno) (buf : Buf P) : State P :=
  { state with bcache := state.bcache.set b buf }

/-- The buffer for a block that a process has got from `bread`. -/
def held (state : State P) (p : P) (blockno : Blockno) : Option Bufno :=
  (List.finRange nbuf).find? fun b =>
    (state.bcache.buf b).lock = some p ∧ (state.bcache.buf b).blockno = blockno

/-- The buffer that the second loop of `bget` recycles. -/
def recycle (buf : Buf P) (dev : Device) (blockno : Blockno) : Buf P :=
  { buf with dev := dev, blockno := blockno, valid := false, dirty := false, refcnt := 1 }

/-- The critical section of `bget`. -/
def bget (state : State P) (p : P) (dev : Device) (blockno : Blockno) : State P :=
  match state.bcache.lookup dev blockno with
  | some b =>
    let buf := state.bcache.buf b
    (state.setBuf b { buf with refcnt := buf.refcnt + 1 }).setPc p (.waiting b)
  | none =>
    match state.bcache.victim with
    | some b =>
      (state.setBuf b (recycle (state.bcache.buf b) dev blockno)).setPc p (.waiting b)
    | none => state.stop "bget: no buffers"

/-- The rest of `bread`, when the sleep lock of the buffer is free. -/
def fill (disksize : Nat) (state : State P) (p : P) (b : Bufno) : State P :=
  let locked := { state.bcache.buf b with lock := some p }
  if locked.valid then (state.setBuf b locked).setPc p .idle
  else
    match iderw disksize state.disk locked with
    | .error message => state.stop message
    | .ok (buf, disk) => { state.setBuf b buf with disk := disk }.setPc p .idle

/-- `bwrite`, with the data the caller has stored in the buffer before. -/
def bwrite (disksize : Nat) (state : State P) (b : Bufno) (data : Block) : State P :=
  let buf := { state.bcache.buf b with data := data }
  if buf.lock = none then state.stop "bwrite"
  else
    match iderw disksize state.disk { buf with dirty := true } with
    | .error message => state.stop message
    | .ok (written, disk) => { state.setBuf b written with disk := disk }

/-- `brelse` up to `releasesleep`. -/
def brelse (state : State P) (p : P) (b : Bufno) : State P :=
  let buf := state.bcache.buf b
  if buf.lock = none then state.stop "brelse"
  else (state.setBuf b { buf with lock := none }).setPc p (.releasing b)

/-- The critical section of `brelse`. -/
def drop (state : State P) (p : P) (b : Bufno) : State P :=
  let buf := state.bcache.buf b
  let dropped := (state.setBuf b { buf with refcnt := buf.refcnt - 1 }).setPc p .idle
  if buf.refcnt - 1 = 0 then
    { dropped with bcache := { dropped.bcache with lru := dropped.bcache.lru.toFront b } }
  else dropped

/-- `begin_op`, when it does not wait. -/
def beginOp (state : State P) (p : P) : State P :=
  { state with outstanding := state.outstanding + 1 }.setInOp p true

/-- `log_write`, whose unlocked test and whose record, two steps of `Log.State`, are one
here. -/
def logWrite (log : Area) (state : State P) (p : P) (b : Bufno) : State P :=
  let buf := state.bcache.buf b
  if full : state.lh.block.length ≥ logsize ∨
      (state.lh.block.length : Int) ≥ (log.size : Int) - 1 then
    state.stop "too big a transaction"
  else if state.outstanding < 1 then state.stop "log_write outside of trans"
  else
    let lh := if buf.blockno ∈ state.lh.block then state.lh
      else state.lh.push buf.blockno (by omega)
    ({ state with lh := lh }.setBuf b { buf with dirty := true }).setPc p .idle

/-- `log.outstanding -= 1` in `end_op`. -/
def leaveOp (state : State P) (p : P) : State P :=
  { state with outstanding := state.outstanding - 1 }.setInOp p false

/-- `end_op` up to the call of `commit`. -/
def endOp (state : State P) (p : P) : State P :=
  if state.committing then (state.leaveOp p).stop "log.committing"
  else if (state.leaveOp p).outstanding = 0 then
    { state.leaveOp p with committing := true }.setTodo p [.commit, .finish]
  else state.leaveOp p

/-- Execute one instruction of `commit`. -/
def exec (disksize : Nat) (log : Area) (state : State P) (p : P) : Instr → Option (State P)
  | .bread blockno => some (state.bget p rootdev blockno)
  | .copy target source =>
    match state.held p target, state.held p source with
    | some b, some from_ => some (state.bwrite disksize b (state.bcache.buf from_).data)
    | _, _ => none
  | .head =>
    (state.held p log.start).map fun b =>
      state.bwrite disksize b (state.lh.overlay (state.bcache.buf b).data)
  | .brelse blockno => (state.held p blockno).map fun b => state.brelse p b

/-- Execute one statement of `commit`, which the list `rest` follows. -/
def perform (disksize : Nat) (log : Area) (state : State P) (p : P) (rest : List Stmt) :
    Stmt → Option (State P)
  | .clear => some ({ state with lh := .empty }.setTodo p rest)
  | .finish => some ({ state with committing := false }.setTodo p [])
  | .instr instr => (state.setTodo p rest).exec disksize log p instr
  | stmt => some (state.setTodo p (expand log state.lh stmt ++ rest))

/-- Continue the call a process is in. -/
def go (disksize : Nat) (log : Area) (state : State P) (p : P) : Option (State P) :=
  match (state.proc p).pc with
  | .waiting b =>
    if (state.bcache.buf b).lock = none then some (state.fill disksize p b) else none
  | .releasing b => some (state.drop p b)
  | .modified _ => none
  | .idle =>
    match (state.proc p).todo with
    | [] => none
    | stmt :: rest => state.perform disksize log p rest stmt

/-- One step of the system; `none` when the event is not enabled.  Blocks are
changed by operations only, and not in the log. -/
def step (disksize : Nat) (log : Area) : Step (State P) (Event P) := fun state event =>
  if state.trap ≠ none then none
  else
    match event with
    | .beginOp p =>
      if (state.proc p).Free ∧ (state.proc p).inOp = false ∧
          state.committing = false ∧ ¬state.lh.Full state.outstanding then
        some (state.beginOp p)
      else none
    | .bread p dev blockno =>
      if (state.proc p).Free then some (state.bget p dev blockno) else none
    | .modify p blockno data =>
      match state.held p blockno with
      | some b =>
        if ((state.proc p).pc = .idle ∨ (state.proc p).pc = .modified b) ∧
            (state.proc p).todo = [] ∧ (state.proc p).inOp = true ∧
            ¬log.Contains blockno then
          some ((state.setBuf b { state.bcache.buf b with data := data }).setPc p
            (.modified b))
        else none
      | none => none
    | .logWrite p =>
      match (state.proc p).pc with
      | .modified b => some (state.logWrite log p b)
      | _ => none
    | .brelse p blockno =>
      if (state.proc p).Free then
        (state.held p blockno).map fun b => state.brelse p b
      else none
    | .endOp p =>
      if (state.proc p).Free ∧ (state.proc p).inOp = true then some (state.endOp p) else none
    | .go p => state.go disksize log p

/-- The system after `binit`, with an empty log. -/
def boot (disk : Disk) : State P where
  bcache :=
    { buf := fun _ => ⟨false, false, 0, 0, none, 0, fun _ => 0⟩
      lru := .binit }
  disk := disk
  outstanding := 0
  committing := false
  lh := .empty
  proc := fun _ => ⟨.idle, false, []⟩
  trap := none

end State

end Xv6.Buffers
