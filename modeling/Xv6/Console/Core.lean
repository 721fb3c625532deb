import Xv6.Machine.Block
import Xv6.Machine.RingBuffer
import Xv6.Process.Table
import Xv6.Transition.Core

/-!
# The console input

`consoleintr` edits a line in the circular buffer of `console.c` and commits it
to the readers, the processes in `consoleread`.  Every section of `cons.lock` is
one step: an interrupt with all the characters it finds, and a reader from
`acquire` up to its return or to `sleep`, which gives the lock up.

Besides the buffer, the state keeps what went through it: the characters that
were committed, what the readers took, and the activation record of every call
of `consoleread`.
-/

namespace Xv6.Console

open Function Xv6.Process Xv6.Transition

/-- `INPUT_BUF`. -/
def inputBuf : Nat := 128

instance : NeZero inputBuf := ⟨by decide⟩

/-- `C(x)`. -/
def ctrl (x : Char) : Byte := BitVec.ofNat 8 x.toNat - BitVec.ofNat 8 '@'.toNat

/-- `'\n'`. -/
def newline : Byte := 10

/-- `'\r'`. -/
def carriageReturn : Byte := 13

/-- `'\x7f'`. -/
def delete : Byte := 127

/-- `BACKSPACE`, the argument of `consputc` that erases a character. -/
def backspace : Nat := 256

/-- `input`. -/
structure Input where
  buf : Fin inputBuf → Byte
  r : BitVec 32
  w : BitVec 32
  e : BitVec 32

namespace Input

/-- The zero-initialized buffer. -/
def zero : Input := ⟨fun _ => 0, 0, 0, 0⟩

/-- `input.buf[index % INPUT_BUF]`. -/
def get (input : Input) (index : BitVec 32) : Byte :=
  input.buf (RingBuffer.cell inputBuf index)

/-- The characters from index `first` up to `last`. -/
def between (input : Input) (first last : BitVec 32) : List Byte :=
  RingBuffer.window input.buf first (last - first).toNat

/-- `input.buf[input.e++ % INPUT_BUF] = c`. -/
def store (input : Input) (c : Byte) : Input :=
  { input with
    buf := update input.buf (RingBuffer.cell inputBuf input.e) c
    e := input.e + 1 }

end Input

/-- The activation record of a call of `consoleread`: the characters it has
stored to `dst`, its variables, and the value it returned. -/
structure Frame where
  target : Nat
  n : Nat
  dst : List Byte
  ret : Option Int
  deriving DecidableEq, Repr

/-- What a reader does with a committed character: store it, or return an empty
read. -/
inductive Delivery where
  | byte (call : Nat) (c : Byte)
  | eof (call : Nat)
  deriving DecidableEq, Repr

/-- The console, the processes, and the history of the console.  `reader` gives
the call of `consoleread` in which a process sleeps. -/
structure State where
  table : Ptable
  input : Input
  echo : List Nat
  reader : Slot → Option Nat
  calls : Nat
  frames : Nat → Frame
  committed : List Byte
  log : List Delivery

/-- The steps of the system. -/
inductive Event where
  /-- `consoleintr`, with the characters `getc` returns -/
  | intr (chars : List Byte)
  /-- a running process calls `consoleread` -/
  | read (slot : Slot) (n : Nat)
  /-- a reader is scheduled again and returns from `sleep` -/
  | resume (slot : Slot)
  /-- `kill(pid)` -/
  | kill (pid : Int)
  /-- `wakeup` of a channel by anyone else -/
  | wakeup (chan : Option Chan)
  /-- a process outside of `consoleread` changes its record in any way -/
  | other (slot : Slot) (proc : Proc)

namespace State

/-- Replace the input record. -/
def setInput (state : State) (input : Input) : State :=
  { state with input := input }

/-- `consputc`. -/
def consputc (state : State) (c : Nat) : State :=
  { state with echo := state.echo ++ [c] }

/-- Store to the activation record of a call. -/
def setFrame (state : State) (call : Nat) (frame : Frame) : State :=
  { state with frames := update state.frames call frame }

/-! ## consoleintr -/

/-- `input.e--; consputc(BACKSPACE)`. -/
def eraseLast (state : State) : State :=
  (state.setInput { state.input with e := state.input.e - 1 }).consputc backspace

/-- The loop of control-U; it makes at most `input.e - input.w` iterations. -/
def killLine : Nat → State → State
  | 0, state => state
  | fuel + 1, state =>
    if state.input.e ≠ state.input.w ∧ state.input.get (state.input.e - 1) ≠ newline then
      killLine fuel state.eraseLast
    else state

/-- The two cases of `consoleintr` that erase: control-U, and backspace. -/
def eraseStep (state : State) (c : Byte) : State :=
  if c = ctrl 'U' then state.killLine (state.input.e - state.input.w).toNat
  else if state.input.e ≠ state.input.w then state.eraseLast
  else state

/-- `input.w = input.e; wakeup(&input.r)`, with `chan` the address `&input.r`. -/
def commit (chan : Chan) (state : State) : State :=
  { state with
    input := { state.input with w := state.input.e }
    committed := state.committed ++ state.input.between state.input.w state.input.e
    table := state.table.wakeup1 (some chan) }

/-- The line is committed at its end, at an end of file, and in a full buffer. -/
def Commits (input : Input) (c : Byte) : Prop :=
  c = newline ∨ c = ctrl 'D' ∨ input.e = input.r + BitVec.ofNat 32 inputBuf

instance (input : Input) (c : Byte) : Decidable (Commits input c) :=
  inferInstanceAs (Decidable (_ ∨ _ ∨ _))

/-- Store a character and echo it. -/
def insert (chan : Chan) (state : State) (c : Byte) : State :=
  let stored := (state.setInput (state.input.store c)).consputc c.toNat
  if Commits stored.input c then stored.commit chan else stored

/-- The characters that erase. -/
def Erases (c : Byte) : Prop := c = ctrl 'U' ∨ c = ctrl 'H' ∨ c = delete

instance (c : Byte) : Decidable (Erases c) := inferInstanceAs (Decidable (_ ∨ _ ∨ _))

/-- The body of the loop of `consoleintr`.  The process listing of control-P is
printed after the lock has been released. -/
def handle (chan : Chan) (state : State) (c : Byte) : State :=
  if c = ctrl 'P' then state
  else if Erases c then state.eraseStep c
  else if c ≠ 0 ∧ (state.input.e - state.input.r).toNat < inputBuf then
    state.insert chan (if c = carriageReturn then newline else c)
  else state

/-- `consoleintr`. -/
def consoleintr (chan : Chan) (state : State) (chars : List Byte) : State :=
  chars.foldl (handle chan) state

/-! ## consoleread -/

/-- `release(&cons.lock)` and the return of a value. -/
def finish (state : State) (slot : Slot) (call n : Nat) (ret : Int) : State :=
  { state with reader := update state.reader slot none }.setFrame call
    { state.frames call with n := n, ret := some ret }

/-- `sleep(&input.r, &cons.lock)`. -/
def sleep (chan : Chan) (state : State) (slot : Slot) (call n : Nat) : State :=
  { state with
    table := state.table.goToSleep slot chan
    reader := update state.reader slot (some call) }.setFrame call
      { state.frames call with n := n }

/-- `c = input.buf[input.r++ % INPUT_BUF]` for an end of file that is taken. -/
def takeEof (state : State) (call : Nat) : State :=
  { state with
    input := { state.input with r := state.input.r + 1 }
    log := state.log ++ [.eof call] }

/-- `c = input.buf[input.r++ % INPUT_BUF]; *dst++ = c`. -/
def takeByte (state : State) (call : Nat) (c : Byte) : State :=
  { state with
    input := { state.input with r := state.input.r + 1 }
    log := state.log ++ [Delivery.byte call c] }.setFrame call
      { state.frames call with dst := (state.frames call).dst ++ [c] }

/-- The loop of `consoleread` with `n` characters to go. -/
def copy (chan : Chan) (slot : Slot) (call : Nat) : Nat → State → State
  | 0, state => state.finish slot call 0 (state.frames call).target
  | n + 1, state =>
    if state.input.r = state.input.w then
      if (state.table slot).killed then state.finish slot call (n + 1) (-1)
      else state.sleep chan slot call (n + 1)
    else
      let c := state.input.get state.input.r
      if c = ctrl 'D' then
        if n + 1 < (state.frames call).target then
          -- `input.r--` undoes the increment
          (state.setInput { state.input with r := state.input.r + 1 - 1 }).finish slot call
            (n + 1) ((state.frames call).target - (n + 1 : Nat))
        else
          (state.takeEof call).finish slot call (n + 1)
            ((state.frames call).target - (n + 1 : Nat))
      else if c = newline then
        (state.takeByte call c).finish slot call n ((state.frames call).target - n)
      else copy chan slot call n (state.takeByte call c)

/-- One step of the system, with `chan` the address `&input.r`; `none` when the
event is not enabled. -/
def step (chan : Chan) : Step State Event := fun state event =>
  match event with
  | .intr chars => some (state.consoleintr chan chars)
  | .read slot n =>
    if (state.table slot).state = .running ∧ state.reader slot = none then
      some (({ state with calls := state.calls + 1 }.setFrame state.calls
        ⟨n, n, [], none⟩).copy chan slot state.calls n)
    else none
  | .resume slot =>
    if (state.table slot).state = .runnable then
      (state.reader slot).map fun call =>
        { state with
          table := (state.table.setState slot .running).clearChan slot
          reader := update state.reader slot none }.copy chan slot call
            (state.frames call).n
    else none
  | .kill pid => some { state with table := (state.table.kill pid).2 }
  | .wakeup chan => some { state with table := state.table.wakeup1 chan }
  | .other slot proc =>
    if state.reader slot = none then
      some { state with table := state.table.modify slot fun _ => proc }
    else none

end State

/-- The console after `consoleinit`. -/
def boot (table : Ptable) : State where
  table := table
  input := .zero
  echo := []
  reader := fun _ => none
  calls := 0
  frames := fun _ => ⟨0, 0, [], none⟩
  committed := []
  log := []

end Xv6.Console
