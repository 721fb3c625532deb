import Xv6.FileSystem.Path
import Xv6.Transition.Core

/-!
# Freeing and reusing an inode number

The processes that use the inode cache at the same time: `iput` with the work of
`itrunc`, the part of `create` that makes the new inode (`ialloc`, `ilock`, `iupdate`
and the first entries of a directory), and `iget` with `ilock`, `iunlock` and `iput`
for a name that was looked up.

A step is what a process does under `icache.lock` or with one buffer locked, an
access to an in-core inode between two such sections, or taking or leaving a
sleep-lock; the steps of the processes are interleaved in any order.  `linked` are
the numbers that some directory entry carries, and so the ones that can be looked up;
`made` records the type that was asked for by the `create` that made an inode.
-/

namespace Xv6.FileSystem.Reuse

open Xv6.Log (Blockno)
open Function Prog Transition

/-- The arguments of `create`, and the number of the parent directory. -/
structure Request where
  type : FileType
  major : Int
  minor : Int
  parent : Nat
  allocated : type ≠ .free
  deriving DecidableEq

/-- Where `itrunc` is: in its loops, about to clear the size, or about to call `iupdate`. -/
inductive Trunc where
  | direct (rest : List (Fin (ndirect + 1)))
  | unmap (index : Fin (ndirect + 1)) (rest : List (Fin (ndirect + 1)))
  | table (addr : Blockno) (rest : List (Fin Block.words))
  | unmapTable
  | size
  | update

/-- Where the `dirlink` of the entry `.` or, for `second`, of the entry `..` is. -/
inductive Dot where
  | map (second : Bool)
  | write (second : Bool) (block : Blockno)
  | size (second : Bool)
  | update (second : Bool)

/-- Where a process is. -/
inductive Pc where
  | idle
  -- `iput`, from `acquire` to the second `release`
  | enter (ip : Islot)
  | trunc (ip : Islot) (place : Trunc)
  | clear (ip : Islot)
  | cleared (ip : Islot)
  | leave (ip : Islot)
  -- `ialloc`
  | scan (request : Request) (inum : Nat)
  | claimed (request : Request) (inum : Nat)
  -- `ilock`, for `create` if there is a request
  | got (goal : Option Request) (ip : Islot)
  | locked (goal : Option Request) (ip : Islot)
  | loading (goal : Option Request) (ip : Islot)
  | loaded (goal : Option Request) (ip : Islot)
  -- the rest of `create`
  | fields (request : Request) (ip : Islot)
  | updating (request : Request) (ip : Islot)
  | dots (request : Request) (ip : Islot) (place : Dot)
  | created (request : Request) (ip : Islot)
  -- with the inode locked, and with a reference to it only
  | holds (ip : Islot)
  | kept (ip : Islot)

/-- What follows `ilock`. -/
def Pc.after : Option Request → Islot → Pc
  | none, ip => .holds ip
  | some request, ip => .fields request ip

/-- The entry `.` or `..` of a new directory. -/
def dotEntry (request : Request) (inum : Nat) : Bool → Dirent
  | false => ⟨inum, padName dot⟩
  | true => ⟨request.parent, padName dotdot⟩

/-- Where that entry stands. -/
def dotOffset : Bool → Nat
  | false => 0
  | true => direntSize

/-- Change an in-core inode. -/
def touch (ip : Islot) (change : Inode → Inode) : FsM Unit :=
  update fun fs => fs.setInode ip change

/-- The next step of `itrunc`. -/
def truncSection (ip : Islot) : Trunc → FsM Pc
  | .direct (index :: rest) => do
      let addr ← reading fun fs => (fs.icache ip).addrs index
      if addr = 0 then pure (.trunc ip (.direct rest))
      else do
        bfree addr
        pure (.trunc ip (.unmap index rest))
  | .direct [] => do
      let addr ← reading fun fs => (fs.icache ip).addrs indirect
      if addr = 0 then pure (.trunc ip .size)
      else pure (.trunc ip (.table addr (List.finRange Block.words)))
  | .unmap index rest => do
      touch ip fun inode => inode.setAddr index 0
      pure (.trunc ip (.direct rest))
  | .table addr (index :: rest) => do
      let entry ← reading fun fs => (fs.data addr).word index
      whenever (entry ≠ 0) (bfree entry)
      pure (.trunc ip (.table addr rest))
  | .table addr [] => do
      bfree addr
      pure (.trunc ip .unmapTable)
  | .unmapTable => do
      touch ip fun inode => inode.setAddr indirect 0
      pure (.trunc ip .size)
  | .size => do
      touch ip fun inode => { inode with size := 0 }
      pure (.trunc ip .update)
  | .update => do
      iupdate ip
      pure (.clear ip)

/-- The next step of the `dirlink` of the first entries. -/
def dotSection (request : Request) (ip : Islot) : Dot → FsM Pc
  | .map second => do
      let block ← bmap ip 0
      pure (.dots request ip (.write second block))
  | .write second block => do
      Prog.update fun fs => fs.setBlock block ((fs.data block).splice (dotOffset second)
        (dotEntry request (fs.icache ip).inum second).toBytes)
      pure (.dots request ip (.size second))
  | .size second => do
      touch ip fun inode => { inode with size := dotOffset second + direntSize }
      pure (.dots request ip (.update second))
  | .update second => do
      iupdate ip
      pure (if second then .created request ip else .dots request ip (.map true))

/-- The next step of a process. -/
def sectionOf : Pc → FsM Pc
  | .idle => stop .hang
  | .enter ip => do
      let inode ← reading fun fs => fs.icache ip
      if inode.ref = 1 ∧ inode.valid = true ∧ inode.nlink = 0 then
        pure (.trunc ip (.direct directs))
      else do
        touch ip fun inode => { inode with ref := inode.ref - 1 }
        pure .idle
  | .trunc ip place => truncSection ip place
  | .clear ip => do
      touch ip fun inode => { inode with type := .free }
      pure (.cleared ip)
  | .cleared ip => do
      iupdate ip
      pure (.leave ip)
  | .leave ip => do
      touch ip fun inode => { inode with valid := false, ref := inode.ref - 1 }
      pure .idle
  | .scan request inum => do
      let fs ← reading id
      if fs.sb.ninodes ≤ inum then stop (.panic "ialloc: no inodes")
      else if (fs.inodes inum).type = .free then do
        update fun fs => fs.setDinode inum (Dinode.zero request.type)
        pure (.claimed request inum)
      else pure (.scan request (inum + 1))
  | .claimed request inum => do
      let ip ← iget rootdev inum
      pure (.got (some request) ip)
  | .got goal ip => do
      ensure (fun fs => 1 ≤ (fs.icache ip).ref) (.panic "ilock")
      ensure (fun fs => (fs.icache ip).locked = false) .hang
      touch ip fun inode => { inode with locked := true }
      pure (.locked goal ip)
  | .locked goal ip => do
      let inode ← reading fun fs => fs.icache ip
      if inode.valid = true then pure (Pc.after goal ip) else pure (.loading goal ip)
  | .loading goal ip => do
      update fun fs => fs.setInode ip fun inode =>
        { inode with toDinode := fs.inodes inode.inum }
      pure (.loaded goal ip)
  | .loaded goal ip => do
      touch ip fun inode => { inode with valid := true }
      ensure (fun fs => (fs.icache ip).type ≠ .free) (.panic "ilock: no type")
      pure (Pc.after goal ip)
  | .fields request ip => do
      touch ip fun inode =>
        { inode with major := request.major, minor := request.minor, nlink := 1 }
      pure (.updating request ip)
  | .updating request ip => do
      iupdate ip
      pure (if request.type = .dir then .dots request ip (.map false) else .created request ip)
  | .dots request ip place => dotSection request ip place
  | .created _ ip => pure (.holds ip)
  | .holds ip => do
      iunlock ip
      pure (.kept ip)
  | .kept ip => pure (.enter ip)

/-- `iget` for a number found in a directory. -/
def lookupSection (inum : Nat) : FsM Pc := do
  let ip ← iget rootdev inum
  pure (.got none ip)

variable {P : Type} [DecidableEq P]

/-- The file system, the processes, the numbers with a name and the inodes that were made. -/
structure State (P : Type) where
  fs : Fs
  pc : P → Pc
  linked : Nat → Bool
  made : Nat → Option FileType
  trap : Option String

/-- What may happen next. -/
inductive Event (P : Type) where
  | go (p : P)
  | create (p : P) (request : Request)
  | lookup (p : P) (inum : Nat)
  | relock (p : P)
  deriving DecidableEq

namespace State

/-- A step of a process; a panic stops the machine, a sleep-lock that is held makes the
process wait. -/
def perform (state : State P) (p : P) (prog : FsM Pc) : Option (State P) :=
  match prog state.fs with
  | .ok (next, fs) => some { state with fs := fs, pc := update state.pc p next }
  | .error (.panic message) => some { state with trap := some message }
  | .error .hang => none

/-- A process goes on somewhere else. -/
def jump (state : State P) (p : P) (next : Pc) : State P :=
  { state with pc := update state.pc p next }

/-- `create` has linked the inode and returns. -/
def record (state : State P) (p : P) : State P :=
  match state.pc p with
  | .created request ip =>
    let inum := (state.fs.icache ip).inum
    { state with
      linked := update state.linked inum true
      made := update state.made inum (some request.type) }
  | _ => state

/-- The transitions. -/
def step (state : State P) (event : Event P) : Option (State P) :=
  if state.trap ≠ none then none
  else
    match event with
    | .go p => (state.record p).perform p (sectionOf (state.pc p))
    | .create p request =>
      match state.pc p with
      | .idle => some (state.jump p (.scan request 1))
      | _ => none
    | .lookup p inum =>
      match state.pc p with
      | .idle =>
        if state.linked inum = true then state.perform p (lookupSection inum) else none
      | _ => none
    | .relock p =>
      match state.pc p with
      | .kept ip => some (state.jump p (.got none ip))
      | _ => none

end State

end Xv6.FileSystem.Reuse
