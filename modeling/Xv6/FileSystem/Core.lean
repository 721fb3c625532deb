import Mathlib.Data.List.FinRange
import Mathlib.Logic.Function.Basic
import Xv6.Log.Core
import Xv6.Program.Core

/-!
# Blocks and inodes of `fs.c`

The state is the logical disk (what the buffer cache holds over the disk) and the
inode cache.  The inode blocks, the free map and the data blocks are disjoint
regions of the disk and are kept as three tables.  `inodes` gives an inode to
every number; only the numbers below `ninodes` are on the disk, and the cache
never holds another one.

System calls run one after the other, so a spinlock is free whenever it is
taken and a sleep-lock that is already held is never released: waiting for it
is the end of the run.
-/

namespace Xv6.FileSystem

open Xv6.Log (Blockno)
open Function Prog

/-- `NINODE`, the number of slots of the inode cache. -/
def ninode : Nat := 50

instance : NeZero ninode := ⟨by decide⟩

/-- `ROOTINO`. -/
def rootino : Nat := 1

/-- `NDIRECT`. -/
def ndirect : Nat := 12

/-- `NINDIRECT`. -/
def nindirect : Nat := Block.words

/-- `MAXFILE`, the largest number of blocks of a file. -/
def maxfile : Nat := ndirect + nindirect

/-- The `type` of an inode; `free` is the zero of a free inode. -/
inductive FileType where
  | free
  | dir
  | file
  | dev
  deriving DecidableEq, Repr

/-- `struct dinode`.  `addrs` holds the direct blocks and, last, the indirect block. -/
structure Dinode where
  type : FileType
  major : Int
  minor : Int
  nlink : Int
  size : Nat
  addrs : Fin (ndirect + 1) → Blockno

/-- The position of the indirect block among the addresses. -/
def indirect : Fin (ndirect + 1) :=
  Fin.last ndirect

/-- A dinode of zeros with the given type, as `ialloc` writes it. -/
def Dinode.zero (type : FileType) : Dinode where
  type := type
  major := 0
  minor := 0
  nlink := 0
  size := 0
  addrs := fun _ => 0

/-- `struct inode`, the in-core inode; `valid` is `I_VALID`. -/
structure Inode extends Dinode where
  dev : Nat
  inum : Nat
  ref : Int
  locked : Bool
  valid : Bool

/-- A slot of the inode cache at boot. -/
def Inode.zero : Inode where
  toDinode := Dinode.zero .free
  dev := 0
  inum := 0
  ref := 0
  locked := false
  valid := false

/-- A position in `icache.inode`; inode pointers are slots. -/
abbrev Islot := Fin ninode

/-- The fields of `struct superblock` that tell the regions of the disk apart; the data
blocks are the last `nblocks` of the `size` blocks. -/
structure Superblock where
  size : Nat
  nblocks : Nat
  ninodes : Nat
  deriving DecidableEq

/-- The logical disk and the inode cache. -/
structure Fs where
  sb : Superblock
  inodes : Nat → Dinode
  bitmap : Blockno → Bool
  data : Blockno → Block
  icache : Islot → Inode

/-- How the file system stops: a panic, or waiting for a sleep-lock that nobody releases. -/
inductive FsStop where
  | panic (message : String)
  | hang
  deriving DecidableEq, Repr

/-- A program of the file system. -/
abbrev FsM := Prog Fs FsStop

/-! ## Updates of the state -/

namespace Fs

/-- Change an in-core inode. -/
def setInode (fs : Fs) (ip : Islot) (change : Inode → Inode) : Fs :=
  { fs with icache := update fs.icache ip (change (fs.icache ip)) }

/-- Store a dinode. -/
def setDinode (fs : Fs) (inum : Nat) (dinode : Dinode) : Fs :=
  { fs with inodes := update fs.inodes inum dinode }

/-- Set a bit of the free map. -/
def setBit (fs : Fs) (block : Blockno) (used : Bool) : Fs :=
  { fs with bitmap := update fs.bitmap block used }

/-- Store a data block. -/
def setBlock (fs : Fs) (block : Blockno) (data : Block) : Fs :=
  { fs with data := update fs.data block data }

end Fs

/-- Assign an address of an in-core inode. -/
def Inode.setAddr (inode : Inode) (index : Fin (ndirect + 1)) (block : Blockno) : Inode :=
  { inode with addrs := update inode.addrs index block }

/-! ## Blocks -/

/-- `balloc`: allocate a zeroed disk block. -/
def balloc : FsM Blockno := do
  let found ← reading fun fs =>
    (List.range fs.sb.size).find? fun b => !fs.bitmap (BitVec.ofNat 32 b)
  match found with
  | none => stop (.panic "balloc: out of blocks")
  | some b => do
      update fun fs => fs.setBit (BitVec.ofNat 32 b) true
      update fun fs => fs.setBlock (BitVec.ofNat 32 b) fun _ => 0
      pure (BitVec.ofNat 32 b)

/-- `bfree`: free a disk block. -/
def bfree (block : Blockno) : FsM Unit := do
  ensure (fun fs => fs.bitmap block = true) (.panic "freeing free block")
  update fun fs => fs.setBit block false

/-! ## Inodes -/

/-- `iupdate`: copy a modified in-memory inode to disk. -/
def iupdate (ip : Islot) : FsM Unit :=
  update fun fs => fs.setDinode (fs.icache ip).inum (fs.icache ip).toDinode

/-- `iget`: find the inode in the cache, or recycle the first empty slot for it. -/
def iget (dev inum : Nat) : FsM Islot := do
  let cached ← reading fun fs => (List.finRange ninode).find? fun ip =>
    0 < (fs.icache ip).ref ∧ (fs.icache ip).dev = dev ∧ (fs.icache ip).inum = inum
  match cached with
  | some ip => do
      update fun fs => fs.setInode ip fun inode => { inode with ref := inode.ref + 1 }
      pure ip
  | none => do
      let empty ← reading fun fs =>
        (List.finRange ninode).find? fun ip => (fs.icache ip).ref = 0
      match empty with
      | none => stop (.panic "iget: no inodes")
      | some ip => do
          update fun fs => fs.setInode ip fun inode =>
            { inode with dev := dev, inum := inum, ref := 1, valid := false }
          pure ip

/-- `idup`: increment the reference count. -/
def idup (ip : Islot) : FsM Islot := do
  update fun fs => fs.setInode ip fun inode => { inode with ref := inode.ref + 1 }
  pure ip

/-- `ialloc`: allocate a new inode with the given type. -/
def ialloc (dev : Nat) (type : FileType) : FsM Islot := do
  let found ← reading fun fs =>
    (List.range' 1 (fs.sb.ninodes - 1)).find? fun inum => (fs.inodes inum).type = .free
  match found with
  | none => stop (.panic "ialloc: no inodes")
  | some inum => do
      update fun fs => fs.setDinode inum (Dinode.zero type)
      iget dev inum

/-- `ilock`: lock the inode, reading it from disk if necessary. -/
def ilock (ip : Islot) : FsM Unit := do
  ensure (fun fs => 1 ≤ (fs.icache ip).ref) (.panic "ilock")
  ensure (fun fs => (fs.icache ip).locked = false) .hang
  update fun fs => fs.setInode ip fun inode => { inode with locked := true }
  let valid ← reading fun fs => (fs.icache ip).valid
  whenever (valid = false) do
    update fun fs => fs.setInode ip fun inode =>
      { inode with toDinode := fs.inodes inode.inum, valid := true }
    ensure (fun fs => (fs.icache ip).type ≠ .free) (.panic "ilock: no type")

/-- `iunlock`. -/
def iunlock (ip : Islot) : FsM Unit := do
  ensure (fun fs => (fs.icache ip).locked = true ∧ 1 ≤ (fs.icache ip).ref) (.panic "iunlock")
  update fun fs => fs.setInode ip fun inode => { inode with locked := false }

/-! ## Contents -/

/-- The block at a position of the addresses, allocated if there is none. -/
def mapAddr (ip : Islot) (index : Fin (ndirect + 1)) : FsM Blockno := do
  let addr ← reading fun fs => (fs.icache ip).addrs index
  if addr = 0 then do
    let addr ← balloc
    update fun fs => fs.setInode ip fun inode => inode.setAddr index addr
    pure addr
  else
    pure addr

/-- The block at a position of the indirect table, allocated if there is none. -/
def mapEntry (table : Blockno) (index : Fin Block.words) : FsM Blockno := do
  let addr ← reading fun fs => (fs.data table).word index
  if addr = 0 then do
    let addr ← balloc
    update fun fs => fs.setBlock table ((fs.data table).setWord index addr)
    pure addr
  else
    pure addr

/-- `bmap`: the disk block of the `bn`th block of the inode, allocated if there is none. -/
def bmap (ip : Islot) (bn : Nat) : FsM Blockno :=
  if direct : bn < ndirect then
    mapAddr ip ⟨bn, Nat.lt_succ_of_lt direct⟩
  else if inTable : bn - ndirect < nindirect then do
    let table ← mapAddr ip indirect
    mapEntry table ⟨bn - ndirect, inTable⟩
  else
    stop (.panic "bmap: out of range")

/-- The loop of `itrunc` over the direct blocks. -/
def freeDirect (ip : Islot) : List (Fin (ndirect + 1)) → FsM Unit
  | [] => pure ()
  | index :: rest => do
      let addr ← reading fun fs => (fs.icache ip).addrs index
      whenever (addr ≠ 0) do
        bfree addr
        update fun fs => fs.setInode ip fun inode => inode.setAddr index 0
      freeDirect ip rest

/-- The loop of `itrunc` over the indirect table. -/
def freeTable (table : Block) : List (Fin Block.words) → FsM Unit
  | [] => pure ()
  | index :: rest => do
      whenever (table.word index ≠ 0) (bfree (table.word index))
      freeTable table rest

/-- The positions of the direct blocks. -/
def directs : List (Fin (ndirect + 1)) :=
  (List.finRange ndirect).map Fin.castSucc

/-- `itrunc`: discard the contents of the inode. -/
def itrunc (ip : Islot) : FsM Unit := do
  freeDirect ip directs
  let addr ← reading fun fs => (fs.icache ip).addrs indirect
  whenever (addr ≠ 0) do
    let table ← reading fun fs => fs.data addr
    freeTable table (List.finRange Block.words)
    bfree addr
    update fun fs => fs.setInode ip fun inode => inode.setAddr indirect 0
  update fun fs => fs.setInode ip fun inode => { inode with size := 0 }
  iupdate ip

/-- `iput`: drop a reference, and free the inode if it was the last one and no directory
entry refers to the inode. -/
def iput (ip : Islot) : FsM Unit := do
  let inode ← reading fun fs => fs.icache ip
  whenever (inode.ref = 1 ∧ inode.valid = true ∧ inode.nlink = 0) do
    itrunc ip
    update fun fs => fs.setInode ip fun inode => { inode with type := .free }
    iupdate ip
    update fun fs => fs.setInode ip fun inode => { inode with valid := false }
  update fun fs => fs.setInode ip fun inode => { inode with ref := inode.ref - 1 }

/-- `iunlockput`. -/
def iunlockput (ip : Islot) : FsM Unit := do
  iunlock ip
  iput ip

end Xv6.FileSystem
