import Xv6.FileSystem.Calls

/-!
# `mkfs.c`

`mkfs` builds the image of a file system from files of the host.  The image is a file
of sectors; everything `mkfs` knows about it is in the sectors, apart from the two
counters it allocates inodes and blocks with.  A failed assertion and an error exit
both end `mkfs`.

A host file comes with its name, a C string, and with what the calls of `read` on it
return before the end of the file.  Writing to the image succeeds.
-/

namespace Xv6.Mkfs

open Xv6.FileSystem (Dirent Image Superblock dot dotdot indirect maxfile ndirect nindirect padName
  rootino)
open Xv6.Log (Blockno logsize)
open Prog

/-! ## Layout -/

/-- `NINODES`. -/
def ninodes : Nat := 200

/-- The number of words of a `struct dinode`. -/
def dinodeWords : Nat := 2 + 1 + (ndirect + 1)

/-- `IPB`, the number of inodes in a block. -/
def ipb : Nat := Block.words / dinodeWords

/-- `nbitmap`. -/
def nbitmap : Nat := fssize / (bsize * 8) + 1

/-- `ninodeblocks`. -/
def ninodeblocks : Nat := ninodes / ipb + 1

/-- `nlog`. -/
def nlog : Nat := logsize

/-- `nmeta`, the number of blocks before the data blocks. -/
def nmeta : Nat := 2 + nlog + ninodeblocks + nbitmap

/-- `nblocks`, the number of data blocks. -/
def nblocks : Nat := fssize - nmeta

/-- `sb.inodestart`. -/
def inodestart : Nat := 2 + nlog

/-- `sb.bmapstart`. -/
def bmapstart : Nat := 2 + nlog + ninodeblocks

/-- `IBLOCK`, the block of an inode. -/
def iblock (inum : Nat) : Nat := inum / ipb + inodestart

/-- `struct superblock`, as it lies in its block. -/
def superblock : Block :=
  Block.setWords (fun _ => 0) 0
    ([fssize, nblocks, ninodes, nlog, 2, inodestart, bmapstart].map (BitVec.ofNat 32))

/-! ## Inodes on the disk -/

/-- `struct dinode`. -/
structure RawDinode where
  type : BitVec 16
  major : BitVec 16
  minor : BitVec 16
  nlink : BitVec 16
  size : BitVec 32
  addrs : Fin (ndirect + 1) → Blockno

namespace RawDinode

/-- `T_DIR`. -/
def tDir : BitVec 16 := 1

/-- `T_FILE`. -/
def tFile : BitVec 16 := 2

/-- The words of the structure. -/
def toWords (din : RawDinode) : List (BitVec 32) :=
  [din.major ++ din.type, din.nlink ++ din.minor, din.size] ++ List.ofFn din.addrs

/-- The structure over an array of words. -/
def ofWords (words : List (BitVec 32)) : RawDinode where
  type := (words.getD 0 0).extractLsb' 0 16
  major := (words.getD 0 0).extractLsb' 16 16
  minor := (words.getD 1 0).extractLsb' 0 16
  nlink := (words.getD 1 0).extractLsb' 16 16
  size := words.getD 2 0
  addrs := fun index => words.getD (3 + index.val) 0

/-- Assign an address. -/
def setAddr (din : RawDinode) (index : Fin (ndirect + 1)) (block : Blockno) : RawDinode :=
  { din with addrs := Function.update din.addrs index block }

end RawDinode

/-- The inode at a position of a block of inodes. -/
def dinodeIn (block : Block) (inum : Nat) : RawDinode :=
  .ofWords (block.getWords (dinodeWords * (inum % ipb)) dinodeWords)

/-- Store an inode at its position in a block of inodes. -/
def setDinodeIn (block : Block) (inum : Nat) (din : RawDinode) : Block :=
  block.setWords (dinodeWords * (inum % ipb)) din.toWords

/-! ## Sectors -/

/-- The image file and the counters `freeinode` and `freeblock`. -/
structure State where
  length : Nat
  sectors : Nat → Block
  freeinode : Nat
  freeblock : Nat

/-- The image file has been truncated. -/
def State.start : State where
  length := 0
  sectors := fun _ _ => 0
  freeinode := 1
  freeblock := nmeta

/-- How `mkfs` ends before it is done. -/
inductive Halt where
  | assertion (text : String)
  | exit (call : String)
  deriving DecidableEq, Repr

/-- A part of `mkfs`. -/
abbrev MkfsM := Prog State Halt

/-- The sector that `lseek` finds; the offset `sec * BSIZE` is a `uint`. -/
def position (sec : Nat) : Nat :=
  sec * bsize % 2 ^ 32 / bsize

/-- `wsect`. -/
def wsect (sec : Nat) (buf : Block) : MkfsM Unit :=
  update fun state =>
    { state with
      length := max state.length (position sec + 1)
      sectors := Function.update state.sectors (position sec) buf }

/-- `rsect`; at the end of the image nothing is read. -/
def rsect (sec : Nat) : MkfsM Block := do
  ensure (fun state => position sec < state.length) (.exit "read")
  reading fun state => state.sectors (position sec)

/-- `winode`. -/
def winode (inum : Nat) (din : RawDinode) : MkfsM Unit := do
  let buf ← rsect (iblock inum)
  wsect (iblock inum) (setDinodeIn buf inum din)

/-- `rinode`. -/
def rinode (inum : Nat) : MkfsM RawDinode := do
  let buf ← rsect (iblock inum)
  pure (dinodeIn buf inum)

/-! ## Allocation -/

/-- `ialloc`. -/
def ialloc (type : BitVec 16) : MkfsM Nat := do
  let inum ← reading fun state => state.freeinode
  update fun state => { state with freeinode := state.freeinode + 1 }
  winode inum ⟨type, 0, 0, 1, 0, fun _ => 0⟩
  pure inum

/-- Set a bit of the free map. -/
def setBit (buf : Block) (index : Nat) : Block := fun byte =>
  if byte.val = index / 8 then buf byte ||| 1#8 <<< (index % 8) else buf byte

/-- The free map whose first bits are set. -/
def usedBits (used : Nat) : Block :=
  (List.range used).foldl setBit fun _ => 0

/-- `balloc`: write the free map. -/
def balloc (used : Nat) : MkfsM Unit := do
  ensure (fun _ => used < bsize * 8) (.assertion "used < BSIZE*8")
  wsect bmapstart (usedBits used)

/-- `freeblock++`. -/
def nextBlock : MkfsM Blockno := do
  let block ← reading fun state => state.freeblock
  update fun state => { state with freeblock := state.freeblock + 1 }
  pure (BitVec.ofNat 32 block)

/-! ## Contents -/

/-- The block at a position of the addresses, allocated if there is none. -/
def mapAddr (din : RawDinode) (index : Fin (ndirect + 1)) : MkfsM (RawDinode × Blockno) :=
  if din.addrs index = 0 then do
    let block ← nextBlock
    pure (din.setAddr index block, block)
  else
    pure (din, din.addrs index)

/-- The block at a position of the indirect table, allocated if there is none. -/
def mapEntry (table : Blockno) (index : Fin Block.words) : MkfsM Blockno := do
  let buf ← rsect table.toNat
  if buf.word index = 0 then do
    let block ← nextBlock
    wsect table.toNat (buf.setWord index block)
    pure block
  else
    pure (buf.word index)

/-- The block of the file that `iappend` fills next. -/
def mapBlock (din : RawDinode) (fbn : Nat) : MkfsM (RawDinode × Blockno) :=
  if direct : fbn < ndirect then
    mapAddr din ⟨fbn, Nat.lt_succ_of_lt direct⟩
  else if inTable : fbn - ndirect < nindirect then do
    let (din, table) ← mapAddr din indirect
    let block ← mapEntry table ⟨fbn - ndirect, inTable⟩
    pure (din, block)
  else
    stop (.assertion "fbn < MAXFILE")

/-- The loop of `iappend`; a turn copies at least one byte. -/
def appendBlocks : Nat → RawDinode → Nat → List Byte → MkfsM (RawDinode × Nat)
  | 0, din, off, _ => pure (din, off)
  | turns + 1, din, off, p =>
    if p = [] then
      pure (din, off)
    else do
      let (din, block) ← mapBlock din (off / bsize)
      let buf ← rsect block.toNat
      let count := min p.length (bsize - off % bsize)
      wsect block.toNat (buf.splice (off % bsize) (p.take count))
      appendBlocks turns din (off + count) (p.drop count)

/-- `iappend`. -/
def iappend (inum : Nat) (p : List Byte) : MkfsM Unit := do
  let din ← rinode inum
  let (din, off) ← appendBlocks p.length din din.size.toNat p
  winode inum { din with size := BitVec.ofNat 32 off }

/-! ## The program -/

/-- What a call of `read` returns before the end of the file. -/
abbrev Piece := { bytes : List Byte // bytes ≠ [] ∧ bytes.length ≤ bsize }

/-- A file of the host: its name, a C string, and what is read from it unless it cannot be
opened. -/
structure HostFile where
  name : List Byte
  cstring : 0 ∉ name
  reads : Option (List Piece)

/-- Skip a leading `_`. -/
def strip : List Byte → List Byte
  | [] => []
  | first :: rest => if first = 0x5f then rest else first :: rest

/-- The loop that copies a file. -/
def appendPieces (inum : Nat) : List Piece → MkfsM Unit
  | [] => pure ()
  | piece :: rest => do
      iappend inum piece.val
      appendPieces inum rest

/-- A turn of the loop over the arguments. -/
def addFile (file : HostFile) : MkfsM Unit := do
  ensure (fun _ => 0x2f ∉ file.name) (.assertion "index(argv[i], '/') == 0")
  match file.reads with
  | none => stop (.exit "open")
  | some pieces => do
      let inum ← ialloc RawDinode.tFile
      iappend rootino (Dirent.toBytes ⟨inum, padName (strip file.name)⟩)
      appendPieces inum pieces

/-- The loop over the arguments. -/
def addFiles : List HostFile → MkfsM Unit
  | [] => pure ()
  | file :: rest => do
      addFile file
      addFiles rest

/-- The loop that fills the image with zeros. -/
def zeroSectors : Nat → MkfsM Unit
  | 0 => pure ()
  | count + 1 => do
      zeroSectors count
      wsect count fun _ => 0

/-- The root directory before the files are added. -/
def makeRoot : MkfsM Unit := do
  let root ← ialloc RawDinode.tDir
  ensure (fun _ => root = rootino) (.assertion "rootino == ROOTINO")
  iappend root (Dirent.toBytes ⟨root, padName dot⟩)
  iappend root (Dirent.toBytes ⟨root, padName dotdot⟩)

/-- Fix the size of the root directory. -/
def fixRoot : MkfsM Unit := do
  let din ← rinode rootino
  winode rootino { din with size := BitVec.ofNat 32 ((din.size.toNat / bsize + 1) * bsize) }

/-- `main`, on an image file that has been truncated. -/
def main (files : List HostFile) : MkfsM Unit := do
  zeroSectors fssize
  wsect 1 superblock
  makeRoot
  addFiles files
  fixRoot
  let used ← reading fun state => state.freeblock
  balloc used

end Xv6.Mkfs
