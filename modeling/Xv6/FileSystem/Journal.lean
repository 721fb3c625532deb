import Mathlib.Data.Finset.Dedup
import Xv6.FileSystem.ByteArray
import Xv6.Program.Projection

/-!
# The blocks that a write puts into the log

`writei` and what it calls, together with the blocks they pass to `log_write`.  A data
block is logged when it is zeroed or written, the free map when a block is marked, the
indirect block when an entry is stored, and the inode when the file has grown.
-/

namespace Xv6.FileSystem

open Xv6.Log (Blockno)
open Prog Volume

/-- A block of the disk that the log may hold. -/
inductive DiskBlock where
  | inode (index : Nat)
  | bitmap (index : Nat)
  | data (block : Blockno)
  deriving DecidableEq

/-- `IPB`, the inodes per block. -/
def inodesPerBlock : Nat := bsize / 64

/-- `BPB`, the bits of the free map per block. -/
def bitsPerBlock : Nat := bsize * 8

/-- The file system, and the blocks logged since `begin_op`. -/
structure Logged where
  fs : Fs
  logged : List DiskBlock

namespace Logged

/-- `log_write`. -/
def logWrite (block : DiskBlock) : Prog Logged FsStop Unit :=
  update fun state => { state with logged := block :: state.logged }

/-- A part of the program without a call of `log_write`. -/
def quiet {α : Type} (prog : FsM α) : Prog Logged FsStop α :=
  on Logged.fs (fun state fs => { state with fs := fs }) id prog

/-- `balloc`; the block is zeroed by `bzero`. -/
def balloc : Prog Logged FsStop Blockno := do
  let block ← quiet FileSystem.balloc
  logWrite (.bitmap (block.toNat / bitsPerBlock))
  logWrite (.data block)
  pure block

/-- The block at a position of the addresses, allocated if there is none. -/
def mapAddr (ip : Islot) (index : Fin (ndirect + 1)) : Prog Logged FsStop Blockno := do
  let addr ← reading fun state => (state.fs.icache ip).addrs index
  if addr = 0 then do
    let addr ← balloc
    quiet (update fun fs => fs.setInode ip fun inode => inode.setAddr index addr)
    pure addr
  else
    pure addr

/-- The block at a position of the indirect table, allocated if there is none. -/
def mapEntry (table : Blockno) (index : Fin Block.words) : Prog Logged FsStop Blockno := do
  let addr ← reading fun state => (state.fs.data table).word index
  if addr = 0 then do
    let addr ← balloc
    quiet (update fun fs => fs.setBlock table ((fs.data table).setWord index addr))
    logWrite (.data table)
    pure addr
  else
    pure addr

/-- `bmap`. -/
def bmap (ip : Islot) (bn : Nat) : Prog Logged FsStop Blockno :=
  if direct : bn < ndirect then
    mapAddr ip ⟨bn, Nat.lt_succ_of_lt direct⟩
  else if inTable : bn - ndirect < nindirect then do
    let table ← mapAddr ip indirect
    mapEntry table ⟨bn - ndirect, inTable⟩
  else
    stop (.panic "bmap: out of range")

/-- The loop of `writei`. -/
def writeBlocks (ip : Islot) : Nat → Nat → List Byte → Prog Logged FsStop Unit
  | 0, _, _ => pure ()
  | turns + 1, off, src =>
    if src = [] then
      pure ()
    else do
      let addr ← bmap ip (off / bsize)
      quiet (update fun fs => fs.setBlock addr ((fs.data addr).splice (off % bsize)
        (src.take (bsize - off % bsize))))
      logWrite (.data addr)
      writeBlocks ip turns (off + min src.length (bsize - off % bsize))
        (src.drop (bsize - off % bsize))

/-- `iupdate`. -/
def iupdate (ip : Islot) : Prog Logged FsStop Unit := do
  let inode ← reading fun state => state.fs.icache ip
  quiet (FileSystem.iupdate ip)
  logWrite (.inode (inode.inum / inodesPerBlock))

/-- `writei`. -/
def writei (ip : Islot) (off : Nat) (src : List Byte) : Prog Logged FsStop (Option Nat) := do
  let inode ← reading fun state => state.fs.icache ip
  if inode.type = .dev then
    if hasDriver inode.major then quiet (consolewrite ip src) else pure none
  else if inode.size < off ∨ Overflows off src.length then
    pure none
  else if maxfile * bsize < off + src.length then
    pure none
  else do
    writeBlocks ip src.length off src
    let size ← reading fun state => (state.fs.icache ip).size
    whenever (0 < src.length ∧ size < off + src.length) do
      quiet (update fun fs => fs.setInode ip fun inode =>
        { inode with size := off + src.length })
      iupdate ip
    pure (some src.length)

end Logged

/-- The kernel, the blocks logged since `begin_op`, and those of the sections before. -/
structure Journal where
  kernel : Kernel
  logged : List DiskBlock
  sections : List (List DiskBlock)

namespace Journal

/-- `begin_op`. -/
def beginOp : Prog Journal Stop Unit :=
  update fun journal => { journal with logged := [] }

/-- `end_op`. -/
def endOp : Prog Journal Stop Unit :=
  update fun journal => { journal with sections := journal.sections ++ [journal.logged] }

/-- A part of the program without a call of `log_write`. -/
def quiet {α : Type} (prog : KernelM α) : Prog Journal Stop α :=
  on Journal.kernel (fun journal kernel => { journal with kernel := kernel }) id prog

/-- Run a program of the file system. -/
def inFs {α : Type} (prog : Prog Logged FsStop α) : Prog Journal Stop α :=
  on (fun journal => ⟨journal.kernel.fs, journal.logged⟩)
    (fun journal state => { journal with
      kernel := { journal.kernel with fs := state.fs }, logged := state.logged })
    Stop.fs prog

/-- The loop of `filewrite`. -/
def writeChunks (f : Fslot) (ip : Islot) : Nat → List Byte → Prog Journal Stop Bool
  | 0, _ => pure true
  | turns + 1, src =>
    if src = [] then
      pure true
    else do
      beginOp
      quiet (FileSystem.inFs (ilock ip))
      let off ← reading fun journal => (journal.kernel.ftable f).off
      let written ← inFs (Logged.writei ip off (src.take writeChunk))
      quiet (update fun kernel => kernel.setFile f fun file => file.advance (written.getD 0))
      quiet (FileSystem.inFs (iunlock ip))
      endOp
      match written with
      | none => pure false
      | some count => do
          ensure (fun _ => count = min src.length writeChunk) (.panic "short filewrite")
          writeChunks f ip turns (src.drop writeChunk)

end Journal

/-! ## Without the log -/

namespace Logged

theorem projects_quiet {α : Type} (prog : FsM α) : Projects Logged.fs (quiet prog) prog :=
  .lift (fun _ _ => rfl) prog

theorem projects_logWrite (block : DiskBlock) :
    Projects Logged.fs (logWrite block) (pure () : FsM Unit) :=
  .record fun _ => rfl

theorem projects_balloc : Projects Logged.fs balloc FileSystem.balloc := by
  refine (projects_quiet _).finish fun block => ?_
  exact (projects_logWrite _).forget ((projects_logWrite _).forget (.pure block))

variable (ip : Islot)

theorem projects_mapAddr (index : Fin (ndirect + 1)) :
    Projects Logged.fs (mapAddr ip index) (FileSystem.mapAddr ip index) := by
  unfold mapAddr FileSystem.mapAddr
  refine Projects.bind (.reading fun _ => rfl) fun addr => ?_
  refine .ite ?_ (.pure addr)
  exact projects_balloc.bind fun block => (projects_quiet _).bind fun _ => .pure block

theorem projects_mapEntry (table : Blockno) (index : Fin Block.words) :
    Projects Logged.fs (mapEntry table index) (FileSystem.mapEntry table index) := by
  unfold mapEntry FileSystem.mapEntry
  refine Projects.bind (.reading fun _ => rfl) fun addr => ?_
  refine .ite ?_ (.pure addr)
  refine projects_balloc.bind fun block => (projects_quiet _).bind fun _ => ?_
  exact (projects_logWrite _).forget (.pure block)

theorem projects_bmap (bn : Nat) :
    Projects Logged.fs (bmap ip bn) (FileSystem.bmap ip bn) := by
  unfold bmap FileSystem.bmap
  split
  · exact projects_mapAddr ..
  · split
    · exact (projects_mapAddr ..).bind fun table => projects_mapEntry ..
    · exact .stop _

theorem projects_writeBlocks (turns off : Nat) (src : List Byte) :
    Projects Logged.fs (writeBlocks ip turns off src)
    (FileSystem.writeBlocks ip turns off src) := by
  induction turns generalizing off src with
  | zero => exact .pure ()
  | succ turns ih =>
    refine .ite (.pure ()) ?_
    refine (projects_bmap ..).bind fun addr => (projects_quiet _).bind fun _ => ?_
    exact (projects_logWrite _).forget (ih ..)

theorem projects_iupdate :
    Projects Logged.fs (iupdate ip) (FileSystem.iupdate ip) :=
  .peek fun _ => (projects_quiet _).finish fun _ => projects_logWrite _

theorem projects_writei (off : Nat) (src : List Byte) :
    Projects Logged.fs (writei ip off src) (FileSystem.writei ip off src) := by
  unfold writei FileSystem.writei
  refine Projects.bind (.reading fun _ => rfl) fun inode => ?_
  refine .ite ?_ (.ite (.pure none) (.ite (.pure none) ?_))
  · exact .ite (projects_quiet _) (.pure none)
  · refine (projects_writeBlocks ..).bind fun _ => ?_
    refine Projects.bind (.reading fun _ => rfl) fun size => ?_
    refine (Projects.whenever ?_).bind fun _ => .pure _
    exact (projects_quiet _).bind fun _ => projects_iupdate ip

end Logged

namespace Journal

theorem projects_quiet {α : Type} (prog : KernelM α) :
    Projects Journal.kernel (quiet prog) prog :=
  .lift (fun _ _ => rfl) prog

theorem projects_beginOp : Projects Journal.kernel beginOp (pure () : KernelM Unit) :=
  .record fun _ => rfl

theorem projects_endOp : Projects Journal.kernel endOp (pure () : KernelM Unit) :=
  .record fun _ => rfl

theorem projects_inFs {α : Type} {prog : Prog Logged FsStop α} {base : FsM α}
    (projects : Projects Logged.fs prog base) :
    Projects Journal.kernel (inFs prog) (FileSystem.inFs base) :=
  projects.on (fun _ => rfl) fun _ _ => rfl

/-- Without the log, the loop is that of `filewrite`. -/
theorem projects_writeChunks (f : Fslot) (ip : Islot) (turns : Nat) (src : List Byte) :
    Projects Journal.kernel (writeChunks f ip turns src)
      (FileSystem.writeChunks f ip turns src) := by
  induction turns generalizing src with
  | zero => exact .pure true
  | succ turns ih =>
    refine .ite (.pure true) (projects_beginOp.forget ?_)
    refine (projects_quiet _).bind fun _ => Projects.bind (.reading fun _ => rfl) fun off => ?_
    refine (projects_inFs (Logged.projects_writei ..)).bind fun written => ?_
    refine (projects_quiet _).bind fun _ => (projects_quiet _).bind fun _ => ?_
    refine projects_endOp.forget ?_
    cases written with
    | none => exact .pure false
    | some count => exact .bind (.ensure fun _ => Iff.rfl) fun _ => ih _

end Journal

end Xv6.FileSystem
