import Xv6.FileSystem.Transaction
import Xv6.Process.Table

/-!
# Open files and system calls

The file table of `file.c`, the descriptors and current directories of the
processes, and the system calls of `sysfile.c` with `fork`, `exit` and `wait` as far
as they concern files.  A pipe is known by the number of its creation; its page
counts how often it has been freed, and its buffer is the subject of `Xv6.Pipe`.

Arguments that the kernel fetches from user memory are `none` when the fetch
fails.  Whether memory is left for a pipe or a new process, what arrives at the
console and what a pipe transfers are arguments of the calls.
-/

namespace Xv6.FileSystem

open Xv6.Log (Blockno)
open Xv6.Process (nproc nofile Slot)
open Prog

/-- `NFILE`, the number of open files of the system. -/
def nfile : Nat := 100

/-- A position in `ftable.file`; file pointers are slots. -/
abbrev Fslot := Fin nfile

/-- The `type` of an open file, with the pipe or the inode it stands for. -/
inductive FileKind where
  | none
  | pipe (id : Nat)
  | inode (ip : Islot)
  deriving DecidableEq, Repr

/-- `struct file`. -/
structure File where
  type : FileKind
  ref : Int
  readable : Bool
  writable : Bool
  off : Nat
  deriving DecidableEq

/-- A slot of the file table at boot. -/
def File.zero : File where
  type := .none
  ref := 0
  readable := false
  writable := false
  off := 0

/-- `struct pipe`, without the buffer; `freed` counts the calls of `kfree` for its page. -/
structure Pipe where
  readopen : Bool
  writeopen : Bool
  freed : Nat
  deriving DecidableEq

/-- What a process is doing between system calls. -/
inductive Status where
  | unused
  | live
  | zombie
  deriving DecidableEq, Repr

/-- The fields of `struct proc` that concern files. -/
structure Proc where
  status : Status
  parent : Option Slot
  ofile : Fin nofile → Option Fslot
  cwd : Option Islot

/-- A slot of the process table at boot. -/
def Proc.zero : Proc where
  status := .unused
  parent := none
  ofile := fun _ => none
  cwd := none

/-- The file system with the tables above it. -/
structure Kernel where
  fs : Fs
  ftable : Fslot → File
  procs : Slot → Proc
  pipes : Nat → Pipe
  npipes : Nat

/-- How a system call stops: in the file system, in a panic of the file layer, or at a
null pointer. -/
inductive Stop where
  | fs (reason : FsStop)
  | panic (message : String)
  | null
  deriving DecidableEq, Repr

/-- A program of the kernel. -/
abbrev KernelM := Prog Kernel Stop

namespace Kernel

/-- Change an open file. -/
def setFile (kernel : Kernel) (f : Fslot) (change : File → File) : Kernel :=
  { kernel with ftable := Function.update kernel.ftable f (change (kernel.ftable f)) }

/-- Change a process. -/
def setProc (kernel : Kernel) (p : Slot) (change : Proc → Proc) : Kernel :=
  { kernel with procs := Function.update kernel.procs p (change (kernel.procs p)) }

/-- Change a pipe. -/
def setPipe (kernel : Kernel) (id : Nat) (change : Pipe → Pipe) : Kernel :=
  { kernel with pipes := Function.update kernel.pipes id (change (kernel.pipes id)) }

end Kernel

/-- Assign a descriptor. -/
def Proc.setFd (proc : Proc) (fd : Fin nofile) (file : Option Fslot) : Proc :=
  { proc with ofile := Function.update proc.ofile fd file }

/-- Run a program of the file system. -/
def inFs {α : Type} (prog : FsM α) : KernelM α :=
  on Kernel.fs (fun kernel fs => { kernel with fs := fs }) Stop.fs prog

/-- The current directory of a process. -/
def cwdOf (p : Slot) : KernelM Islot := do
  let cwd ← reading fun kernel => (kernel.procs p).cwd
  match cwd with
  | none => stop .null
  | some ip => pure ip

/-! ## The file table -/

/-- `filealloc`: allocate a file structure. -/
def filealloc : KernelM (Option Fslot) := do
  let found ← reading fun kernel =>
    (List.finRange nfile).find? fun f => (kernel.ftable f).ref = 0
  match found with
  | none => pure none
  | some f => do
      update fun kernel => kernel.setFile f fun file => { file with ref := 1 }
      pure (some f)

/-- `filedup`: increment the reference count. -/
def filedup (f : Fslot) : KernelM Unit := do
  ensure (fun kernel => 1 ≤ (kernel.ftable f).ref) (.panic "filedup")
  update fun kernel => kernel.setFile f fun file => { file with ref := file.ref + 1 }

/-- `pipeclose`: close one end, and free the page when both are closed. -/
def pipeclose (id : Nat) (writable : Bool) : KernelM Unit := do
  update fun kernel => kernel.setPipe id fun pipe =>
    if writable then { pipe with writeopen := false } else { pipe with readopen := false }
  let pipe ← reading fun kernel => kernel.pipes id
  whenever (pipe.readopen = false ∧ pipe.writeopen = false) do
    update fun kernel => kernel.setPipe id fun pipe => { pipe with freed := pipe.freed + 1 }

/-- The end of `fileclose`, for the copy of the file that lost its last reference. -/
def release (file : File) : KernelM Unit :=
  match file.type with
  | .none => pure ()
  | .pipe id => pipeclose id file.writable
  | .inode ip => inFs (iput ip)

/-- `fileclose`: decrement the reference count, and close when it reaches zero. -/
def fileclose (f : Fslot) : KernelM Unit := do
  ensure (fun kernel => 1 ≤ (kernel.ftable f).ref) (.panic "fileclose")
  update fun kernel => kernel.setFile f fun file => { file with ref := file.ref - 1 }
  let file ← reading fun kernel => kernel.ftable f
  whenever (file.ref ≤ 0) do
    update fun kernel => kernel.setFile f fun file => { file with ref := 0, type := .none }
    release file

/-- `filestat`; the metadata is that of the locked inode. -/
def filestat (f : Fslot) : KernelM (Option Inode) := do
  let file ← reading fun kernel => kernel.ftable f
  match file.type with
  | .inode ip => do
      inFs (ilock ip)
      let inode ← reading fun kernel => kernel.fs.icache ip
      inFs (iunlock ip)
      pure (some inode)
  | _ => pure none

/-- `f->off += r`, in `uint` arithmetic. -/
def File.advance (file : File) (r : Nat) : File :=
  { file with off := (file.off + r) % 2 ^ 32 }

/-- `fileread`: `transfer` is what the console or the pipe delivers. -/
def fileread (f : Fslot) (n : Nat) (transfer : Option (List Byte)) :
    KernelM (Option (List Byte)) := do
  let file ← reading fun kernel => kernel.ftable f
  if file.readable = false then
    pure none
  else
    match file.type with
    | .pipe _ => pure transfer
    | .inode ip => do
        inFs (ilock ip)
        let bytes ← inFs (readi transfer ip file.off n)
        update fun kernel => kernel.setFile f fun file => file.advance ((bytes.getD []).length)
        inFs (iunlock ip)
        pure bytes
    | .none => stop (.panic "fileread")

/-- The most bytes `filewrite` writes in one transaction, `((LOGSIZE-1-1-2) / 2) * 512`. -/
def writeChunk : Nat := (30 - 1 - 1 - 2) / 2 * 512

/-- The loop of `filewrite`; a turn writes at least one byte. -/
def writeChunks (f : Fslot) (ip : Islot) : Nat → List Byte → KernelM Bool
  | 0, _ => pure true
  | turns + 1, src =>
    if src = [] then
      pure true
    else do
      inFs (ilock ip)
      let off ← reading fun kernel => (kernel.ftable f).off
      let written ← inFs (writei ip off (src.take writeChunk))
      update fun kernel => kernel.setFile f fun file => file.advance (written.getD 0)
      inFs (iunlock ip)
      match written with
      | none => pure false
      | some count => do
          ensure (fun _ => count = min src.length writeChunk) (.panic "short filewrite")
          writeChunks f ip turns (src.drop writeChunk)

/-- `filewrite`: `transfer` tells whether the pipe takes the bytes. -/
def filewrite (f : Fslot) (src : List Byte) (transfer : Bool) : KernelM Bool := do
  let file ← reading fun kernel => kernel.ftable f
  if file.writable = false then
    pure false
  else
    match file.type with
    | .pipe _ => pure transfer
    | .inode ip => writeChunks f ip src.length src
    | .none => stop (.panic "filewrite")

/-! ## Descriptors -/

/-- `argfd`: the descriptor and the open file behind it. -/
def argfd (p : Slot) (fd : Int) : KernelM (Option (Fin nofile × Fslot)) :=
  reading fun kernel =>
    if bound : 0 ≤ fd ∧ fd < nofile then
      ((kernel.procs p).ofile ⟨fd.toNat, by omega⟩).map fun f => (⟨fd.toNat, by omega⟩, f)
    else
      none

/-- `fdalloc`: the first free descriptor takes over the file reference of the caller. -/
def fdalloc (p : Slot) (f : Fslot) : KernelM (Option (Fin nofile)) := do
  let found ← reading fun kernel =>
    (List.finRange nofile).find? fun fd => (kernel.procs p).ofile fd = none
  match found with
  | none => pure none
  | some fd => do
      update fun kernel => kernel.setProc p fun proc => proc.setFd fd (some f)
      pure (some fd)

/-- `sys_dup`. -/
def sysDup (p : Slot) (fd : Int) : KernelM (Option (Fin nofile)) := do
  let arg ← argfd p fd
  match arg with
  | none => pure none
  | some (_, f) => do
      let new ← fdalloc p f
      match new with
      | none => pure none
      | some new => do
          filedup f
          pure (some new)

/-- `sys_read`; `n` is the size of the buffer. -/
def sysRead (p : Slot) (fd : Int) (n : Option Nat) (transfer : Option (List Byte)) :
    KernelM (Option (List Byte)) := do
  let arg ← argfd p fd
  match arg, n with
  | some (_, f), some n => fileread f n transfer
  | _, _ => pure none

/-- `sys_write`. -/
def sysWrite (p : Slot) (fd : Int) (src : Option (List Byte)) (transfer : Bool) :
    KernelM Bool := do
  let arg ← argfd p fd
  match arg, src with
  | some (_, f), some src => filewrite f src transfer
  | _, _ => pure false

/-- `sys_close`. -/
def sysClose (p : Slot) (fd : Int) : KernelM Bool := do
  let arg ← argfd p fd
  match arg with
  | none => pure false
  | some (fd, f) => do
      update fun kernel => kernel.setProc p fun proc => proc.setFd fd none
      fileclose f
      pure true

/-- `sys_fstat`; `buffer` tells whether the result can be stored. -/
def sysFstat (p : Slot) (fd : Int) (buffer : Bool) : KernelM (Option Inode) := do
  let arg ← argfd p fd
  match arg with
  | none => pure none
  | some (_, f) => if buffer then filestat f else pure none

/-! ## Names -/

/-- A call with one path argument that runs in one transaction. -/
def onPath (p : Slot) (path : Option (List Byte)) (body : Islot → List Byte → FsM Bool) :
    KernelM Bool :=
  match path with
  | none => pure false
  | some path => do
      let cwd ← cwdOf p
      inFs (body cwd path)

/-- `sys_link`. -/
def sysLink (p : Slot) (old new : Option (List Byte)) : KernelM Bool :=
  match new with
  | none => pure false
  | some new => onPath p old fun cwd old => link cwd old new

/-- `sys_unlink`. -/
def sysUnlink (p : Slot) (path : Option (List Byte)) : KernelM Bool :=
  onPath p path unlink

/-- `sys_mkdir`. -/
def sysMkdir (p : Slot) (path : Option (List Byte)) : KernelM Bool :=
  onPath p path fun cwd path => make cwd path .dir 0 0

/-- `sys_mknod`; the device numbers become `short`. -/
def sysMknod (p : Slot) (path : Option (List Byte)) (major minor : Int) : KernelM Bool :=
  onPath p path fun cwd path => make cwd path .dev (major.bmod (2 ^ 16)) (minor.bmod (2 ^ 16))

/-- The part of `exec` that concerns files. -/
def sysExec (p : Slot) (path : Option (List Byte)) (input : Option (List Byte)) (setup : Bool)
    (memory : Nat → Bool) : KernelM Bool :=
  onPath p path (loadProgram input setup memory)

/-- `sys_chdir`. -/
def sysChdir (p : Slot) (path : Option (List Byte)) : KernelM Bool :=
  match path with
  | none => pure false
  | some path => do
      let cwd ← cwdOf p
      let found ← inFs (openDir cwd path)
      match found with
      | none => pure false
      | some ip => do
          inFs (iput cwd)
          update fun kernel => kernel.setProc p fun proc => { proc with cwd := some ip }
          pure true

/-- `sys_open`. -/
def sysOpen (p : Slot) (path : Option (List Byte)) (omode : BitVec 32) :
    KernelM (Option (Fin nofile)) :=
  match path with
  | none => pure none
  | some path => do
      let cwd ← cwdOf p
      let found ← inFs (openInode cwd path omode)
      match found with
      | none => pure none
      | some ip => do
          let file ← filealloc
          match file with
          | none => do
              inFs (iunlockput ip)
              pure none
          | some f => do
              let fd ← fdalloc p f
              match fd with
              | none => do
                  fileclose f
                  inFs (iunlockput ip)
                  pure none
              | some fd => do
                  inFs (iunlock ip)
                  update fun kernel => kernel.setFile f fun file =>
                    { file with
                      type := .inode ip
                      off := 0
                      readable := omode &&& 1 = 0
                      writable := omode &&& 1 ≠ 0 ∨ omode &&& 2 ≠ 0 }
                  pure (some fd)

/-! ## Pipes -/

/-- `pipealloc`: two files for the ends of a new pipe; `memory` tells whether `kalloc`
finds a page for it. -/
def pipealloc (memory : Bool) : KernelM (Option (Fslot × Fslot)) := do
  let first ← filealloc
  match first with
  | none => pure none
  | some f0 => do
      let second ← filealloc
      match second with
      | none => do
          fileclose f0
          pure none
      | some f1 =>
        if memory = false then do
          fileclose f0
          fileclose f1
          pure none
        else do
          let id ← reading fun kernel => kernel.npipes
          update fun kernel => { kernel.setPipe id (fun _ => ⟨true, true, 0⟩) with
            npipes := id + 1 }
          update fun kernel => kernel.setFile f0 fun file =>
            { file with type := .pipe id, readable := true, writable := false }
          update fun kernel => kernel.setFile f1 fun file =>
            { file with type := .pipe id, readable := false, writable := true }
          pure (some (f0, f1))

/-- `sys_pipe`; `buffer` tells whether the descriptors can be stored. -/
def sysPipe (p : Slot) (buffer memory : Bool) : KernelM (Option (Fin nofile × Fin nofile)) :=
  if buffer = false then
    pure none
  else do
    let ends ← pipealloc memory
    match ends with
    | none => pure none
    | some (rf, wf) => do
        let fd0 ← fdalloc p rf
        match fd0 with
        | none => do
            fileclose rf
            fileclose wf
            pure none
        | some fd0 => do
            let fd1 ← fdalloc p wf
            match fd1 with
            | none => do
                update fun kernel => kernel.setProc p fun proc => proc.setFd fd0 none
                fileclose rf
                fileclose wf
                pure none
            | some fd1 => pure (some (fd0, fd1))

/-! ## Processes -/

/-- The loop of `fork` over the descriptors. -/
def dupFiles (p np : Slot) : List (Fin nofile) → KernelM Unit
  | [] => pure ()
  | fd :: rest => do
      let file ← reading fun kernel => (kernel.procs p).ofile fd
      match file with
      | none => dupFiles p np rest
      | some f => do
          filedup f
          update fun kernel => kernel.setProc np fun proc => proc.setFd fd (some f)
          dupFiles p np rest

/-- `fork`; `memory` tells whether the kernel stack and the copy of the address space can
be allocated. -/
def fork (p : Slot) (memory : Bool) : KernelM (Option Slot) := do
  let found ← reading fun kernel =>
    (List.finRange nproc).find? fun slot => (kernel.procs slot).status = .unused
  match found with
  | none => pure none
  | some np =>
    if memory = false then
      pure none
    else do
      update fun kernel => kernel.setProc np fun proc => { proc with parent := some p }
      dupFiles p np (List.finRange nofile)
      let cwd ← cwdOf p
      let ip ← inFs (idup cwd)
      update fun kernel => kernel.setProc np fun proc =>
        { proc with cwd := some ip, status := .live }
      pure (some np)

/-- The loop of `exit` over the descriptors. -/
def closeFiles (p : Slot) : List (Fin nofile) → KernelM Unit
  | [] => pure ()
  | fd :: rest => do
      let file ← reading fun kernel => (kernel.procs p).ofile fd
      match file with
      | none => closeFiles p rest
      | some f => do
          fileclose f
          update fun kernel => kernel.setProc p fun proc => proc.setFd fd none
          closeFiles p rest

/-- The first process, `initproc`. -/
def initproc : Slot := 0

/-- A child of an exiting process is passed to `initproc`. -/
def Proc.abandon (proc : Proc) (p : Slot) : Proc :=
  if proc.parent = some p then { proc with parent := some initproc } else proc

/-- `exit`. -/
def exit (p : Slot) : KernelM Unit := do
  ensure (fun _ => p ≠ initproc) (.panic "init exiting")
  closeFiles p (List.finRange nofile)
  let cwd ← cwdOf p
  inFs (iput cwd)
  update fun kernel => kernel.setProc p fun proc => { proc with cwd := none }
  update fun kernel => { kernel with procs := fun slot => (kernel.procs slot).abandon p }
  update fun kernel => kernel.setProc p fun proc => { proc with status := .zombie }

/-- `wait`: free the slot of the first zombie child. -/
def wait (p : Slot) : KernelM (Option Slot) := do
  let found ← reading fun kernel => (List.finRange nproc).find? fun slot =>
    (kernel.procs slot).parent = some p ∧ (kernel.procs slot).status = .zombie
  match found with
  | none => pure none
  | some child => do
      update fun kernel => kernel.setProc child fun proc =>
        { proc with parent := none, status := .unused }
      pure (some child)

/-! ## Runs -/

/-- The system calls, with their arguments and what the environment contributes. -/
inductive Call where
  | dup (fd : Int)
  | read (fd : Int) (n : Option Nat) (transfer : Option (List Byte))
  | write (fd : Int) (src : Option (List Byte)) (transfer : Bool)
  | close (fd : Int)
  | fstat (fd : Int) (buffer : Bool)
  | link (old new : Option (List Byte))
  | unlink (path : Option (List Byte))
  | openFile (path : Option (List Byte)) (omode : BitVec 32)
  | mkdir (path : Option (List Byte))
  | mknod (path : Option (List Byte)) (major minor : Int)
  | chdir (path : Option (List Byte))
  | exec (path : Option (List Byte)) (input : Option (List Byte)) (setup : Bool)
      (memory : Nat → Bool)
  | pipe (buffer memory : Bool)
  | fork (memory : Bool)
  | exit
  | wait

/-- A system call by a process. -/
structure Event where
  proc : Slot
  call : Call

/-- Ignore what a call returns to the process. -/
def silent {α : Type} (prog : KernelM α) : KernelM Unit := do
  let _ ← prog
  pure ()

/-- Perform a system call. -/
def perform (p : Slot) : Call → KernelM Unit
  | .dup fd => silent (sysDup p fd)
  | .read fd n transfer => silent (sysRead p fd n transfer)
  | .write fd src transfer => silent (sysWrite p fd src transfer)
  | .close fd => silent (sysClose p fd)
  | .fstat fd buffer => silent (sysFstat p fd buffer)
  | .link old new => silent (sysLink p old new)
  | .unlink path => silent (sysUnlink p path)
  | .openFile path omode => silent (sysOpen p path omode)
  | .mkdir path => silent (sysMkdir p path)
  | .mknod path major minor => silent (sysMknod p path major minor)
  | .chdir path => silent (sysChdir p path)
  | .exec path input setup memory => silent (sysExec p path input setup memory)
  | .pipe buffer memory => silent (sysPipe p buffer memory)
  | .fork memory => silent (fork p memory)
  | .exit => exit p
  | .wait => silent (wait p)

/-- A completed system call of a live process; a call that stops the system has no next
state. -/
def step (kernel : Kernel) (event : Event) : Option Kernel :=
  if (kernel.procs event.proc).status = .live then
    match perform event.proc event.call kernel with
    | .ok (_, target) => some target
    | .error _ => none
  else
    none

/-- A disk without the inode cache. -/
structure Image where
  sb : Superblock
  inodes : Nat → Dinode
  bitmap : Blockno → Bool
  data : Blockno → Block

/-- The first process has been set up by `userinit`: the root directory is in the cache
and is its current directory. -/
def boot (image : Image) : Kernel where
  fs :=
    { sb := image.sb
      inodes := image.inodes
      bitmap := image.bitmap
      data := image.data
      icache := Function.update (fun _ => Inode.zero) 0
        { Inode.zero with dev := rootdev, inum := rootino, ref := 1 } }
  ftable := fun _ => File.zero
  procs := Function.update (fun _ => Proc.zero) initproc
    { Proc.zero with status := .live, cwd := some 0 }
  pipes := fun _ => ⟨false, false, 0⟩
  npipes := 0

/-- The image that `mkfs` makes without any user program: 1000 blocks, of which 59 hold the
boot block, the superblock, the log, the inodes and the free map, and a root directory with
its two entries in a block of its own. -/
def emptyImage : Image where
  sb := ⟨1000, 941, 200⟩
  inodes := fun inum =>
    if inum = rootino then
      { Dinode.zero .dir with
        nlink := 1
        size := 512
        addrs := fun index => if index = 0 then 59 else 0 }
    else
      Dinode.zero .free
  bitmap := fun block => decide (block.toNat < 60)
  data := fun block =>
    if block = 59 then
      Block.splice (fun _ => 0) 0
        (Dirent.toBytes ⟨rootino, padName dot⟩ ++ Dirent.toBytes ⟨rootino, padName dotdot⟩)
    else
      fun _ => 0

end Xv6.FileSystem
