import Xv6.FileSystem.Path

/-!
# The transactions of `sysfile.c` and `exec.c`

The parts of the system calls between `begin_op` and `end_op`: they use the inode
layer and the current directory of the process, but no file descriptors.
-/

namespace Xv6.FileSystem

open Prog

/-- Assign fields of an in-core inode and copy it to disk. -/
def modify (ip : Islot) (change : Inode → Inode) : FsM Unit := do
  update fun fs => fs.setInode ip change
  iupdate ip

/-- `nlink++` and `nlink--`; `nlink` is a `short`. -/
def Inode.addLinks (inode : Inode) (difference : Int) : Inode :=
  { inode with nlink := (inode.nlink + difference).bmod (2 ^ 16) }

/-! ## Links -/

/-- The end of `sys_link` when the new name cannot be made. -/
def undoLink (ip : Islot) : FsM Bool := do
  ilock ip
  modify ip fun inode => inode.addLinks (-1)
  iunlockput ip
  pure false

/-- The part of `sys_link` that writes the new entry. -/
def linkInto (dp ip : Islot) (name : List Byte) : FsM Bool := do
  let inode ← reading fun fs => fs.icache ip
  let dev ← reading fun fs => (fs.icache dp).dev
  if dev ≠ inode.dev then pure false else dirlink dp name inode.inum

/-- `sys_link`: create the path `new` as a link to the same inode as `old`. -/
def link (cwd : Islot) (old new : List Byte) : FsM Bool := do
  let found ← namei cwd old
  match found with
  | none => pure false
  | some ip => do
      ilock ip
      let type ← reading fun fs => (fs.icache ip).type
      if type = .dir then do
        iunlockput ip
        pure false
      else do
        modify ip fun inode => inode.addLinks 1
        iunlock ip
        let parent ← nameiparent cwd new
        match parent with
        | none => undoLink ip
        | some (dp, name) => do
            ilock dp
            let linked ← linkInto dp ip name
            iunlockput dp
            if linked then do
              iput ip
              pure true
            else
              undoLink ip

/-- The loop of `isdirempty`. -/
def isdiremptyFrom (dp : Islot) : List Nat → FsM Bool
  | [] => pure true
  | off :: rest => do
      let de ← readDirent "isdirempty: readi" dp off
      if de.inum ≠ 0 then pure false else isdiremptyFrom dp rest

/-- `isdirempty`: is the directory empty except for `.` and `..`? -/
def isdirempty (dp : Islot) : FsM Bool := do
  let size ← reading fun fs => (fs.icache dp).size
  isdiremptyFrom dp (offsets (2 * direntSize) size)

/-- May the entry for the inode be removed? -/
def removable (ip : Islot) : FsM Bool := do
  let type ← reading fun fs => (fs.icache ip).type
  if type = .dir then isdirempty ip else pure true

/-- The end of `sys_unlink` once the entry has been found and may go. -/
def removeEntry (dp ip : Islot) (off : Nat) : FsM Bool := do
  let written ← writei dp off (List.replicate direntSize 0)
  ensure (fun _ => written = some direntSize) (.panic "unlink: writei")
  let type ← reading fun fs => (fs.icache ip).type
  whenever (type = .dir) (modify dp fun inode => inode.addLinks (-1))
  iunlockput dp
  modify ip fun inode => inode.addLinks (-1)
  iunlockput ip
  pure true

/-- `sys_unlink`. -/
def unlink (cwd : Islot) (path : List Byte) : FsM Bool := do
  let parent ← nameiparent cwd path
  match parent with
  | none => pure false
  | some (dp, name) => do
      ilock dp
      if SameName name dot ∨ SameName name dotdot then do
        iunlockput dp
        pure false
      else do
        let found ← dirlookup dp name
        match found with
        | none => do
            iunlockput dp
            pure false
        | some (ip, off) => do
            ilock ip
            ensure (fun fs => 1 ≤ (fs.icache ip).nlink) (.panic "unlink: nlink < 1")
            let mayGo ← removable ip
            if mayGo then
              removeEntry dp ip off
            else do
              iunlockput ip
              iunlockput dp
              pure false

/-! ## Creation -/

/-- The entries `.` and `..` of a new directory. -/
def createDots (dp ip : Islot) : FsM Unit := do
  modify dp fun inode => inode.addLinks 1
  let inum ← reading fun fs => (fs.icache ip).inum
  let self ← dirlink ip dot inum
  ensure (fun _ => self = true) (.panic "create dots")
  let parentInum ← reading fun fs => (fs.icache dp).inum
  let parent ← dirlink ip dotdot parentInum
  ensure (fun _ => parent = true) (.panic "create dots")

/-- The part of `create` that makes a new inode and its entry. -/
def createNew (dp : Islot) (name : List Byte) (type : FileType) (major minor : Int) :
    FsM Islot := do
  let dev ← reading fun fs => (fs.icache dp).dev
  let ip ← ialloc dev type
  ilock ip
  modify ip fun inode => { inode with major := major, minor := minor, nlink := 1 }
  whenever (type = .dir) (createDots dp ip)
  let inum ← reading fun fs => (fs.icache ip).inum
  let linked ← dirlink dp name inum
  ensure (fun _ => linked = true) (.panic "create: dirlink")
  iunlockput dp
  pure ip

/-- `create`: the locked inode of a new file, or of an existing one that may be opened. -/
def create (cwd : Islot) (path : List Byte) (type : FileType) (major minor : Int) :
    FsM (Option Islot) := do
  let parent ← nameiparent cwd path
  match parent with
  | none => pure none
  | some (dp, name) => do
      ilock dp
      let found ← dirlookup dp name
      match found with
      | some (ip, _) => do
          iunlockput dp
          ilock ip
          let existing ← reading fun fs => (fs.icache ip).type
          if type = .file ∧ existing = .file then
            pure (some ip)
          else do
            iunlockput ip
            pure none
      | none => do
          let ip ← createNew dp name type major minor
          pure (some ip)

/-- The first part of `sys_open`: the locked inode to open. -/
def openInode (cwd : Islot) (path : List Byte) (omode : BitVec 32) : FsM (Option Islot) :=
  if omode &&& 0x200 ≠ 0 then
    create cwd path .file 0 0
  else do
    let found ← namei cwd path
    match found with
    | none => pure none
    | some ip => do
        ilock ip
        let type ← reading fun fs => (fs.icache ip).type
        if type = .dir ∧ omode ≠ 0 then do
          iunlockput ip
          pure none
        else
          pure (some ip)

/-- `sys_mkdir` and `sys_mknod`: create the inode and let it go. -/
def make (cwd : Islot) (path : List Byte) (type : FileType) (major minor : Int) : FsM Bool := do
  let made ← create cwd path type major minor
  match made with
  | none => pure false
  | some ip => do
      iunlockput ip
      pure true

/-- The part of `sys_chdir` that looks the directory up. -/
def openDir (cwd : Islot) (path : List Byte) : FsM (Option Islot) := do
  let found ← namei cwd path
  match found with
  | none => pure none
  | some ip => do
      ilock ip
      let type ← reading fun fs => (fs.icache ip).type
      if type ≠ .dir then do
        iunlockput ip
        pure none
      else do
        iunlock ip
        pure (some ip)

/-! ## Program files -/

/-- The little-endian number in `count` bytes from an offset on. -/
def field (bytes : List Byte) (offset : Nat) : Nat → Nat
  | 0 => 0
  | count + 1 => (bytes.getD offset 0).toNat + 256 * field bytes (offset + 1) count

/-- `PGSIZE`. -/
def pgsize : Nat := 4096

/-- The loop of `loaduvm` over the pages of a segment. -/
def loaduvm (input : Option (List Byte)) (ip : Islot) (offset filesz : Nat) :
    List Nat → FsM Bool
  | [] => pure true
  | page :: rest => do
      let bytes ← readi input ip ((offset + pgsize * page) % 2 ^ 32)
        (min (filesz - pgsize * page) pgsize)
      if bytes.map List.length = some (min (filesz - pgsize * page) pgsize) then
        loaduvm input ip offset filesz rest
      else
        pure false

/-- The loop of `exec` over the program headers; `memory` tells for every segment whether
`allocuvm` finds room for it. -/
def loadSegments (input : Option (List Byte)) (ip : Islot) (memory : Nat → Bool) :
    List Nat → Nat → FsM Bool
  | [], _ => pure true
  | segment :: rest, phoff => do
      let ph ← readi input ip ((phoff + 32 * segment) % 2 ^ 32) 32
      match ph with
      | none => pure false
      | some ph =>
        if ph.length ≠ 32 then
          pure false
        else if field ph 0 4 ≠ 1 then
          loadSegments input ip memory rest phoff
        else if field ph 20 4 < field ph 16 4 ∨ Overflows (field ph 8 4) (field ph 20 4) ∨
            memory segment = false ∨ field ph 8 4 % pgsize ≠ 0 then
          pure false
        else do
          let loaded ← loaduvm input ip (field ph 4 4) (field ph 16 4)
            (List.range ((field ph 16 4 + pgsize - 1) / pgsize))
          if loaded then loadSegments input ip memory rest phoff else pure false

/-- Load the program after the ELF header; `setup` tells whether `setupkvm` succeeds. -/
def loadElf (input : Option (List Byte)) (setup : Bool) (memory : Nat → Bool) (ip : Islot) :
    FsM Bool := do
  let elf ← readi input ip 0 52
  match elf with
  | none => pure false
  | some elf =>
    if elf.length ≠ 52 ∨ field elf 0 4 ≠ 0x464C457F ∨ setup = false then
      pure false
    else
      loadSegments input ip memory (List.range (field elf 44 2)) (field elf 28 4)

/-- The part of `exec` that reads the program file. -/
def loadProgram (input : Option (List Byte)) (setup : Bool) (memory : Nat → Bool)
    (cwd : Islot) (path : List Byte) : FsM Bool := do
  let found ← namei cwd path
  match found with
  | none => pure false
  | some ip => do
      ilock ip
      let loaded ← loadElf input setup memory ip
      iunlockput ip
      pure loaded

end Xv6.FileSystem
