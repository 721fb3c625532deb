import Xv6.FileSystem.Core

/-!
# Contents, directories and paths of `fs.c` and `sysfile.c`

Reading and writing the contents of an inode, the directory layer over it, name
lookup, and the parts of the system calls that run inside one transaction.
A C string is a list of bytes; what follows the first zero byte is not part of it.
A function that returns `-1` or a null pointer on failure returns `none` or `false`.

The console is the only device with a driver.  Its driver unlocks the inode while
it waits, so it takes part in the locking; what the console delivers is an
argument, `none` when the process is killed while it waits.
-/

namespace Xv6

namespace Block

/-- The byte at an offset. -/
def byteAt (data : Block) (offset : Nat) : Byte :=
  if bound : offset < bsize then data ⟨offset, bound⟩ else 0

/-- `memmove` out of a block. -/
def slice (data : Block) (start length : Nat) : List Byte :=
  (List.range length).map fun index => data.byteAt (start + index)

/-- `memmove` into a block. -/
def splice (data : Block) (start : Nat) (bytes : List Byte) : Block := fun index =>
  if start ≤ index.val then bytes.getD (index.val - start) (data index) else data index

theorem byteAt_splice_inside (data : Block) {start offset : Nat} {bytes : List Byte}
    (bound : offset < bsize) (above : start ≤ offset) (below : offset - start < bytes.length) :
    (data.splice start bytes).byteAt offset = bytes[offset - start] := by
  rw [byteAt, dif_pos bound, splice, if_pos above, List.getD_eq_getElem?_getD,
    List.getElem?_eq_getElem below, Option.getD_some]

theorem byteAt_splice_outside (data : Block) {start offset : Nat} {bytes : List Byte}
    (outside : offset < start ∨ start + bytes.length ≤ offset) :
    (data.splice start bytes).byteAt offset = data.byteAt offset := by
  unfold byteAt splice
  by_cases bound : offset < bsize
  · rw [dif_pos bound, dif_pos bound]
    rcases outside with before | after
    · exact if_neg (Nat.not_le.mpr before)
    · rw [if_pos (by simp only; omega), List.getD_eq_getElem?_getD,
        List.getElem?_eq_none (by simp only; omega), Option.getD_none]
  · rw [dif_neg bound, dif_neg bound]

end Block

namespace FileSystem

open Xv6.Log (Blockno)
open Prog

/-- `off + n` exceeds the range of `uint`, so that it is less than `off`. -/
def Overflows (off n : Nat) : Prop :=
  2 ^ 32 ≤ off + n

instance (off n : Nat) : Decidable (Overflows off n) :=
  inferInstanceAs (Decidable (_ ≤ _))

/-! ## Contents -/

/-- Does the device with this major number have a driver in `devsw`? -/
def hasDriver (major : Int) : Prop :=
  major = 1

instance (major : Int) : Decidable (hasDriver major) :=
  inferInstanceAs (Decidable (_ = _))

/-- `consoleread` gives up the lock of the inode while it waits for input. -/
def consoleread (input : Option (List Byte)) (ip : Islot) (n : Nat) :
    FsM (Option (List Byte)) := do
  iunlock ip
  ilock ip
  pure (input.map fun bytes => bytes.take n)

/-- `consolewrite` gives up the lock of the inode as well. -/
def consolewrite (ip : Islot) (src : List Byte) : FsM (Option Nat) := do
  iunlock ip
  ilock ip
  pure (some src.length)

/-- The loop of `readi`; a turn copies at least one byte. -/
def readBlocks (ip : Islot) : Nat → Nat → Nat → FsM (List Byte)
  | 0, _, _ => pure []
  | turns + 1, off, n =>
    if n = 0 then
      pure []
    else do
      let addr ← bmap ip (off / bsize)
      let bytes ← reading fun fs =>
        (fs.data addr).slice (off % bsize) (min n (bsize - off % bsize))
      let rest ← readBlocks ip turns (off + min n (bsize - off % bsize))
        (n - min n (bsize - off % bsize))
      pure (bytes ++ rest)

/-- `readi`: read data from the inode. -/
def readi (input : Option (List Byte)) (ip : Islot) (off n : Nat) :
    FsM (Option (List Byte)) := do
  let inode ← reading fun fs => fs.icache ip
  if inode.type = .dev then
    if hasDriver inode.major then consoleread input ip n else pure none
  else if inode.size < off ∨ Overflows off n then
    pure none
  else do
    let bytes ← readBlocks ip (min n (inode.size - off)) off (min n (inode.size - off))
    pure (some bytes)

/-- The loop of `writei`; a turn copies at least one byte. -/
def writeBlocks (ip : Islot) : Nat → Nat → List Byte → FsM Unit
  | 0, _, _ => pure ()
  | turns + 1, off, src =>
    if src = [] then
      pure ()
    else do
      let addr ← bmap ip (off / bsize)
      update fun fs => fs.setBlock addr ((fs.data addr).splice (off % bsize)
        (src.take (bsize - off % bsize)))
      writeBlocks ip turns (off + min src.length (bsize - off % bsize))
        (src.drop (bsize - off % bsize))

/-- `writei`: write data to the inode. -/
def writei (ip : Islot) (off : Nat) (src : List Byte) : FsM (Option Nat) := do
  let inode ← reading fun fs => fs.icache ip
  if inode.type = .dev then
    if hasDriver inode.major then consolewrite ip src else pure none
  else if inode.size < off ∨ Overflows off src.length then
    pure none
  else if maxfile * bsize < off + src.length then
    pure none
  else do
    writeBlocks ip src.length off src
    let size ← reading fun fs => (fs.icache ip).size
    whenever (0 < src.length ∧ size < off + src.length) do
      update fun fs => fs.setInode ip fun inode => { inode with size := off + src.length }
      iupdate ip
    pure (some src.length)

/-! ## Directory entries -/

/-- `DIRSIZ`. -/
def dirsiz : Nat := 14

/-- `sizeof(struct dirent)`. -/
def direntSize : Nat := 2 + dirsiz

/-- `struct dirent`. -/
structure Dirent where
  inum : Nat
  name : List Byte
  deriving DecidableEq

namespace Dirent

/-- The bytes of an entry; the inode number is a `ushort`. -/
def toBytes (de : Dirent) : List Byte :=
  BitVec.ofNat 8 de.inum :: BitVec.ofNat 8 (de.inum / 256) :: de.name

/-- The entry with these bytes. -/
def ofBytes (bytes : List Byte) : Dirent where
  inum := (bytes.getD 0 0).toNat + 256 * (bytes.getD 1 0).toNat
  name := bytes.drop 2

end Dirent

/-- The part of a name that `strncmp` and `strncpy` look at. -/
def cstring (name : List Byte) : List Byte :=
  (name.take dirsiz).takeWhile (· ≠ 0)

/-- `namecmp` finds the two names equal. -/
def SameName (first second : List Byte) : Prop :=
  cstring first = cstring second

instance (first second : List Byte) : Decidable (SameName first second) :=
  inferInstanceAs (Decidable (_ = _))

/-- `strncpy(de.name, name, DIRSIZ)`: the name, padded with zeros. -/
def padName (name : List Byte) : List Byte :=
  cstring name ++ List.replicate (dirsiz - (cstring name).length) 0

/-- The name of the directory itself. -/
def dot : List Byte := [0x2e]

/-- The name of the parent directory. -/
def dotdot : List Byte := [0x2e, 0x2e]

/-- The offsets that a loop over the entries from `start` visits. -/
def offsets (start size : Nat) : List Nat :=
  (List.range ((size - start + direntSize - 1) / direntSize)).map fun index =>
    start + direntSize * index

/-! ## Directories -/

/-- Read the entry at an offset. -/
def readDirent (message : String) (dp : Islot) (off : Nat) : FsM Dirent := do
  let bytes ← readi none dp off direntSize
  match bytes with
  | none => stop (.panic message)
  | some bytes =>
    if bytes.length = direntSize then
      pure (Dirent.ofBytes bytes)
    else
      stop (.panic message)

/-- The loop of `dirlookup`. -/
def dirlookupFrom (dp : Islot) (name : List Byte) : List Nat → FsM (Option (Islot × Nat))
  | [] => pure none
  | off :: rest => do
      let de ← readDirent "dirlink read" dp off
      if de.inum ≠ 0 ∧ SameName name de.name then do
        let dev ← reading fun fs => (fs.icache dp).dev
        let ip ← iget dev de.inum
        pure (some (ip, off))
      else
        dirlookupFrom dp name rest

/-- `dirlookup`: look for an entry in a directory; the inode and the offset of the entry. -/
def dirlookup (dp : Islot) (name : List Byte) : FsM (Option (Islot × Nat)) := do
  ensure (fun fs => (fs.icache dp).type = .dir) (.panic "dirlookup not DIR")
  let size ← reading fun fs => (fs.icache dp).size
  dirlookupFrom dp name (offsets 0 size)

/-- The loop of `dirlink`: the offset of the first empty entry, or the end. -/
def emptyFrom (dp : Islot) (last : Nat) : List Nat → FsM Nat
  | [] => pure last
  | off :: rest => do
      let de ← readDirent "dirlink read" dp off
      if de.inum = 0 then pure off else emptyFrom dp last rest

/-- `dirlink`: write a new entry into the directory. -/
def dirlink (dp : Islot) (name : List Byte) (inum : Nat) : FsM Bool := do
  let found ← dirlookup dp name
  match found with
  | some (ip, _) => do
      iput ip
      pure false
  | none => do
      let size ← reading fun fs => (fs.icache dp).size
      let off ← emptyFrom dp (direntSize * (offsets 0 size).length) (offsets 0 size)
      let written ← writei dp off (Dirent.toBytes ⟨inum, padName name⟩)
      if written = some direntSize then
        pure true
      else
        stop (.panic "dirlink")

/-! ## Paths -/

/-- The path separator. -/
def slash : Byte := 0x2f

/-- `skipelem`: the next path element and the path behind it. -/
def skipelem (path : List Byte) : Option (List Byte × List Byte) :=
  match path.dropWhile (· = slash) with
  | [] => none
  | start =>
    some ((start.takeWhile (· ≠ slash)).take dirsiz,
      (start.dropWhile (· ≠ slash)).dropWhile (· = slash))

/-- The path elements that repeated calls of `skipelem` deliver. -/
def elementsFrom : Nat → List Byte → List (List Byte)
  | 0, _ => []
  | turns + 1, path =>
    match skipelem path with
    | none => []
    | some (name, rest) => name :: elementsFrom turns rest

/-- The elements of a path; each call of `skipelem` consumes a byte. -/
def elements (path : List Byte) : List (List Byte) :=
  elementsFrom path.length path

/-- The loop of `namex`; the rest of the path is empty when it has no more elements. -/
def walk (parent : Bool) (ip : Islot) : List (List Byte) → FsM (Option (Islot × List Byte))
  | [] =>
    if parent then do
      iput ip
      pure none
    else
      pure (some (ip, []))
  | name :: rest => do
      ilock ip
      let type ← reading fun fs => (fs.icache ip).type
      if type ≠ .dir then do
        iunlockput ip
        pure none
      else if parent = true ∧ rest = [] then do
        iunlock ip
        pure (some (ip, name))
      else do
        let next ← dirlookup ip name
        iunlockput ip
        match next with
        | none => pure none
        | some (next, _) => walk parent next rest

/-- The inode where `namex` starts. -/
def startOf (cwd : Islot) (path : List Byte) : FsM Islot :=
  if path.head? = some slash then iget rootdev rootino else idup cwd

/-- `namex`: look up the inode for a path name, or its parent and the last element. -/
def namex (cwd : Islot) (parent : Bool) (path : List Byte) :
    FsM (Option (Islot × List Byte)) := do
  let ip ← startOf cwd path
  walk parent ip (elements (path.takeWhile (· ≠ 0)))

/-- `namei`. -/
def namei (cwd : Islot) (path : List Byte) : FsM (Option Islot) := do
  let found ← namex cwd false path
  pure (found.map Prod.fst)

/-- `nameiparent`. -/
def nameiparent (cwd : Islot) (path : List Byte) : FsM (Option (Islot × List Byte)) :=
  namex cwd true path

end FileSystem

end Xv6
