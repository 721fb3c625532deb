import Xv6.Machine.Block
import Xv6.Redo.Writes

/-!
# The redo log of `log.c`

The log occupies `size` blocks from `start` on: a header block and, after it, the
contents of the logged blocks.  `commit` copies the modified blocks from the
buffer cache to the log, writes the header, copies the log to the home
locations and clears the header; `recover_from_log` repeats the last two parts
from what it finds on the disk.

A device has a disk and the buffers that are cached, and remembers the writes it
has performed.  Every `bwrite` is one atomic write.  Which clean buffers are
evicted cannot be observed, so eviction is left out.
-/

namespace Xv6.Log

open Xv6.Redo List Block

/-- The number of a block on the device. -/
abbrev Blockno := BitVec 32

instance Blockno.lawfulBEq : LawfulBEq Blockno := inferInstance

/-- The contents of the disk. -/
abbrev Disk := Blockno → Block

/-! ## The buffer cache -/

/-- The device with its cached buffers and the writes since it was opened. -/
structure Dev where
  disk : Disk
  cache : Blockno → Option Block
  written : List (Blockno × Block)

namespace Dev

/-- A device that has performed no write yet. -/
def opened (disk : Disk) (cache : Blockno → Option Block) : Dev :=
  ⟨disk, cache, []⟩

/-- `bread`: the data of the buffer for a block. -/
def bread (dev : Dev) (blockno : Blockno) : Block :=
  (dev.cache blockno).getD (dev.disk blockno)

/-- Modify the data of the buffer for a block. -/
def store (dev : Dev) (blockno : Blockno) (data : Block) : Dev :=
  { dev with cache := Function.update dev.cache blockno (some data) }

/-- `bwrite`: write the buffer for a block to the disk. -/
def bwrite (dev : Dev) (blockno : Blockno) : Dev :=
  { dev with
    disk := write dev.disk (blockno, dev.bread blockno)
    written := dev.written ++ [(blockno, dev.bread blockno)] }

/-- Replace the buffer for a block and write it. -/
def overwrite (dev : Dev) (blockno : Blockno) (data : Block) : Dev :=
  (dev.store blockno data).bwrite blockno

/-- The body of the loops of `write_log` and `install_trans`: `memmove` from the
buffer of one block to that of another, and `bwrite`. -/
def copy (dev : Dev) (source target : Blockno) : Dev :=
  dev.overwrite target (dev.bread source)

end Dev

/-! ## The log -/

/-- `MAXOPBLOCKS`, the maximum number of blocks an operation writes. -/
def maxopblocks : Nat := 10

/-- `LOGSIZE`, the maximum number of data blocks in the log. -/
def logsize : Nat := maxopblocks * 3

/-- `struct logheader`: the first `n` elements of `block`, which has `LOGSIZE`. -/
structure Header where
  block : List Blockno
  fits : block.length ≤ logsize

namespace Header

/-- The header with `n = 0`. -/
def empty : Header := ⟨[], Nat.zero_le _⟩

/-- The test of `begin_op` that the log might run out of space. -/
def Full (header : Header) (outstanding : Int) : Prop :=
  (header.block.length : Int) + (outstanding + 1) * maxopblocks > logsize

instance (header : Header) (outstanding : Int) : Decidable (header.Full outstanding) :=
  inferInstanceAs (Decidable (_ > _))

/-- List one more block. -/
def push (header : Header) (blockno : Blockno) (room : header.block.length < logsize) : Header :=
  ⟨header.block ++ [blockno], by
    rw [List.length_append, List.length_singleton]
    exact room⟩

/-- The stores of `write_head` to the header block. -/
def overlay (header : Header) (data : Block) : Block :=
  (data.setWord (Block.wordIndex 0) (BitVec.ofNat 32 header.block.length)).setWords 1 header.block

/-- The field `n` of a header block. -/
def count (data : Block) : Int :=
  (data.word (Block.wordIndex 0)).toInt

/-- The loop of `read_head` over a header block.  A negative `n` reads nothing,
and one above `LOGSIZE` overruns the array in memory. -/
def read (data : Block) : Option Header :=
  if fits : (count data).toNat ≤ logsize then
    some ⟨data.getWords 1 (count data).toNat, by simpa using fits⟩
  else none

end Header

/-- The fields of `struct log` that `initlog` takes from the superblock. -/
structure Area where
  start : Blockno
  size : Nat
  representable : size < 2147483648

namespace Area

/-- `log.start+tail+1`. -/
def logBlock (log : Area) (tail : Nat) : Blockno :=
  log.start + BitVec.ofNat 32 (tail + 1)

/-- The block belongs to the log. -/
def Contains (log : Area) (blockno : Blockno) : Prop :=
  ∃ index < log.size, blockno = log.start + BitVec.ofNat 32 index

instance (log : Area) (blockno : Blockno) : Decidable (log.Contains blockno) :=
  decidable_of_iff
    ((List.range log.size).any fun index => blockno = log.start + BitVec.ofNat 32 index)
    (by simp [Contains])

/-- The log of an image built by `mkfs`: `sb.logstart = 2` and
`sb.nlog = nlog = LOGSIZE`. -/
def mkfs : Area where
  start := 2
  size := logsize
  representable := by decide

/-- `write_head`. -/
def writeHead (log : Area) (header : Header) (dev : Dev) : Dev :=
  dev.overwrite log.start (header.overlay (dev.bread log.start))

/-- `read_head`. -/
def readHead (log : Area) (dev : Dev) : Option Header :=
  Header.read (dev.bread log.start)

/-- `write_log`. -/
def writeLog (log : Area) (header : Header) (dev : Dev) : Dev :=
  header.block.zipIdx.foldl (fun dev entry => dev.copy entry.1 (log.logBlock entry.2)) dev

/-- `install_trans`. -/
def installTrans (log : Area) (header : Header) (dev : Dev) : Dev :=
  header.block.zipIdx.foldl (fun dev entry => dev.copy (log.logBlock entry.2) entry.1) dev

/-- `commit`.  The header in memory is empty afterwards. -/
def commit (log : Area) (header : Header) (dev : Dev) : Dev :=
  if header.block.length > 0 then
    log.writeHead .empty (log.installTrans header (log.writeHead header (log.writeLog header dev)))
  else dev

/-- `recover_from_log`. -/
def recoverFromLog (log : Area) (dev : Dev) : Option Dev :=
  (log.readHead dev).map fun header => log.writeHead .empty (log.installTrans header dev)

end Area

/-! ## Headers on the disk -/

namespace Header

theorem bound (header : Header) : 1 + header.block.length ≤ words := by
  have := header.fits
  simp only [logsize, maxopblocks, words, bsize] at *
  omega

theorem count_overlay (header : Header) (data : Block) :
    count (header.overlay data) = header.block.length := by
  have fits := header.fits
  simp only [logsize, maxopblocks] at fits
  have toNat_eq : (BitVec.ofNat 32 header.block.length).toNat = header.block.length := by
    exact Nat.mod_eq_of_lt (by omega)
  rw [count, overlay, word_setWords_of_lt _ (by decide) header.bound,
    word_setWord_self, BitVec.toInt_eq_toNat_of_lt (by omega), toNat_eq]

/-- `read_head` reads what `write_head` has written. -/
theorem read_overlay (header : Header) (data : Block) :
    read (header.overlay data) = some header := by
  have count_eq : (count (header.overlay data)).toNat = header.block.length := by
    rw [count_overlay]
    simp
  have block_eq : (header.overlay data).getWords 1 header.block.length = header.block :=
    getWords_setWords _ 1 header.bound
  simp only [read, count_eq, header.fits, dif_pos, block_eq]

/-- A header block with `n = 0` is the empty header. -/
theorem read_of_count_eq_zero {data : Block} (cleared : count data = 0) :
    read data = some .empty := by
  simp [read, cleared, empty, getWords]

theorem count_empty_overlay (data : Block) : count (empty.overlay data) = 0 := by
  rw [count_overlay]
  rfl

end Header

/-! ## The writes of a procedure -/

namespace Dev

/-- The device has performed the writes, and its buffers have followed. -/
structure Performs (dev : Dev) (writes : List (Blockno × Block)) (target : Dev) : Prop where
  written : target.written = dev.written ++ writes
  disk : target.disk = replay dev.disk writes
  bread : target.bread = replay dev.bread writes

namespace Performs

variable {dev middle target : Dev} {first second : List (Blockno × Block)}

theorem refl (dev : Dev) : dev.Performs [] dev :=
  ⟨(append_nil _).symm, rfl, rfl⟩

theorem trans (before : dev.Performs first middle) (after : middle.Performs second target) :
    dev.Performs (first ++ second) target where
  written := by rw [after.written, before.written, append_assoc]
  disk := by rw [after.disk, before.disk, replay_append]
  bread := by rw [after.bread, before.bread, replay_append]

end Performs

theorem performs_overwrite (dev : Dev) (blockno : Blockno) (data : Block) :
    dev.Performs [(blockno, data)] (dev.overwrite blockno data) := by
  have stored : (dev.store blockno data).bread blockno = data := by
    simp [store, bread]
  refine ⟨?_, ?_, funext fun other => ?_⟩
  · simp only [overwrite, bwrite, stored]
    rfl
  · simp only [overwrite, bwrite, stored]
    rfl
  · by_cases same : other = blockno
    · subst same
      simp [overwrite, bwrite, store, bread]
    · simp [overwrite, bwrite, store, bread, write_of_ne, same]

/-- The writes of a loop that copies the first block of every pair to the
second. -/
def copyWrites (contents : Blockno → Block) (pairs : List (Blockno × Blockno)) :
    List (Blockno × Block) :=
  pairs.map fun pair => (pair.2, contents pair.1)

/-- A loop that copies no block it has written before. -/
theorem performs_copies (dev : Dev) {pairs : List (Blockno × Blockno)}
    (disjoint : ∀ pair ∈ pairs, ∀ other ∈ pairs, pair.1 ≠ other.2) :
    dev.Performs (copyWrites dev.bread pairs)
      (pairs.foldl (fun dev pair => dev.copy pair.1 pair.2) dev) := by
  induction pairs generalizing dev with
  | nil => exact .refl dev
  | cons pair pairs ih =>
    have copied := performs_overwrite dev pair.2 (dev.bread pair.1)
    -- The later sources have not been overwritten by this copy.
    have sources : copyWrites (dev.copy pair.1 pair.2).bread pairs =
        copyWrites dev.bread pairs := by
      apply map_congr_left
      intro later member
      have ne := disjoint later (mem_cons_of_mem _ member) pair mem_cons_self
      rw [copy, copied.bread, replay_cons, replay_nil, write_of_ne _ ne]
    have rest := ih (dev.copy pair.1 pair.2) fun later member other otherMember =>
      disjoint later (mem_cons_of_mem _ member) other (mem_cons_of_mem _ otherMember)
    rw [sources] at rest
    exact copied.trans rest

end Dev

end Xv6.Log
