import Xv6.FileSystem.Integrity
import Xv6.Machine.Overwrite

/-!
# Writes in pieces

`filewrite` cuts its data into pieces and writes each piece at the offset that the one
before has left.  As long as no piece is refused, the pieces make up one write of all the
data.  A piece that would end beyond the largest size is refused although the pieces in
front of it have been written.
-/

namespace Xv6.FileSystem

open Xv6.Transition List Kernel Nat
open Prog Volume

variable {fs target : Fs} {ip : Islot} {places : List BlockPlace} {off n : Nat} {src : List Byte}

/-! ## One piece -/

/-- Lock the file, write at the offset of the open file, and advance the offset. -/
def writeOnce (f : Fslot) (ip : Islot) (src : List Byte) : KernelM (Option Nat) := do
  inFs (ilock ip)
  let off ← reading fun kernel => (kernel.ftable f).off
  let written ← inFs (writei ip off src)
  update fun kernel => kernel.setFile f fun file => file.advance (written.getD 0)
  inFs (iunlock ip)
  pure written

/-- A regular file that is open for writing, in a system that is in order. -/
structure Writing (kernel : Kernel) (f : Fslot) (ip : Islot) : Prop where
  sound : Sound kernel.fs
  whole : Whole kernel.fs
  writable : (kernel.ftable f).writable = true
  type : (kernel.ftable f).type = .inode ip
  off_lt : (kernel.ftable f).off < 2 ^ 32
  used : 0 < (kernel.fs.icache ip).ref
  unlocked : (kernel.fs.icache ip).locked = false
  isFile : (kernel.fs.inodes (kernel.fs.icache ip).inum).type = .file

/-- The number of the inode in a slot. -/
def Kernel.inumOf (kernel : Kernel) (ip : Islot) : Nat :=
  (kernel.fs.icache ip).inum

/-- The bytes of the file in a slot. -/
def Kernel.bytesOf (kernel : Kernel) (ip : Islot) : List Byte :=
  kernel.fs.volume.contents (kernel.inumOf ip)

/-- The size of the file in a slot. -/
def Kernel.sizeOf (kernel : Kernel) (ip : Islot) : Nat :=
  (kernel.fs.inodes (kernel.inumOf ip)).size

/-- Free blocks for what is to be written. -/
def Kernel.Room (kernel : Kernel) (ip : Islot) (places : List BlockPlace) : Prop :=
  Enough kernel.fs.sb (kernel.inumOf ip) places kernel.fs.volume

/-- Some bytes have been written at the offset of the open file. -/
structure Overwritten (f : Fslot) (ip : Islot) (src : List Byte) (kernel target : Kernel) :
    Prop where
  writing : Writing target f ip
  off : (target.ftable f).off = (kernel.ftable f).off + src.length
  bytes : target.bytesOf ip = overwrite (kernel.bytesOf ip) (kernel.ftable f).off src

namespace Writing

variable {kernel : Kernel} {f : Fslot}

/-- The lock is free, and the inode can be read. -/
theorem locks (writing : Writing kernel f ip) :
    ∃ locked, Runs (ilock ip) kernel.fs () locked := by
  cases valid : (kernel.fs.icache ip).valid with
  | true => exact ⟨_, runs_ilock.mpr ⟨writing.used, writing.unlocked, .inl ⟨valid, rfl⟩⟩⟩
  | false =>
    have typed : (kernel.fs.inodes (kernel.fs.icache ip).inum).type ≠ .free := by
      simp [writing.isFile]
    exact ⟨_, runs_ilock.mpr ⟨writing.used, writing.unlocked, .inr ⟨valid, typed, rfl⟩⟩⟩

/-- The steps of a piece. -/
theorem runs_writeOnce {locked middle unlocked : Fs} {written : Option Nat}
    (locks : Runs (ilock ip) kernel.fs () locked)
    (writes : Runs (writei ip (kernel.ftable f).off src) locked written middle)
    (unlocks : Runs (iunlock ip) middle () unlocked) :
    Runs (writeOnce f ip src) kernel written
      { kernel.setFile f fun file => file.advance (written.getD 0) with fs := unlocked } := by
  unfold writeOnce
  simp only [runs_bind, runs_reading, runs_update, runs_pure, inFs, runs_on]
  exact ⟨(), _, ⟨locked, locks, rfl⟩, _, _, ⟨rfl, rfl⟩, written, _, ⟨middle, writes, rfl⟩, (), _,
    rfl, (), _, ⟨unlocked, unlocks, rfl⟩, rfl, rfl⟩

section

variable (writing : Writing kernel f ip)

include writing

/-- The kernel after a piece. -/
theorem overwritten {fs : Fs} (ops : Ops kernel.fs fs) (used : 0 < (fs.icache ip).ref)
    (unlocked : (fs.icache ip).locked = false) (inum_eq : (fs.icache ip).inum = kernel.inumOf ip)
    (isFile : (fs.inodes (kernel.inumOf ip)).type = .file)
    (small : (kernel.ftable f).off + src.length < 2 ^ 32)
    (contents : fs.volume.contents (kernel.inumOf ip) =
      overwrite (kernel.bytesOf ip) (kernel.ftable f).off src) :
    Overwritten f ip src kernel
      { kernel.setFile f fun file => file.advance src.length with fs := fs } := by
  have file_eq : (kernel.setFile f fun file => file.advance src.length).ftable f =
      { kernel.ftable f with off := (kernel.ftable f).off + src.length } := by
    have off_eq := mod_eq_of_lt small
    simp only [setFile, Function.update_self, File.advance, off_eq]
  refine ⟨⟨writing.sound.ops ops, writing.whole.ops writing.sound ops, ?_, ?_, ?_, used, unlocked,
    ?_⟩, ?_, ?_⟩
  · rw [file_eq]
    exact writing.writable
  · rw [file_eq]
    exact writing.type
  · rw [file_eq]
    exact small
  · rw [inum_eq]
    exact isFile
  · rw [file_eq]
  · change fs.volume.contents (fs.icache ip).inum = _
    rw [inum_eq]
    exact contents

/-- The file under its lock. -/
theorem locked :
    ∃ locked, Runs (ilock ip) kernel.fs () locked ∧ ByteFile locked ip ∧
      (locked.icache ip).type = .file ∧ 0 < (locked.icache ip).ref ∧
      (locked.icache ip).locked = true ∧ (locked.icache ip).inum = kernel.inumOf ip ∧
      (locked.icache ip).size = kernel.sizeOf ip ∧ locked.sb = kernel.fs.sb ∧
      locked.volume = kernel.fs.volume := by
  obtain ⟨locked, locks⟩ := writing.locks
  obtain ⟨used, valid, isLocked, inum_eq, node_eq, sb_eq, volume_eq⟩ :=
    writing.whole.locked_eq locks
  have isFile : (locked.icache ip).type = .file := node_eq ▸ writing.isFile
  refine ⟨locked, locks, (writing.whole.ilock locks).byteFile used valid (.inl isFile), isFile,
    used, isLocked, inum_eq, ?_, sb_eq, volume_eq⟩
  rw [node_eq]
  rfl

/-- A piece beyond the limits changes neither the file nor the offset. -/
theorem writeOnce_of_refused
    (refused : Refused (kernel.sizeOf ip) (kernel.ftable f).off src.length) :
    ∃ target, Runs (writeOnce f ip src) kernel none target ∧ Overwritten f ip [] kernel target := by
  obtain ⟨locked, locks, file, isFile, used, isLocked, inum_eq, size_eq, sb_eq, volume_eq⟩ :=
    writing.locked
  have unlocks : Runs (iunlock ip) locked () _ := runs_iunlock.mpr ⟨isLocked, used, rfl⟩
  refine ⟨_, runs_writeOnce locks (file.writei_of_refused (size_eq ▸ refused)) unlocks, ?_⟩
  refine writing.overwritten (.tail (.single (.lock ip locks)) (.unlock ip unlocks)) ?_ ?_ ?_ ?_
    writing.off_lt ?_
  · rw [Fs.icache_setInode_self]
    exact used
  · rw [Fs.icache_setInode_self]
  · rw [Fs.icache_setInode_self]
    exact inum_eq
  · exact (congrArg (fun volume => (volume.nodes (kernel.inumOf ip)).type) volume_eq).trans
      writing.isFile
  · rw [overwrite_nil]
    exact congrArg (fun volume => volume.contents (kernel.inumOf ip)) volume_eq

/-- A piece within the limits is written. -/
theorem writeOnce_of_accepted (nodup : places.Nodup)
    (covers : ∀ pos, (kernel.ftable f).off ≤ pos → pos < (kernel.ftable f).off + src.length →
      Covers places (pos / bsize)) (room : kernel.Room ip places)
    (accepted : ¬Refused (kernel.sizeOf ip) (kernel.ftable f).off src.length) :
    ∃ target, Runs (writeOnce f ip src) kernel (some src.length) target ∧
      Overwritten f ip src kernel target ∧ target.Room ip places := by
  obtain ⟨locked, locks, file, isFile, used, isLocked, inum_eq, size_eq, sb_eq, volume_eq⟩ :=
    writing.locked
  have enough : Enough locked.sb (locked.icache ip).inum places locked.volume := by
    rw [sb_eq, inum_eq, volume_eq]
    exact room
  obtain ⟨middle, writes, rewritten, enough⟩ :=
    file.writei_of_enough nodup covers (size_eq ▸ accepted) enough
  obtain ⟨addrs, inode_eq⟩ := rewritten.inode
  have unlocks : Runs (iunlock ip) middle () _ := runs_iunlock.mpr
    ⟨by rw [inode_eq]; exact isLocked, by rw [inode_eq]; exact used, rfl⟩
  have notDir : (locked.icache ip).type ≠ .dir := by simp [isFile]
  have ops : Ops kernel.fs _ := .tail (.tail (.single (.lock ip locks))
    (.write ip _ src _ isLocked notDir writes)) (.unlock ip unlocks)
  have node_target := rewritten.file.clean
  rw [inode_eq] at node_target
  have inum_target : (middle.icache ip).inum = kernel.inumOf ip := by
    rw [inode_eq]
    exact inum_eq
  refine ⟨_, runs_writeOnce locks writes unlocks, writing.overwritten ops ?_ ?_ ?_ ?_ ?_ ?_, ?_⟩
  · rw [Fs.icache_setInode_self, inode_eq]
    exact used
  · rw [Fs.icache_setInode_self]
  · rw [Fs.icache_setInode_self]
    exact inum_target
  · change (middle.inodes _).type = _
    rw [← inum_target, inode_eq, ← node_target]
    exact isFile
  · have bounds := accepted
    unfold Refused Overflows at bounds
    omega
  · have contents := rewritten.contents
    rw [inum_eq, volume_eq] at contents
    exact contents
  · rw [sb_eq, inum_eq] at enough
    unfold Room inumOf
    change Enough middle.sb _ places middle.volume
    rw [Fs.icache_setInode_self, inum_target, rewritten.sb, sb_eq]
    exact enough

/-- A file is not larger than the largest size. -/
theorem sizeOf_le : kernel.sizeOf ip ≤ maxfile * bsize :=
  (writing.whole.volume.mapped _ (.inl writing.isFile)).size_le

end

end Writing

/-! ## The loop -/

variable {kernel : Kernel} {f : Fslot} {turns : Nat}

theorem Kernel.length_bytesOf (kernel : Kernel) (ip : Islot) :
    (kernel.bytesOf ip).length = kernel.sizeOf ip :=
  length_contents ..

theorem Overwritten.trans {middle target : Kernel} {first second : List Byte}
    (inside : (kernel.ftable f).off ≤ kernel.sizeOf ip)
    (before : Overwritten f ip first kernel middle)
    (behind : Overwritten f ip second middle target) :
    Overwritten f ip (first ++ second) kernel target where
  writing := behind.writing
  off := by
    rw [behind.off, before.off, length_append, add_assoc]
  bytes := by
    rw [behind.bytes, before.bytes, before.off,
      overwrite_append (kernel.length_bytesOf ip ▸ inside)]

/-- After a write within the file the offset is within the file. -/
theorem Overwritten.inside {target : Kernel} (written : Overwritten f ip src kernel target)
    (inside : (kernel.ftable f).off ≤ kernel.sizeOf ip) :
    (target.ftable f).off ≤ target.sizeOf ip := by
  rw [← length_bytesOf, written.bytes, written.off, overwrite, length_append,
    length_append, length_take, length_bytesOf]
  omega

/-- A piece that is refused ends the loop. -/
theorem runs_writeChunks_of_refused {target : Kernel} (some : src ≠ [])
    (ran : Runs (writeOnce f ip (src.take writeChunk)) kernel none target) :
    Runs (writeChunks f ip (turns + 1) src) kernel false target := by
  unfold writeOnce at ran
  unfold writeChunks
  rw [if_neg some]
  simp only [runs_bind, runs_pure] at ran ⊢
  obtain ⟨_, _, locks, _, _, reads, _, _, writes, _, _, advances, _, _, unlocks, rfl, rfl⟩ := ran
  exact ⟨_, _, locks, _, _, reads, _, _, writes, _, _, advances, _, _, unlocks, rfl⟩

/-- A piece that is written is followed by the others. -/
theorem runs_writeChunks_of_written {middle target : Kernel} {ok : Bool} (some : src ≠ [])
    (ran : Runs (writeOnce f ip (src.take writeChunk)) kernel (.some (src.take writeChunk).length)
      middle)
    (rest : Runs (writeChunks f ip turns (src.drop writeChunk)) middle ok target) :
    Runs (writeChunks f ip (turns + 1) src) kernel ok target := by
  have length_eq : (src.take writeChunk).length = min src.length writeChunk := by
    rw [length_take, min_comm]
  unfold writeOnce at ran
  unfold writeChunks
  rw [if_neg some]
  simp only [runs_bind, runs_pure] at ran ⊢
  obtain ⟨_, _, locks, _, _, reads, _, _, writes, _, _, advances, _, _, unlocks, rfl, rfl⟩ := ran
  refine ⟨_, _, locks, _, _, reads, _, _, writes, _, _, advances, _, _, unlocks, ?_⟩
  simp only [runs_bind, runs_ensure]
  exact ⟨(), _, ⟨length_eq, rfl⟩, rest⟩

/-- The number of bytes that the loop writes: all of them, or the whole pieces that end
within the largest size. -/
def fitting (off n : Nat) : Nat :=
  if off + n ≤ maxfile * bsize then n
  else writeChunk * ((maxfile * bsize - off) / writeChunk)

/-- The first piece does not fit. -/
theorem fitting_of_lt (within : off ≤ maxfile * bsize)
    (large : maxfile * bsize < off + min n writeChunk) : fitting off n = 0 := by
  have few : maxfile * bsize - off < writeChunk := by omega
  rw [fitting, if_neg (by omega), div_eq_of_lt few, mul_zero]

/-- The first piece fits. -/
theorem fitting_of_le (fits : off + min n writeChunk ≤ maxfile * bsize) :
    fitting off n = min n writeChunk + fitting (off + min n writeChunk) (n - min n writeChunk) := by
  unfold fitting
  by_cases all : off + n ≤ maxfile * bsize
  · rw [if_pos all, if_pos (by omega)]
    omega
  have full : min n writeChunk = writeChunk := by omega
  have more : maxfile * bsize - off = maxfile * bsize - (off + writeChunk) + writeChunk := by
    omega
  rw [full, if_neg all, if_neg (by omega), more, add_div_right _ (by decide), mul_succ,
    add_comm]

theorem Writing.overwritten_nil (writing : Writing kernel f ip) :
    Overwritten f ip [] kernel kernel :=
  ⟨writing, rfl, (overwrite_nil ..).symm⟩

theorem runs_writeChunks_nil (turns : Nat) :
    Runs (writeChunks f ip turns []) kernel true kernel := by
  cases turns with
  | zero | succ turns => exact runs_pure.mpr ⟨rfl, rfl⟩

/-- The first piece and what is taken of the others. -/
theorem take_append_take_drop (src : List Byte) (limit n : Nat) :
    src.take limit ++ (src.drop limit).take n = src.take (min src.length limit + n) := by
  rw [take_add]
  by_cases short : src.length ≤ limit
  · rw [min_eq_left short, take_length, drop_length, take_of_length_le short,
      drop_of_length_le short]
  · rw [min_eq_right (by omega)]

/-- The loop of `filewrite` writes what fits. -/
theorem Writing.writeChunks (writing : Writing kernel f ip) (src : List Byte)
    (nodup : places.Nodup) (inside : (kernel.ftable f).off ≤ kernel.sizeOf ip)
    (covers : ∀ pos, (kernel.ftable f).off ≤ pos → pos < (kernel.ftable f).off + src.length →
      Covers places (pos / bsize)) (room : kernel.Room ip places) (bound : src.length ≤ turns) :
    ∃ target, Runs (FileSystem.writeChunks f ip turns src) kernel
        (decide (fitting (kernel.ftable f).off src.length = src.length)) target ∧
      Overwritten f ip (src.take (fitting (kernel.ftable f).off src.length)) kernel target := by
  induction turns generalizing kernel src with
  | zero =>
    obtain rfl := eq_nil_of_length_eq_zero (le_zero.mp bound)
    have all : fitting (kernel.ftable f).off 0 = 0 := if_pos (inside.trans writing.sizeOf_le)
    refine ⟨kernel, ?_, ?_⟩
    · simpa [all] using runs_writeChunks_nil 0
    · simpa using writing.overwritten_nil
  | succ turns ih =>
    by_cases none : src = []
    · subst none
      have all : fitting (kernel.ftable f).off 0 = 0 := if_pos (inside.trans writing.sizeOf_le)
      refine ⟨kernel, ?_, ?_⟩
      · simpa [all] using runs_writeChunks_nil (turns + 1)
      · simpa using writing.overwritten_nil
    have positive : 0 < src.length := length_pos_iff.mpr none
    have length_eq : (src.take writeChunk).length = min src.length writeChunk := by
      rw [length_take, min_comm]
    by_cases large : maxfile * bsize <
        (kernel.ftable f).off + min src.length writeChunk
    · obtain ⟨target, ran, written⟩ := writing.writeOnce_of_refused
        ((refused_iff inside).mpr (length_eq ▸ large))
      rw [fitting_of_lt (inside.trans writing.sizeOf_le) large]
      refine ⟨target, ?_, written⟩
      rw [decide_eq_false (by omega)]
      exact runs_writeChunks_of_refused none ran
    have fits := not_lt.mp large
    obtain ⟨middle, ran, written, room⟩ := writing.writeOnce_of_accepted nodup
      (fun pos above below => covers pos above (by omega)) room
      (fun refused => large (length_eq ▸ (refused_iff inside).mp refused))
    have off_eq : (middle.ftable f).off =
        (kernel.ftable f).off + min src.length writeChunk := length_eq ▸ written.off
    have rest_eq : (src.drop writeChunk).length = src.length - min src.length writeChunk := by
      rw [length_drop]
      omega
    obtain ⟨target, rest, behind⟩ := ih written.writing (src.drop writeChunk)
      (written.inside inside) (fun pos above below => covers pos (by omega) (by omega)) room
      (by have chunk : 0 < writeChunk := by decide
          omega)
    rw [off_eq, rest_eq] at rest behind
    have all := written.trans inside behind
    rw [take_append_take_drop, ← fitting_of_le fits] at all
    refine ⟨target, ?_, all⟩
    have same : decide (fitting (kernel.ftable f).off src.length = src.length) =
        decide (fitting ((kernel.ftable f).off + min src.length writeChunk)
          (src.length - min src.length writeChunk) =
            src.length - min src.length writeChunk) := by
      rw [fitting_of_le fits]
      exact decide_eq_decide.mpr (by omega)
    rw [same]
    exact runs_writeChunks_of_written none ran rest

/-! ## Whole calls -/

/-- Two kernels agree about an open file: its bytes, its size and the offset. -/
def SameFile (f : Fslot) (ip : Islot) (kernel other : Kernel) : Prop :=
  kernel.bytesOf ip = other.bytesOf ip ∧ kernel.sizeOf ip = other.sizeOf ip ∧
    (kernel.ftable f).off = (other.ftable f).off

theorem Overwritten.sameFile {target other : Kernel} (first : Overwritten f ip src kernel target)
    (second : Overwritten f ip src kernel other) : SameFile f ip target other := by
  have bytes := first.bytes.trans second.bytes.symm
  refine ⟨bytes, ?_, first.off.trans second.off.symm⟩
  rw [← length_bytesOf, ← length_bytesOf, bytes]

/-- The first piece of a write ends within the largest size, but the whole does not. -/
def CutShort (size off n : Nat) : Prop :=
  off ≤ size ∧ off + min n writeChunk ≤ maxfile * bsize ∧ maxfile * bsize < off + n

instance (size off n : Nat) : Decidable (CutShort size off n) :=
  inferInstanceAs (Decidable (_ ∧ _))

section

variable (writing : Writing kernel f ip)

include writing

theorem runs_filewrite {transfer ok : Bool} {target : Kernel} :
    Runs (filewrite f src transfer) kernel ok target ↔
      Runs (writeChunks f ip src.length src) kernel ok target := by
  unfold filewrite
  rw [runs_bind]
  simp only [runs_reading]
  constructor
  · rintro ⟨_, _, ⟨rfl, rfl⟩, ran⟩
    rw [writing.writable, writing.type] at ran
    exact ran
  · intro ran
    refine ⟨_, _, ⟨rfl, rfl⟩, ?_⟩
    rw [writing.writable, writing.type]
    exact ran

/-- Beyond the end of the file only an empty write succeeds, and it changes nothing. -/
theorem Writing.filewrite_beyond (beyond : kernel.sizeOf ip < (kernel.ftable f).off)
    (src : List Byte) (transfer : Bool) :
    ∃ target, Runs (filewrite f src transfer) kernel (decide (src = [])) target ∧
      Overwritten f ip [] kernel target := by
  simp only [runs_filewrite writing]
  cases src with
  | nil => exact ⟨kernel, runs_writeChunks_nil 0, writing.overwritten_nil⟩
  | cons byte rest =>
    obtain ⟨target, ran, written⟩ := writing.writeOnce_of_refused (.inl beyond)
    exact ⟨target, runs_writeChunks_of_refused (by simp) ran, written⟩

/-- Within the file `filewrite` writes what fits. -/
theorem Writing.filewrite_within (inside : (kernel.ftable f).off ≤ kernel.sizeOf ip)
    (src : List Byte) (transfer : Bool)
    (room : kernel.Room ip (placesFor (kernel.ftable f).off src.length)) :
    ∃ target, Runs (filewrite f src transfer) kernel
        (decide (fitting (kernel.ftable f).off src.length = src.length)) target ∧
      Overwritten f ip (src.take (fitting (kernel.ftable f).off src.length)) kernel target := by
  simp only [runs_filewrite writing]
  exact writing.writeChunks src (nodup_placesFor ..) inside (fun _ => covers_placesFor) room
    (le_refl _)

end

/-- `filewrite` does the same as one plain write of all the data, with two exceptions.  An
empty write succeeds although the offset is beyond the end of the file.  If the first piece
ends within the largest size and the whole does not, the whole pieces that fit are written
and the call fails. -/
theorem filewrite_eq_writeOnce (writing : Writing kernel f ip) (src : List Byte) (transfer : Bool)
    (room : kernel.Room ip (placesFor (kernel.ftable f).off src.length)) :
    ∃ ok target written plain, Runs (filewrite f src transfer) kernel ok target ∧
      Runs (writeOnce f ip src) kernel written plain ∧
      if src = [] ∧ kernel.sizeOf ip < (kernel.ftable f).off then
        ok = true ∧ SameFile f ip target kernel
      else if CutShort (kernel.sizeOf ip) (kernel.ftable f).off src.length then
        ok = false ∧ Overwritten f ip (src.take (writeChunk *
          ((maxfile * bsize - (kernel.ftable f).off) / writeChunk))) kernel target
      else
        ok = written.isSome ∧ SameFile f ip target plain := by
  by_cases beyond : kernel.sizeOf ip < (kernel.ftable f).off
  · obtain ⟨target, ran, written⟩ := writing.filewrite_beyond beyond src transfer
    obtain ⟨plain, plainRan, plainWritten⟩ := writing.writeOnce_of_refused (.inl beyond)
    refine ⟨_, target, none, plain, ran, plainRan, ?_⟩
    have notCut : ¬CutShort (kernel.sizeOf ip) (kernel.ftable f).off src.length :=
      fun cut => absurd cut.1 (Nat.not_le.mpr beyond)
    by_cases empty : src = []
    · rw [if_pos ⟨empty, beyond⟩]
      exact ⟨decide_eq_true empty, written.sameFile writing.overwritten_nil⟩
    · rw [if_neg fun both => empty both.1, if_neg notCut]
      exact ⟨decide_eq_false empty, written.sameFile plainWritten⟩
  · have inside := Nat.not_lt.mp beyond
    obtain ⟨target, ran, written⟩ := writing.filewrite_within inside src transfer room
    have notSkipped : ¬(src = [] ∧ kernel.sizeOf ip < (kernel.ftable f).off) :=
      fun both => beyond both.2
    by_cases large : maxfile * bsize < (kernel.ftable f).off + src.length
    · obtain ⟨plain, plainRan, plainWritten⟩ :=
        writing.writeOnce_of_refused ((refused_iff inside).mpr large)
      have fitting_eq : fitting (kernel.ftable f).off src.length =
          writeChunk * ((maxfile * bsize - (kernel.ftable f).off) / writeChunk) :=
        if_neg (Nat.not_le.mpr large)
      have fewer : fitting (kernel.ftable f).off src.length ≠ src.length := by
        have bound := Nat.mul_div_le (maxfile * bsize - (kernel.ftable f).off) writeChunk
        have within := inside.trans writing.sizeOf_le
        omega
      refine ⟨_, target, none, plain, ran, plainRan, ?_⟩
      rw [if_neg notSkipped]
      by_cases first : (kernel.ftable f).off + min src.length writeChunk ≤ maxfile * bsize
      · rw [if_pos ⟨inside, first, large⟩, ← fitting_eq]
        exact ⟨decide_eq_false fewer, written⟩
      · rw [if_neg fun cut => first cut.2.1]
        rw [fitting_of_lt (inside.trans writing.sizeOf_le) (Nat.not_le.mp first)] at written
        exact ⟨decide_eq_false fewer, written.sameFile plainWritten⟩
    · obtain ⟨plain, plainRan, plainWritten, -⟩ := writing.writeOnce_of_accepted
        (nodup_placesFor ..) (fun _ => covers_placesFor) room
        (fun refused => large ((refused_iff inside).mp refused))
      have all : fitting (kernel.ftable f).off src.length = src.length :=
        if_pos (Nat.not_lt.mp large)
      rw [all, List.take_length] at written
      refine ⟨_, target, _, plain, ran, plainRan, ?_⟩
      rw [if_neg notSkipped, if_neg fun cut => large cut.2.2]
      exact ⟨decide_eq_true all, written.sameFile plainWritten⟩

/-! ## A new file -/

/-- A process makes the file `f`. -/
def createFile : List Event :=
  [⟨0, .openFile (some [0x66]) 0x202⟩]

/-- The first open file. -/
def firstFile : Fslot :=
  ⟨0, by decide⟩

/-- A new file is empty and open for writing. -/
theorem writing_createFile {kernel : Kernel}
    (execution : run step (boot emptyImage) createFile = some kernel) :
    Writing kernel firstFile 1 ∧ (kernel.ftable firstFile).off = 0 ∧ kernel.sizeOf 1 = 0 := by
  obtain ⟨created, ran, writable, type, off, used, unlocked, isFile, size⟩ :
    ∃ kernel ∈ run step (boot emptyImage) createFile, (kernel.ftable firstFile).writable = true ∧
      (kernel.ftable firstFile).type = .inode 1 ∧ (kernel.ftable firstFile).off = 0 ∧
      0 < (kernel.fs.icache 1).ref ∧ (kernel.fs.icache 1).locked = false ∧
      (kernel.fs.inodes (kernel.fs.icache 1).inum).type = .file ∧ kernel.sizeOf 1 = 0 := by
    decide +kernel
  cases Option.some.inj (execution.symm.trans ran)
  exact ⟨⟨(closed_of_reachable (.of_run execution)).books.sound,
    whole_of_reachable whole_emptyImage (.of_run execution), writable, type,
    by rw [off]; decide, used, unlocked, isFile⟩, off, size⟩

/-- The disk has blocks for a write of two pieces, and for one of the largest size. -/
theorem room_createFile :
    ∃ kernel ∈ run step (boot emptyImage) createFile,
      ∀ count ∈ [writeChunk + 1, maxfile * bsize + 1], kernel.Room 1 (placesFor 0 count) := by
  unfold Kernel.Room
  decide +kernel

/-- A write of one byte more than the largest size to a new file fails, after ten pieces have
been written and the offset has been advanced.  One plain write has no effect. -/
theorem filewrite_leaves_pieces :
    ∃ kernel target plain, run step (boot emptyImage) createFile = some kernel ∧
      Writing kernel firstFile 1 ∧ kernel.Room 1 (placesFor 0 (maxfile * bsize + 1)) ∧
      Runs (filewrite firstFile (List.replicate (maxfile * bsize + 1) 0) true) kernel false target ∧
      Runs (writeOnce firstFile 1 (List.replicate (maxfile * bsize + 1) 0)) kernel none plain ∧
      (target.ftable firstFile).off = 66560 ∧ (plain.ftable firstFile).off = 0 ∧
      target.bytesOf 1 ≠ plain.bytesOf 1 := by
  obtain ⟨kernel, execution, room⟩ := room_createFile
  obtain ⟨writing, off, size⟩ := writing_createFile execution
  have inside : (kernel.ftable firstFile).off ≤ kernel.sizeOf 1 := by
    rw [off]
    exact Nat.zero_le _
  have roomAll := room (maxfile * bsize + 1) (by simp)
  have length_eq : (List.replicate (maxfile * bsize + 1) (0 : Byte)).length =
      maxfile * bsize + 1 := List.length_replicate
  obtain ⟨target, ran, written⟩ := writing.filewrite_within inside
    (List.replicate (maxfile * bsize + 1) 0) true (by rw [off, length_eq]; exact roomAll)
  have refused : Refused (kernel.sizeOf 1) (kernel.ftable firstFile).off
      (List.replicate (maxfile * bsize + 1) (0 : Byte)).length := by
    rw [refused_iff inside, length_eq]
    omega
  obtain ⟨plain, plainRan, plainWritten⟩ := writing.writeOnce_of_refused refused
  have pieces : fitting 0 (maxfile * bsize + 1) = 66560 := by decide
  rw [length_eq, off] at ran
  rw [length_eq, List.take_replicate] at written
  have target_off := written.off
  rw [off, List.length_replicate] at target_off
  have plain_off := plainWritten.off
  rw [off] at plain_off
  refine ⟨kernel, target, plain, execution, writing, roomAll, ran, plainRan, target_off, plain_off,
    fun same => ?_⟩
  have target_size := written.inside inside
  have plain_bytes := plainWritten.bytes
  rw [← Kernel.length_bytesOf, same, plain_bytes, overwrite_nil,
    Kernel.length_bytesOf] at target_size
  omega

/-- Two pieces are written to a new file. -/
theorem filewrite_eq_writeOnce_twoPieces :
    ∃ kernel ok target written plain, ∃ src : List Byte, writeChunk < src.length ∧
      Writing kernel firstFile 1 ∧
      kernel.Room 1 (placesFor (kernel.ftable firstFile).off src.length) ∧
      Runs (filewrite firstFile src true) kernel ok target ∧
      Runs (writeOnce firstFile 1 src) kernel written plain ∧
      ok = written.isSome ∧ SameFile firstFile 1 target plain := by
  obtain ⟨kernel, execution, room⟩ := room_createFile
  obtain ⟨writing, off, -⟩ := writing_createFile execution
  obtain ⟨src, length_eq⟩ : ∃ src : List Byte, src.length = writeChunk + 1 :=
    ⟨replicate (writeChunk + 1) 0x61, length_replicate⟩
  have room : kernel.Room 1 (placesFor (kernel.ftable firstFile).off src.length) := by
    rw [off, length_eq]
    exact room _ (by simp)
  obtain ⟨ok, target, written, plain, ran, plainRan, ended⟩ :=
    filewrite_eq_writeOnce writing src true room
  have notCut : ¬CutShort (kernel.sizeOf 1) (kernel.ftable firstFile).off src.length := by
    rintro ⟨-, -, large⟩
    rw [off, length_eq] at large
    exact absurd large (by decide)
  have notEmpty : src ≠ [] := by
    rintro rfl
    cases length_eq
  rw [if_neg fun empty => notEmpty empty.1, if_neg notCut] at ended
  exact ⟨kernel, ok, target, written, plain, src, by omega, writing, room, ran, plainRan, ended⟩

end Xv6.FileSystem
