import Xv6.FileSystem.Chunks
import Xv6.FileSystem.Demand

/-!
# The reservation of `filewrite`

`begin_op` reserves `MAXOPBLOCKS` blocks of the log for an operation, but `filewrite` cuts
its data into pieces of a size that it computes from `LOGSIZE`.  Whether the sections of a
call stay within the reservation depends on the alignment of the bytes and on the blocks
that the file lacks.
-/

namespace Xv6.FileSystem

open Xv6.Log (maxopblocks)
open Xv6.Transition List
open Prog Volume

variable {ip : Islot} {off n : Nat} {src : List Byte}

/-! ## The sections of a call -/

/-- A kernel in which `filewrite` may write to a file: the file system is in order, its free
map is one block, and the offset is within the file. -/
structure Writable (kernel : Kernel) (f : Fslot) (ip : Islot) : Prop where
  sound : Sound kernel.fs
  whole : Whole kernel.fs
  oneMap : kernel.fs.sb.size ≤ bitsPerBlock
  isFile : (kernel.fs.inodes (kernel.fs.icache ip).inum).type = .file
  inside : (kernel.ftable f).off ≤ (kernel.fs.inodes (kernel.fs.icache ip).inum).size

/-- The blocks that a file lacks when the `i`th section of a call begins: those that it
lacked before the call and that no earlier section has written to. -/
def MissingAt (volume : Volume) (inum off i bn : Nat) : Prop :=
  volume.blockOf inum bn = 0 ∧ bn ∉ blocksFor off (i * writeChunk)

instance (volume : Volume) (inum off i : Nat) : DecidablePred (MissingAt volume inum off i) :=
  fun _ => inferInstanceAs (Decidable (_ ∧ _))

/-- If the `i`th section of a call is executed and not refused, its blocks fit. -/
def SectionFits (volume : Volume) (inum off n i : Nat) : Prop :=
  i * writeChunk < n →
    off + i * writeChunk + min writeChunk (n - i * writeChunk) ≤ maxfile * bsize →
      demand (MissingAt volume inum off i) (volume.nodes inum).size (off + i * writeChunk)
        (min writeChunk (n - i * writeChunk)) ≤ maxopblocks

namespace Journal

variable {journal target : Journal} {f : Fslot} {turns : Nat} {ok : Bool}

/-- The journal after a section. -/
def finish (journal : Journal) (f : Fslot) (written : Option Nat) (fs : Fs)
    (log : List DiskBlock) : Journal where
  kernel := { journal.kernel.setFile f fun file => file.advance (written.getD 0) with fs := fs }
  logged := log
  sections := journal.sections ++ [log]

/-- The steps of a section. -/
theorem runs_turn (some : src ≠ [])
    (ran : Runs (writeChunks f ip (turns + 1) src) journal ok target) :
    ∃ locked written fs log unlocked, Runs (ilock ip) journal.kernel.fs () locked ∧
      Runs (Logged.writei ip (journal.kernel.ftable f).off (src.take writeChunk)) ⟨locked, []⟩
        written ⟨fs, log⟩ ∧
      Runs (iunlock ip) fs () unlocked ∧
      ((written = none ∧ target = journal.finish f written unlocked log) ∨
        (written = .some (min src.length writeChunk) ∧
          Runs (writeChunks f ip turns (src.drop writeChunk))
            (journal.finish f written unlocked log) ok target)) := by
  unfold writeChunks at ran
  rw [if_neg some] at ran
  simp only [runs_bind, runs_reading, beginOp, endOp, runs_update, quiet, inFs,
    FileSystem.inFs, runs_on] at ran
  obtain ⟨_, _, rfl, _, _, ⟨_, ⟨locked, locks, rfl⟩, rfl⟩, _, _, ⟨rfl, rfl⟩, written, _,
    ⟨⟨fs, log⟩, writes, rfl⟩, _, _, ⟨_, rfl, rfl⟩, _, _, ⟨_, ⟨unlocked, unlocks, rfl⟩, rfl⟩,
    _, _, rfl, ran⟩ := ran
  refine ⟨locked, written, fs, log, unlocked, locks, writes, unlocks, ?_⟩
  cases written with
  | none =>
    obtain ⟨-, rfl⟩ := runs_pure.mp ran
    exact .inl ⟨rfl, rfl⟩
  | some count =>
    simp only [runs_bind, runs_ensure] at ran
    obtain ⟨_, _, ⟨rfl, rfl⟩, ran⟩ := ran
    exact .inr ⟨rfl, ran⟩

/-- What one section of `filewrite` leaves. -/
structure Wrote (f : Fslot) (ip : Islot) (n : Nat) (journal next : Journal) : Prop where
  writable : Writable next.kernel f ip
  off : (next.kernel.ftable f).off = (journal.kernel.ftable f).off + n
  inum : (next.kernel.fs.icache ip).inum = (journal.kernel.fs.icache ip).inum
  size : (next.kernel.fs.inodes (journal.kernel.fs.icache ip).inum).size =
    max (journal.kernel.fs.inodes (journal.kernel.fs.icache ip).inum).size
      ((journal.kernel.ftable f).off + n)
  missing : ∀ bn, next.kernel.fs.volume.blockOf (journal.kernel.fs.icache ip).inum bn = 0 ↔
    journal.kernel.fs.volume.blockOf (journal.kernel.fs.icache ip).inum bn = 0 ∧
      bn ∉ blocksFor (journal.kernel.ftable f).off n
  sections : ∃ log : List DiskBlock, next.sections = journal.sections ++ [log] ∧
    log.toFinset.card =
      demand (fun bn => journal.kernel.fs.volume.blockOf (journal.kernel.fs.icache ip).inum bn = 0)
        (journal.kernel.fs.inodes (journal.kernel.fs.icache ip).inum).size
        (journal.kernel.ftable f).off n

/-- A section is refused, and the call ends, or it writes its piece. -/
theorem turn_cases (writable : Writable journal.kernel f ip) (some : src ≠ [])
    (ran : Runs (writeChunks f ip (turns + 1) src) journal ok target) :
    (maxfile * bsize < (journal.kernel.ftable f).off + min writeChunk src.length ∧
      target.sections = journal.sections ++ [[]]) ∨
    ((journal.kernel.ftable f).off + min writeChunk src.length ≤ maxfile * bsize ∧
      ∃ next, Wrote f ip (min writeChunk src.length) journal next ∧
        Runs (writeChunks f ip turns (src.drop writeChunk)) next ok target) := by
  obtain ⟨locked, written, fs, log, unlocked, locks, writes, unlocks, ended⟩ := runs_turn some ran
  obtain ⟨used, valid, -, inum_eq, node_eq, sb_eq, volume_eq⟩ := writable.whole.locked_eq locks
  have isFile : (locked.icache ip).type = .file := node_eq ▸ writable.isFile
  have file : ByteFile locked ip := (writable.whole.ilock locks).byteFile used valid (.inl isFile)
  have size_eq : (locked.icache ip).size =
      (journal.kernel.fs.inodes (journal.kernel.fs.icache ip).inum).size := by rw [node_eq]
  have length_eq : (src.take writeChunk).length = min writeChunk src.length := length_take
  have chunk : writeChunk = 6656 := rfl
  have refused_iff := refused_iff (n := (src.take writeChunk).length) (size_eq ▸ writable.inside)
  have stored := writable.whole.stored writable.sound writable.isFile writable.inside
    locks ((Logged.projects_writei ..).runs writes) unlocks
  rw [← length_eq]
  by_cases large : maxfile * bsize < (journal.kernel.ftable f).off + (src.take writeChunk).length
  · left
    obtain ⟨rfl, same⟩ := Logged.runs_writei_of_refused file.notDev (refused_iff.mpr large) writes
    obtain ⟨rfl, rfl⟩ := Logged.mk.inj same
    rcases ended with ⟨-, rfl⟩ | ⟨absurd, -⟩
    · exact ⟨large, rfl⟩
    · cases absurd
  right
  rw [if_neg large] at stored
  obtain ⟨rfl, stored⟩ := stored
  rcases ended with ⟨absurd, -⟩ | ⟨-, ran⟩
  · cases absurd
  refine ⟨Nat.not_lt.mp large, _, ?_, ran⟩
  have some' : 0 < (src.take writeChunk).length := by
    have positive : 0 < src.length := length_pos_iff.mpr some
    omega
  have accepted := fun refused => large (refused_iff.mp refused)
  obtain ⟨missing, card⟩ := Logged.demand_of_writei file (sb_eq ▸ writable.oneMap) some' accepted
    rfl writes
  have volume_unlocked : unlocked.volume = fs.volume := by
    obtain ⟨-, -, rfl⟩ := runs_iunlock.mp unlocks
    rfl
  rw [inum_eq, volume_eq] at missing
  rw [inum_eq, volume_eq, size_eq] at card
  obtain ⟨addrs, node⟩ := stored.node
  have off_eq : ((journal.kernel.ftable f).off + (src.take writeChunk).length) % 2 ^ 32 =
      (journal.kernel.ftable f).off + (src.take writeChunk).length := by
    have maxfile_eq : maxfile * bsize = 71680 := rfl
    omega
  have target_off : ((journal.finish f (.some (src.take writeChunk).length) unlocked
      log).kernel.ftable f).off =
      (journal.kernel.ftable f).off + (src.take writeChunk).length := by
    simp only [finish, Kernel.setFile, Function.update_self]
    exact off_eq
  refine ⟨⟨stored.sound, stored.whole, ?_, ?_, ?_⟩, target_off, stored.inum, ?_, ?_, log, rfl, card⟩
  · exact stored.sb ▸ writable.oneMap
  · change (unlocked.inodes (unlocked.icache ip).inum).type = .file
    rw [stored.inum, node]
    exact writable.isFile
  · rw [target_off]
    change _ ≤ (unlocked.inodes (unlocked.icache ip).inum).size
    rw [stored.inum, node]
    exact Nat.le_max_right ..
  · exact congrArg Dinode.size node
  · intro bn
    rw [← missing, ← volume_unlocked]
    rfl

/-- The first section of a call. -/
theorem sectionFits_zero (volume : Volume) (inum : Nat) (positive : 0 < n)
    (within : off + min writeChunk n ≤ maxfile * bsize) :
    SectionFits volume inum off n 0 ↔
      demand (fun bn => volume.blockOf inum bn = 0) (volume.nodes inum).size off
        (min writeChunk n) ≤ maxopblocks := by
  have same : ∀ bn, MissingAt volume inum off 0 bn ↔ volume.blockOf inum bn = 0 := by
    simp [MissingAt, blocksFor]
  unfold SectionFits
  simp only [Nat.zero_mul, Nat.add_zero, Nat.sub_zero, positive, within, true_imp_iff,
    demand_congr same Iff.rfl]

/-- The later sections are those of a call that starts after the first one. -/
theorem Wrote.sectionFits_succ {next : Journal} (wrote : Wrote f ip (min writeChunk n) journal next)
    (i : Nat) :
    SectionFits next.kernel.fs.volume (next.kernel.fs.icache ip).inum (next.kernel.ftable f).off
        (n - writeChunk) i ↔
      SectionFits journal.kernel.fs.volume (journal.kernel.fs.icache ip).inum
        (journal.kernel.ftable f).off n (i + 1) := by
  have next_mul : (i + 1) * writeChunk = i * writeChunk + writeChunk := Nat.succ_mul ..
  unfold SectionFits
  by_cases last : n ≤ writeChunk
  · constructor <;> omega
  have full : min writeChunk n = writeChunk := by omega
  rw [full] at wrote
  have remaining : n - writeChunk - i * writeChunk = n - (i + 1) * writeChunk := by omega
  have start : (next.kernel.ftable f).off + i * writeChunk =
      (journal.kernel.ftable f).off + (i + 1) * writeChunk := by
    rw [wrote.off]
    omega
  have same bn : MissingAt next.kernel.fs.volume (next.kernel.fs.icache ip).inum
      (next.kernel.ftable f).off i bn ↔ MissingAt journal.kernel.fs.volume
      (journal.kernel.fs.icache ip).inum (journal.kernel.ftable f).off (i + 1) bn := by
    rw [MissingAt, MissingAt, wrote.inum, wrote.missing, wrote.off, next_mul,
      Nat.add_comm (i * writeChunk), mem_blocksFor_append, not_or, and_assoc]
  have started : i * writeChunk < n - writeChunk ↔ (i + 1) * writeChunk < n := by omega
  rw [remaining, start, started]
  rw [demand_congr same ?_]
  have size : (next.kernel.fs.volume.nodes (next.kernel.fs.icache ip).inum).size =
      max (journal.kernel.fs.volume.nodes (journal.kernel.fs.icache ip).inum).size
        ((journal.kernel.ftable f).off + writeChunk) := by
    rw [wrote.inum]
    exact wrote.size
  have chunk : writeChunk = 6656 := rfl
  omega

/-- The sections of the loop stay within the reservation if and only if the blocks of each
of them fit. -/
theorem sections_fit (writable : Writable journal.kernel f ip)
    (ran : Runs (writeChunks f ip turns src) journal ok target) :
    (∀ log ∈ target.sections, log.toFinset.card ≤ maxopblocks) ↔
      (∀ log ∈ journal.sections, log.toFinset.card ≤ maxopblocks) ∧
        ∀ i < turns, SectionFits journal.kernel.fs.volume (journal.kernel.fs.icache ip).inum
          (journal.kernel.ftable f).off src.length i := by
  induction turns generalizing journal src with
  | zero =>
    obtain ⟨-, rfl⟩ := runs_pure.mp ran
    simp
  | succ turns ih =>
    by_cases some : src = []
    · subst some
      obtain ⟨-, rfl⟩ := runs_pure.mp ran
      simp [SectionFits]
    have positive : 0 < src.length := length_pos_iff.mpr some
    rcases turn_cases writable some ran with ⟨large, sections_eq⟩ | ⟨within, next, wrote, ran⟩
    · -- nothing is logged, and the later sections would be refused as well
      have none i : SectionFits journal.kernel.fs.volume (journal.kernel.fs.icache ip).inum
          (journal.kernel.ftable f).off src.length i := by
        intro started fits
        omega
      rw [sections_eq]
      simp [none, or_imp, forall_and]
    · obtain ⟨log, sections_eq, card⟩ := wrote.sections
      have first := sectionFits_zero journal.kernel.fs.volume
        (journal.kernel.fs.icache ip).inum positive within
      have fits_iff : log.toFinset.card ≤ maxopblocks ↔ SectionFits journal.kernel.fs.volume
          (journal.kernel.fs.icache ip).inum (journal.kernel.ftable f).off src.length 0 := by
        rw [first, card]
        rfl
      rw [ih wrote.writable ran, sections_eq, length_drop, Nat.forall_lt_succ_left,
        ← fits_iff, forall_mem_append, forall_mem_singleton, and_assoc]
      simp only [wrote.sectionFits_succ]

/-- The sections that the loop of `filewrite` executes stay within the reservation of
`begin_op` if and only if, counted before the call, the blocks of each of them fit. -/
theorem sections_within_reservation {kernel : Kernel} (writable : Writable kernel f ip)
    (ran : Runs (writeChunks f ip turns src) ⟨kernel, [], []⟩ ok target) :
    (∀ log ∈ target.sections, log.toFinset.card ≤ maxopblocks) ↔
      ∀ i < turns, SectionFits kernel.fs.volume (kernel.fs.icache ip).inum (kernel.ftable f).off
        src.length i := by
  rw [sections_fit writable ran]
  simp

/-! ## A new file -/

/-- The sections of a write to the new file, by the number of different blocks they log. -/
def sectionSizes (count : Nat) (kernel : Kernel) : Option (List Nat) :=
  match writeChunks firstFile 1 count (List.replicate count 0) ⟨kernel, [], []⟩ with
  | .ok (_, target) => some (target.sections.map fun log => log.toFinset.card)
  | .error _ => none

theorem exists_of_sectionSizes {count : Nat} {kernel : Kernel} {counts : List Nat}
    (sizes : sectionSizes count kernel = some counts) :
    ∃ ok target,
      Runs (writeChunks firstFile 1 count (replicate count 0)) ⟨kernel, [], []⟩ ok target ∧
        target.sections.map (fun log => log.toFinset.card) = counts := by
  unfold sectionSizes at sizes
  split at sizes
  · rename_i ok target ended
    exact ⟨ok, target, ended, Option.some.inj sizes⟩
  · cases sizes

/-- The new file can be written to. -/
theorem writable_createFile {kernel : Kernel}
    (execution : run step (boot emptyImage) createFile = some kernel)
    (oneMap : kernel.fs.sb.size ≤ bitsPerBlock) : Writable kernel firstFile 1 := by
  obtain ⟨writing, off, -⟩ := writing_createFile execution
  exact ⟨writing.sound, writing.whole, oneMap, writing.isFile, off.trans_le (Nat.zero_le _)⟩

/-- A write of 4097 bytes to a new file logs nine data blocks, the free map and the inode in
one section. -/
theorem section_beyond_reservation :
    ∃ kernel ok target, run step (boot emptyImage) createFile = some kernel ∧
      Writable kernel firstFile 1 ∧
      Runs (writeChunks firstFile 1 4097 (List.replicate 4097 0)) ⟨kernel, [], []⟩ ok target ∧
      ∃ log ∈ target.sections, maxopblocks < log.toFinset.card := by
  obtain ⟨kernel, execution, oneMap, sizes⟩ : ∃ kernel ∈ run step (boot emptyImage) createFile,
      kernel.fs.sb.size ≤ bitsPerBlock ∧ sectionSizes 4097 kernel = some [11] := by
    decide +kernel
  obtain ⟨ok, target, ran, counts⟩ := exists_of_sectionSizes sizes
  obtain ⟨log, logged, card⟩ : ∃ log ∈ target.sections, log.toFinset.card = 11 :=
    List.mem_map.mp (counts ▸ List.mem_singleton_self 11)
  exact ⟨kernel, ok, target, execution, writable_createFile execution oneMap, ran, log,
    logged, by rw [card]; decide⟩

/-- A write of one block to a new file logs three blocks. -/
theorem sections_within_reservation_oneBlock :
    ∃ kernel ok target, Writable kernel firstFile 1 ∧
      Runs (writeChunks firstFile 1 512 (List.replicate 512 0)) ⟨kernel, [], []⟩ ok target ∧
      (∀ log ∈ target.sections, log.toFinset.card ≤ maxopblocks) ∧
      ∀ i < 512, SectionFits kernel.fs.volume (kernel.fs.icache 1).inum
        (kernel.ftable firstFile).off 512 i := by
  obtain ⟨kernel, execution, oneMap, sizes⟩ : ∃ kernel ∈ run step (boot emptyImage) createFile,
      kernel.fs.sb.size ≤ bitsPerBlock ∧ sectionSizes 512 kernel = some [3] := by
    decide +kernel
  obtain ⟨ok, target, ran, counts⟩ := exists_of_sectionSizes sizes
  have writable := writable_createFile execution oneMap
  have within log (logged : log ∈ target.sections) : log.toFinset.card ≤ maxopblocks := by
    have member : log.toFinset.card ∈ [3] := counts ▸ List.mem_map_of_mem logged
    rw [List.mem_singleton.mp member]
    decide
  have fits := (sections_within_reservation writable ran).mp within
  rw [List.length_replicate] at fits
  exact ⟨kernel, ok, target, writable, ran, within, fits⟩

end Journal

end Xv6.FileSystem
