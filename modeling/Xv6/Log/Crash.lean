import Xv6.Log.Core

/-!
# Crash atomicity

Between two commits the disk is settled: the header block lists nothing and the
home blocks have their contents.  Writing the header makes a transaction
pending: every logged block has its new contents in the log, and whatever its
home location holds will be overwritten.  Each write of `commit` and of
`recover_from_log` keeps the disk settled or pending, with the one exception of
the header writes, which move from one to the other.  So recovery, stopped and
started again any number of times, ends in a settled disk with the contents
that the first header write decided.
-/

namespace Xv6.Log

open Xv6.Redo List

/-- A transaction as `log_write` collects it: distinct blocks outside of the log,
no more than the log can hold. -/
structure Transaction (log : Area) (header : Header) : Prop where
  room : header.block.length + 1 ≤ log.size
  distinct : header.block.Nodup
  home : ∀ blockno ∈ header.block, ¬log.Contains blockno

/-- The disk between two commits. -/
structure Settled (log : Area) (contents disk : Disk) : Prop where
  cleared : Header.count (disk log.start) = 0
  home : ∀ blockno, ¬log.Contains blockno → disk blockno = contents blockno

namespace Area

/-- The home and the log location of every logged block. -/
def pairs (log : Area) (header : Header) : List (Blockno × Blockno) :=
  header.block.zipIdx.map fun entry => (entry.1, log.logBlock entry.2)

section

variable (log : Area)

section

variable (header : Header)

theorem pairs_map_fst :
    (log.pairs header).map Prod.fst = header.block := by
  simp [pairs, Function.comp_def]

theorem pairs_map_snd :
    (log.pairs header).map Prod.snd = (range header.block.length).map log.logBlock := by
  have indices : header.block.zipIdx.map Prod.snd = range header.block.length := by
    rw [zipIdx_map_snd, range_eq_range']
  rw [← indices, pairs, map_map, map_map]
  rfl

theorem writeLog_eq (dev : Dev) :
    log.writeLog header dev =
      (log.pairs header).foldl (fun dev pair => dev.copy pair.1 pair.2) dev := by
  rw [pairs, foldl_map]
  rfl

theorem installTrans_eq (dev : Dev) :
    log.installTrans header dev =
      ((log.pairs header).map Prod.swap).foldl (fun dev pair => dev.copy pair.1 pair.2) dev := by
  rw [pairs, map_map, foldl_map]
  rfl

end

/-- The log is smaller than the range of block numbers, so it does not wrap onto
itself. -/
theorem offset_injective {first second : Nat} (firstBound : first ≤ log.size)
    (secondBound : second ≤ log.size)
    (same : log.start + BitVec.ofNat 32 first = log.start + BitVec.ofNat 32 second) :
    first = second := by
  have representable := log.representable
  have offsets := congrArg BitVec.toNat ((BitVec.add_right_inj _).mp same)
  simp only [BitVec.toNat_ofNat] at offsets
  omega

end

end Area

namespace Transaction

variable {log : Area} {header : Header} (transaction : Transaction log header)

include transaction

/-- The log location of a block lies in the log, behind the header block. -/
theorem mem_pairs {pair : Blockno × Blockno} (member : pair ∈ log.pairs header) :
    pair.1 ∈ header.block ∧ log.Contains pair.2 ∧ pair.2 ≠ log.start := by
  obtain ⟨⟨blockno, tail⟩, entry, rfl⟩ := mem_map.mp member
  obtain ⟨bound, -⟩ := mem_zipIdx' entry
  have room := transaction.room
  refine ⟨fst_mem_of_mem_zipIdx entry, ⟨tail + 1, by omega, rfl⟩, fun same => ?_⟩
  have zero : log.start + BitVec.ofNat 32 (tail + 1) = log.start + BitVec.ofNat 32 0 := by
    simpa [Area.logBlock] using same
  exact absurd (log.offset_injective (by omega) (by omega) zero) (by omega)

theorem nodup_logged : ((log.pairs header).map Prod.snd).Nodup := by
  have room := transaction.room
  rw [log.pairs_map_snd]
  refine Nodup.map_on (fun first firstMember second secondMember same => ?_) nodup_range
  rw [mem_range] at firstMember secondMember
  have := log.offset_injective (by omega) (by omega) same
  omega

/-- Home locations and log locations are different blocks. -/
theorem disjoint {pair other : Blockno × Blockno} (member : pair ∈ log.pairs header)
    (otherMember : other ∈ log.pairs header) : pair.1 ≠ other.2 := by
  intro same
  apply transaction.home pair.1 (transaction.mem_pairs member).1
  rw [same]
  exact (transaction.mem_pairs otherMember).2.1

end Transaction

/-! ## Pending transactions -/

/-- The disk after the header has been written: the log holds the new contents
of every listed block. -/
structure Pending (log : Area) (header : Header) (contents disk : Disk) : Prop where
  listed : Header.read (disk log.start) = some header
  logged : ∀ pair ∈ log.pairs header, disk pair.2 = contents pair.1
  home : ∀ blockno, ¬log.Contains blockno → blockno ∉ header.block →
    disk blockno = contents blockno

/-- The contents of the home blocks once the transaction is installed. -/
def installed (header : Header) (cached : Blockno → Block) (disk : Disk) : Disk :=
  fun blockno => if blockno ∈ header.block then cached blockno else disk blockno

/-- The writes of `install_trans`. -/
def Area.installWrites (log : Area) (header : Header) (contents : Disk) :
    List (Blockno × Block) :=
  (log.pairs header).map fun pair => (pair.1, contents pair.1)

/-- The write of `write_head` with `n = 0` over a header block. -/
def Area.clearWrite (log : Area) (data : Block) : Blockno × Block :=
  (log.start, Header.empty.overlay data)

section Writes

variable {log : Area} {header : Header} {contents disk : Disk}

theorem Area.installWrites_map_fst (log : Area) (header : Header) (contents : Disk) :
    (log.installWrites header contents).map Prod.fst = header.block := by
  rw [← log.pairs_map_fst header, installWrites, map_map]
  rfl

/-- Clearing the header of a disk with the right home blocks settles it. -/
theorem settled_of_clear (room : 1 ≤ log.size) (data : Block)
    (home : ∀ blockno, ¬log.Contains blockno → disk blockno = contents blockno) :
    Settled log contents (write disk (log.clearWrite data)) := by
  constructor
  · rw [Area.clearWrite, write_self]
    exact Header.count_empty_overlay data
  · intro blockno outside
    have ne : blockno ≠ log.start := by
      rintro rfl
      exact outside ⟨0, room, by simp⟩
    rw [write_of_ne disk ne]
    exact home blockno outside

variable (transaction : Transaction log header)

include transaction

/-- The writes of `write_log` leave a settled disk settled. -/
theorem Settled.writeLog (settled : Settled log contents disk) (cached : Blockno → Block) :
    Throughout (Settled log contents) disk (Dev.copyWrites cached (log.pairs header)) := by
  refine .of_preserved settled fun current entry member before => ?_
  obtain ⟨pair, pairMember, rfl⟩ := mem_map.mp member
  obtain ⟨-, inside, ne⟩ := transaction.mem_pairs pairMember
  constructor
  · rw [write_of_ne current ne.symm]
    exact before.cleared
  · intro blockno outside
    have different : blockno ≠ pair.2 := by
      rintro rfl
      exact outside inside
    rw [write_of_ne current different]
    exact before.home blockno outside

/-- Writing the header commits the transaction. -/
theorem Settled.commits (settled : Settled log contents disk) (cached : Blockno → Block)
    (data : Block) :
    Pending log header (installed header cached contents)
      (write (replay disk (Dev.copyWrites cached (log.pairs header)))
        (log.start, header.overlay data)) := by
  have written : (Dev.copyWrites cached (log.pairs header)).map Prod.fst =
      (log.pairs header).map Prod.snd := by
    rw [Dev.copyWrites, map_map]
    rfl
  constructor
  · rw [write_self]
    exact header.read_overlay data
  · intro pair member
    obtain ⟨isHome, -, ne⟩ := transaction.mem_pairs member
    have stored : (pair.2, cached pair.1) ∈ Dev.copyWrites cached (log.pairs header) :=
      mem_map.mpr ⟨pair, member, rfl⟩
    rw [write_of_ne _ ne, replay_of_mem disk (written ▸ transaction.nodup_logged) stored,
      installed, if_pos isHome]
  · intro blockno outside other
    have ne : blockno ≠ log.start := by
      rintro rfl
      exact outside ⟨0, by have := transaction.room; omega, by simp⟩
    have absent : blockno ∉ (Dev.copyWrites cached (log.pairs header)).map Prod.fst := by
      rw [written]
      intro member
      obtain ⟨pair, pairMember, rfl⟩ := mem_map.mp member
      exact outside (transaction.mem_pairs pairMember).2.1
    rw [write_of_ne _ ne, replay_of_not_mem disk absent, installed, if_neg other]
    exact settled.home blockno outside

section

variable (pending : Pending log header contents disk)

include pending

/-- Installing keeps the transaction pending at every write. -/
theorem Pending.installs :
    Throughout (Pending log header contents) disk (log.installWrites header contents) := by
  refine .of_preserved pending fun current entry member before => ?_
  obtain ⟨installed, installedMember, rfl⟩ := mem_map.mp member
  have isHome := (transaction.mem_pairs installedMember).1
  constructor
  · rw [write_of_ne current]
    · exact before.listed
    · rintro same
      apply transaction.home _ isHome
      rw [← same]
      exact ⟨0, by have := transaction.room; omega, by simp⟩
  · intro pair pairMember
    rw [write_of_ne current (transaction.disjoint installedMember pairMember).symm]
    exact before.logged pair pairMember
  · intro blockno outside other
    have different : blockno ≠ installed.1 := by
      rintro rfl
      exact other isHome
    rw [write_of_ne current different]
    exact before.home blockno outside other

/-- Once everything is installed and the header cleared, the disk is settled. -/
theorem Pending.settles (data : Block) :
    Settled log contents
      (write (replay disk (log.installWrites header contents)) (log.clearWrite data)) := by
  apply settled_of_clear (by have := transaction.room; omega) data
  intro blockno outside
  by_cases isHome : blockno ∈ header.block
  · have installed : (blockno, contents blockno) ∈ log.installWrites header contents := by
      rw [← log.pairs_map_fst header] at isHome
      obtain ⟨pair, member, rfl⟩ := mem_map.mp isHome
      exact mem_map.mpr ⟨pair, member, rfl⟩
    refine replay_of_mem disk ?_ installed
    rw [log.installWrites_map_fst]
    exact transaction.distinct
  · rw [replay_of_not_mem disk (by rwa [log.installWrites_map_fst])]
    exact pending.home blockno outside isHome

/-- The writes that complete a pending transaction. -/
theorem Pending.completes (data : Block) :
    Throughout (fun disk => Pending log header contents disk ∨ Settled log contents disk) disk
        (log.installWrites header contents ++ [log.clearWrite data]) ∧
      Settled log contents
        (replay disk (log.installWrites header contents ++ [log.clearWrite data])) := by
  have installs := pending.installs transaction
  have settles := pending.settles transaction data
  have installed := installs.take (log.installWrites header contents).length
  rw [take_length] at installed
  refine ⟨.append (installs.mono fun _ => .inl) ⟨.inl installed, .inr settles⟩, ?_⟩
  rw [replay_append]
  exact settles

end

end Writes

/-! ## The writes of the procedures -/

section Procedures

variable {log : Area} {header : Header} {contents disk : Disk}

theorem performs_writeHead (log : Area) (header : Header) (dev : Dev) :
    dev.Performs [(log.start, header.overlay (dev.bread log.start))] (log.writeHead header dev) :=
  dev.performs_overwrite log.start _

section

variable (transaction : Transaction log header)

include transaction

theorem performs_writeLog (dev : Dev) :
    dev.Performs (Dev.copyWrites dev.bread (log.pairs header)) (log.writeLog header dev) := by
  rw [log.writeLog_eq]
  exact dev.performs_copies fun pair member other otherMember =>
    transaction.disjoint member otherMember

theorem performs_installTrans (dev : Dev)
    (logged : ∀ pair ∈ log.pairs header, dev.bread pair.2 = contents pair.1) :
    dev.Performs (log.installWrites header contents) (log.installTrans header dev) := by
  have writes_eq : Dev.copyWrites dev.bread ((log.pairs header).map Prod.swap) =
      log.installWrites header contents := by
    rw [Dev.copyWrites, map_map]
    apply map_congr_left
    intro pair member
    simp [logged pair member]
  rw [log.installTrans_eq, ← writes_eq]
  apply dev.performs_copies
  intro swapped member other otherMember
  obtain ⟨pair, pairMember, rfl⟩ := mem_map.mp member
  obtain ⟨pair', pairMember', rfl⟩ := mem_map.mp otherMember
  exact (transaction.disjoint pairMember' pairMember).symm

/-- The writes of `commit`. -/
theorem commit_written (nonempty : 0 < header.block.length) (dev : Dev) (disk : Disk) :
    ∃ headData clearData, (log.commit header dev).written = dev.written ++
      (Dev.copyWrites dev.bread (log.pairs header) ++
        (log.start, header.overlay headData) ::
          (log.installWrites header (installed header dev.bread disk) ++
            [log.clearWrite clearData])) := by
  have logs := performs_writeLog transaction dev
  have commits := logs.trans (performs_writeHead log header _)
  have logged pair (member : pair ∈ log.pairs header) :
      (log.writeHead header (log.writeLog header dev)).bread pair.2 =
      installed header dev.bread disk pair.1 := by
    obtain ⟨isHome, -, ne⟩ := transaction.mem_pairs member
    have stored : (pair.2, dev.bread pair.1) ∈ Dev.copyWrites dev.bread (log.pairs header) :=
      mem_map.mpr ⟨pair, member, rfl⟩
    have nodup : ((Dev.copyWrites dev.bread (log.pairs header)).map Prod.fst).Nodup := by
      rw [Dev.copyWrites, map_map]
      exact transaction.nodup_logged
    rw [commits.bread, replay_append, replay_cons, replay_nil, write_of_ne _ ne,
      replay_of_mem _ nodup stored, installed, if_pos isHome]
  have whole := (commits.trans (performs_installTrans transaction _ logged)).trans
    (performs_writeHead log .empty _)
  have written_eq := whole.written
  simp only [append_assoc] at written_eq
  rw [Area.commit, if_pos nonempty]
  exact ⟨_, _, written_eq⟩

end

/-- The writes of `recover_from_log` after a restart, which finds no buffer in
the cache. -/
def Area.recovery (log : Area) (disk : Disk) : Option (List (Blockno × Block)) :=
  (log.recoverFromLog (.opened disk fun _ => none)).map Dev.written

/-- Recovery of a settled disk clears the header once more. -/
theorem Settled.recovery (room : 1 ≤ log.size) (settled : Settled log contents disk) :
    ∃ writes, log.recovery disk = some writes ∧ Throughout (Settled log contents) disk writes ∧
      Settled log contents (replay disk writes) := by
  have settles := settled_of_clear room (disk log.start) settled.home
  refine ⟨[log.clearWrite (disk log.start)], ?_, ⟨settled, settles⟩, settles⟩
  have read_eq : log.readHead (.opened disk fun _ => none) = some .empty :=
    Header.read_of_count_eq_zero settled.cleared
  have performs := performs_writeHead log .empty (.opened disk fun _ => none)
  simp only [Area.recovery, Area.recoverFromLog, read_eq]
  exact congrArg some performs.written

/-- Recovery of a pending transaction installs it. -/
theorem Pending.recovery (transaction : Transaction log header)
    (pending : Pending log header contents disk) :
    ∃ writes, log.recovery disk = some writes ∧
      Throughout (fun disk => Pending log header contents disk ∨ Settled log contents disk) disk
        writes ∧
      Settled log contents (replay disk writes) := by
  have read_eq : log.readHead (.opened disk fun _ => none) = some header := pending.listed
  have performs := (performs_installTrans transaction (.opened disk fun _ => none)
    pending.logged).trans (performs_writeHead log .empty _)
  obtain ⟨throughout, settles⟩ := pending.completes transaction
    ((log.installTrans header (.opened disk fun _ => none)).bread log.start)
  refine ⟨_, ?_, throughout, settles⟩
  simp only [Area.recovery, Area.recoverFromLog, read_eq]
  exact congrArg some performs.written

/-- However often it is stopped, recovery settles a disk with a transaction that
is pending or has been installed. -/
theorem restart_of_pending_or_settled (transaction : Transaction log header) (crashes : List Nat)
    (state : Pending log header contents disk ∨ Settled log contents disk) :
    ∃ final, restart log.recovery crashes disk = some final ∧ Settled log contents final := by
  refine restart_of_throughout
    (fun disk => Pending log header contents disk ∨ Settled log contents disk)
    (Settled log contents) (fun disk state => ?_) crashes state
  rcases state with pending | settled
  · exact pending.recovery transaction
  · obtain ⟨writes, writes_eq, throughout, settles⟩ :=
      settled.recovery (by have := transaction.room; omega)
    exact ⟨writes, writes_eq, throughout.mono fun _ => .inr, settles⟩

end Procedures

/-! ## The theorem -/

/-- The disk at the end of recovery, after a crash that kept the given writes of
the commit. -/
structure CrashAtomic (log : Area) (header : Header) (disk : Disk) (cached : Blockno → Block)
    (kept : List (Blockno × Block)) (final : Disk) : Prop where
  atomic : (∀ blockno ∈ header.block, final blockno = disk blockno) ∨
    ∀ blockno ∈ header.block, final blockno = cached blockno
  durable : log.start ∈ kept.map Prod.fst →
    ∀ blockno ∈ header.block, final blockno = cached blockno
  others : ∀ blockno, ¬log.Contains blockno → blockno ∉ header.block →
    final blockno = disk blockno
  cleared : Header.count (final log.start) = 0

section Theorem

variable {log : Area} {header : Header} {disk final : Disk} {cached : Blockno → Block}
  {kept : List (Blockno × Block)}

theorem CrashAtomic.of_settled_before (transaction : Transaction log header)
    (settled : Settled log disk final) (uncommitted : log.start ∉ kept.map Prod.fst) :
    CrashAtomic log header disk cached kept final where
  atomic := .inl fun blockno isHome => settled.home blockno (transaction.home blockno isHome)
  durable committed := absurd committed uncommitted
  others blockno outside _ := settled.home blockno outside
  cleared := settled.cleared

theorem CrashAtomic.of_settled_after (transaction : Transaction log header)
    (settled : Settled log (installed header cached disk) final) :
    CrashAtomic log header disk cached kept final := by
  have committed blockno (isHome : blockno ∈ header.block) : final blockno = cached blockno := by
    rw [settled.home blockno (transaction.home blockno isHome), installed, if_pos isHome]
  refine ⟨.inr committed, fun _ => committed, fun blockno outside other => ?_, settled.cleared⟩
  rw [settled.home blockno outside, installed, if_neg other]

/-- What a commit writes: the blocks to the log, the header, the blocks to their home
locations and a header without entries. -/
structure Commits (log : Area) (header : Header) (disk : Disk) (cached : Blockno → Block)
    (written : List (Blockno × Block)) : Prop where
  sequence : ∃ headData clearData, written =
    Dev.copyWrites cached (log.pairs header) ++ (log.start, header.overlay headData) ::
      (log.installWrites header (installed header cached disk) ++ [log.clearWrite clearData])
  decided : log.start ∈ written.map Prod.fst
  home : ∀ blockno ∈ header.block, replay disk written blockno = cached blockno

theorem commits_of_commit (transaction : Transaction log header)
    (settled : Settled log disk disk) (nonempty : 0 < header.block.length)
    (cache : Blockno → Option Block) :
    Commits log header disk (Dev.opened disk cache).bread
      (log.commit header (.opened disk cache)).written := by
  obtain ⟨headData, clearData, written_eq⟩ :=
    commit_written transaction nonempty (.opened disk cache) disk
  rw [written_eq, show (Dev.opened disk cache).written = [] from rfl, List.nil_append]
  have pending := settled.commits transaction (Dev.opened disk cache).bread headData
  refine ⟨⟨headData, clearData, rfl⟩, by simp, fun blockno isHome => ?_⟩
  rw [replay_append, replay_cons, (pending.completes transaction clearData).2.home blockno
    (transaction.home blockno isHome), installed, if_pos isHome]

/-- A commit makes its writes and leaves every block at home.  If it is cut off after any
number of writes, and the recovery after it any number of times, it is atomic. -/
theorem crashAtomic_of_commit (transaction : Transaction log header)
    (clean : Header.count (disk log.start) = 0) (cache : Blockno → Option Block) :
    (0 < header.block.length → Commits log header disk (Dev.opened disk cache).bread
      (log.commit header (.opened disk cache)).written) ∧
    ∀ count crashes, ∃ final, restart log.recovery crashes (replay disk
        ((log.commit header (.opened disk cache)).written.take count)) = some final ∧
      CrashAtomic log header disk (Dev.opened disk cache).bread
        ((log.commit header (.opened disk cache)).written.take count) final := by
  have settled : Settled log disk disk := ⟨clean, fun _ _ => rfl⟩
  refine ⟨fun nonempty => commits_of_commit transaction settled nonempty cache,
    fun count crashes => ?_⟩
  rcases Nat.eq_zero_or_pos header.block.length with none | nonempty
  · have untouched : (log.commit header (.opened disk cache)).written = [] := by
      rw [Area.commit, if_neg (by omega)]
      rfl
    rw [untouched, List.take_nil, replay_nil]
    obtain ⟨final, final_eq, settles⟩ :=
      restart_of_pending_or_settled transaction crashes (.inr settled)
    exact ⟨final, final_eq, .of_settled_before transaction settles (by simp)⟩
  · obtain ⟨headData, clearData, written_eq⟩ :=
      (commits_of_commit transaction settled nonempty cache).sequence
    rw [written_eq]
    generalize copied_eq : Dev.copyWrites (Dev.opened disk cache).bread (log.pairs header) = copied
    have logs := settled.writeLog transaction (Dev.opened disk cache).bread
    have pending := settled.commits transaction (Dev.opened disk cache).bread headData
    rw [copied_eq] at logs pending
    rcases Nat.lt_or_ge copied.length count with late | early
    · -- The header has been written, and recovery completes the transaction.
      obtain ⟨later, rfl⟩ : ∃ later, count = copied.length + (later + 1) :=
        ⟨count - copied.length - 1, by omega⟩
      rw [List.take_length_add_append, List.take_succ_cons, replay_append, replay_cons]
      have state := (pending.completes transaction clearData).1.take later
      obtain ⟨final, final_eq, settles⟩ := restart_of_pending_or_settled transaction crashes state
      exact ⟨final, final_eq, .of_settled_after transaction settles⟩
    · -- The header has not been written, so the transaction is lost as a whole.
      rw [List.take_append_of_le_length early]
      obtain ⟨final, final_eq, settles⟩ :=
        restart_of_pending_or_settled transaction crashes (.inr (logs.take count))
      refine ⟨final, final_eq, .of_settled_before transaction settles fun member => ?_⟩
      obtain ⟨entry, entryMember, entry_eq⟩ := List.mem_map.mp member
      rw [← copied_eq] at entryMember
      obtain ⟨pair, pairMember, rfl⟩ := List.mem_map.mp (List.mem_of_mem_take entryMember)
      exact (transaction.mem_pairs pairMember).2.2 entry_eq

end Theorem

/-- A transaction over two data blocks. -/
def twoBlocks : Header := ⟨[100, 101], by decide⟩

/-- An empty image, with buffers full of ones. -/
def onesDev : Dev := .opened (fun _ _ => 0) fun _ => some fun _ => 1

theorem crashAtomic_twoBlocks :
    Transaction .mkfs twoBlocks ∧
      Commits .mkfs twoBlocks (fun _ _ => 0) onesDev.bread
        (Area.mkfs.commit twoBlocks onesDev).written ∧
      ∃ final, restart Area.mkfs.recovery [1, 0] (replay (fun _ _ => 0)
          ((Area.mkfs.commit twoBlocks onesDev).written.take 3)) = some final ∧
        CrashAtomic .mkfs twoBlocks (fun _ _ => 0) onesDev.bread
          ((Area.mkfs.commit twoBlocks onesDev).written.take 3) final := by
  have transaction : Transaction .mkfs twoBlocks := by
    refine ⟨by decide, by decide, fun blockno member => ?_⟩
    rcases List.mem_pair.mp member with rfl | rfl <;> decide
  obtain ⟨commits, atomic⟩ := @crashAtomic_of_commit .mkfs twoBlocks (fun _ _ => 0) transaction
    (by decide) fun _ => some fun _ => 1
  exact ⟨transaction, commits (by decide), atomic 3 [1, 0]⟩

end Xv6.Log
