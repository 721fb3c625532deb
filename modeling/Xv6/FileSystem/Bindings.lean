import Xv6.FileSystem.Directory
import Xv6.FileSystem.Integrity
import Xv6.Transition.Core

/-!
# Directories as finite maps

A directory that is changed only by `dirlink` and by clearing entries never has two used
entries with the same name, so it is a finite map from names, cut to `DIRSIZ` bytes, to
inode numbers.  `dirlookup` looks a name up in that map, and `dirlink` adds a binding to
it.
-/

namespace Xv6.FileSystem

open Xv6.Transition List Option Fs Nat Dirent
open Prog Volume

variable {fs target : Fs} {dp ip : Islot} {name : List Byte} {entries : List Dirent} {inum : Nat}

/-! ## The map -/

/-- No two used entries have the same name. -/
def Distinct (entries : List Dirent) : Prop :=
  ∀ first second, (slot entries first).inum ≠ 0 → (slot entries second).inum ≠ 0 →
    SameName (slot entries first).name (slot entries second).name → first = second

/-- What a name is bound to: the inode number, and the offset of the entry. -/
def binding (entries : List Dirent) (name : List Byte) : Option (Nat × Nat) :=
  (findName entries name).map fun index => ((slot entries index).inum, direntSize * index)

variable {index : Nat}

theorem findName_eq_some_iff (distinct : Distinct entries) :
    findName entries name = some index ↔ Matches name (slot entries index) := by
  refine ⟨matches_of_findName, fun isMatch => ?_⟩
  cases found : findName entries name with
  | none => exact absurd isMatch (findName_eq_none_iff.mp found index)
  | some other =>
    have also := matches_of_findName found
    rw [distinct other index also.1 isMatch.1 (also.2.symm.trans isMatch.2)]

theorem findName_congr {others : List Dirent} (distinct : Distinct entries)
    (distinct' : Distinct others)
    (same : ∀ index, Matches name (slot others index) ↔ Matches name (slot entries index)) :
    findName others name = findName entries name := by
  refine ext fun index => ?_
  rw [findName_eq_some_iff distinct, findName_eq_some_iff distinct', same]

variable {de : Dirent}

/-- A new entry with a new name. -/
theorem Distinct.overwrite (distinct : Distinct entries) (inside : index ≤ entries.length)
    (fresh : de.inum ≠ 0 → ∀ other ≠ index, (slot entries other).inum ≠ 0 →
      ¬SameName de.name (slot entries other).name) : Distinct (overwrite entries index [de]) := by
  intro first second
  rw [slot_overwrite inside, slot_overwrite inside]
  split
  · rename_i isFirst
    split
    · rename_i isSecond
      exact fun _ _ _ => isFirst.trans isSecond.symm
    · rename_i ne
      exact fun used used' same => absurd same (fresh used second ne used')
  · rename_i ne
    split
    · exact fun used used' same => absurd same.symm (fresh used' first ne used)
    · exact distinct first second

/-- Adding an entry adds one binding. -/
theorem binding_overwrite (distinct : Distinct entries) (inside : index ≤ entries.length)
    (vacant : (slot entries index).inum = 0) (used : de.inum ≠ 0)
    (fresh : ∀ other, (slot entries other).inum ≠ 0 →
      ¬SameName de.name (slot entries other).name) (name : List Byte) :
    binding (overwrite entries index [de]) name =
      if SameName name de.name then some (de.inum, direntSize * index)
      else binding entries name := by
  have distinct' := distinct.overwrite inside fun _ other _ => fresh other
  split
  · rename_i same
    have isMatch : Matches name (slot (overwrite entries index [de]) index) := by
      rw [slot_overwrite inside, if_pos rfl]
      exact ⟨used, same⟩
    rw [binding, (findName_eq_some_iff distinct').mpr isMatch, map_some,
      slot_overwrite inside, if_pos rfl]
  · rename_i differs
    have same other : Matches name (slot (overwrite entries index [de]) other) ↔
        Matches name (slot entries other) := by
      rw [slot_overwrite inside]
      split
      · rename_i here
        rw [here]
        exact ⟨fun isMatch => absurd isMatch.2 differs, fun isMatch => absurd vacant isMatch.1⟩
      · exact Iff.rfl
    rw [binding, findName_congr distinct distinct' same]
    refine map_congr fun other found => ?_
    have isMatch := matches_of_findName found
    have ne : other ≠ index := fun here => isMatch.1 (here ▸ vacant)
    rw [slot_overwrite inside, if_neg ne]

/-! ## Inodes of entries -/

/-- The inode is not in the cache, and no slot is free for it. -/
def NoSlot (fs : Fs) (dev inum : Nat) : Prop :=
  (∀ ip, 0 < (fs.icache ip).ref → ¬((fs.icache ip).dev = dev ∧ (fs.icache ip).inum = inum)) ∧
    ∀ ip, (fs.icache ip).ref ≠ 0

variable {dev : Nat}

/-- `iget` stops only if it finds no slot. -/
theorem noSlot_of_fails {reason : FsStop} (failed : Fails (iget dev inum) fs reason) :
    reason = .panic "iget: no inodes" ∧ NoSlot fs dev inum := by
  unfold iget at failed
  simp only [fails_bind, fails_reading, runs_reading, false_or] at failed
  obtain ⟨cached, _, ⟨cached_eq, rfl⟩, failed⟩ := failed
  cases cached with
  | some found => simp [fails_bind] at failed
  | none =>
    simp only [fails_bind, fails_reading, runs_reading, false_or] at failed
    obtain ⟨empty, _, ⟨empty_eq, rfl⟩, failed⟩ := failed
    cases empty with
    | some found => simp [fails_bind] at failed
    | none =>
      rw [find?_eq_none] at cached_eq empty_eq
      refine ⟨(fails_stop.mp failed).symm, fun ip used same => ?_, fun ip unused => ?_⟩
      · exact cached_eq ip (mem_finRange ip) (decide_eq_true ⟨used, same⟩)
      · exact empty_eq ip (mem_finRange ip) (decide_eq_true unused)

/-- The file system is the same but for slots of the inode cache that are not in use. -/
structure Unchanged (fs target : Fs) : Prop where
  volume : target.volume = fs.volume
  sb : target.sb = fs.sb
  ref : ∀ ip, (target.icache ip).ref = (fs.icache ip).ref
  slots : ∀ ip, 0 < (fs.icache ip).ref → target.icache ip = fs.icache ip

/-- The slot that `iget` returns holds the inode, and the disk stays. -/
theorem volume_of_iget (got : Runs (iget dev inum) fs ip target) :
    (target.icache ip).inum = inum ∧ target.volume = fs.volume := by
  refine ⟨(inum_of_iget got).1, ?_⟩
  rcases runs_iget got with ⟨-, -, -, rfl⟩ | ⟨-, -, rfl⟩ <;> rfl

/-- Only the last reference to a valid inode without links does more than drop a reference. -/
theorem runs_iput_of_kept
    (kept : ¬((fs.icache ip).ref = 1 ∧ (fs.icache ip).valid = true ∧ (fs.icache ip).nlink = 0)) :
    Runs (iput ip) fs () (fs.setInode ip fun inode => { inode with ref := inode.ref - 1 }) := by
  unfold iput
  simp only [runs_bind, runs_reading, runs_whenever, runs_update]
  exact ⟨_, _, ⟨rfl, rfl⟩, (), fs, .inr ⟨kept, rfl⟩, rfl⟩

/-- A reference is taken and given back. -/
theorem runs_iput_of_iget {middle : Fs} (got : Runs (iget dev inum) fs ip middle) :
    ∃ target, Runs (iput ip) middle () target ∧ Unchanged fs target := by
  rcases runs_iget got with ⟨used, -, -, rfl⟩ | ⟨-, unused, rfl⟩
  · refine ⟨_, runs_iput_of_kept fun last => ?_, ?_⟩
    · have ref := last.1
      rw [icache_setInode_self] at ref
      simp only at ref
      omega
    · rw [setInode_setInode, setInode_eq_self (by simp)]
      exact ⟨rfl, rfl, fun _ => rfl, fun _ _ => rfl⟩
  · refine ⟨_, runs_iput_of_kept fun last => ?_, ?_⟩
    · have valid := last.2.1
      rw [icache_setInode_self] at valid
      cases valid
    · rw [setInode_setInode]
      refine ⟨rfl, rfl, fun other => ?_, fun other used => ?_⟩
      · by_cases same : other = ip
        · rw [same, icache_setInode_self, unused]
          rfl
        · rw [icache_setInode_of_ne same]
      · have ne : other ≠ ip := by
          rintro rfl
          omega
        exact icache_setInode_of_ne ne _

/-! ## Looking up and linking -/

/-- The only reason to stop: the inode of the entry does not get a slot. -/
def CacheFull (fs : Fs) (dp : Islot) (name : List Byte) (reason : FsStop) : Prop :=
  reason = .panic "iget: no inodes" ∧ ∃ index, Matches name (slot (fs.entries dp) index) ∧
    NoSlot fs (fs.icache dp).dev (slot (fs.entries dp) index).inum

/-- What `dirlookup` finds. -/
theorem DirFile.ensures_dirlookup (dir : DirFile fs dp) (name : List Byte) :
    Ensures (CacheFull fs dp name) (dirlookup dp name) fs fun found target =>
      (found = none ∧ target = fs ∧ findName (fs.entries dp) name = none) ∨
      ∃ ip index, found = some (ip, direntSize * index) ∧
        findName (fs.entries dp) name = some index ∧
        Runs (iget (fs.icache dp).dev (slot (fs.entries dp) index).inum) fs ip target := by
  rw [ensures_congr (dir.dirlookup_eq name)]
  cases found : findName (fs.entries dp) name with
  | none => exact .inl ⟨rfl, rfl, rfl⟩
  | some index =>
    have isMatch := matches_of_findName found
    rw [answer, ensures_bind, ensures_reading, ensures_bind, ensures_iff]
    refine ⟨fun reason failed => ?_, fun ip target got => ?_⟩
    · obtain ⟨reason_eq, full⟩ := noSlot_of_fails failed
      exact ⟨reason_eq, index, isMatch, full⟩
    · exact .inr ⟨ip, index, rfl, rfl, got⟩

/-- The directory after an entry has been written. -/
theorem DirFile.of_rewritten (dir : DirFile fs dp) (inside : index ≤ (fs.entries dp).length)
    (named : de.name.length = dirsiz)
    (rewritten : Rewritten dp (direntSize * index) de.toBytes fs target) :
    DirFile target dp ∧ target.entries dp = overwrite (fs.entries dp) index [de.stored] := by
  obtain ⟨addrs, inode_eq⟩ := rewritten.inode
  have inum_eq : (target.icache dp).inum = (fs.icache dp).inum := by rw [inode_eq]
  have entries_eq : target.entries dp = overwrite (fs.entries dp) index [de.stored] := by
    rw [entries, inum_eq, rewritten.contents]
    exact entriesOf_overwrite named (dir.length_contents ▸ dir.aligned) inside
  refine ⟨⟨rewritten.file, ?_, ?_, ?_⟩, entries_eq⟩
  · rw [inode_eq]
    exact dir.used
  · rw [inode_eq]
    exact dir.isDir
  · rw [inode_eq, length_toBytes named]
    rcases le_total (direntSize * index + direntSize) (fs.icache dp).size with inside | beyond
    · rw [max_eq_left inside]
      exact dir.aligned
    · rw [max_eq_right beyond]
      exact ⟨index + 1, (mul_succ ..).symm⟩

/-- A free block for every place that a new entry needs. -/
def HasBlocks (fs : Fs) (dp : Islot) : Prop :=
  Enough fs.sb (fs.icache dp).inum (placesFor (direntSize * vacancy (fs.entries dp)) direntSize)
    fs.volume

instance (fs : Fs) (dp : Islot) : Decidable (HasBlocks fs dp) :=
  inferInstanceAs (Decidable (Enough ..))

/-- The vacancy lies within the largest size of a directory. -/
def HasSpace (fs : Fs) (dp : Islot) : Prop :=
  direntSize * vacancy (fs.entries dp) + direntSize ≤ maxfile * bsize

instance (fs : Fs) (dp : Islot) : Decidable (HasSpace fs dp) :=
  inferInstanceAs (Decidable (_ ≤ _))

section

variable (dir : DirFile fs dp)
include dir

/-- `dirlink` of a new name, with room for the entry. -/
theorem DirFile.runs_dirlink (fresh : findName (fs.entries dp) name = none)
    (space : HasSpace fs dp) (blocks : HasBlocks fs dp) (inum : Nat) :
    ∃ target, Runs (dirlink dp name inum) fs true target ∧
      Rewritten dp (direntSize * vacancy (fs.entries dp)) (toBytes ⟨inum, padName name⟩) fs
        target := by
  have width : (toBytes ⟨inum, padName name⟩).length = direntSize :=
    length_toBytes (length_padName name)
  have inside : direntSize * vacancy (fs.entries dp) ≤ (fs.icache dp).size := by
    rw [dir.size_eq]
    exact mul_le_mul_left _ (vacancy_le _)
  have accepted : ¬Refused (fs.icache dp).size (direntSize * vacancy (fs.entries dp))
      (toBytes ⟨inum, padName name⟩).length := by
    rw [refused_iff inside, width]
    exact not_lt.mpr space
  obtain ⟨target, ran, rewritten, -⟩ := dir.file.writei_of_enough (nodup_placesFor _ direntSize)
    (fun _ above below => covers_placesFor above (width ▸ below)) accepted blocks
  refine ⟨target, ?_, rewritten⟩
  rw [Runs, dir.dirlink_eq fresh, bind_of_runs ran, width]
  rfl

/-- `dirlink` of a name that is already there. -/
theorem DirFile.ensures_dirlink_of_found
    (found : findName (fs.entries dp) name = some index) (inum : Nat) :
    Ensures (CacheFull fs dp name) (dirlink dp name inum) fs fun ok target =>
      ok = false ∧ Unchanged fs target := by
  unfold dirlink
  refine (dir.ensures_dirlookup name).bind ?_
  rintro result middle (⟨-, -, missing⟩ | ⟨ip, other, rfl, -, got⟩)
  · rw [missing] at found
    cases found
  · obtain ⟨target, put, unchanged⟩ := runs_iput_of_iget got
    rw [ensures_bind, ensures_iff_of_runs put]
    exact ⟨rfl, unchanged⟩

/-! ## The result of `dirlink` -/

/-- The slot of the directory is in use, so its entries stay. -/
theorem DirFile.of_unchanged (unchanged : Unchanged fs target) :
    DirFile target dp ∧ target.entries dp = fs.entries dp := by
  have slot_eq := unchanged.slots dp dir.used
  have volume_eq := unchanged.volume
  have inodes_eq : target.inodes = fs.inodes := congrArg Volume.nodes volume_eq
  refine ⟨⟨⟨?_, ?_, ?_, ?_⟩, ?_, ?_, ?_⟩, ?_⟩
  · rw [unchanged.sb, volume_eq]
    exact dir.file.laid
  · rw [slot_eq]
    exact dir.file.type
  · rw [slot_eq, inodes_eq]
    exact dir.file.clean
  · rw [slot_eq, volume_eq]
    exact dir.file.mapped
  · rw [slot_eq]
    exact dir.used
  · rw [slot_eq]
    exact dir.isDir
  · rw [slot_eq]
    exact dir.aligned
  · rw [entries, entries, slot_eq, volume_eq]

end

/-- The directory has an unused entry. -/
def Vacant (entries : List Dirent) : Prop :=
  ∃ index < entries.length, (slot entries index).inum = 0

theorem vacancy_lt_iff : vacancy entries < entries.length ↔ Vacant entries := by
  have bound := vacancy_le entries
  have atEnd := vacancy_eq_length_iff entries
  constructor
  · exact fun below => ⟨_, below, unused_vacancy entries⟩
  · rintro ⟨index, below, unused⟩
    refine lt_of_le_of_ne bound fun eq => ?_
    exact atEnd.mp eq index below unused

/-- A name has been bound to an inode number: no other binding has changed, and the
directory has grown only if it had no unused entry. -/
structure Linked (dp : Islot) (name : List Byte) (inum : Nat) (fs target : Fs) : Prop where
  dir : DirFile target dp
  distinct : Distinct (target.entries dp)
  bindings : ∃ index, ∀ other, binding (target.entries dp) other =
    if SameName other name then some (inum, direntSize * index)
    else binding (fs.entries dp) other
  size : Vacant (fs.entries dp) ∧ (target.icache dp).size = (fs.icache dp).size ∨
    ¬Vacant (fs.entries dp) ∧ (target.icache dp).size = (fs.icache dp).size + direntSize

/-- The two ways in which `dirlink` may return: the name is there and nothing has changed,
or the name is new and has been bound. -/
def LinkResult (dp : Islot) (name : List Byte) (inum : Nat) (fs : Fs) (ok : Bool) (target : Fs) :
    Prop :=
  (ok = false ∧ (∃ index, Matches name (slot (fs.entries dp) index)) ∧ Unchanged fs target) ∨
    (ok = true ∧ (∀ index, ¬Matches name (slot (fs.entries dp) index)) ∧
      Linked dp name (inum % 2 ^ 16) fs target)

theorem sameName_padName_iff {other : List Byte} :
    SameName other (padName name) ↔ SameName other name := by
  rw [SameName, SameName, cstring_padName]

/-- The new entry is the only one with its name. -/
theorem fresh_padName (fresh : findName entries name = none) {other : Nat}
    (used : (slot entries other).inum ≠ 0) :
    ¬SameName (padName name) (slot entries other).name := by
  intro same
  exact findName_eq_none_iff.mp fresh other ⟨used, (sameName_padName_iff.mp same.symm).symm⟩

theorem DirFile.linked (dir : DirFile fs dp) (distinct : Distinct (fs.entries dp))
    (fresh : findName (fs.entries dp) name = none) (nonzero : inum % 2 ^ 16 ≠ 0)
    (rewritten : Rewritten dp (direntSize * vacancy (fs.entries dp))
      (toBytes ⟨inum, padName name⟩) fs target) :
    Linked dp name (inum % 2 ^ 16) fs target := by
  obtain ⟨dir', entries_eq⟩ :=
    dir.of_rewritten (vacancy_le _) (length_padName name) rewritten
  refine ⟨dir', ?_, ⟨vacancy (fs.entries dp), fun other => ?_⟩, ?_⟩
  · rw [entries_eq]
    exact distinct.overwrite (vacancy_le _) fun _ other _ => fresh_padName fresh
  · rw [entries_eq, binding_overwrite distinct (vacancy_le _) (unused_vacancy _) nonzero
      fun other => fresh_padName fresh]
    exact if_congr sameName_padName_iff rfl rfl
  · have length : (target.entries dp).length =
        max (fs.entries dp).length (vacancy (fs.entries dp) + 1) := by
      rw [entries_eq, length_overwrite (vacancy_le _)]
      rfl
    have size : direntSize = 16 := rfl
    have bound := vacancy_le (fs.entries dp)
    rw [dir'.size_eq, dir.size_eq, ← vacancy_lt_iff, size]
    omega

/-- With room for an entry, `dirlink` binds a new name and refuses one that is there. -/
theorem DirFile.ensures_dirlink (dir : DirFile fs dp) (distinct : Distinct (fs.entries dp))
    (name : List Byte) (nonzero : inum % 2 ^ 16 ≠ 0)
    (room : (∃ index, Matches name (slot (fs.entries dp) index)) ∨
      HasSpace fs dp ∧ HasBlocks fs dp) :
    Ensures (CacheFull fs dp name) (dirlink dp name inum) fs (LinkResult dp name inum fs) := by
  cases found : findName (fs.entries dp) name with
  | some index =>
    refine (dir.ensures_dirlink_of_found found inum).mono ?_
    rintro ok target - ⟨rfl, unchanged⟩
    exact .inl ⟨rfl, ⟨index, matches_of_findName found⟩, unchanged⟩
  | none =>
    have fresh := findName_eq_none_iff.mp found
    obtain ⟨space, blocks⟩ := room.resolve_left fun ⟨index, isMatch⟩ => fresh index isMatch
    obtain ⟨target, ran, rewritten⟩ := dir.runs_dirlink found space blocks inum
    rw [ensures_iff_of_runs ran]
    exact .inr ⟨rfl, fresh, dir.linked distinct found nonzero rewritten⟩

/-! ## Sequences of changes -/

/-- The entry that `sys_unlink` writes. -/
def clearedEntry : Dirent :=
  ⟨0, List.replicate dirsiz 0⟩

/-- A change of a directory: a new link, or an entry is cleared. -/
inductive Change where
  | link (name : List Byte) (inum : Nat)
  | clear (index : Nat)

/-- The state after a program that has returned. -/
def stateAfter {α : Type} (prog : FsM α) (fs : Fs) : Option Fs :=
  match prog fs with
  | .ok (_, target) => some target
  | .error _ => none

theorem stateAfter_eq_some_iff {α : Type} {prog : FsM α} :
    stateAfter prog fs = some target ↔ ∃ value, Runs prog fs value target := by
  unfold stateAfter Runs
  cases prog fs with
  | error reason => simp
  | ok result =>
    obtain ⟨value, middle⟩ := result
    simp

/-- Carry out a change of the directory in a slot. -/
def change (dp : Islot) : Step Fs Change
  | fs, .link name inum => stateAfter (dirlink dp name inum) fs
  | fs, .clear index =>
    if index < (fs.entries dp).length then
      stateAfter (writei dp (direntSize * index) clearedEntry.toBytes) fs
    else
      none

/-- A directory without two used entries of the same name. -/
structure DirMap (fs : Fs) (dp : Islot) : Prop where
  dir : DirFile fs dp
  distinct : Distinct (fs.entries dp)

/-- A link that returns has written at the vacancy. -/
theorem DirFile.rewritten_of_dirlink (dir : DirFile fs dp)
    (fresh : findName (fs.entries dp) name = none) {ok : Bool}
    (ran : Runs (dirlink dp name inum) fs ok target) :
    Rewritten dp (direntSize * vacancy (fs.entries dp)) (toBytes ⟨inum, padName name⟩) fs
      target := by
  rw [Runs, dir.dirlink_eq fresh] at ran
  obtain ⟨written, middle, writes, ended⟩ := runs_bind.mp ran
  have result := (dir.file.writei _ _).of_runs writes
  split at ended
  · rename_i all
    obtain ⟨-, rfl⟩ := runs_pure.mp ended
    split at result
    · rw [result.1] at all
      cases all
    · exact result.2
  · exact (runs_stop.mp ended).elim

/-- Every change keeps the names distinct. -/
theorem DirMap.change (map : DirMap fs dp) {op : Change}
    (changed : FileSystem.change dp fs op = some target) : DirMap target dp := by
  cases op with
  | link name inum =>
    obtain ⟨ok, ran⟩ := stateAfter_eq_some_iff.mp changed
    cases found : findName (fs.entries dp) name with
    | some index =>
      obtain ⟨-, unchanged⟩ :=
        (map.dir.ensures_dirlink_of_found found inum).of_runs ran
      obtain ⟨dir, entries_eq⟩ := map.dir.of_unchanged unchanged
      exact ⟨dir, entries_eq ▸ map.distinct⟩
    | none =>
      obtain ⟨dir, entries_eq⟩ := map.dir.of_rewritten (vacancy_le _) (length_padName name)
        (map.dir.rewritten_of_dirlink found ran)
      refine ⟨dir, ?_⟩
      rw [entries_eq]
      exact map.distinct.overwrite (vacancy_le _) fun _ other _ => fresh_padName found
  | clear index =>
    rw [FileSystem.change] at changed
    split at changed
    · rename_i bound
      obtain ⟨written, ran⟩ := stateAfter_eq_some_iff.mp changed
      have named : clearedEntry.name.length = dirsiz := length_replicate
      have inside : direntSize * index + direntSize ≤ (fs.icache dp).size := by
        rw [map.dir.size_eq]
        exact record_end_le bound
      have accepted : ¬Refused (fs.icache dp).size (direntSize * index)
          clearedEntry.toBytes.length := by
        rw [refused_iff (by omega), length_toBytes named]
        have size_le := map.dir.file.size_le
        omega
      have result := (map.dir.file.writei _ _).of_runs ran
      rw [if_neg accepted] at result
      obtain ⟨dir, entries_eq⟩ :=
        map.dir.of_rewritten (le_of_lt bound) named result.2
      refine ⟨dir, ?_⟩
      rw [entries_eq]
      exact map.distinct.overwrite (le_of_lt bound) fun used => absurd rfl used
    · cases changed

/-- A directory that starts empty. -/
theorem DirFile.dirMap_of_empty (dir : DirFile fs dp) (empty : (fs.icache dp).size = 0) :
    DirMap fs dp := by
  refine ⟨dir, fun first second used => ?_⟩
  have bound := lt_length_of_used used
  rw [dir.length_entries, empty] at bound
  exact absurd bound (not_lt_zero _)

/-- A directory that is changed only by links and by clearing entries is a finite map on names:
no two used entries have the same name, `dirlookup` finds the entry with the name, and `dirlink`
refuses a name that is bound and binds any other. -/
theorem directory_is_finite_map {start : Fs} (dir : DirFile start dp)
    (empty : (start.icache dp).size = 0) {changes : List Change}
    (execution : run (change dp) start changes = some fs) :
    Distinct (fs.entries dp) ∧
      ∀ name,
        (Ensures (CacheFull fs dp name) (dirlookup dp name) fs fun found target =>
          target.volume = fs.volume ∧
            (found = none ∧ (∀ index, ¬Matches name (slot (fs.entries dp) index)) ∨
              ∃ ip index, found = some (ip, direntSize * index) ∧
                Matches name (slot (fs.entries dp) index) ∧
                (target.icache ip).inum = (slot (fs.entries dp) index).inum)) ∧
        ∀ inum, inum % 2 ^ 16 ≠ 0 → HasSpace fs dp → HasBlocks fs dp →
          Ensures (CacheFull fs dp name) (dirlink dp name inum) fs
            (LinkResult dp name inum fs) := by
  have map : DirMap fs dp := run_induction (fun _ fs => DirMap fs dp) (dir.dirMap_of_empty empty)
    (fun _ _ _ _ _ map changed => map.change changed) execution
  refine ⟨map.distinct, fun name => ⟨?_, fun inum nonzero space blocks => ?_⟩⟩
  · refine (map.dir.ensures_dirlookup name).mono ?_
    rintro found target - (⟨rfl, rfl, missing⟩ | ⟨ip, index, rfl, found, got⟩)
    · exact ⟨rfl, .inl ⟨rfl, findName_eq_none_iff.mp missing⟩⟩
    · obtain ⟨inum_eq, volume_eq⟩ := volume_of_iget got
      exact ⟨volume_eq, .inr ⟨ip, index, rfl, matches_of_findName found, inum_eq⟩⟩
  · exact map.dir.ensures_dirlink map.distinct name nonzero (.inr ⟨space, blocks⟩)

/-! ## A new directory -/

/-- Make an empty directory. -/
def newDir : FsM Unit := do
  let dp ← ialloc rootdev .dir
  ilock dp

/-- The empty directory, in the second slot of the cache. -/
theorem dirFile_newDir {start : Fs} (made : stateAfter newDir (boot emptyImage).fs = some start)
    (isDir : (start.icache 1).type = .dir) (used : 0 < (start.icache 1).ref)
    (valid : (start.icache 1).valid = true) (empty : (start.icache 1).size = 0) :
    DirFile start 1 := by
  obtain ⟨_, ran⟩ := stateAfter_eq_some_iff.mp made
  obtain ⟨dp, middle, allocated, locked⟩ := runs_bind.mp ran
  have whole :=
    ((whole_boot whole_emptyImage).ialloc (sound_boot emptyImage) allocated).ilock locked
  exact ⟨whole.byteFile used valid (.inr isDir), used, isDir, empty ▸ Nat.dvd_zero _⟩

/-- A second name is bound in a new directory. -/
theorem directory_is_finite_map_twoNames :
    ∃ start fs, DirFile start 1 ∧ (start.icache 1).size = 0 ∧
      run (change 1) start [.link [0x66] 5] = some fs ∧ HasSpace fs 1 ∧ HasBlocks fs 1 ∧
      Distinct (fs.entries 1) ∧
      Ensures (CacheFull fs 1 [0x67]) (dirlink 1 [0x67] 6) fs (LinkResult 1 [0x67] 6 fs) := by
  obtain ⟨start, made, isDir, used, valid, empty, fs, execution, space, blocks⟩ :
    ∃ start ∈ stateAfter newDir (boot emptyImage).fs, (start.icache 1).type = .dir ∧
      0 < (start.icache 1).ref ∧ (start.icache 1).valid = true ∧ (start.icache 1).size = 0 ∧
      ∃ fs ∈ run (change 1) start [.link [0x66] 5], HasSpace fs 1 ∧ HasBlocks fs 1 := by
    decide +kernel
  have dir := dirFile_newDir made isDir used valid empty
  obtain ⟨distinct, results⟩ := directory_is_finite_map dir empty execution
  exact ⟨start, fs, dir, empty, execution, space, blocks, distinct,
    (results [0x67]).2 6 (by decide) space blocks⟩

end Xv6.FileSystem
