import Mathlib.Data.List.GetD
import Mathlib.Data.List.TakeWhile
import Xv6.FileSystem.ByteArray
import Xv6.Machine.Overwrite

/-!
# Directories as lists of entries

The contents of a directory are records of `DIRSIZ + 2` bytes.  `dirlookup` finds the
first used record whose name agrees with the given one on what `strncmp` compares, and
`dirlink` overwrites the first unused record or appends one.
-/

namespace Xv6

open List

namespace FileSystem

open Prog Volume

/-! ## Names -/

/-- `strncmp` of `string.c`; behind the end of a list there is a zero byte. -/
def strncmp : Nat → List Byte → List Byte → Int
  | 0, _, _ => 0
  | n + 1, p, q =>
    if p.headD 0 ≠ 0 ∧ p.headD 0 = q.headD 0 then
      strncmp n p.tail q.tail
    else
      (p.headD 0).toNat - (q.headD 0).toNat

/-- The bytes that `strncpy` of `string.c` writes. -/
def strncpy : Nat → List Byte → List Byte
  | 0, _ => []
  | n + 1, t =>
    if t.headD 0 ≠ 0 then
      t.headD 0 :: strncpy n t.tail
    else
      List.replicate (n + 1) 0

/-- The part of a string in front of the first zero byte, at most `n` bytes. -/
def stringWithin (n : Nat) (s : List Byte) : List Byte :=
  (s.take n).takeWhile (· ≠ 0)

theorem stringWithin_succ (n : Nat) (s : List Byte) :
    stringWithin (n + 1) s = if s.headD 0 ≠ 0 then s.headD 0 :: stringWithin n s.tail else [] := by
  cases s with
  | nil => simp [stringWithin]
  | cons byte rest => simp [stringWithin, takeWhile_cons]

/-- `strncmp` compares the strings within the first `n` bytes. -/
theorem strncmp_eq_zero_iff (n : Nat) (p q : List Byte) :
    strncmp n p q = 0 ↔ stringWithin n p = stringWithin n q := by
  induction n generalizing p q with
  | zero => simp [strncmp, stringWithin]
  | succ n ih =>
    rw [strncmp, stringWithin_succ, stringWithin_succ]
    generalize p.headD 0 = a, q.headD 0 = b
    by_cases same : a = b
    · subst same
      by_cases ended : a = 0
      · simp [ended]
      · rw [if_pos ⟨ended, rfl⟩, if_pos ended, if_pos ended, ih, cons.injEq]
        exact ⟨fun equal => ⟨rfl, equal⟩, And.right⟩
    · rw [if_neg fun both => same both.2, sub_eq_zero, Nat.cast_inj, ← BitVec.toNat_eq]
      refine ⟨fun equal => absurd equal same, fun equal => ?_⟩
      split at equal <;> split at equal <;> simp_all

/-- `strncpy` copies the string within the first `n` bytes and pads it with zeros. -/
theorem strncpy_eq (n : Nat) (t : List Byte) :
    strncpy n t = stringWithin n t ++ replicate (n - (stringWithin n t).length) 0 := by
  induction n generalizing t with
  | zero => simp [strncpy, stringWithin]
  | succ n ih =>
    rw [strncpy, stringWithin_succ]
    split
    · rw [ih, length_cons, cons_append, Nat.add_sub_add_right]
    · rfl

/-- `namecmp` is `strncmp` on the first `DIRSIZ` bytes. -/
theorem sameName_iff (first second : List Byte) :
    SameName first second ↔ strncmp dirsiz first second = 0 :=
  (strncmp_eq_zero_iff dirsiz first second).symm

section

variable (name : List Byte)

theorem padName_eq : padName name = strncpy dirsiz name :=
  (strncpy_eq dirsiz name).symm

theorem length_cstring_le : (cstring name).length ≤ dirsiz :=
  (List.takeWhile_prefix _).length_le.trans (length_take_le ..)

@[simp]
theorem length_padName : (padName name).length = dirsiz := by
  have bound := length_cstring_le name
  rw [padName, length_append, length_replicate]
  omega

/-- A padded name agrees with the name. -/
theorem cstring_padName : cstring (padName name) = cstring name := by
  have nonzero byte (member : byte ∈ cstring name) : byte ≠ 0 := by
    simpa using mem_takeWhile_imp member
  have all : (padName name).take dirsiz = padName name :=
    take_of_length_le (Nat.le_of_eq (length_padName name))
  have behind :
      (replicate (dirsiz - (cstring name).length) (0 : Byte)).takeWhile (· ≠ 0) = [] := by
    cases dirsiz - (cstring name).length with
    | zero => rfl
    | succ count => rfl
  conv_lhs => rw [cstring, all, padName]
  rw [takeWhile_append_of_pos fun byte member => by simpa using nonzero byte member, behind,
    append_nil]

end

/-! ## Entries -/

/-- The entries that the bytes of a directory make up. -/
def entriesOf (bytes : List Byte) : List Dirent :=
  (List.range (bytes.length / direntSize)).map fun index =>
    Dirent.ofBytes (recordAt direntSize bytes index)

/-- The entry at a position, unused behind the end. -/
def slot (entries : List Dirent) (index : Nat) : Dirent :=
  entries.getD index ⟨0, []⟩

@[simp]
theorem length_entriesOf (bytes : List Byte) :
    (entriesOf bytes).length = bytes.length / direntSize := by
  simp [entriesOf]

variable {bytes : List Byte} {index : Nat}

theorem slot_entriesOf (bound : index < bytes.length / direntSize) :
    slot (entriesOf bytes) index = Dirent.ofBytes (recordAt direntSize bytes index) := by
  simp [slot, entriesOf, bound]

theorem slot_of_le {entries : List Dirent} (beyond : entries.length ≤ index) :
    slot entries index = ⟨0, []⟩ :=
  getD_eq_default _ _ beyond

/-- Lists of entries of the same length with the same entries are equal. -/
theorem ext_slot {entries others : List Dirent} (length : entries.length = others.length)
    (same : ∀ index < entries.length, slot entries index = slot others index) :
    entries = others := by
  refine ext_getElem length fun index bound bound' => ?_
  have slot_eq := same index bound
  rwa [slot, slot, getD_eq_getElem _ _ bound, getD_eq_getElem _ _ bound'] at slot_eq

theorem lt_length_of_used {entries : List Dirent} (used : (slot entries index).inum ≠ 0) :
    index < entries.length := by
  by_contra beyond
  rw [slot_of_le (Nat.not_lt.mp beyond)] at used
  exact used rfl

theorem slot_overwrite {entries : List Dirent} (inside : index ≤ entries.length) (de : Dirent)
    (other : Nat) :
    slot (overwrite entries index [de]) other =
      if other = index then de else slot entries other := by
  rw [slot, slot, getD_eq_getElem?_getD, getD_eq_getElem?_getD, getElem?_overwrite inside]
  by_cases same : other = index
  · subst same
    rw [if_neg (by simp), if_pos rfl, Nat.sub_self]
    rfl
  · rw [if_neg same, if_pos (by simp; omega)]

/-- The entry as it is stored: the inode number is a `ushort`. -/
def Dirent.stored (de : Dirent) : Dirent :=
  { de with inum := de.inum % 2 ^ 16 }

variable {de : Dirent}

theorem Dirent.length_toBytes (length : de.name.length = dirsiz) :
    de.toBytes.length = direntSize := by
  rw [Dirent.toBytes, length_cons, length_cons, length]
  rfl

theorem Dirent.ofBytes_toBytes (de : Dirent) : Dirent.ofBytes de.toBytes = de.stored := by
  simp only [Dirent.toBytes, Dirent.ofBytes, Dirent.stored, getD_cons_zero,
    getD_cons_succ, BitVec.toNat_ofNat, drop_succ_cons, drop_zero,
    Dirent.mk.injEq, and_true]
  omega

/-- Overwriting a record changes one entry. -/
theorem entriesOf_overwrite (named : de.name.length = dirsiz) (aligned : direntSize ∣ bytes.length)
    (inside : index ≤ (entriesOf bytes).length) :
    entriesOf (overwrite bytes (direntSize * index) de.toBytes) =
      overwrite (entriesOf bytes) index [de.stored] := by
  have width := Dirent.length_toBytes named
  rw [length_entriesOf] at inside
  have size : direntSize = 16 := rfl
  have start : direntSize * index ≤ bytes.length := by
    rw [← Nat.div_mul_cancel aligned, Nat.mul_comm]
    exact Nat.mul_le_mul_right _ inside
  have length : (overwrite bytes (direntSize * index) de.toBytes).length / direntSize =
      max (bytes.length / direntSize) (index + 1) := by
    rw [length_overwrite start]
    rw [size] at aligned ⊢
    omega
  have length_eq : (entriesOf (overwrite bytes (direntSize * index) de.toBytes)).length =
      (overwrite (entriesOf bytes) index [de.stored]).length := by
    rw [length_entriesOf, length, length_overwrite (by simpa using inside), length_entriesOf]
    rfl
  refine ext_slot length_eq fun other bound => ?_
  rw [length_entriesOf] at bound
  rw [slot_entriesOf bound, slot_overwrite (by simpa using inside)]
  split
  · rename_i same
    rw [same, recordAt_overwrite_self start width, Dirent.ofBytes_toBytes]
  · rename_i ne
    rw [recordAt_overwrite_of_ne ne start width, slot_entriesOf (by omega)]

/-- A used entry whose name agrees with a name. -/
def Matches (name : List Byte) (de : Dirent) : Prop :=
  de.inum ≠ 0 ∧ SameName name de.name

instance (name : List Byte) : DecidablePred (Matches name) :=
  fun _ => inferInstanceAs (Decidable (_ ∧ _))

/-- The position of the first entry with a name. -/
def findName (entries : List Dirent) (name : List Byte) : Option Nat :=
  (List.range entries.length).find? fun index => Matches name (slot entries index)

/-- The position of the first unused entry, or the end. -/
def vacancy (entries : List Dirent) : Nat :=
  ((List.range entries.length).find? fun index => (slot entries index).inum = 0).getD
    entries.length

theorem matches_of_findName {entries : List Dirent} {name : List Byte}
    (found : findName entries name = some index) : Matches name (slot entries index) := by
  simpa using find?_some found

theorem findName_eq_none_iff {entries : List Dirent} {name : List Byte} :
    findName entries name = none ↔ ∀ index, ¬Matches name (slot entries index) := by
  rw [findName, find?_eq_none]
  constructor
  · intro none index isMatch
    exact none index (mem_range.mpr (lt_length_of_used isMatch.1)) (decide_eq_true isMatch)
  · intro none index _ isMatch
    exact none index (of_decide_eq_true isMatch)

theorem vacancy_le (entries : List Dirent) : vacancy entries ≤ entries.length := by
  unfold vacancy
  cases found : (range entries.length).find? fun index => (slot entries index).inum = 0 with
  | none => exact Nat.le_refl _
  | some index => exact Nat.le_of_lt (mem_range.mp (mem_of_find?_eq_some found))

/-- The entry at the vacancy is unused. -/
theorem unused_vacancy (entries : List Dirent) : (slot entries (vacancy entries)).inum = 0 := by
  unfold vacancy
  cases found : (range entries.length).find? fun index => (slot entries index).inum = 0 with
  | none => rw [Option.getD_none, slot_of_le (Nat.le_refl _)]
  | some index => simpa using find?_some found

/-- The vacancy is at the end only if all entries are used. -/
theorem vacancy_eq_length_iff (entries : List Dirent) :
    vacancy entries = entries.length ↔ ∀ index < entries.length, (slot entries index).inum ≠ 0 := by
  unfold vacancy
  cases found : (range entries.length).find? fun index => (slot entries index).inum = 0 with
  | none =>
    rw [find?_eq_none] at found
    simp only [Option.getD_none, true_iff]
    intro index bound unused
    exact found index (mem_range.mpr bound) (decide_eq_true unused)
  | some index =>
    have bound := mem_range.mp (mem_of_find?_eq_some found)
    have unused : (slot entries index).inum = 0 := by simpa using find?_some found
    rw [Option.getD_some]
    exact ⟨fun atEnd => by omega, fun all => absurd unused (all index bound)⟩

/-! ## The directory in a slot -/

variable {fs target : Fs} {dp ip : Islot} {name : List Byte}

/-- The entries of the directory in a slot. -/
def Fs.entries (fs : Fs) (dp : Islot) : List Dirent :=
  entriesOf (fs.volume.contents (fs.icache dp).inum)

/-- A directory in a slot that is in use, made up of whole entries. -/
structure DirFile (fs : Fs) (dp : Islot) : Prop where
  file : ByteFile fs dp
  used : 0 < (fs.icache dp).ref
  isDir : (fs.icache dp).type = .dir
  aligned : direntSize ∣ (fs.icache dp).size

/-- The end of `dirlookup`: the inode of the entry that has been found. -/
def answer (dp : Islot) (entries : List Dirent) : Option Nat → FsM (Option (Islot × Nat))
  | none => pure none
  | some index => do
      let dev ← reading fun fs => (fs.icache dp).dev
      let ip ← iget dev (slot entries index).inum
      pure (some (ip, direntSize * index))

namespace DirFile

section

variable (dir : DirFile fs dp)

include dir

theorem length_contents : (fs.volume.contents (fs.icache dp).inum).length = (fs.icache dp).size :=
  (Volume.length_contents ..).trans dir.file.size

theorem length_entries : (fs.entries dp).length = (fs.icache dp).size / direntSize := by
  rw [Fs.entries, length_entriesOf, dir.length_contents]

/-- The size is a number of entries. -/
theorem size_eq : (fs.icache dp).size = direntSize * (fs.entries dp).length := by
  rw [dir.length_entries, Nat.mul_div_cancel' dir.aligned]

theorem offsets_eq :
    offsets 0 (fs.icache dp).size = (range (fs.entries dp).length).map (direntSize * ·) := by
  have size : direntSize = 16 := rfl
  have count :
      ((fs.icache dp).size - 0 + direntSize - 1) / direntSize = (fs.entries dp).length := by
    rw [dir.size_eq, size]
    omega
  rw [offsets, count]
  simp

/-- Reading an entry. -/
theorem readDirent (message : String) {index : Nat} (bound : index < (fs.entries dp).length) :
    Runs (readDirent message dp (direntSize * index)) fs (slot (fs.entries dp) index) fs := by
  have inside : direntSize * index + direntSize ≤ (fs.icache dp).size := by
    rw [dir.size_eq]
    exact record_end_le bound
  have small := dir.file.size_le
  have maxfile_eq : maxfile * bsize = 71680 := rfl
  have read := dir.file.readi none (direntSize * index) direntSize
  rw [if_neg (by unfold Overflows; omega)] at read
  refine runs_readDirent.mpr ⟨_, read, ?_, ?_⟩
  · rw [length_take, length_drop, dir.length_contents]
    omega
  · rw [Fs.entries, length_entriesOf] at bound
    exact (slot_entriesOf bound).symm

variable {indices : List Nat}

/-- The loop of `dirlookup`. -/
theorem dirlookupFrom (name : List Byte)
    (bound : ∀ index ∈ indices, index < (fs.entries dp).length) :
    dirlookupFrom dp name (indices.map (direntSize * ·)) fs = answer dp (fs.entries dp)
      (indices.find? fun index => Matches name (slot (fs.entries dp) index)) fs := by
  induction indices with
  | nil => rfl
  | cons index rest ih =>
    rw [map_cons, FileSystem.dirlookupFrom,
      bind_of_runs (dir.readDirent _ (bound index mem_cons_self))]
    rw [find?_cons]
    by_cases found : (slot (fs.entries dp) index).inum ≠ 0 ∧
        SameName name (slot (fs.entries dp) index).name
    · rw [if_pos found, decide_eq_true (show Matches name _ from found)]
      rfl
    · rw [if_neg found, decide_eq_false (show ¬Matches name _ from found)]
      exact ih fun other member => bound other (mem_cons_of_mem _ member)

/-- `dirlookup` finds the first entry with the name. -/
theorem dirlookup_eq (name : List Byte) :
    dirlookup dp name fs = answer dp (fs.entries dp) (findName (fs.entries dp) name) fs := by
  unfold dirlookup
  have isDir : Runs (ensure (fun fs : Fs => (fs.icache dp).type = .dir)
      (.panic "dirlookup not DIR" : FsStop)) fs () fs := runs_ensure.mpr ⟨dir.isDir, rfl⟩
  rw [bind_of_runs isDir, bind_of_runs (runs_reading.mpr ⟨rfl, rfl⟩), dir.offsets_eq]
  exact dir.dirlookupFrom name fun index => mem_range.mp

/-- The loop of `dirlink`. -/
theorem emptyFrom (last : Nat) (bound : ∀ index ∈ indices, index < (fs.entries dp).length) :
    Runs (emptyFrom dp (direntSize * last) (indices.map (direntSize * ·))) fs
      (direntSize * (indices.find? fun index =>
        (slot (fs.entries dp) index).inum = 0).getD last) fs := by
  induction indices with
  | nil => exact runs_pure.mpr ⟨rfl, rfl⟩
  | cons index rest ih =>
    rw [map_cons, FileSystem.emptyFrom, runs_bind]
    refine ⟨_, fs, dir.readDirent _ (bound index mem_cons_self), ?_⟩
    by_cases unused : (slot (fs.entries dp) index).inum = 0
    · rw [if_pos unused, find?_cons, decide_eq_true unused]
      exact runs_pure.mpr ⟨rfl, rfl⟩
    · rw [if_neg unused, find?_cons, decide_eq_false unused]
      exact ih fun other member => bound other (mem_cons_of_mem _ member)

/-- `dirlink` of a new name writes at the vacancy. -/
theorem dirlink_eq {name : List Byte} {inum : Nat} (fresh : findName (fs.entries dp) name = none) :
    dirlink dp name inum fs = (do
      let written ← writei dp (direntSize * vacancy (fs.entries dp))
        (Dirent.toBytes ⟨inum, padName name⟩)
      if written = some direntSize then pure true else stop (.panic "dirlink") : FsM Bool) fs := by
  have missing : Runs (dirlookup dp name) fs none fs := by
    rw [Runs, dir.dirlookup_eq, fresh]
    rfl
  have vacant : Runs (FileSystem.emptyFrom dp
      (direntSize * (offsets 0 (fs.icache dp).size).length) (offsets 0 (fs.icache dp).size)) fs
      (direntSize * vacancy (fs.entries dp)) fs := by
    rw [dir.offsets_eq, length_map, length_range]
    exact dir.emptyFrom _ fun index => mem_range.mp
  unfold dirlink
  rw [bind_of_runs missing]
  exact (bind_of_runs (runs_reading.mpr ⟨rfl, rfl⟩)).trans (bind_of_runs vacant)

end

end DirFile

end FileSystem

end Xv6
