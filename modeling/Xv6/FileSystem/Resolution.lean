import Xv6.FileSystem.Bindings

/-!
# Path resolution

A path is the list of its elements, and looking it up is a fold over that list: every
element is looked up in the directory that the elements in front of it lead to.  `namex`
walks along the path with one reference at a time, so it leaves the file system as it was
but for a reference to what it has found.
-/

namespace Xv6.FileSystem

open Xv6.Transition Prog Volume List Option Fs

/-! ## The elements of a path -/

/-- The maximal pieces of a path without a slash, each cut to `DIRSIZ` bytes. -/
def comps (path : List Byte) : List (List Byte) :=
  ((path.splitOn slash).filter (· ≠ [])).map (List.take dirsiz)

theorem comps_slash_cons (path : List Byte) : comps (slash :: path) = comps path := by
  rw [comps, splitOn_eq_splitOnP, splitOnP_cons_eq_if_modifyHead, if_pos (by simp),
    filter_cons_of_neg (by simp)]
  rfl

/-- Leading slashes do not matter. -/
theorem comps_dropWhile (path : List Byte) : comps (path.dropWhile (· = slash)) = comps path := by
  induction path with
  | nil => rfl
  | cons byte rest ih =>
    rw [dropWhile_cons]
    split
    · rename_i isSlash
      rw [ih, of_decide_eq_true isSlash, comps_slash_cons]
    · rfl

/-- The first element of a path that does not begin with a slash. -/
theorem comps_append {element rest : List Byte} (notEmpty : element ≠ [])
    (plain : ∀ byte ∈ element, byte ≠ slash) (ends : rest = [] ∨ rest.head? = some slash) :
    comps (element ++ rest) = element.take dirsiz :: comps rest := by
  have plain' : ∀ byte ∈ element, (byte == slash) = false := by simpa using plain
  rcases ends with rfl | isSlash
  · rw [append_nil, comps, splitOn_eq_splitOnP, splitOnP_eq_singleton plain']
    simp [notEmpty, comps]
  · obtain ⟨tail, rfl⟩ : ∃ tail, rest = slash :: tail := by
      cases rest with
      | nil => cases isSlash
      | cons byte tail => exact ⟨tail, by rw [some.inj isSlash]⟩
    rw [comps_slash_cons, comps, splitOn_eq_splitOnP,
      splitOnP_append_cons_of_forall_mem plain' slash (by simp),
      filter_cons_of_pos (by simpa using notEmpty)]
    rfl

variable {path : List Byte}

/-- `skipelem` finds no element. -/
theorem comps_of_skipelem_none (ended : skipelem path = none) : comps path = [] := by
  unfold skipelem at ended
  split at ended
  · rename_i blank
    rw [← comps_dropWhile, blank]
    rfl
  · cases ended

/-- `skipelem` delivers the first element and leaves the others. -/
theorem comps_of_skipelem_some {name rest : List Byte} (found : skipelem path = some (name, rest)) :
    comps path = name :: comps rest ∧ rest.length < path.length := by
  unfold skipelem at found
  split at found
  · cases found
  · rename_i notBlank
    obtain ⟨rfl, rfl⟩ := found
    generalize start_eq : path.dropWhile (· = slash) = start at notBlank
    have shorter : start.length ≤ path.length := start_eq ▸ (dropWhile_suffix _).length_le
    have split_eq : start.takeWhile (· ≠ slash) ++ start.dropWhile (· ≠ slash) = start :=
      takeWhile_append_dropWhile
    have plain byte (member : byte ∈ start.takeWhile (· ≠ slash)) : byte ≠ slash := by
      simpa using mem_takeWhile_imp member
    have ends : start.dropWhile (· ≠ slash) = [] ∨
        (start.dropWhile (· ≠ slash)).head? = some slash := by
      have first := head?_dropWhile_not (· ≠ slash) start
      cases remaining : start.dropWhile (· ≠ slash) with
      | nil => exact .inl rfl
      | cons byte tail =>
        rw [remaining] at first
        exact .inr (by simpa using first)
    have notEmpty : start.takeWhile (· ≠ slash) ≠ [] := by
      have first := head?_dropWhile_not (· = slash) path
      rw [start_eq] at first
      cases start with
      | nil => exact absurd rfl notBlank
      | cons byte tail =>
        have notSlash : byte ≠ slash := by simpa using first
        simp [notSlash]
    refine ⟨?_, ?_⟩
    · rw [comps_dropWhile, ← comps_append notEmpty plain ends, split_eq, ← start_eq,
        comps_dropWhile]
    · have behind := (dropWhile_suffix (· = slash)
        (l := start.dropWhile (· ≠ slash))).length_le
      have lengths := congrArg length split_eq
      rw [length_append] at lengths
      have positive := length_pos_iff.mpr notEmpty
      omega

/-- Repeated calls of `skipelem` deliver the elements. -/
theorem elementsFrom_eq {turns : Nat} (bound : path.length ≤ turns) :
    elementsFrom turns path = comps path := by
  induction turns generalizing path with
  | zero =>
    rw [eq_nil_of_length_eq_zero (Nat.le_zero.mp bound)]
    rfl
  | succ turns ih =>
    rw [elementsFrom]
    cases found : skipelem path with
    | none => exact (comps_of_skipelem_none found).symm
    | some result =>
      obtain ⟨comps_eq, shorter⟩ := comps_of_skipelem_some found
      rw [comps_eq, ← ih (by omega)]

theorem elements_eq (path : List Byte) : elements path = comps path :=
  elementsFrom_eq (Nat.le_refl _)

/-! ## Following names on the disk -/

namespace Volume

/-- The entries of a directory on the disk. -/
def entries (volume : Volume) (inum : Nat) : List Dirent :=
  entriesOf (volume.contents inum)

/-- Look a name up in a directory; what is not a directory has no names. -/
def child (volume : Volume) (inum : Nat) (name : List Byte) : Option Nat :=
  if (volume.nodes inum).type = .dir then
    (findName (volume.entries inum) name).map fun index => (slot (volume.entries inum) index).inum
  else
    none

/-- Follow names one after the other. -/
def resolve (volume : Volume) (start : Nat) (names : List (List Byte)) : Option Nat :=
  names.foldlM volume.child start

/-- Follow all names but the last, which must lead to a directory. -/
def parent (volume : Volume) (start : Nat) (names : List (List Byte)) :
    Option (Nat × List Byte) :=
  names.getLast?.bind fun name =>
    (volume.resolve start names.dropLast).bind fun dir =>
      if (volume.nodes dir).type = .dir then some (dir, name) else none

/-- Every inode that a walk along the names locks is allocated: those in front of a name. -/
def Allocated (volume : Volume) : Nat → List (List Byte) → Prop
  | _, [] => True
  | inum, name :: rest => (volume.nodes inum).type ≠ .free ∧
      ∀ next, volume.child inum name = some next → volume.Allocated next rest

variable {volume : Volume} {start inum : Nat} {name : List Byte} {names : List (List Byte)}

theorem allocated_of_child_none (typed : (volume.nodes inum).type ≠ .free)
    (missing : volume.child inum name = none) : volume.Allocated inum (name :: names) :=
  ⟨typed, fun next found => by rw [missing] at found; cases found⟩

theorem allocated_cons_iff {next : Nat} (typed : (volume.nodes inum).type ≠ .free)
    (found : volume.child inum name = some next) :
    volume.Allocated inum (name :: names) ↔ volume.Allocated next names := by
  rw [Allocated, found]
  exact ⟨fun allocated => allocated.2 next rfl, fun allocated =>
    ⟨typed, fun _ same => some.inj same ▸ allocated⟩⟩

theorem child_of_dir (isDir : (volume.nodes inum).type = .dir) : volume.child inum name =
    (findName (volume.entries inum) name).map fun index =>
      (slot (volume.entries inum) index).inum :=
  if_pos isDir

theorem child_of_ne (notDir : (volume.nodes inum).type ≠ .dir) : volume.child inum name = none :=
  if_neg notDir

theorem resolve_cons : volume.resolve start (name :: names) =
    (volume.child start name).bind fun next => volume.resolve next names :=
  rfl

theorem parent_singleton : volume.parent start [name] =
    if (volume.nodes start).type = .dir then some (start, name) else none :=
  rfl

theorem parent_cons (more : names ≠ []) : volume.parent start (name :: names) =
    (volume.child start name).bind fun next => volume.parent next names := by
  obtain ⟨second, rest, rfl⟩ := exists_cons_of_ne_nil more
  rw [parent, dropLast_cons_cons, resolve_cons]
  cases volume.child start name with
  | none => simp
  | some next => rfl

theorem isDir_of_parent {dir : Nat} (found : volume.parent start names = some (dir, name)) :
    (volume.nodes dir).type = .dir := by
  obtain ⟨last, -, found⟩ := bind_eq_some_iff.mp found
  obtain ⟨other, -, found⟩ := bind_eq_some_iff.mp found
  split at found
  · rename_i isDir
    rw [some.injEq, Prod.mk.injEq] at found
    exact found.1 ▸ isDir
  · cases found

/-- Resolving a path is looking its last element up in its parent. -/
theorem resolve_eq_parent (notEmpty : names ≠ []) : volume.resolve start names =
    (volume.parent start names).bind fun found => volume.child found.1 found.2 := by
  induction names generalizing start with
  | nil => exact absurd rfl notEmpty
  | cons name rest ih =>
    by_cases last : rest = []
    · subst last
      rw [parent_singleton, resolve_cons]
      by_cases isDir : (volume.nodes start).type = .dir
      · rw [if_pos isDir]
        exact bind_fun_some (volume.child start name)
      · rw [if_neg isDir, child_of_ne isDir]
        rfl
    · rw [parent_cons last, bind_assoc]
      exact bind_congr fun next _ => ih last

end Volume

/-! ## Walking along a path -/

/-- A file tree that no system call is at work on: directories are made up of whole entries,
and an inode without links is in use.  An entry may lead to a free inode: that of `..` in a
removed directory does, once the parent has been removed as well. -/
structure Tree (fs : Fs) : Prop where
  sound : Sound fs
  whole : Whole fs
  unlocked : ∀ ip, (fs.icache ip).locked = false
  aligned : ∀ inum, (fs.inodes inum).type = .dir → direntSize ∣ (fs.inodes inum).size
  kept : ∀ inum, (fs.inodes inum).type ≠ .free → (fs.inodes inum).nlink = 0 →
    ∃ ip, 0 < (fs.icache ip).ref ∧ (fs.icache ip).inum = inum

/-- The state of a walk: the references that the walk has taken, and the lock that it holds. -/
structure Walking (fs : Fs) (held : List Islot) (lock : Option Islot) (now : Fs) : Prop where
  ops : Ops fs now
  volume : now.volume = fs.volume
  ref : ∀ ip, (now.icache ip).ref = (fs.icache ip).ref + held.count ip
  slots : ∀ ip, 0 < (fs.icache ip).ref → (now.icache ip).inum = (fs.icache ip).inum
  locked : ∀ ip, (now.icache ip).locked = decide (lock = some ip)

variable {fs now target : Fs} {ip dp : Islot} {held : List Islot} {lock : Option Islot} {inum : Nat}
  {name : List Byte}

/-- A walk stops only for lack of slots: at most one slot of the cache was free. -/
def NoInodes (fs : Fs) (reason : FsStop) : Prop :=
  reason = .panic "iget: no inodes" ∧
    ∀ first second, (fs.icache first).ref = 0 → (fs.icache second).ref = 0 → first = second

/-- A walk stops for lack of slots, or at a free inode. -/
def Stops (fs : Fs) (allocated : Prop) (reason : FsStop) : Prop :=
  NoInodes fs reason ∨ reason = .panic "ilock: no type" ∧ ¬allocated

theorem Tree.walking (tree : Tree fs) : Walking fs [] none fs where
  ops := .refl
  volume := rfl
  ref := by simp
  slots := fun _ _ => rfl
  locked := by simpa using tree.unlocked

namespace Walking

section

variable (walking : Walking fs held lock now)

include walking

theorem sound (tree : Tree fs) : Sound now :=
  tree.sound.ops walking.ops

theorem whole (tree : Tree fs) : Whole now :=
  tree.whole.ops tree.sound walking.ops

theorem inodes : now.inodes = fs.inodes :=
  congrArg Volume.nodes walking.volume

/-- A slot to which the walk has a reference is in use. -/
theorem used (tree : Tree fs) (member : ip ∈ held) : 0 < (now.icache ip).ref := by
  have positive : 0 < held.count ip := count_pos_iff.mpr member
  have nonneg := tree.sound.nonneg ip
  rw [walking.ref]
  omega

end

theorem isLocked (walking : Walking fs held (some ip) now) : (now.icache ip).locked = true := by
  simp [walking.locked]

theorem isUnlocked (walking : Walking fs held none now) : (now.icache ip).locked = false := by
  simp [walking.locked]

variable {change : Inode → Inode}

/-- A change of a slot that keeps its inode number. -/
theorem inum_setInode (inum : (change (now.icache ip)).inum = (now.icache ip).inum)
    (other : Islot) :
    ((now.setInode ip change).icache other).inum = (now.icache other).inum := by
  by_cases same : other = ip
  · rw [same, icache_setInode_self, inum]
  · rw [icache_setInode_of_ne same]

section

variable (walking : Walking fs held lock now)

include walking

/-- One more reference to a slot. -/
theorem take (op : Op now target) (volume : target.volume = now.volume)
    (others : ∀ other ≠ ip, target.icache other = now.icache other)
    (ref : (target.icache ip).ref = (now.icache ip).ref + 1)
    (inum : 0 < (now.icache ip).ref → (target.icache ip).inum = (now.icache ip).inum)
    (locked : (target.icache ip).locked = (now.icache ip).locked) :
    Walking fs (ip :: held) lock target := by
  refine ⟨.tail walking.ops op, volume.trans walking.volume, fun other => ?_, fun other used => ?_,
    fun other => ?_⟩
  · by_cases same : other = ip
    · rw [same, ref, walking.ref, count_cons_self]
      omega
    · rw [others other same, walking.ref, count_cons_of_ne (Ne.symm same)]
  · by_cases same : other = ip
    · subst same
      have positive : 0 < (now.icache other).ref := by
        rw [walking.ref]
        omega
      rw [inum positive, walking.slots other used]
    · rw [others other same, walking.slots other used]
  · by_cases same : other = ip
    · rw [same, locked, walking.locked]
    · rw [others other same, walking.locked]

/-- All slots are in use, and the walk has at most one of them. -/
theorem crowded (few : held.length ≤ 1) (full : ∀ ip, (now.icache ip).ref ≠ 0)
    (first second : Islot) (firstFree : (fs.icache first).ref = 0)
    (secondFree : (fs.icache second).ref = 0) : first = second := by
  have taken ip (free : (fs.icache ip).ref = 0) : ip ∈ held := by
    have ref := walking.ref ip
    have busy := full ip
    exact count_pos_iff.mp (by omega)
  have firstTaken := taken first firstFree
  have secondTaken := taken second secondFree
  cases held with
  | nil => cases firstTaken
  | cons ip rest =>
    obtain rfl : rest = [] := eq_nil_of_length_eq_zero (by simpa using few)
    rw [mem_singleton.mp firstTaken, mem_singleton.mp secondTaken]

/-- `iget` takes a reference to the inode. -/
theorem iget (few : held.length ≤ 1)
    (op : ∀ ip target, Runs (FileSystem.iget rootdev inum) now ip target → Op now target) :
    Ensures (NoInodes fs) (FileSystem.iget rootdev inum) now fun ip target =>
      Walking fs (ip :: held) lock target ∧ (target.icache ip).inum = inum := by
  rw [ensures_iff]
  refine ⟨fun reason failed => ?_, fun ip target got => ?_⟩
  · obtain ⟨reason_eq, full⟩ := noSlot_of_fails failed
    exact ⟨reason_eq, walking.crowded few full.2⟩
  obtain ⟨inum_eq, volume_eq⟩ := volume_of_iget got
  refine ⟨?_, inum_eq⟩
  have isOp := op ip target got
  rcases runs_iget got with ⟨used, -, -, rfl⟩ | ⟨-, unused, rfl⟩
  · exact walking.take isOp volume_eq (fun other ne => icache_setInode_of_ne ne _) (by simp)
      (by simp) (by simp)
  · refine walking.take isOp volume_eq (fun other ne => icache_setInode_of_ne ne _) ?_ ?_ ?_
    · simp [unused]
    · omega
    · simp

/-- The lock of a slot is taken or released. -/
theorem relock (op : Op now target) {lock' : Option Islot}
    (target_eq : target = now.setInode ip change)
    (ref : (change (now.icache ip)).ref = (now.icache ip).ref)
    (inum : (change (now.icache ip)).inum = (now.icache ip).inum)
    (locked : (change (now.icache ip)).locked = decide (lock' = some ip))
    (others : ∀ other ≠ ip, (lock = some other ↔ lock' = some other)) :
    Walking fs held lock' target := by
  subst target_eq
  refine ⟨.tail walking.ops op, walking.volume, fun other => ?_, fun other used => ?_,
    fun other => ?_⟩
  · by_cases same : other = ip
    · rw [same, icache_setInode_self, ref, walking.ref]
    · rw [icache_setInode_of_ne same, walking.ref]
  · rw [← walking.slots other used]
    exact inum_setInode inum other
  · by_cases same : other = ip
    · rw [same, icache_setInode_self, locked]
    · rw [icache_setInode_of_ne same, walking.locked]
      exact decide_eq_decide.mpr (others other same)

end

/-- The walk locks a slot it has a reference to. -/
theorem ilock (walking : Walking fs held none now) (tree : Tree fs) (member : ip ∈ held)
    (typed : (fs.inodes (now.icache ip).inum).type ≠ .free) :
    ∃ target, Runs (FileSystem.ilock ip) now () target ∧ Walking fs held (some ip) target ∧
      (target.icache ip).inum = (now.icache ip).inum ∧ (target.icache ip).valid = true ∧
      (target.icache ip).toDinode = fs.inodes (now.icache ip).inum := by
  have used := walking.used tree member
  have others other (ne : other ≠ ip) :
      ((none : Option Islot) = some other ↔ some ip = some other) := by
    simp [Ne.symm ne]
  cases valid : (now.icache ip).valid with
  | true =>
    have locks : Runs (FileSystem.ilock ip) now () _ :=
      runs_ilock.mpr ⟨used, walking.isUnlocked, .inl ⟨valid, rfl⟩⟩
    refine ⟨_, locks, walking.relock (.lock ip locks) rfl rfl rfl (by simp) others, ?_⟩
    rw [icache_setInode_self, ← walking.inodes]
    exact ⟨rfl, valid, (walking.whole tree).clean ip used valid⟩
  | false =>
    have locks : Runs (FileSystem.ilock ip) now () _ :=
      runs_ilock.mpr ⟨used, walking.isUnlocked, .inr ⟨valid, walking.inodes ▸ typed, rfl⟩⟩
    refine ⟨_, locks, walking.relock (.lock ip locks) rfl rfl rfl (by simp) others, ?_⟩
    rw [icache_setInode_self, ← walking.inodes]
    exact ⟨rfl, rfl, rfl⟩

/-- The walk stops at a free inode: the cache has no valid copy of it. -/
theorem ilock_free (walking : Walking fs held none now) (tree : Tree fs) (member : ip ∈ held)
    (free : (fs.inodes (now.icache ip).inum).type = .free) :
    Ensures (· = .panic "ilock: no type") (FileSystem.ilock ip) now fun _ _ => False := by
  have used := walking.used tree member
  have invalid : (now.icache ip).valid = false := by
    by_contra valid
    obtain ⟨typed, notFree⟩ := (walking.sound tree).typed ip used (by simpa using valid)
    rw [walking.inodes, free] at typed
    exact notFree typed.symm
  have used' : 1 ≤ (now.icache ip).ref := used
  unfold FileSystem.ilock
  simp [ensures_bind, ensures_ensure, ensures_update, ensures_reading,
    ensures_whenever, used', walking.isUnlocked, invalid, walking.inodes, free]

/-- The walk unlocks the slot. -/
theorem iunlock (walking : Walking fs held (some ip) now) (tree : Tree fs) (member : ip ∈ held) :
    ∃ target, Runs (FileSystem.iunlock ip) now () target ∧ Walking fs held none target ∧
      ∀ other, (target.icache other).inum = (now.icache other).inum := by
  have unlocks : Runs (FileSystem.iunlock ip) now () _ :=
    runs_iunlock.mpr ⟨walking.isLocked, walking.used tree member, rfl⟩
  refine ⟨_, unlocks, walking.relock (.unlock ip unlocks) rfl rfl rfl (by simp) ?_, ?_⟩
  · intro other ne
    simp [Ne.symm ne]
  · exact inum_setInode rfl

/-- The walk gives a reference back. -/
theorem iput (walking : Walking fs (ip :: held) none now) (tree : Tree fs) :
    ∃ target, Runs (FileSystem.iput ip) now () target ∧ Walking fs held none target ∧
      ∀ other, (target.icache other).inum = (now.icache other).inum := by
  have used := walking.used tree mem_cons_self
  have sound := walking.sound tree
  -- an inode without links is in use elsewhere, so this is not its last reference
  have kept : ¬((now.icache ip).ref = 1 ∧ (now.icache ip).valid = true ∧
      (now.icache ip).nlink = 0) := by
    rintro ⟨last, valid, unlinked⟩
    have clean := (walking.whole tree).clean ip used valid
    have typed := (sound.typed ip used valid).2
    rw [clean, walking.inodes] at typed unlinked
    obtain ⟨other, otherUsed, other_eq⟩ := tree.kept _ typed unlinked
    have count := walking.ref ip
    rw [count_cons_self] at count
    have ref_other := walking.ref other
    have same : other = ip := sound.distinct other ip (by omega) used
      ((walking.slots other otherUsed).trans other_eq)
    subst same
    omega
  have puts := runs_iput_of_kept kept
  refine ⟨_, puts, ⟨.tail walking.ops (.put ip used (by simp [walking.isUnlocked]) puts),
    walking.volume, fun other => ?_, fun other used => ?_, fun other => ?_⟩, inum_setInode rfl⟩
  · by_cases same : other = ip
    · have ref := walking.ref ip
      rw [count_cons_self] at ref
      rw [same, icache_setInode_self]
      simp only
      omega
    · rw [icache_setInode_of_ne same, walking.ref, count_cons_of_ne (Ne.symm same)]
  · rw [← walking.slots other used]
    exact inum_setInode rfl other
  · by_cases same : other = ip
    · rw [same, icache_setInode_self, walking.locked]
    · rw [icache_setInode_of_ne same, walking.locked]

/-- The references of a walk have no order. -/
theorem perm {others : List Islot} (walking : Walking fs held lock now) (same : held.Perm others) :
    Walking fs others lock now :=
  { walking with ref := fun ip => by rw [walking.ref, same.count_eq] }

theorem iunlockput (walking : Walking fs (ip :: held) (some ip) now) (tree : Tree fs) :
    ∃ target, Runs (FileSystem.iunlockput ip) now () target ∧ Walking fs held none target ∧
      ∀ other, (target.icache other).inum = (now.icache other).inum := by
  obtain ⟨middle, unlocks, walking, inum_eq⟩ := walking.iunlock tree mem_cons_self
  obtain ⟨target, puts, walking, inum_eq'⟩ := walking.iput tree
  exact ⟨target, runs_bind.mpr ⟨(), middle, unlocks, puts⟩, walking,
    fun other => (inum_eq' other).trans (inum_eq other)⟩

/-- The directory that the walk has locked. -/
theorem dirFile (walking : Walking fs held (some ip) now) (tree : Tree fs) (member : ip ∈ held)
    (isDir : (fs.inodes (now.icache ip).inum).type = .dir) :
    DirFile now ip ∧ now.entries ip = fs.volume.entries (now.icache ip).inum := by
  have used := walking.used tree member
  have valid := (walking.sound tree).valid walking.isLocked
  have clean := (walking.whole tree).clean ip used valid
  rw [walking.inodes] at clean
  have isDir' : (now.icache ip).type = .dir := clean ▸ isDir
  refine ⟨⟨(walking.whole tree).byteFile used valid (.inr isDir'), used, isDir', ?_⟩, ?_⟩
  · rw [clean]
    exact tree.aligned _ isDir
  · rw [Fs.entries, walking.volume]
    rfl

/-- The walk looks a name up in the directory it has locked. -/
theorem dirlookup (walking : Walking fs held (some ip) now) (tree : Tree fs) (member : ip ∈ held)
    (few : held.length ≤ 1) (isDir : (fs.inodes (now.icache ip).inum).type = .dir)
    (name : List Byte) :
    Ensures (NoInodes fs) (FileSystem.dirlookup ip name) now fun found target =>
      (found = none ∧ Walking fs held (some ip) target ∧
        fs.volume.child (now.icache ip).inum name = none) ∨
      ∃ next off, found = some (next, off) ∧ Walking fs (next :: held) (some ip) target ∧
        fs.volume.child (now.icache ip).inum name = some (target.icache next).inum := by
  obtain ⟨dir, entries_eq⟩ := walking.dirFile tree member isDir
  have child_eq : fs.volume.child (now.icache ip).inum name = _ := child_of_dir isDir
  rw [← entries_eq] at child_eq
  have dev_eq : (now.icache ip).dev = rootdev := (walking.sound tree).device ip dir.used
  have allowed : ∀ reason, CacheFull now ip name reason → NoInodes fs reason := by
    rintro reason ⟨reason_eq, _, _, full⟩
    exact ⟨reason_eq, walking.crowded few full.2⟩
  refine ((dir.ensures_dirlookup name).allow allowed).mono ?_
  rintro found target - (⟨rfl, rfl, missing⟩ | ⟨next, index, rfl, found, got⟩)
  · refine .inl ⟨rfl, walking, ?_⟩
    rw [child_eq, missing]
    rfl
  · right
    have isMatch := matches_of_findName found
    rw [dev_eq] at got
    have op : ∀ ip' target', Runs (FileSystem.iget rootdev (slot (now.entries ip) index).inum) now
        ip' target' → Op now target' := fun ip' target' ran => .lookup ip ip' "dirlink read"
      (direntSize * index) _ now walking.isLocked dir.isDir
      (dir.readDirent _ (lt_length_of_used isMatch.1)) isMatch.1 (dev_eq ▸ ran)
    obtain ⟨walking', inum_eq⟩ := (walking.iget few op).of_runs got
    refine ⟨next, _, rfl, walking', ?_⟩
    rw [child_eq, found, inum_eq]
    rfl

/-- What a walk should find. -/
def expected (parent : Bool) (volume : Volume) (start : Nat) (names : List (List Byte)) :
    Option (Nat × List Byte) :=
  if parent then volume.parent start names
  else (volume.resolve start names).map fun inum => (inum, [])

/-- A walk is over: it has a reference to what it has found, and to nothing else. -/
def Arrived (fs : Fs) (expected : Option (Nat × List Byte)) (found : Option (Islot × List Byte))
    (target : Fs) : Prop :=
  Walking fs (found.toList.map Prod.fst) none target ∧
    found.map (fun hit => ((target.icache hit.1).inum, hit.2)) = expected

variable {parent : Bool}

theorem expected_of_child_none {names : List (List Byte)}
    (goesOn : ¬(parent = true ∧ names = []) ∨ (fs.inodes inum).type ≠ .dir)
    (missing : fs.volume.child inum name = none) :
    expected parent fs.volume inum (name :: names) = none := by
  unfold expected
  cases parent with
  | false =>
    rw [resolve_cons, missing]
    rfl
  | true =>
    by_cases last : names = []
    · subst last
      exact if_neg (goesOn.resolve_left fun more => more ⟨rfl, rfl⟩)
    · rw [parent_cons last, missing]
      rfl

theorem expected_of_child_some {names : List (List Byte)} {next : Nat}
    (goesOn : ¬(parent = true ∧ names = [])) (found : fs.volume.child inum name = some next) :
    expected parent fs.volume inum (name :: names) = expected parent fs.volume next names := by
  unfold expected
  cases parent with
  | false =>
    rw [resolve_cons, found]
    rfl
  | true =>
    have last : names ≠ [] := fun last => goesOn ⟨rfl, last⟩
    rw [parent_cons last, found]
    rfl

/-- The loop of `namex`. -/
theorem walk (tree : Tree fs) (parent : Bool) (names : List (List Byte))
    (walking : Walking fs [ip] none now) :
    Ensures (Stops fs (fs.volume.Allocated (now.icache ip).inum names))
      (FileSystem.walk parent ip names) now fun found target =>
        fs.volume.Allocated (now.icache ip).inum names ∧
          Arrived fs (expected parent fs.volume (now.icache ip).inum names) found target := by
  induction names generalizing now ip with
  | nil =>
    cases parent with
    | false =>
      rw [FileSystem.walk, if_neg (by simp), ensures_pure]
      exact ⟨trivial, walking, rfl⟩
    | true =>
      obtain ⟨target, puts, walking, -⟩ := walking.iput tree
      rw [FileSystem.walk, if_pos rfl, ensures_bind, ensures_iff_of_runs puts, ensures_pure]
      exact ⟨trivial, walking, rfl⟩
  | cons name rest ih =>
    by_cases typed : (fs.inodes (now.icache ip).inum).type = .free
    · rw [FileSystem.walk, ensures_bind]
      refine ((walking.ilock_free tree mem_cons_self typed).allow fun reason reason_eq =>
        .inr ⟨reason_eq, fun allocated => allocated.1 typed⟩).mono ?_
      exact fun _ _ _ impossible => impossible.elim
    obtain ⟨locked, locks, walking, inum_eq, -, node_eq⟩ :=
      walking.ilock tree mem_cons_self typed
    rw [FileSystem.walk, ensures_bind, ensures_iff_of_runs locks, ensures_bind,
      ensures_reading, node_eq]
    rw [← inum_eq] at typed ⊢
    by_cases isDir : (fs.inodes (locked.icache ip).inum).type = .dir
    · rw [if_neg (by simpa using isDir)]
      by_cases stop : parent = true ∧ rest = []
      · obtain ⟨target, unlocks, walking, inum_eq⟩ := walking.iunlock tree mem_cons_self
        obtain ⟨rfl, rfl⟩ := stop
        rw [if_pos ⟨rfl, rfl⟩, ensures_bind, ensures_iff_of_runs unlocks, ensures_pure]
        refine ⟨⟨typed, fun _ _ => trivial⟩, walking, ?_⟩
        rw [← inum_eq ip]
        exact (if_pos (inum_eq ip ▸ isDir)).symm
      rw [if_neg stop]
      refine ((walking.dirlookup tree mem_cons_self (Nat.le_refl 1) isDir name).allow
        fun _ => .inl).bind ?_
      rintro found middle (⟨rfl, walking, missing⟩ | ⟨next, off, rfl, walking, found⟩)
      · obtain ⟨target, puts, walking, -⟩ := walking.iunlockput tree
        rw [ensures_bind, ensures_iff_of_runs puts]
        exact ⟨allocated_of_child_none typed missing, walking,
          (expected_of_child_none (.inl stop) missing).symm⟩
      · obtain ⟨target, puts, walking, inum_eq⟩ :=
          (walking.perm (.swap ip next [])).iunlockput tree
        rw [ensures_bind, ensures_iff_of_runs puts, expected_of_child_some stop found,
          allocated_cons_iff typed found, ← inum_eq next]
        exact ih walking
    · rw [if_pos isDir, ensures_bind]
      obtain ⟨target, puts, walking, -⟩ := walking.iunlockput tree
      rw [ensures_iff_of_runs puts, ensures_pure]
      exact ⟨allocated_of_child_none typed (child_of_ne isDir), walking,
        (expected_of_child_none (.inr isDir) (child_of_ne isDir)).symm⟩

end Walking

/-! ## Names -/

/-- The inode where a path starts. -/
def startInum (fs : Fs) (cwd : Islot) (path : List Byte) : Nat :=
  if path.head? = some slash then rootino else (fs.icache cwd).inum

/-- Every inode that the path leads through is allocated. -/
def Sturdy (fs : Fs) (cwd : Islot) (path : List Byte) : Prop :=
  fs.volume.Allocated (startInum fs cwd path) (comps (path.takeWhile (· ≠ 0)))

variable {cwd : Islot}

/-- The first reference of a walk. -/
theorem Tree.startOf (tree : Tree fs) (used : 0 < (fs.icache cwd).ref) (path : List Byte) :
    Ensures (NoInodes fs) (startOf cwd path) fs fun ip target =>
      Walking fs [ip] none target ∧ (target.icache ip).inum = startInum fs cwd path := by
  unfold FileSystem.startOf startInum
  split
  · exact tree.walking.iget (Nat.zero_le 1) fun ip target ran => .root ip ran
  · have dups : Runs (idup cwd) fs cwd _ := runs_idup.mpr ⟨rfl, rfl⟩
    rw [ensures_iff_of_runs dups]
    refine ⟨tree.walking.take (.dup cwd cwd used dups) rfl
      (fun other ne => icache_setInode_of_ne ne _) ?_ ?_ ?_, ?_⟩
    all_goals simp

/-- `namex` follows the elements of the path. -/
theorem Tree.namex (tree : Tree fs) (used : 0 < (fs.icache cwd).ref) (parent : Bool)
    (path : List Byte) :
    Ensures (Stops fs (Sturdy fs cwd path)) (namex cwd parent path) fs fun found target =>
      Sturdy fs cwd path ∧ Walking.Arrived fs (Walking.expected parent fs.volume
        (startInum fs cwd path) (comps (path.takeWhile (· ≠ 0)))) found target := by
  unfold FileSystem.namex
  rw [ensures_bind, elements_eq]
  refine ((tree.startOf used path).allow fun _ => .inl).mono ?_
  rintro ip middle - ⟨walking, inum_eq⟩
  rw [Sturdy, ← inum_eq]
  exact Walking.walk tree parent _ walking

/-- `dirlookup` in a directory under its lock, which is given back. -/
def lookupIn (dp : Islot) (name : List Byte) : FsM (Option Islot) := do
  ilock dp
  let next ← dirlookup dp name
  iunlockput dp
  pure (next.map Prod.fst)

/-- `dirlookup` of the last element of a path in the directory that `nameiparent` returns. -/
def lookupLast (cwd : Islot) (path : List Byte) : FsM (Option Islot) := do
  let found ← nameiparent cwd path
  match found with
  | none => pure none
  | some (dp, name) => lookupIn dp name

/-- The inode with a number has been found: there is one more reference to it, and nothing else
has changed. -/
def Found (fs : Fs) (inum : Option Nat) (found : Option Islot) (target : Fs) : Prop :=
  Walking fs found.toList none target ∧ found.map (fun ip => (target.icache ip).inum) = inum

theorem Walking.lookupIn (walking : Walking fs [dp] none now) (tree : Tree fs)
    (isDir : (fs.inodes (now.icache dp).inum).type = .dir) (name : List Byte) :
    Ensures (NoInodes fs) (FileSystem.lookupIn dp name) now
      (Found fs (fs.volume.child (now.icache dp).inum name)) := by
  unfold FileSystem.lookupIn
  obtain ⟨locked, locks, walking, inum_eq, -, -⟩ :=
    walking.ilock tree mem_cons_self (by rw [isDir]; decide)
  rw [ensures_bind, ensures_iff_of_runs locks, ensures_bind, ← inum_eq]
  refine (walking.dirlookup tree mem_cons_self (Nat.le_refl 1) (inum_eq ▸ isDir) name).mono ?_
  rintro found middle - (⟨rfl, walking, missing⟩ | ⟨next, off, rfl, walking, found⟩)
  · obtain ⟨target, puts, walking, -⟩ := walking.iunlockput tree
    rw [ensures_bind, ensures_iff_of_runs puts, ensures_pure]
    exact ⟨walking, missing.symm⟩
  · obtain ⟨target, puts, walking, inum_eq'⟩ :=
      (walking.perm (.swap dp next [])).iunlockput tree
    rw [ensures_bind, ensures_iff_of_runs puts, ensures_pure]
    refine ⟨walking, ?_⟩
    rw [found, ← inum_eq' next]
    rfl

/-- Path resolution is a fold over the elements of the path. -/
structure Folds (fs : Fs) (cwd : Islot) (path : List Byte) : Prop where
  namei : Ensures (NoInodes fs) (namei cwd path) fs (Found fs (fs.volume.resolve
    (startInum fs cwd path) (comps (path.takeWhile (· ≠ 0)))))
  nameiparent : Ensures (NoInodes fs) (nameiparent cwd path) fs (Walking.Arrived fs
    (fs.volume.parent (startInum fs cwd path) (comps (path.takeWhile (· ≠ 0)))))
  last : comps (path.takeWhile (· ≠ 0)) ≠ [] →
    Ensures (NoInodes fs) (lookupLast cwd path) fs (Found fs (fs.volume.resolve
      (startInum fs cwd path) (comps (path.takeWhile (· ≠ 0)))))

theorem Tree.namei (tree : Tree fs) (used : 0 < (fs.icache cwd).ref) (path : List Byte) :
    Ensures (Stops fs (Sturdy fs cwd path)) (namei cwd path) fs fun found target =>
      Sturdy fs cwd path ∧ Found fs (fs.volume.resolve (startInum fs cwd path)
        (comps (path.takeWhile (· ≠ 0)))) found target := by
  unfold FileSystem.namei
  refine (tree.namex used false path).bind ?_
  rintro found target ⟨sturdy, walking, found_eq⟩
  rw [ensures_pure]
  have inum_eq := congrArg (Option.map Prod.fst) found_eq
  rw [Walking.expected, if_neg (by simp), Option.map_map, Option.map_map] at inum_eq
  refine ⟨sturdy, ?_, ?_⟩
  · cases found <;> exact walking
  · rw [Option.map_map]
    exact inum_eq.trans (congrFun Option.map_id _)

theorem folds_of_sturdy (tree : Tree fs) (used : 0 < (fs.icache cwd).ref)
    (sturdy : Sturdy fs cwd path) : Folds fs cwd path := by
  have stops : ∀ reason, Stops fs (Sturdy fs cwd path) reason → NoInodes fs reason :=
    fun _ stopped => stopped.resolve_right fun dangling => dangling.2 sturdy
  have parent := ((tree.namex used true path).allow stops).mono fun _ _ _ walked => walked.2
  refine ⟨((tree.namei used path).allow stops).mono fun _ _ _ walked => walked.2, parent,
    fun notEmpty => ?_⟩
  rw [resolve_eq_parent notEmpty]
  unfold lookupLast
  rw [ensures_bind]
  refine Ensures.mono parent ?_
  rintro found target - ⟨walking, found_eq⟩
  rw [Walking.expected, if_pos rfl] at found_eq
  rw [← found_eq]
  cases found with
  | none => exact ⟨walking, rfl⟩
  | some hit => exact walking.lookupIn tree (isDir_of_parent found_eq.symm) hit.2

/-- Path resolution is the fold if every inode that the path leads through is allocated, and
with two free slots in the cache only then. -/
theorem folds_iff_sturdy (tree : Tree fs) {cwd : Islot} (used : 0 < (fs.icache cwd).ref)
    (path : List Byte) :
    (Sturdy fs cwd path → Folds fs cwd path) ∧
      ∀ first second, first ≠ second → (fs.icache first).ref = 0 → (fs.icache second).ref = 0 →
        (Folds fs cwd path ↔ Sturdy fs cwd path) := by
  refine ⟨folds_of_sturdy tree used, fun first second ne firstFree secondFree =>
    ⟨fun folds => ?_, folds_of_sturdy tree used⟩⟩
  obtain ⟨-, walked⟩ := ensures_iff.mp (tree.namei used path)
  rcases runs_or_fails (namei cwd path) fs with ⟨found, target, ran⟩ | ⟨reason, failed⟩
  · exact (walked found target ran).1
  · have crowded := (ensures_iff.mp folds.namei).1 reason failed
    exact absurd (crowded.2 first second firstFree secondFree) ne

/-! ## The empty image -/

/-- The file tree of the empty image: a root directory. -/
theorem tree_boot : Tree (boot emptyImage).fs := by
  have only inum (typed : ((boot emptyImage).fs.inodes inum).type ≠ .free) : inum = rootino := by
    by_contra other
    simp [boot, emptyImage, other, Dinode.zero] at typed
  refine ⟨sound_boot emptyImage, whole_boot whole_emptyImage, fun ip => ?_, ?_, ?_⟩
  · by_cases first : ip = 0 <;> simp [boot, first, Inode.zero]
  · intro inum isDir
    rw [only inum (by rw [isDir]; decide)]
    decide
  · intro inum typed unlinked
    rw [only inum typed] at unlinked
    exact absurd unlinked (by decide)

/-- The parent of the root directory is the root directory. -/
theorem folds_iff_sturdy_root :
    Sturdy (boot emptyImage).fs 0 [0x2f, 0x2e, 0x2e] ∧ Ensures (NoInodes (boot emptyImage).fs)
      (namei 0 [0x2f, 0x2e, 0x2e]) (boot emptyImage).fs (Found (boot emptyImage).fs (some 1)) := by
  have resolved : (boot emptyImage).fs.volume.resolve
      (startInum (boot emptyImage).fs 0 [0x2f, 0x2e, 0x2e])
      (comps (([0x2f, 0x2e, 0x2e] : List Byte).takeWhile (· ≠ 0))) = some 1 := by decide +kernel
  have used : 0 < ((boot emptyImage).fs.icache 0).ref := by decide
  have sturdy : Sturdy (boot emptyImage).fs 0 [0x2f, 0x2e, 0x2e] :=
    ⟨by decide, fun _ _ => trivial⟩
  refine ⟨sturdy, ?_⟩
  rw [← resolved]
  exact ((folds_iff_sturdy tree_boot used _).1 sturdy).namei

/-- A process makes `/a/b`, changes to it and removes it, and then removes `/a`. -/
def removedParent : List Event :=
  [.mkdir (some [0x2f, 0x61]), .mkdir (some [0x2f, 0x61, 0x2f, 0x62]),
    .chdir (some [0x2f, 0x61, 0x2f, 0x62]), .unlink (some [0x2f, 0x61, 0x2f, 0x62]),
    .unlink (some [0x2f, 0x61])].map (⟨initproc, ·⟩)

/-- The entry `..` of the removed directory leads to a free inode, and `namei` of `../x` locks
it. -/
theorem not_folds_removedParent :
    ∃ kernel ∈ run step (boot emptyImage) removedParent, ∃ cwd ∈ (kernel.procs initproc).cwd,
      kernel.fs.volume.resolve (startInum kernel.fs cwd [0x2e, 0x2e, 0x2f, 0x78])
        (comps [0x2e, 0x2e, 0x2f, 0x78]) = none ∧
      Fails (namei cwd [0x2e, 0x2e, 0x2f, 0x78]) kernel.fs (.panic "ilock: no type") := by
  decide +kernel

/-! ## Paths of two parts -/

theorem comps_append_slash (p q : List Byte) : comps (p ++ slash :: q) = comps p ++ comps q := by
  simp [comps, splitOn_append_cons_self]

/-- The path `p/q` leads to where `q` leads from the inode that `p` leads to. -/
theorem namex_append (tree : Tree fs) (used : 0 < (fs.icache cwd).ref) {p q : List Byte}
    (notEmpty : p ≠ []) (nonzero : 0 ∉ p ++ slash :: q) :
    Ensures (Stops fs (Sturdy fs cwd (p ++ slash :: q))) (namex cwd false (p ++ slash :: q)) fs
      (Walking.Arrived fs ((fs.volume.resolve (startInum fs cwd p) (comps p)).bind fun inum =>
        Walking.expected false fs.volume inum (comps q))) := by
  have start : startInum fs cwd (p ++ slash :: q) = startInum fs cwd p := by
    rw [startInum, head?_append_of_ne_nil _ notEmpty, startInum]
  have all : (p ++ slash :: q).takeWhile (· ≠ 0) = p ++ slash :: q :=
    takeWhile_eq_self_iff.mpr fun byte member => by simpa using ne_of_mem_of_not_mem member nonzero
  refine (tree.namex used false (p ++ slash :: q)).mono ?_
  rintro found target - ⟨-, arrived⟩
  rw [start, all, comps_append_slash, Walking.expected, resolve, foldlM_append] at arrived
  simpa [Walking.expected, resolve, Option.map_bind] using arrived

theorem namex_append_root : Ensures (Stops (boot emptyImage).fs
      (Sturdy (boot emptyImage).fs 0 [slash, slash, 0x2e, 0x2e]))
    (namex 0 false [slash, slash, 0x2e, 0x2e]) (boot emptyImage).fs
    (Walking.Arrived (boot emptyImage).fs (some (1, []))) := by
  have resolved : ((boot emptyImage).fs.volume.resolve (startInum (boot emptyImage).fs 0 [slash])
      (comps [slash])).bind (fun inum => Walking.expected false (boot emptyImage).fs.volume inum
        (comps [0x2e, 0x2e])) = some (1, []) := by decide +kernel
  rw [← resolved]
  exact namex_append tree_boot (by decide) (p := [slash]) (by decide) (by decide)

end Xv6.FileSystem
