import Xv6.FileSystem.ByteArray
import Xv6.FileSystem.References
import Xv6.FileSystem.Truncation

/-!
# The blocks of all inodes over whole runs

Between the operations of a transaction every valid in-core inode agrees with the disk,
the inodes keep distinct data blocks which the free map marks, and a file or directory
has all blocks below its size.  Every operation keeps this, so it holds after any
sequence of system calls, and reading never allocates.
-/

namespace Xv6.FileSystem

open Xv6.Log (Blockno)
open Function Xv6.Transition Fs Dinode
open Prog Volume

variable {fs target : Fs} {ip : Islot}

/-- The inode is a file or directory. -/
def Dinode.HasContents (node : Dinode) : Prop :=
  node.type = .file ∨ node.type = .dir

instance (node : Dinode) : Decidable node.HasContents :=
  inferInstanceAs (Decidable (_ ∨ _))

/-- A disk whose blocks are in order. -/
structure Volume.Whole (sb : Superblock) (volume : Volume) : Prop where
  laid : Laid sb volume
  mapped : ∀ inum, (volume.nodes inum).HasContents → Mapped volume inum

/-- The blocks of the disk are in order, and the valid in-core inodes agree with the disk. -/
structure Whole (fs : Fs) : Prop where
  volume : fs.volume.Whole fs.sb
  clean : ∀ ip, 0 < (fs.icache ip).ref → (fs.icache ip).valid = true →
    (fs.icache ip).toDinode = fs.inodes (fs.icache ip).inum

/-! ## Changes of one inode -/

namespace Volume

variable {sb : Superblock} {volume : Volume} {inum : Nat} {node : Dinode}

/-- An inode gets other labels. -/
def relabel (volume : Volume) (inum : Nat) (node : Dinode) : Volume :=
  { volume with nodes := update volume.nodes inum node }

theorem node_relabel (volume : Volume) (inum : Nat) (node : Dinode) :
    (volume.relabel inum node).nodes inum = node :=
  update_self ..

variable {other : Nat}

theorem node_relabel_of_ne (ne : other ≠ inum) (volume : Volume) (node : Dinode) :
    (volume.relabel inum node).nodes other = volume.nodes other :=
  update_of_ne ne ..

theorem held_relabel_of_ne {key : Nat × BlockPlace} (ne : key.1 ≠ inum) (volume : Volume)
    (node : Dinode) : (volume.relabel inum node).held key = volume.held key := by
  obtain ⟨other, place⟩ := key
  have same : (volume.relabel inum node).nodes other = volume.nodes other :=
    node_relabel_of_ne ne ..
  apply held_eq_of_node
  · rw [same]
  · rw [same]
  · rfl

/-- The blocks of a file depend on what its inode keeps. -/
theorem blockOf_eq_of_held {target : Volume}
    (same : ∀ place, target.held (inum, place) = volume.held (inum, place)) (bn : Nat) :
    target.blockOf inum bn = volume.blockOf inum bn := by
  unfold blockOf
  split
  · rfl
  · exact same _

theorem Mapped.relabel_of_ne (ne : other ≠ inum) (mapped : Mapped volume other) :
    Mapped (volume.relabel inum node) other := by
  intro bn bound
  rw [node_relabel_of_ne ne] at bound
  have same place : (volume.relabel inum node).held (other, place) = volume.held (other, place) :=
    held_relabel_of_ne ne ..
  rw [blockOf_eq_of_held same]
  exact mapped bn bound

/-- The labels and the size of an inode do not matter for the free map. -/
theorem Laid.relabel (laid : Laid sb volume)
    (same : ∀ place, (volume.relabel inum node).held (inum, place) = volume.held (inum, place)) :
    Laid sb (volume.relabel inum node) where
  sound := by
    refine Custody.Marking.congr laid.sound (fun key => ?_) fun _ _ => rfl
    obtain ⟨other, place⟩ := key
    by_cases eq : other = inum
    · subst eq
      exact same place
    · exact held_relabel_of_ne eq ..
  reserved := laid.reserved
  fits := laid.fits

/-- An inode gets other labels, but keeps its type, its size and its blocks. -/
theorem Whole.relabel (whole : volume.Whole sb) (type : node.type = (volume.nodes inum).type)
    (addrs : node.addrs = (volume.nodes inum).addrs) (size : node.size = (volume.nodes inum).size) :
    (volume.relabel inum node).Whole sb := by
  have same : ∀ place, (volume.relabel inum node).held (inum, place) =
      volume.held (inum, place) := by
    apply held_eq_of_node
    · rw [node_relabel, type]
    · rw [node_relabel, addrs]
    · rfl
  refine ⟨whole.laid.relabel same, ?_⟩
  intro other contents
  by_cases eq : other = inum
  · subst eq
    rw [node_relabel, HasContents, type] at contents
    intro bn bound
    rw [node_relabel, size] at bound
    rw [blockOf_eq_of_held same]
    exact whole.mapped other contents bn bound
  · rw [node_relabel_of_ne eq] at contents
    exact (whole.mapped other contents).relabel_of_ne eq

/-- A free inode without contents becomes one of any type without blocks, and the other
way round. -/
theorem Whole.retype (whole : volume.Whole sb) (empty : ∀ place, volume.held (inum, place) = 0)
    (still : ∀ place, (volume.relabel inum node).held (inum, place) = 0)
    (size : node.size = 0) : (volume.relabel inum node).Whole sb := by
  refine ⟨whole.laid.relabel fun place => by rw [still, empty], ?_⟩
  intro other contents
  by_cases eq : other = inum
  · subst eq
    intro bn bound
    rw [node_relabel] at bound
    omega
  · rw [node_relabel_of_ne eq] at contents
    exact (whole.mapped other contents).relabel_of_ne eq

theorem Whole.discard (whole : volume.Whole sb) (inum : Nat) : (volume.discard inum).Whole sb := by
  refine ⟨whole.laid.discard inum, ?_⟩
  intro other contents
  by_cases eq : other = inum
  · subst eq
    intro bn bound
    simp [Volume.discard] at bound
  have node : (volume.discard inum).nodes other = volume.nodes other := update_of_ne eq ..
  rw [node] at contents
  intro bn bound
  rw [node] at bound
  rw [blockOf_discard eq]
  exact whole.mapped other contents bn bound

end Volume

/-! ## Operations -/

/-- The last reference to an inode without links is dropped: its blocks and the inode
become free. -/
def Fs.freed (fs : Fs) (ip : Islot) : Fs :=
  { fs with
    inodes := update fs.inodes (fs.icache ip).inum
      { (fs.icache ip).toDinode with type := .free, size := 0, addrs := fun _ => 0 }
    bitmap := (fs.volume.discard (fs.icache ip).inum).bitmap
    icache := update fs.icache ip
      { fs.icache ip with
        type := .free, size := 0, addrs := fun _ => 0, valid := false,
        ref := (fs.icache ip).ref - 1 } }

theorem Fs.volume_freed (fs : Fs) (ip : Islot) :
    (fs.freed ip).volume = (fs.volume.discard (fs.icache ip).inum).relabel (fs.icache ip).inum
      { (fs.icache ip).toDinode with type := .free, size := 0, addrs := fun _ => 0 } := by
  simp [Fs.freed, volume, Volume.discard, relabel]

/-- A locked inode without contents is a device. -/
theorem Sound.isDev (sound : Sound fs) (locked : (fs.icache ip).locked = true)
    (noContents : ¬(fs.icache ip).HasContents) : (fs.icache ip).type = .dev := by
  have notFree := (sound.typed ip (sound.used locked) (sound.valid locked)).2
  cases type : (fs.icache ip).type with
  | free => exact absurd type notFree
  | dir => exact absurd (.inr type) noContents
  | file => exact absurd (.inl type) noContents
  | dev => rfl

namespace Whole

variable {change : Inode → Inode}

/-- A change of one slot of the cache. -/
theorem setInode (whole : Whole fs)
    (clean : 0 < (change (fs.icache ip)).ref → (change (fs.icache ip)).valid = true →
      (change (fs.icache ip)).toDinode = fs.inodes (change (fs.icache ip)).inum) :
    Whole (fs.setInode ip change) := by
  refine ⟨whole.volume, fun other => ?_⟩
  by_cases eq : other = ip
  · rw [eq, icache_setInode_self]
    exact clean
  · rw [icache_setInode_of_ne eq]
    exact whole.clean other

theorem iget (whole : Whole fs) {dev inum : Nat} (ran : Runs (iget dev inum) fs ip target) :
    Whole target := by
  rcases runs_iget ran with ⟨used, -, -, rfl⟩ | ⟨-, -, rfl⟩
  · exact whole.setInode fun _ => whole.clean ip used
  · exact whole.setInode (by simp)

theorem idup (whole : Whole fs) {result : Islot} (used : 1 ≤ (fs.icache ip).ref)
    (ran : Runs (idup ip) fs result target) : Whole target := by
  obtain ⟨-, rfl⟩ := runs_idup.mp ran
  exact whole.setInode fun _ => whole.clean ip used

variable {value : Unit}

section

variable (whole : Whole fs)
include whole

theorem ilock (ran : Runs (ilock ip) fs value target) : Whole target := by
  obtain ⟨used, -, ⟨valid, rfl⟩ | ⟨-, -, rfl⟩⟩ := runs_ilock.mp ran
  · exact whole.setInode fun _ => whole.clean ip used
  · exact whole.setInode fun _ _ => rfl

theorem iunlock (ran : Runs (iunlock ip) fs value target) : Whole target := by
  obtain ⟨-, used, rfl⟩ := runs_iunlock.mp ran
  exact whole.setInode fun _ => whole.clean ip used

/-- A dinode is stored that no other valid inode is a copy of. -/
theorem setDinode {inum : Nat} {node : Dinode} (volume : (fs.volume.relabel inum node).Whole fs.sb)
    (clean : ∀ other, 0 < (fs.icache other).ref → (fs.icache other).valid = true →
      (fs.icache other).inum = inum → (fs.icache other).toDinode = node) :
    Whole (fs.setDinode inum node) := by
  refine ⟨volume, fun other used valid => ?_⟩
  by_cases eq : (fs.icache other).inum = inum
  · rw [icache_setDinode, clean other used valid eq, eq, inodes_setDinode_self]
  · rw [icache_setDinode, inodes_setDinode_of_ne eq]
    exact whole.clean other used valid

/-- The file in a slot that is locked. -/
theorem byteFile (used : 0 < (fs.icache ip).ref) (valid : (fs.icache ip).valid = true)
    (contents : (fs.icache ip).HasContents) : ByteFile fs ip := by
  have clean := whole.clean ip used valid
  have onDisk : (fs.inodes (fs.icache ip).inum).HasContents := clean ▸ contents
  exact ⟨whole.volume.laid, contents, clean, whole.volume.mapped _ onDisk⟩

/-- An inode that has been locked is a copy of the one on the disk. -/
theorem locked_eq (ran : Runs (FileSystem.ilock ip) fs value target) :
    0 < (target.icache ip).ref ∧ (target.icache ip).valid = true ∧
      (target.icache ip).locked = true ∧ (target.icache ip).inum = (fs.icache ip).inum ∧
      (target.icache ip).toDinode = fs.inodes (fs.icache ip).inum ∧
      target.sb = fs.sb ∧ target.volume = fs.volume := by
  obtain ⟨used, -, ⟨valid, rfl⟩ | ⟨-, -, rfl⟩⟩ := runs_ilock.mp ran
  · rw [icache_setInode_self]
    exact ⟨used, valid, rfl, rfl, whole.clean ip used valid, rfl, rfl⟩
  · rw [icache_setInode_self]
    exact ⟨used, rfl, rfl, rfl, rfl, rfl, rfl⟩

end

variable {off : Nat}

/-- Reading changes nothing. -/
theorem readi_eq (whole : Whole fs) (sound : Sound fs) (locked : (fs.icache ip).locked = true)
    {input : Option (List Byte)} {n : Nat} {bytes : Option (List Byte)}
    (ran : Runs (readi input ip off n) fs bytes target) : target = fs := by
  by_cases contents : (fs.icache ip).HasContents
  · have file := whole.byteFile (sound.used locked) (sound.valid locked) contents
    exact ((file.readi input off n).unique ran).2.symm
  unfold readi at ran
  simp only [runs_bind, runs_reading] at ran
  obtain ⟨inode, _, ⟨rfl, rfl⟩, ran⟩ := ran
  rw [if_pos (sound.isDev locked contents)] at ran
  split at ran
  · exact eq_of_console (sound.valid locked) ran
  · exact (runs_pure.mp ran).2.symm

variable {src : List Byte} {written : Option Nat}

section

variable (whole : Whole fs)
include whole

section

variable (sound : Sound fs)
include sound

section

variable (locked : (fs.icache ip).locked = true)
include locked

/-- Writing changes nothing or rewrites a file. -/
theorem writei_cases (ran : Runs (writei ip off src) fs written target) :
    target = fs ∨ (ByteFile fs ip ∧ Rewritten ip off src fs target) := by
  by_cases contents : (fs.icache ip).HasContents
  · have file := whole.byteFile (sound.used locked) (sound.valid locked) contents
    have result := (ensures_iff.mp (file.writei off src)).2 written target ran
    split at result
    · exact .inl result.2
    · exact .inr ⟨file, result.2⟩
  left
  unfold writei at ran
  simp only [runs_bind, runs_reading] at ran
  obtain ⟨inode, _, ⟨rfl, rfl⟩, ran⟩ := ran
  rw [if_pos (sound.isDev locked contents)] at ran
  split at ran
  · exact eq_of_console (sound.valid locked) ran
  · exact (runs_pure.mp ran).2.symm

theorem writei
    (ran : Runs (writei ip off src) fs written target) : Whole target := by
  rcases whole.writei_cases sound locked ran with rfl | ⟨file, rewritten⟩
  · exact whole
  · have inum_eq : (target.icache ip).inum = (fs.icache ip).inum := by
      obtain ⟨addrs, inode_eq⟩ := rewritten.inode
      rw [inode_eq]
    refine ⟨⟨rewritten.file.laid, fun inum contents => ?_⟩, fun other used valid => ?_⟩
    · by_cases eq : inum = (fs.icache ip).inum
      · rw [eq, ← inum_eq]
        exact rewritten.file.mapped
      · have node : target.volume.nodes inum = fs.volume.nodes inum := rewritten.nodes inum eq
        rw [node] at contents
        exact (rewritten.others inum eq (whole.volume.mapped inum contents)).2
    · by_cases eq : other = ip
      · rw [eq]
        exact rewritten.file.clean
      · rw [rewritten.slots other eq] at used valid ⊢
        have ne : (fs.icache other).inum ≠ (fs.icache ip).inum := fun same =>
          eq (sound.distinct other ip used (sound.used locked) same)
        rw [rewritten.nodes _ ne]
        exact whole.clean other used valid

theorem modify (relabels : Relabels change) (ran : Runs (modify ip change) fs value target) :
    Whole target := by
  rw [runs_modify] at ran
  obtain ⟨major, minor, nlink, changed⟩ := relabels (fs.icache ip)
  have clean := whole.clean ip (sound.used locked) (sound.valid locked)
  have volume : (fs.volume.relabel (fs.icache ip).inum (change (fs.icache ip)).toDinode).Whole
      fs.sb := by
    have node : fs.volume.nodes (fs.icache ip).inum = (fs.icache ip).toDinode := clean.symm
    refine whole.volume.relabel ?_ ?_ ?_
    all_goals rw [changed, node]
  have inum_eq : (change (fs.icache ip)).inum = (fs.icache ip).inum := by rw [changed]
  rw [ran, inum_eq]
  refine ⟨volume, fun other used valid => ?_⟩
  by_cases eq : other = ip
  · subst eq
    simp [inum_eq]
  rw [icache_setDinode, icache_setInode_of_ne eq] at used valid ⊢
  have ne : (fs.icache other).inum ≠ (fs.icache ip).inum := fun same =>
    eq (sound.distinct other ip used (sound.used locked) same)
  rw [inodes_setDinode_of_ne ne]
  exact whole.clean other used valid

end

theorem ialloc {dev : Nat} {type : FileType}
    (ran : Runs (ialloc dev type) fs ip target) : Whole target := by
  obtain ⟨inum, -, -, free, got⟩ := runs_ialloc ran
  have marked : Whole (fs.setDinode inum (zero type)) := by
    refine whole.setDinode (whole.volume.retype (held_of_free free) ?_ rfl) ?_
    · intro place
      cases place <;> simp [held, numberAt, relabel, zero]
    · intro other used valid inum_eq
      obtain ⟨agrees, notFree⟩ := sound.typed other used valid
      rw [inum_eq, free] at agrees
      exact absurd agrees.symm notFree
  exact marked.iget got

/-- `iput` frees an inode without links with its last reference. -/
theorem iput_eq (used : 1 ≤ (fs.icache ip).ref) (ran : Runs (iput ip) fs value target) :
    target = if (fs.icache ip).ref = 1 ∧ (fs.icache ip).valid = true ∧ (fs.icache ip).nlink = 0
      then fs.freed ip
      else fs.setInode ip fun inode => { inode with ref := inode.ref - 1 } := by
  rcases runs_iput ran with ⟨last, middle, truncated, rfl⟩ | ⟨notLast, rfl⟩
  · have edited : fs.edited ip = fs.volume := edited_eq (whole.clean ip used last.2.1)
    have spec := runs_itrunc (sound.typed ip used last.2.1).2 (edited ▸ whole.volume.laid)
    obtain ⟨-, rfl⟩ := spec.unique truncated
    rw [if_pos last, edited]
    simp [Fs.setInode, Fs.setDinode, Fs.clear]
    rfl
  · rw [if_neg notLast]

theorem freed (ref : (fs.icache ip).ref = 1) :
    Whole (fs.freed ip) := by
  refine ⟨?_, fun other used valid => ?_⟩
  · rw [volume_freed]
    refine (whole.volume.discard _).retype (fun place => ?_) (fun place => ?_) rfl
    · rw [held_discard, if_pos rfl]
    · exact held_of_free (by rw [node_relabel]) place
  · by_cases eq : other = ip
    · rw [eq] at used
      simp [Fs.freed, ref] at used
    · simp only [Fs.freed, update_of_ne eq] at used valid ⊢
      have ne : (fs.icache other).inum ≠ (fs.icache ip).inum := fun same =>
        eq (sound.distinct other ip used (by omega) same)
      rw [update_of_ne ne]
      exact whole.clean other used valid

theorem iput (used : 1 ≤ (fs.icache ip).ref)
    (ran : Runs (iput ip) fs value target) : Whole target := by
  rw [whole.iput_eq sound used ran]
  split
  · rename_i last
    exact whole.freed sound last.1
  · exact whole.setInode fun _ => whole.clean ip used

theorem op (op : Op fs target) : Whole target := by
  cases op with
  | root ip ran => exact whole.iget ran
  | dup ip result used ran => exact whole.idup used ran
  | lock ip ran => exact whole.ilock ran
  | unlock ip ran => exact whole.iunlock ran
  | put ip used shared ran => exact whole.iput sound used ran
  | read ip input off n bytes locked ran => exact whole.readi_eq sound locked ran ▸ whole
  | lookup dp ip message off de middle locked isDir read used ran =>
    obtain ⟨bytes, read, -, -⟩ := runs_readDirent.mp read
    rw [whole.readi_eq sound locked read] at ran
    exact whole.iget ran
  | alloc dp ip type locked typed ran => exact whole.ialloc sound ran
  | relabel ip change locked relabels ran => exact whole.modify sound locked relabels ran
  | write ip off src written locked notDir ran
  | enter dp off bytes written locked aligned entry ran => exact whole.writei sound locked ran

theorem ops (ops : Ops fs target) : Whole target := by
  induction ops with
  | refl => exact whole
  | tail earlier op ih => exact ih.op (sound.ops earlier) op

end

end

end Whole

/-! ## Writing to a file under its lock -/

/-- The file in a slot after some bytes have been written at an offset, with the lock taken
before and released afterwards. -/
structure Stored (ip : Islot) (off : Nat) (src : List Byte) (fs target : Fs) : Prop where
  sound : Sound target
  whole : Whole target
  sb : target.sb = fs.sb
  inum : (target.icache ip).inum = (fs.icache ip).inum
  node : ∃ addrs, target.inodes (fs.icache ip).inum = { fs.inodes (fs.icache ip).inum with
    addrs := addrs, size := max (fs.inodes (fs.icache ip).inum).size (off + src.length) }
  contents : target.volume.contents (fs.icache ip).inum =
    (fs.volume.contents (fs.icache ip).inum).take off ++ src ++
      (fs.volume.contents (fs.icache ip).inum).drop (off + src.length)

/-- A write within the largest size succeeds, and one beyond it is refused. -/
theorem Whole.stored (whole : Whole fs) (sound : Sound fs) {locked written unlocked : Fs}
    {off : Nat} {src : List Byte} {result : Option Nat}
    (isFile : (fs.inodes (fs.icache ip).inum).type = .file)
    (inside : off ≤ (fs.inodes (fs.icache ip).inum).size)
    (locks : Runs (FileSystem.ilock ip) fs () locked)
    (writes : Runs (FileSystem.writei ip off src) locked result written)
    (unlocks : Runs (FileSystem.iunlock ip) written () unlocked) :
    if maxfile * bsize < off + src.length then result = none ∧ written = locked
    else result = some src.length ∧ Stored ip off src fs unlocked := by
  obtain ⟨used, valid, isLocked, inum_eq, node_eq, sb_eq, volume_eq⟩ := whole.locked_eq locks
  have type_eq : (locked.icache ip).type = .file := node_eq ▸ isFile
  have size_eq : (locked.icache ip).size = (fs.inodes (fs.icache ip).inum).size := by rw [node_eq]
  have file : ByteFile locked ip := (whole.ilock locks).byteFile used valid (.inl type_eq)
  have rewritten := (file.writei off src).of_runs writes
  rw [if_congr (refused_iff (size_eq ▸ inside)) rfl rfl] at rewritten
  split
  · rename_i large
    rwa [if_pos large] at rewritten
  · rename_i fits
    rw [if_neg fits] at rewritten
    obtain ⟨rfl, rewritten⟩ := rewritten
    have notDir : (locked.icache ip).type ≠ .dir := by simp [type_eq]
    have ops : Ops fs unlocked := .tail (.tail (.single (.lock ip locks))
      (.write ip off src _ isLocked notDir writes)) (.unlock ip unlocks)
    obtain ⟨addrs, inode_eq⟩ := rewritten.inode
    have written_inum : (written.icache ip).inum = (fs.icache ip).inum := by
      rw [inode_eq]
      exact inum_eq
    obtain ⟨-, -, rfl⟩ := runs_iunlock.mp unlocks
    refine ⟨rfl, sound.ops ops, whole.ops sound ops, rewritten.sb.trans sb_eq, ?_, ?_, ?_⟩
    · rw [icache_setInode_self]
      exact written_inum
    · have clean := rewritten.file.clean
      rw [written_inum] at clean
      refine ⟨addrs, clean.symm.trans ?_⟩
      rw [inode_eq, ← node_eq]
    · have contents := rewritten.contents
      rw [inum_eq, volume_eq] at contents
      exact contents

/-! ## Runs -/

variable {image : Image}

/-- The cache is empty but for the root directory, which has not been read. -/
theorem whole_boot (volume : image.volume.Whole image.sb) : Whole (boot image).fs := by
  refine ⟨volume, fun ip used valid => ?_⟩
  by_cases first : ip = 0
  · subst first
    simp [boot, Inode.zero] at valid
  · simp [boot, first, Inode.zero] at used

theorem whole_of_reachable {kernel : Kernel} (volume : image.volume.Whole image.sb)
    (reach : Reachable step (boot image) kernel) : Whole kernel.fs := by
  refine (reach.invariant (fun kernel => Closed kernel.fs kernel ∧ Whole kernel.fs)
    ⟨closed_boot image, whole_boot volume⟩ ?_).2
  rintro state event target ⟨closed, whole⟩ step_eq
  have next := closed.step step_eq
  exact ⟨next.rebase, whole.ops closed.books.sound next.books.ops⟩

/-- The blocks are in order after every sequence of system calls, and reading an inode that
is in use changes nothing. -/
theorem blocks_of_reachable {image : Image} {kernel : Kernel}
    (volume : image.volume.Whole image.sb) (reach : Reachable step (boot image) kernel) :
    Whole kernel.fs ∧ ∀ ip, 0 < (kernel.fs.icache ip).ref → (kernel.fs.icache ip).valid = true →
      (kernel.fs.icache ip).HasContents → ∀ input off n,
        ∃ bytes, Runs (readi input ip off n) kernel.fs bytes kernel.fs := by
  have whole := whole_of_reachable volume reach
  exact ⟨whole, fun ip used valid contents input off n =>
    ⟨_, (whole.byteFile used valid contents).readi input off n⟩⟩

theorem whole_emptyImage : emptyImage.volume.Whole emptyImage.sb := by
  refine ⟨laid_emptyImage, fun inum contents => ?_⟩
  by_cases isRoot : inum = rootino
  · rw [isRoot]
    exact mapped_emptyImage
  · have free : (emptyImage.volume.nodes inum).type = .free := by
      simp [Image.volume, emptyImage, isRoot, zero]
    simp [HasContents, free] at contents

/-- A directory is made, entered and opened. -/
theorem blocks_mkdirChdirOpen :
    ∃ kernel, run step (boot emptyImage) mkdirChdirOpen = some kernel ∧
      (kernel.fs.inodes 2).type = .dir ∧ Whole kernel.fs := by
  obtain ⟨kernel, execution, type_eq⟩ : ∃ kernel ∈ run step (boot emptyImage) mkdirChdirOpen,
      (kernel.fs.inodes 2).type = .dir := by decide +kernel
  exact ⟨kernel, execution, type_eq,
    (blocks_of_reachable whole_emptyImage (.of_run execution)).1⟩

end Xv6.FileSystem
