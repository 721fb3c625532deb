import Mathlib.Logic.Relation
import Xv6.FileSystem.Inode
import Xv6.FileSystem.Transaction

/-!
# The operations on inodes, and the discipline of their use

`Op` lists what a transaction does to the file system: it follows a name, takes and
drops references and locks, and reads and writes inodes it has locked.  Whatever a
system call does is a sequence of such operations, so an invariant of every operation
is an invariant of the file system.
-/

namespace Xv6.FileSystem

open Prog Fs

/-- The change only concerns the device numbers and the link count. -/
def Relabels (change : Inode → Inode) : Prop :=
  ∀ inode, ∃ major minor nlink,
    change inode = { inode with major := major, minor := minor, nlink := nlink }

theorem relabels_addLinks (difference : Int) :
    Relabels fun inode => inode.addLinks difference :=
  fun inode => ⟨inode.major, inode.minor, _, rfl⟩

theorem runs_modify {fs target : Fs} {ip : Islot} {change : Inode → Inode} {value : Unit} :
    Runs (modify ip change) fs value target ↔
      target = (fs.setInode ip change).setDinode (change (fs.icache ip)).inum
        (change (fs.icache ip)).toDinode := by
  unfold modify iupdate
  simp only [runs_bind, runs_update]
  constructor
  · rintro ⟨_, _, rfl, rfl⟩
    simp
  · rintro rfl
    exact ⟨(), _, rfl, by simp⟩

/-- The bytes of an empty entry, or of an entry for an inode that is in use. -/
def EntryBytes (fs : Fs) (bytes : List Byte) : Prop :=
  bytes = List.replicate direntSize 0 ∨
    ∃ ip name, 1 ≤ (fs.icache ip).ref ∧
      bytes = Dirent.toBytes ⟨(fs.icache ip).inum, padName name⟩

/-- One operation of a transaction. -/
inductive Op (fs target : Fs) : Prop where
  | root (ip : Islot) (ran : Runs (iget rootdev rootino) fs ip target)
  | dup (ip result : Islot) (used : 1 ≤ (fs.icache ip).ref) (ran : Runs (idup ip) fs result target)
  | lock (ip : Islot) (ran : Runs (ilock ip) fs () target)
  | unlock (ip : Islot) (ran : Runs (iunlock ip) fs () target)
  | put (ip : Islot) (used : 1 ≤ (fs.icache ip).ref)
      (shared : (fs.icache ip).locked = true → 2 ≤ (fs.icache ip).ref)
      (ran : Runs (iput ip) fs () target)
  | read (ip : Islot) (input : Option (List Byte)) (off n : Nat) (bytes : Option (List Byte))
      (locked : (fs.icache ip).locked = true) (ran : Runs (readi input ip off n) fs bytes target)
  | lookup (dp ip : Islot) (message : String) (off : Nat) (de : Dirent) (middle : Fs)
      (locked : (fs.icache dp).locked = true) (isDir : (fs.icache dp).type = .dir)
      (read : Runs (readDirent message dp off) fs de middle) (used : de.inum ≠ 0)
      (ran : Runs (iget (middle.icache dp).dev de.inum) middle ip target)
  | alloc (dp ip : Islot) (type : FileType) (locked : (fs.icache dp).locked = true)
      (typed : type ≠ .free) (ran : Runs (ialloc (fs.icache dp).dev type) fs ip target)
  | relabel (ip : Islot) (change : Inode → Inode) (locked : (fs.icache ip).locked = true)
      (relabels : Relabels change) (ran : Runs (modify ip change) fs () target)
  | write (ip : Islot) (off : Nat) (src : List Byte) (written : Option Nat)
      (locked : (fs.icache ip).locked = true) (notDir : (fs.icache ip).type ≠ .dir)
      (ran : Runs (writei ip off src) fs written target)
  | enter (dp : Islot) (off : Nat) (bytes : List Byte) (written : Option Nat)
      (locked : (fs.icache dp).locked = true) (aligned : direntSize ∣ off)
        (entry : EntryBytes fs bytes)
      (ran : Runs (writei dp off bytes) fs written target)

/-- A sequence of operations. -/
abbrev Ops : Fs → Fs → Prop :=
  Relation.ReflTransGen Op

/-! ## Sound caches -/

/-- No inode is cached twice, whoever holds a lock has a valid inode in use, and a valid inode
agrees with the disk about its type, which is not free. -/
structure Sound (fs : Fs) : Prop where
  nonneg : ∀ ip, 0 ≤ (fs.icache ip).ref
  device : ∀ ip, 0 < (fs.icache ip).ref → (fs.icache ip).dev = rootdev
  distinct : ∀ first second, 0 < (fs.icache first).ref → 0 < (fs.icache second).ref →
    (fs.icache first).inum = (fs.icache second).inum → first = second
  guarded : ∀ ip, (fs.icache ip).locked = true →
    (fs.icache ip).valid = true ∧ 1 ≤ (fs.icache ip).ref
  typed : ∀ ip, 0 < (fs.icache ip).ref → (fs.icache ip).valid = true →
    (fs.inodes (fs.icache ip).inum).type = (fs.icache ip).type ∧ (fs.icache ip).type ≠ .free

namespace Sound

variable {fs target : Fs} {ip : Islot}

variable (sound : Sound fs)

include sound

theorem valid (locked : (fs.icache ip).locked = true) : (fs.icache ip).valid = true :=
  (sound.guarded ip locked).1

theorem used (locked : (fs.icache ip).locked = true) : 0 < (fs.icache ip).ref :=
  (sound.guarded ip locked).2

theorem settled (used : 0 < (fs.icache ip).ref)
    (valid : (fs.icache ip).valid = true) (settled : Settled ip fs target) : Sound target := by
  constructor
  · intro other
    rw [settled.ref]
    exact sound.nonneg other
  · intro other
    rw [settled.ref, settled.dev]
    exact sound.device other
  · intro first second
    rw [settled.ref, settled.ref, settled.inum, settled.inum]
    exact sound.distinct first second
  · intro other
    rw [settled.locked, settled.valid, settled.ref]
    exact sound.guarded other
  · intro other
    rw [settled.ref, settled.valid, settled.inum, settled.type]
    intro otherUsed otherValid
    have typed := sound.typed other otherUsed otherValid
    rcases settled.types (fs.icache other).inum with same | ⟨inum_eq, type_eq⟩
    · rw [same]
      exact typed
    · obtain rfl := sound.distinct other ip otherUsed used inum_eq
      exact ⟨type_eq, typed.2⟩

variable {change : Inode → Inode}

/-- A change of the references and the lock of one inode. -/
theorem setInode (nonneg : 0 ≤ (change (fs.icache ip)).ref)
    (named : 0 < (change (fs.icache ip)).ref → (change (fs.icache ip)).dev = rootdev ∧
      ∀ other ≠ ip, 0 < (fs.icache other).ref →
        (fs.icache other).inum ≠ (change (fs.icache ip)).inum)
    (guarded : (change (fs.icache ip)).locked = true →
      (change (fs.icache ip)).valid = true ∧ 1 ≤ (change (fs.icache ip)).ref)
    (typed : 0 < (change (fs.icache ip)).ref → (change (fs.icache ip)).valid = true →
      (fs.inodes (change (fs.icache ip)).inum).type = (change (fs.icache ip)).type ∧
        (change (fs.icache ip)).type ≠ .free) : Sound (fs.setInode ip change) := by
  constructor
  · intro other
    by_cases eq : other = ip
    · rw [eq, icache_setInode_self]
      exact nonneg
    · rw [icache_setInode_of_ne eq]
      exact sound.nonneg other
  · intro other
    by_cases eq : other = ip
    · rw [eq, icache_setInode_self]
      exact fun used => (named used).1
    · rw [icache_setInode_of_ne eq]
      exact sound.device other
  · intro first second
    by_cases firstEq : first = ip
    · by_cases secondEq : second = ip
      · exact fun _ _ _ => firstEq.trans secondEq.symm
      · rw [firstEq, icache_setInode_self, icache_setInode_of_ne secondEq]
        exact fun used otherUsed inum =>
          ((named used).2 second secondEq otherUsed inum.symm).elim
    by_cases secondEq : second = ip
    · rw [secondEq, icache_setInode_self, icache_setInode_of_ne firstEq]
      exact fun otherUsed used inum => ((named used).2 first firstEq otherUsed inum).elim
    · rw [icache_setInode_of_ne firstEq, icache_setInode_of_ne secondEq]
      exact sound.distinct first second
  · intro other
    by_cases eq : other = ip
    · rw [eq, icache_setInode_self]
      exact guarded
    · rw [icache_setInode_of_ne eq]
      exact sound.guarded other
  · intro other
    by_cases eq : other = ip
    · rw [eq, icache_setInode_self]
      exact typed
    · rw [icache_setInode_of_ne eq]
      exact sound.typed other

/-- The slot of an inode in use is for the only device and has no double. -/
theorem named (used : 0 < (fs.icache ip).ref) :
    (fs.icache ip).dev = rootdev ∧ ∀ other ≠ ip, 0 < (fs.icache other).ref →
      (fs.icache other).inum ≠ (fs.icache ip).inum :=
  ⟨sound.device ip used, fun other ne otherUsed inum =>
    ne (sound.distinct other ip otherUsed used inum)⟩

variable {inum : Nat}

/-- A dinode is stored that no valid inode is a copy of. -/
theorem setDinode {dinode : Dinode}
    (unused : ∀ other, 0 < (fs.icache other).ref → (fs.icache other).valid = true →
      (fs.icache other).inum ≠ inum) : Sound (fs.setDinode inum dinode) := by
  refine ⟨sound.nonneg, sound.device, sound.distinct, sound.guarded, fun other used valid => ?_⟩
  have ne := unused other used valid
  rw [icache_setDinode, inodes_setDinode_of_ne ne]
  exact sound.typed other used valid

theorem iget (ran : Runs (iget rootdev inum) fs ip target) : Sound target := by
  rcases runs_iget ran with ⟨used, -, -, rfl⟩ | ⟨fresh, unused, rfl⟩
  · refine sound.setInode (Int.le_add_one (sound.nonneg ip)) (fun _ => sound.named used)
      (fun locked => ⟨sound.valid locked, ?_⟩) fun _ => sound.typed ip used
    simp only
    omega
  · refine sound.setInode Int.one_nonneg (fun _ => ⟨rfl, fun other _ otherUsed inum =>
      fresh other otherUsed ⟨sound.device other otherUsed, inum⟩⟩) (fun locked => ?_) (by simp)
    have := sound.used locked
    omega

theorem idup {result : Islot} (used : 1 ≤ (fs.icache ip).ref)
    (ran : Runs (idup ip) fs result target) : Sound target := by
  obtain ⟨-, rfl⟩ := runs_idup.mp ran
  refine sound.setInode (Int.le_add_one (sound.nonneg ip)) (fun _ => sound.named used)
    (fun locked => ⟨sound.valid locked, ?_⟩) fun _ => sound.typed ip used
  simp only
  omega

variable {value : Unit}

theorem ilock (ran : Runs (ilock ip) fs value target) : Sound target := by
  obtain ⟨used, -, ⟨valid, rfl⟩ | ⟨-, typed, rfl⟩⟩ := runs_ilock.mp ran
  · exact sound.setInode (sound.nonneg ip) (fun _ => sound.named used)
      (fun _ => ⟨valid, used⟩) fun _ => sound.typed ip used
  · exact sound.setInode (sound.nonneg ip) (fun _ => sound.named used)
      (fun _ => ⟨rfl, used⟩) fun _ _ => ⟨rfl, typed⟩

theorem iunlock (ran : Runs (iunlock ip) fs value target) : Sound target := by
  obtain ⟨-, used, rfl⟩ := runs_iunlock.mp ran
  exact sound.setInode (sound.nonneg ip) (fun _ => sound.named used) (by simp)
    fun _ => sound.typed ip used

theorem iput (used : 1 ≤ (fs.icache ip).ref)
    (shared : (fs.icache ip).locked = true → 2 ≤ (fs.icache ip).ref)
    (ran : Runs (iput ip) fs value target) : Sound target := by
  rcases runs_iput ran with ⟨last, middle, truncated, rfl⟩ | ⟨-, rfl⟩
  · -- the freed inode loses its slot before it loses its type on the disk
    have settled := keeps_settled_itrunc ip _ _ _ truncated
    have ref_eq : (middle.icache ip).ref = 1 := (settled.ref ip).trans last.1
    have middleSound : Sound (middle.setInode ip fun inode =>
        { inode with type := .free, valid := false, ref := inode.ref - 1 }) := by
      refine (sound.settled used last.2.1 settled).setInode (by simp [ref_eq])
        (by simp [ref_eq]) (fun locked => ?_) (by simp)
      have := shared ((settled.locked ip).symm.trans locked)
      omega
    refine middleSound.setDinode fun other otherUsed otherValid inum_eq => ?_
    by_cases eq : other = ip
    · simp [eq] at otherValid
    · rw [icache_setInode_of_ne eq] at otherUsed inum_eq
      rw [settled.ref] at otherUsed
      rw [settled.inum, settled.inum] at inum_eq
      exact eq (sound.distinct other ip otherUsed used inum_eq)
  · refine sound.setInode (by simp only; omega) (fun _ => sound.named used) (fun locked => ?_)
      fun _ => sound.typed ip used
    have := shared locked
    exact ⟨sound.valid locked, by simp only; omega⟩

theorem modify (locked : (fs.icache ip).locked = true) (relabels : Relabels change)
    (ran : Runs (modify ip change) fs value target) : Sound target := by
  rw [runs_modify] at ran
  obtain ⟨major, minor, nlink, changed⟩ := relabels (fs.icache ip)
  have relabelled : Sound (fs.setInode ip change) := by
    refine sound.setInode ?_ ?_ ?_ ?_
    all_goals rw [changed]
    · exact sound.nonneg ip
    · exact sound.named
    · exact sound.guarded ip
    · exact sound.typed ip
  have settled : Settled ip (fs.setInode ip change) target := by
    rw [ran]
    exact settled_setDinode (by simp) (by simp)
  refine relabelled.settled ?_ ?_ settled
  all_goals rw [icache_setInode_self, changed]
  · exact sound.used locked
  · exact sound.valid locked

theorem ialloc {type : FileType}
    (ran : Runs (ialloc rootdev type) fs ip target) : Sound target := by
  obtain ⟨inum, -, -, free, got⟩ := runs_ialloc ran
  have marked : Sound (fs.setDinode inum (Dinode.zero type)) := by
    refine sound.setDinode fun other used valid inum_eq => ?_
    obtain ⟨agrees, notFree⟩ := sound.typed other used valid
    rw [inum_eq, free] at agrees
    exact notFree agrees.symm
  exact marked.iget got

theorem op (op : Op fs target) : Sound target := by
  cases op with
  | root ip ran => exact sound.iget ran
  | dup ip result used ran => exact sound.idup used ran
  | lock ip ran => exact sound.ilock ran
  | unlock ip ran => exact sound.iunlock ran
  | put ip used shared ran => exact sound.iput used shared ran
  | read ip input off n bytes locked ran =>
    exact sound.settled (sound.used locked) (sound.valid locked)
      (settled_readi (sound.valid locked) ran)
  | lookup dp ip message off de middle locked isDir read used ran =>
    obtain ⟨bytes, read, -, -⟩ := runs_readDirent.mp read
    have settled := settled_readi (sound.valid locked) read
    rw [settled.dev, sound.device dp (sound.used locked)] at ran
    exact (sound.settled (sound.used locked) (sound.valid locked) settled).iget ran
  | alloc dp ip type locked typed ran =>
    rw [sound.device dp (sound.used locked)] at ran
    exact sound.ialloc ran
  | relabel ip change locked relabels ran => exact sound.modify locked relabels ran
  | write ip off src written locked notDir ran
  | enter dp off bytes written locked aligned entry ran =>
    exact sound.settled (sound.used locked) (sound.valid locked)
      (settled_writei (sound.valid locked) ran)

theorem ops (ops : Ops fs target) : Sound target := by
  induction ops with
  | refl => exact sound
  | tail _ op ih => exact ih.op op

end Sound

end Xv6.FileSystem
