import Mathlib.Data.List.Count
import Xv6.FileSystem.Operation

/-!
# Sessions

A transaction starts from a state in which the open files and the processes hold some
references, and goes through states in which it holds references and locks of its own.
`Session` keeps the account: the list of references and of locks that the transaction
has taken and not given back.  Each function of the file system is described by what it
adds to the two lists.
-/

namespace Xv6.FileSystem

open Prog List Fs

/-! ## Counts -/

/-- The operation adds to the references of one slot and leaves all locks alone. -/
structure Counts (fs target : Fs) (ip : Islot) (difference : Int) : Prop where
  ref : ∀ other, (target.icache other).ref =
    (fs.icache other).ref + if other = ip then difference else 0
  locked : ∀ other, (target.icache other).locked = (fs.icache other).locked

/-- A slot in use keeps its inode, and a valid one its type. -/
structure Stable (before after : Inode) : Prop where
  dev : after.dev = before.dev
  inum : after.inum = before.inum
  valid : before.valid = true → after.valid = true ∧ after.type = before.type

theorem Stable.refl (inode : Inode) : Stable inode inode :=
  ⟨rfl, rfl, fun valid => ⟨valid, rfl⟩⟩

theorem Stable.trans {first second third : Inode} (before : Stable first second)
    (after : Stable second third) : Stable first third where
  dev := after.dev.trans before.dev
  inum := after.inum.trans before.inum
  valid := fun valid =>
    ⟨(after.valid (before.valid valid).1).1,
      (after.valid (before.valid valid).1).2.trans (before.valid valid).2⟩

variable {fs target : Fs} {ip : Islot}

theorem Settled.stable (settled : Settled ip fs target) (other : Islot) :
    Stable (fs.icache other) (target.icache other) :=
  ⟨settled.dev other, settled.inum other, fun valid =>
    ⟨(settled.valid other).trans valid, settled.type other⟩⟩

variable {change : Inode → Inode} {difference : Int}

theorem counts_setInode (ref : (change (fs.icache ip)).ref = (fs.icache ip).ref + difference)
    (locked : (change (fs.icache ip)).locked = (fs.icache ip).locked) :
    Counts fs (fs.setInode ip change) ip difference := by
  constructor
  · intro other
    by_cases eq : other = ip
    · rw [eq, if_pos rfl, icache_setInode_self, ref]
    · rw [if_neg eq, icache_setInode_of_ne eq, Int.add_zero]
  · intro other
    by_cases eq : other = ip
    · rw [eq, icache_setInode_self, locked]
    · rw [icache_setInode_of_ne eq]

theorem Counts.of_settled {middle : Fs} {slot : Islot} (settled : Settled slot fs middle)
    (counts : Counts middle target ip difference) : Counts fs target ip difference :=
  ⟨fun other => by rw [counts.ref, settled.ref], fun other => by rw [counts.locked, settled.locked]⟩

variable {dev : Nat}

theorem counts_iget {inum : Nat} (ran : Runs (iget dev inum) fs ip target) :
    Counts fs target ip 1 := by
  rcases runs_iget ran with ⟨-, -, -, rfl⟩ | ⟨-, unused, rfl⟩
  · exact counts_setInode rfl rfl
  · exact counts_setInode (by simp [unused]) rfl

theorem counts_idup {result : Islot} (ran : Runs (idup ip) fs result target) :
    Counts fs target ip 1 := by
  obtain ⟨-, rfl⟩ := runs_idup.mp ran
  exact counts_setInode rfl rfl

variable {value : Unit}

theorem counts_iput (ran : Runs (iput ip) fs value target) : Counts fs target ip (-1) := by
  rcases runs_iput ran with ⟨-, middle, truncated, rfl⟩ | ⟨-, rfl⟩
  · have counts : Counts middle (middle.setInode ip fun inode =>
        { inode with type := .free, valid := false, ref := inode.ref - 1 }) ip (-1) :=
      counts_setInode rfl rfl
    exact .of_settled (keeps_settled_itrunc ip _ _ _ truncated) ⟨counts.ref, counts.locked⟩
  · exact counts_setInode rfl rfl

theorem counts_ialloc {type : FileType} (ran : Runs (ialloc dev type) fs ip target) :
    Counts fs target ip 1 := by
  obtain ⟨inum, -, -, -, got⟩ := runs_ialloc ran
  exact ⟨(counts_iget got).ref, (counts_iget got).locked⟩

theorem counts_modify (relabels : Relabels change) (ran : Runs (modify ip change) fs value target) :
    Counts fs target ip 0 := by
  rw [runs_modify] at ran
  obtain ⟨major, minor, nlink, changed⟩ := relabels (fs.icache ip)
  have counts : Counts fs (fs.setInode ip change) ip 0 :=
    counts_setInode (by rw [changed]; simp) (by rw [changed])
  rw [ran]
  exact ⟨counts.ref, counts.locked⟩

/-! ## Stability -/

theorem stable_setInode (stable : Stable (fs.icache ip) (change (fs.icache ip))) (other : Islot) :
    Stable (fs.icache other) ((fs.setInode ip change).icache other) := by
  by_cases eq : other = ip
  · rw [eq, icache_setInode_self]
    exact stable
  · rw [icache_setInode_of_ne eq]
    exact .refl _

variable {other : Islot}

theorem stable_iget {inum : Nat} (ran : Runs (iget dev inum) fs ip target)
    (used : 1 ≤ (fs.icache other).ref) : Stable (fs.icache other) (target.icache other) := by
  rcases runs_iget ran with ⟨-, -, -, rfl⟩ | ⟨-, unused, rfl⟩
  · exact stable_setInode ⟨rfl, rfl, fun valid => ⟨valid, rfl⟩⟩ other
  · have ne : other ≠ ip := by
      rintro rfl
      omega
    rw [icache_setInode_of_ne ne]
    exact .refl _

theorem stable_modify (relabels : Relabels change) (ran : Runs (modify ip change) fs value target)
    (other : Islot) : Stable (fs.icache other) (target.icache other) := by
  rw [runs_modify] at ran
  obtain ⟨major, minor, nlink, changed⟩ := relabels (fs.icache ip)
  rw [ran]
  refine stable_setInode ?_ other
  rw [changed]
  exact ⟨rfl, rfl, fun valid => ⟨valid, rfl⟩⟩

/-- Dropping an inode leaves the other slots alone. -/
theorem stable_iput (ne : other ≠ ip) (ran : Runs (iput ip) fs value target) :
    Stable (fs.icache other) (target.icache other) := by
  rcases runs_iput ran with ⟨-, middle, truncated, rfl⟩ | ⟨-, rfl⟩
  · rw [icache_setInode_of_ne ne]
    exact (keeps_settled_itrunc ip _ _ _ truncated).stable other
  · rw [icache_setInode_of_ne ne]
    exact .refl _

/-- An operation leaves the inode alone in every slot that stays in use. -/
theorem Op.stable (sound : Sound fs) (op : Op fs target) (used : 1 ≤ (fs.icache other).ref)
    (usedAfter : 1 ≤ (target.icache other).ref) :
    Stable (fs.icache other) (target.icache other) := by
  cases op with
  | root ip ran => exact stable_iget ran used
  | dup ip result _ ran =>
    obtain ⟨-, rfl⟩ := runs_idup.mp ran
    exact stable_setInode ⟨rfl, rfl, fun valid => ⟨valid, rfl⟩⟩ other
  | lock ip ran =>
    obtain ⟨-, -, ⟨-, rfl⟩ | ⟨invalid, -, rfl⟩⟩ := runs_ilock.mp ran
    · exact stable_setInode ⟨rfl, rfl, fun valid => ⟨valid, rfl⟩⟩ other
    · exact stable_setInode ⟨rfl, rfl, fun valid => by simp [invalid] at valid⟩ other
  | unlock ip ran =>
    obtain ⟨-, -, rfl⟩ := runs_iunlock.mp ran
    exact stable_setInode ⟨rfl, rfl, fun valid => ⟨valid, rfl⟩⟩ other
  | put ip _ shared ran =>
    by_cases ne : other = ip
    · -- the slot keeps a reference, so the inode is not freed
      have counted := (counts_iput ran).ref other
      rw [if_pos ne] at counted
      rcases runs_iput ran with ⟨last, -⟩ | ⟨-, rfl⟩
      · rw [← ne] at last
        omega
      · exact stable_setInode ⟨rfl, rfl, fun valid => ⟨valid, rfl⟩⟩ other
    · exact stable_iput ne ran
  | read ip input off n bytes locked ran =>
    exact (settled_readi (sound.valid locked) ran).stable other
  | lookup dp ip message off de middle locked isDir read _ ran =>
    obtain ⟨bytes, read, -, -⟩ := runs_readDirent.mp read
    have settled := settled_readi (sound.valid locked) read
    exact (settled.stable other).trans (stable_iget ran (by rw [settled.ref]; exact used))
  | alloc dp ip type locked typed ran =>
    obtain ⟨inum, -, -, -, got⟩ := runs_ialloc ran
    have marked : 1 ≤ ((fs.setDinode inum (Dinode.zero type)).icache other).ref := used
    have stable := stable_iget got marked
    exact stable
  | relabel ip change locked relabels ran => exact stable_modify relabels ran other
  | write ip off src written locked notDir ran
  | enter dp off bytes written locked aligned entry ran =>
    exact (settled_writei (sound.valid locked) ran).stable other

/-! ## The account of a transaction -/

/-- A transaction that began in `origin` has come to `fs`.  The references in `base` belong to
open files and processes; those in `held`, and the locks in `locks`, to the transaction. -/
structure Session (origin : Fs) (base : Islot → Int) (held locks : List Islot) (fs : Fs) :
    Prop where
  ops : Ops origin fs
  sound : Sound fs
  nonneg : ∀ ip, 0 ≤ base ip
  ref : ∀ ip, (fs.icache ip).ref = base ip + held.count ip
  locked : ∀ ip, (fs.icache ip).locked = true ↔ ip ∈ locks
  nodup : locks.Nodup
  pinned : ∀ ip, 1 ≤ base ip → Stable (origin.icache ip) (fs.icache ip)

namespace Session

variable {origin : Fs} {base : Islot → Int} {held locks : List Islot} {dp : Islot}

section

variable (session : Session origin base held locks fs)

include session

/-- The next operation, with the account after it. -/
theorem step {held' locks' : List Islot} (op : Op fs target)
    (ref : ∀ ip, (target.icache ip).ref = base ip + held'.count ip)
    (locked : ∀ ip, (target.icache ip).locked = true ↔ ip ∈ locks') (nodup : locks'.Nodup) :
    Session origin base held' locks' target where
  ops := session.ops.tail op
  sound := session.sound.op op
  nonneg := session.nonneg
  ref := ref
  locked := locked
  nodup := nodup
  pinned := by
    intro ip owned
    have before := session.ref ip
    have after := ref ip
    exact (session.pinned ip owned).trans (op.stable session.sound (by omega) (by omega))

theorem used (mem : ip ∈ held) : 1 ≤ (fs.icache ip).ref := by
  have count := count_pos_iff.mpr mem
  have := session.ref ip
  have := session.nonneg ip
  omega

/-- An operation that takes a reference. -/
theorem take (op : Op fs target) (counts : Counts fs target ip 1) :
    Session origin base (ip :: held) locks target := by
  refine session.step op (fun other => ?_) (fun other => ?_) session.nodup
  · rw [counts.ref, session.ref]
    by_cases eq : other = ip
    · simp [eq, Int.add_assoc]
    · simp [eq, Ne.symm eq]
  · rw [counts.locked]
    exact session.locked other

/-- An operation that takes or drops nothing. -/
theorem settle (op : Op fs target) (counts : Counts fs target ip 0) :
    Session origin base held locks target := by
  refine session.step op (fun other => ?_) (fun other => ?_) session.nodup
  · rw [counts.ref, session.ref]
    simp
  · rw [counts.locked]
    exact session.locked other

theorem settled (op : Op fs target) (settled : Settled ip fs target) :
    Session origin base held locks target := by
  refine session.step op (fun other => ?_) (fun other => ?_) session.nodup
  · rw [settled.ref, session.ref]
  · rw [settled.locked]
    exact session.locked other

theorem isLocked (mem : ip ∈ locks) : (fs.icache ip).locked = true :=
  (session.locked ip).mpr mem

theorem isValid (mem : ip ∈ locks) : (fs.icache ip).valid = true :=
  session.sound.valid (session.isLocked mem)

/-- The order of references and of locks does not matter. -/
theorem perm {held' locks' : List Islot} (sameHeld : held'.Perm held)
    (sameLocks : locks'.Perm locks) : Session origin base held' locks' fs where
  ops := session.ops
  sound := session.sound
  nonneg := session.nonneg
  ref := fun ip => by rw [session.ref, sameHeld.count_eq]
  locked := fun ip => by rw [session.locked, sameLocks.mem_iff]
  nodup := sameLocks.nodup_iff.mpr session.nodup
  pinned := session.pinned

/-! ## References and locks -/

theorem ilock :
    Yields (ilock ip) fs fun _ target => Session origin base held (ip :: locks) target := by
  refine yields_of_runs fun _ target ran => ?_
  have unlocked : ip ∉ locks := by
    obtain ⟨-, unlocked, -⟩ := runs_ilock.mp ran
    simp [← session.locked, unlocked]
  have after other : (target.icache other).ref = (fs.icache other).ref ∧
      ((target.icache other).locked = true ↔ other = ip ∨ (fs.icache other).locked = true) := by
    obtain ⟨-, -, ⟨-, rfl⟩ | ⟨-, -, rfl⟩⟩ := runs_ilock.mp ran
    all_goals
      by_cases eq : other = ip
      · simp [eq]
      · simp [icache_setInode_of_ne eq, eq]
  refine session.step (.lock ip ran) (fun other => ?_) (fun other => ?_) ?_
  · rw [(after other).1, session.ref]
  · rw [(after other).2, session.locked, mem_cons]
  · exact nodup_cons.mpr ⟨unlocked, session.nodup⟩

end

theorem iunlock (session : Session origin base held (ip :: locks) fs) :
    Yields (iunlock ip) fs fun _ target => Session origin base held locks target := by
  refine yields_of_runs fun _ target ran => ?_
  have after other : (target.icache other).ref = (fs.icache other).ref ∧
      ((target.icache other).locked = true ↔ other ≠ ip ∧ (fs.icache other).locked = true) := by
    obtain ⟨-, -, rfl⟩ := runs_iunlock.mp ran
    by_cases eq : other = ip
    · simp [eq]
    · simp [icache_setInode_of_ne eq, eq]
  obtain ⟨notMem, nodup⟩ := nodup_cons.mp session.nodup
  refine session.step (.unlock ip ran) (fun other => ?_) (fun other => ?_) nodup
  · rw [(after other).1, session.ref]
  · rw [(after other).2, session.locked, mem_cons, and_or_left]
    simp only [not_and_self, false_or, and_iff_right_iff_imp]
    exact fun mem eq => notMem (eq ▸ mem)

/-- A lock may be held on an inode while one of several references to it is dropped. -/
theorem iput (session : Session origin base (ip :: held) locks fs)
    (shared : ip ∈ locks → ip ∈ held) :
    Yields (iput ip) fs fun _ target => Session origin base held locks target := by
  refine yields_of_runs fun _ target ran => ?_
  have counts := counts_iput ran
  have op : Op fs target := by
    refine .put ip (session.used mem_cons_self) (fun locked => ?_) ran
    have count := count_pos_iff.mpr (shared ((session.locked ip).mp locked))
    have ref := session.ref ip
    have nonneg := session.nonneg ip
    rw [count_cons_self] at ref
    omega
  refine session.step op (fun other => ?_) (fun other => ?_) session.nodup
  · rw [counts.ref, session.ref, count_cons]
    by_cases eq : other = ip
    · simp only [eq, beq_self_eq_true, if_true]
      omega
    · simp [eq, Ne.symm eq]
  · rw [counts.locked]
    exact session.locked other

theorem iunlockput (session : Session origin base (ip :: held) (ip :: locks) fs) :
    Yields (iunlockput ip) fs fun _ target => Session origin base held locks target :=
  session.iunlock.bind fun _ _ unlocked =>
    unlocked.iput fun mem => absurd mem (nodup_cons.mp session.nodup).1

theorem relabel {change : Inode → Inode} (session : Session origin base held locks fs)
    (mem : ip ∈ locks) (relabels : Relabels change) :
    Yields (modify ip change) fs fun _ target => Session origin base held locks target ∧
      ∀ other, Stable (fs.icache other) (target.icache other) :=
  yields_of_runs fun _ _ ran =>
    ⟨session.settle (.relabel ip change (session.isLocked mem) relabels ran)
      (counts_modify relabels ran), stable_modify relabels ran⟩

end Session

end Xv6.FileSystem
