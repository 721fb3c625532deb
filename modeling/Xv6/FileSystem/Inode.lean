import Xv6.FileSystem.Path

/-!
# What the inode operations do

One lemma for each operation of the inode layer says how a run of it changes the
inode cache.  The block operations below them only touch block addresses and sizes.
-/

namespace Xv6.FileSystem

open Xv6.Log (Blockno)
open Function Prog List Fs

variable {fs target : Fs} {ip : Islot}

/-! ## Updates -/

namespace Fs

@[simp]
theorem icache_setInode_self (fs : Fs) (ip : Islot) (change : Inode → Inode) :
    (fs.setInode ip change).icache ip = change (fs.icache ip) :=
  update_self ..

theorem icache_setInode_of_ne {other : Islot} (ne : other ≠ ip) (change : Inode → Inode) :
    (fs.setInode ip change).icache other = fs.icache other :=
  update_of_ne ne ..

variable {change : Inode → Inode}

theorem setInode_congr {change' : Inode → Inode}
    (same : change (fs.icache ip) = change' (fs.icache ip)) :
    fs.setInode ip change = fs.setInode ip change' := by
  rw [setInode, setInode, same]

@[simp]
theorem setInode_setInode (fs : Fs) (ip : Islot) (first second : Inode → Inode) :
    (fs.setInode ip first).setInode ip second =
      fs.setInode ip fun inode => second (first inode) := by
  simp [setInode]

theorem setInode_eq_self (same : change (fs.icache ip) = fs.icache ip) :
    fs.setInode ip change = fs := by
  rw [setInode, same, update_eq_self]

@[simp]
theorem inodes_setInode (fs : Fs) (ip : Islot) (change : Inode → Inode) :
    (fs.setInode ip change).inodes = fs.inodes :=
  rfl

@[simp]
theorem icache_setDinode (fs : Fs) (inum : Nat) (dinode : Dinode) :
    (fs.setDinode inum dinode).icache = fs.icache :=
  rfl

@[simp]
theorem inodes_setDinode_self (fs : Fs) (inum : Nat) (dinode : Dinode) :
    (fs.setDinode inum dinode).inodes inum = dinode :=
  update_self ..

theorem inodes_setDinode_of_ne {inum other : Nat} (ne : other ≠ inum) (dinode : Dinode) :
    (fs.setDinode inum dinode).inodes other = fs.inodes other :=
  update_of_ne ne ..

end Fs

/-! ## Addresses and sizes -/

/-- An in-core inode without its size and its addresses. -/
def Inode.bare (inode : Inode) : Inode :=
  { inode with size := 0, addrs := fun _ => 0 }

/-- Only sizes and addresses of in-core inodes may have changed, and the disk, where an inode
other than that of the slot keeps its type. -/
structure Settled (ip : Islot) (fs target : Fs) : Prop where
  sb : target.sb = fs.sb
  icache : ∀ other, (target.icache other).bare = (fs.icache other).bare
  types : ∀ inum, (target.inodes inum).type = (fs.inodes inum).type ∨
    inum = (fs.icache ip).inum ∧ (target.inodes inum).type = (fs.icache ip).type

namespace Settled

theorem refl (ip : Islot) (fs : Fs) : Settled ip fs fs :=
  ⟨rfl, fun _ => rfl, fun _ => .inl rfl⟩

section Fields

variable (settled : Settled ip fs target) (other : Islot)

include settled

theorem ref : (target.icache other).ref = (fs.icache other).ref :=
  (congrArg Inode.ref (settled.icache other) :)

theorem dev : (target.icache other).dev = (fs.icache other).dev :=
  (congrArg Inode.dev (settled.icache other) :)

theorem inum : (target.icache other).inum = (fs.icache other).inum :=
  (congrArg Inode.inum (settled.icache other) :)

theorem locked : (target.icache other).locked = (fs.icache other).locked :=
  (congrArg Inode.locked (settled.icache other) :)

theorem valid : (target.icache other).valid = (fs.icache other).valid :=
  (congrArg Inode.valid (settled.icache other) :)

theorem type : (target.icache other).type = (fs.icache other).type :=
  (congrArg (fun inode : Inode => inode.type) (settled.icache other) :)

end Fields

theorem trans {middle : Fs} (first : Settled ip fs middle) (second : Settled ip middle target) :
    Settled ip fs target where
  sb := second.sb.trans first.sb
  icache := fun other => (second.icache other).trans (first.icache other)
  types := by
    intro inum
    rcases second.types inum with same | ⟨inum_eq, type_eq⟩
    · rw [same]
      exact first.types inum
    · exact .inr ⟨inum_eq.trans (first.inum ip), type_eq.trans (first.type ip)⟩

end Settled

instance (ip : Islot) : Std.Refl (Settled ip) := ⟨Settled.refl ip⟩

instance (ip : Islot) : IsTrans Fs (Settled ip) := ⟨fun _ _ _ => Settled.trans⟩

theorem settled_setInode {slot : Islot} {change : Inode → Inode}
    (same : (change (fs.icache slot)).bare = (fs.icache slot).bare) :
    Settled ip fs (fs.setInode slot change) := by
  refine ⟨rfl, fun other => ?_, fun _ => .inl rfl⟩
  by_cases eq : other = slot
  · rw [eq, icache_setInode_self, same]
  · rw [icache_setInode_of_ne eq]

variable {inum : Nat}

/-- Storing an inode keeps the types of the others. -/
theorem settled_setDinode {dinode : Dinode} (inum_eq : inum = (fs.icache ip).inum)
    (type_eq : dinode.type = (fs.icache ip).type) : Settled ip fs (fs.setDinode inum dinode) := by
  refine ⟨rfl, fun _ => rfl, fun other => ?_⟩
  by_cases eq : other = inum
  · exact .inr ⟨eq.trans inum_eq, by rw [eq, inodes_setDinode_self, type_eq]⟩
  · exact .inl (by rw [inodes_setDinode_of_ne eq])

/-- An update of blocks or of the free map. -/
theorem settled_of_eq (sb : target.sb = fs.sb) (icache : target.icache = fs.icache)
    (inodes : target.inodes = fs.inodes) : Settled ip fs target :=
  ⟨sb, fun other => by rw [icache], fun inum => .inl (by rw [inodes])⟩

section

variable (ip : Islot)

theorem keeps_settled_balloc : Keeps (Settled ip) balloc := by
  refine keeps_bind keeps_reading fun found => ?_
  cases found with
  | none => exact keeps_stop
  | some b =>
    refine keeps_bind (keeps_update fun _ => settled_of_eq rfl rfl rfl) fun _ => ?_
    exact keeps_bind (keeps_update fun _ => settled_of_eq rfl rfl rfl) fun _ => keeps_pure

theorem keeps_settled_bfree (block : Blockno) : Keeps (Settled ip) (bfree block) :=
  keeps_bind keeps_ensure fun _ => keeps_update fun _ => settled_of_eq rfl rfl rfl

theorem keeps_settled_iupdate : Keeps (Settled ip) (iupdate ip) :=
  keeps_update fun _ => settled_setDinode rfl rfl

theorem keeps_settled_mapAddr (index : Fin (ndirect + 1)) :
    Keeps (Settled ip) (mapAddr ip index) := by
  refine keeps_bind keeps_reading fun addr => keeps_ite ?_ keeps_pure
  refine keeps_bind (keeps_settled_balloc ip) fun block => ?_
  exact keeps_bind (keeps_update fun _ => settled_setInode rfl) fun _ => keeps_pure

theorem keeps_settled_mapEntry (table : Blockno) (index : Fin Block.words) :
    Keeps (Settled ip) (mapEntry table index) := by
  refine keeps_bind keeps_reading fun addr => keeps_ite ?_ keeps_pure
  refine keeps_bind (keeps_settled_balloc ip) fun block => ?_
  exact keeps_bind (keeps_update fun _ => settled_of_eq rfl rfl rfl) fun _ => keeps_pure

theorem keeps_settled_bmap (bn : Nat) : Keeps (Settled ip) (bmap ip bn) := by
  unfold bmap
  split
  · exact keeps_settled_mapAddr ip _
  · split
    · exact keeps_bind (keeps_settled_mapAddr ip _) fun table => keeps_settled_mapEntry ip table _
    · exact keeps_stop

theorem keeps_settled_freeDirect (indices : List (Fin (ndirect + 1))) :
    Keeps (Settled ip) (freeDirect ip indices) := by
  induction indices with
  | nil => exact keeps_pure
  | cons index rest ih =>
    refine keeps_bind keeps_reading fun addr => keeps_bind (keeps_whenever ?_) fun _ => ih
    exact keeps_bind (keeps_settled_bfree ip addr) fun _ =>
      keeps_update fun _ => settled_setInode rfl

theorem keeps_settled_freeTable (table : Block) (indices : List (Fin Block.words)) :
    Keeps (Settled ip) (freeTable table indices) := by
  induction indices with
  | nil => exact keeps_pure
  | cons index rest ih =>
    exact keeps_bind (keeps_whenever (keeps_settled_bfree ip _)) fun _ => ih

theorem keeps_settled_itrunc : Keeps (Settled ip) (itrunc ip) := by
  refine keeps_bind (keeps_settled_freeDirect ip _) fun _ => ?_
  refine keeps_bind keeps_reading fun addr => ?_
  refine keeps_bind (keeps_whenever ?_) fun _ => ?_
  · refine keeps_bind keeps_reading fun table => ?_
    refine keeps_bind (keeps_settled_freeTable ip table _) fun _ => ?_
    exact keeps_bind (keeps_settled_bfree ip addr) fun _ =>
      keeps_update fun _ => settled_setInode rfl
  · exact keeps_bind (keeps_update fun _ => settled_setInode rfl) fun _ =>
      keeps_settled_iupdate ip

theorem keeps_settled_readBlocks (turns off n : Nat) :
    Keeps (Settled ip) (readBlocks ip turns off n) := by
  induction turns generalizing off n with
  | zero => exact keeps_pure
  | succ turns ih =>
    refine keeps_ite keeps_pure (keeps_bind (keeps_settled_bmap ip _) fun addr => ?_)
    refine keeps_bind keeps_reading fun bytes => ?_
    exact keeps_bind (ih _ _) fun rest => keeps_pure

theorem keeps_settled_writeBlocks (turns off : Nat) (src : List Byte) :
    Keeps (Settled ip) (writeBlocks ip turns off src) := by
  induction turns generalizing off src with
  | zero => exact keeps_pure
  | succ turns ih =>
    refine keeps_ite keeps_pure (keeps_bind (keeps_settled_bmap ip _) fun addr => ?_)
    exact keeps_bind (keeps_update fun _ => settled_of_eq rfl rfl rfl) fun _ => ih _ _

end

/-! ## References and locks -/

variable {dev : Nat}

theorem runs_iget (ran : Runs (iget dev inum) fs ip target) :
    (0 < (fs.icache ip).ref ∧ (fs.icache ip).dev = dev ∧ (fs.icache ip).inum = inum ∧
      target = fs.setInode ip fun inode => { inode with ref := inode.ref + 1 }) ∨
    ((∀ other, 0 < (fs.icache other).ref →
        ¬((fs.icache other).dev = dev ∧ (fs.icache other).inum = inum)) ∧
      (fs.icache ip).ref = 0 ∧ target = fs.setInode ip fun inode =>
        { inode with dev := dev, inum := inum, ref := 1, valid := false }) := by
  unfold iget at ran
  simp only [runs_bind, runs_reading] at ran
  obtain ⟨cached, _, ⟨cached_eq, rfl⟩, ran⟩ := ran
  cases cached with
  | some found =>
    simp only [runs_bind, runs_update, runs_pure] at ran
    obtain ⟨_, _, updated, rfl, rfl⟩ := ran
    have holds := find?_some cached_eq
    simp only [decide_eq_true_eq] at holds
    exact .inl ⟨holds.1, holds.2.1, holds.2.2, updated.symm⟩
  | none =>
    simp only [runs_bind, runs_reading] at ran
    obtain ⟨empty, _, ⟨empty_eq, rfl⟩, ran⟩ := ran
    rw [find?_eq_none] at cached_eq
    have fresh other (used : 0 < (fs.icache other).ref) :
        ¬((fs.icache other).dev = dev ∧ (fs.icache other).inum = inum) := by
      intro same
      have not := cached_eq other (mem_finRange other)
      simp only [decide_eq_true_eq] at not
      exact not ⟨used, same⟩
    cases empty with
    | none => exact (runs_stop.mp ran).elim
    | some found =>
      simp only [runs_bind, runs_update, runs_pure] at ran
      obtain ⟨_, _, updated, rfl, rfl⟩ := ran
      have unused := find?_some empty_eq
      simp only [decide_eq_true_eq] at unused
      exact .inr ⟨fresh, unused, updated.symm⟩

variable {type : FileType}

/-- `ialloc` marks a free inode as allocated on the disk and takes a reference to it. -/
theorem runs_ialloc (ran : Runs (ialloc dev type) fs ip target) :
    ∃ inum, 1 ≤ inum ∧ inum < fs.sb.ninodes ∧ (fs.inodes inum).type = .free ∧
      Runs (iget dev inum) (fs.setDinode inum (Dinode.zero type)) ip target := by
  unfold ialloc at ran
  simp only [runs_bind, runs_reading] at ran
  obtain ⟨found, _, ⟨found_eq, rfl⟩, ran⟩ := ran
  cases found with
  | none => exact (runs_stop.mp ran).elim
  | some inum =>
    simp only [runs_bind, runs_update] at ran
    obtain ⟨_, _, rfl, ran⟩ := ran
    have range := mem_of_find?_eq_some found_eq
    have free := find?_some found_eq
    simp only [mem_range'_1] at range
    simp only [decide_eq_true_eq] at free
    exact ⟨inum, range.1, by omega, free, ran⟩

/-- The slot that `iget` returns is for the inode. -/
theorem inum_of_iget (ran : Runs (iget dev inum) fs ip target) :
    (target.icache ip).inum = inum ∧ target.inodes = fs.inodes := by
  rcases runs_iget ran with ⟨-, -, inum_eq, rfl⟩ | ⟨-, -, rfl⟩
  · simp [inum_eq]
  · simp

theorem type_of_ialloc (ran : Runs (ialloc dev type) fs ip target) :
    (target.inodes (target.icache ip).inum).type = type := by
  obtain ⟨inum, -, -, -, got⟩ := runs_ialloc ran
  obtain ⟨inum_eq, inodes_eq⟩ := inum_of_iget got
  rw [inum_eq, inodes_eq, inodes_setDinode_self]
  rfl

theorem runs_idup {result : Islot} :
    Runs (idup ip) fs result target ↔
      result = ip ∧ target = fs.setInode ip fun inode => { inode with ref := inode.ref + 1 } := by
  unfold idup
  simp only [runs_bind, runs_update, runs_pure]
  constructor
  · rintro ⟨_, _, rfl, rfl, rfl⟩
    exact ⟨rfl, rfl⟩
  · rintro ⟨rfl, rfl⟩
    exact ⟨(), _, rfl, rfl, rfl⟩

variable {value : Unit}

theorem runs_ilock :
    Runs (ilock ip) fs value target ↔
      1 ≤ (fs.icache ip).ref ∧ (fs.icache ip).locked = false ∧
        ((fs.icache ip).valid = true ∧
            target = fs.setInode ip (fun inode => { inode with locked := true }) ∨
          (fs.icache ip).valid = false ∧ (fs.inodes (fs.icache ip).inum).type ≠ .free ∧
            target = fs.setInode ip fun inode =>
              { inode with toDinode := fs.inodes inode.inum, locked := true, valid := true }) := by
  unfold ilock
  simp only [runs_bind, runs_ensure, runs_update, runs_reading, runs_whenever]
  constructor
  · rintro ⟨_, _, ⟨used, rfl⟩, _, _, ⟨free, rfl⟩, _, _, rfl, valid, _, ⟨rfl, rfl⟩, loaded⟩
    refine ⟨used, free, ?_⟩
    simp only [icache_setInode_self] at loaded
    rcases loaded with ⟨invalid, _, _, rfl, typed, rfl⟩ | ⟨valid, rfl⟩
    · simp only [setInode_setInode, icache_setInode_self] at typed ⊢
      exact .inr ⟨invalid, typed, rfl⟩
    · exact .inl ⟨by simpa using valid, rfl⟩
  · rintro ⟨used, free, ⟨valid, rfl⟩ | ⟨invalid, typed, rfl⟩⟩
    · exact ⟨(), _, ⟨used, rfl⟩, (), _, ⟨free, rfl⟩, (), _, rfl, true, _,
        ⟨by simpa using valid, rfl⟩, .inr ⟨by simp, rfl⟩⟩
    · refine ⟨(), _, ⟨used, rfl⟩, (), _, ⟨free, rfl⟩, (), _, rfl, false, _,
        ⟨by simpa using invalid, rfl⟩, .inl ⟨rfl, (), _, rfl, ?_, ?_⟩⟩
      · simpa using typed
      · simp

theorem inodes_of_ilock (ran : Runs (ilock ip) fs value target) :
    target.inodes = fs.inodes ∧ (target.icache ip).inum = (fs.icache ip).inum := by
  obtain ⟨-, -, ⟨-, rfl⟩ | ⟨-, -, rfl⟩⟩ := runs_ilock.mp ran
  · simp
  · simp

theorem runs_iunlock :
    Runs (iunlock ip) fs value target ↔
      (fs.icache ip).locked = true ∧ 1 ≤ (fs.icache ip).ref ∧
        target = fs.setInode ip fun inode => { inode with locked := false } := by
  unfold iunlock
  simp only [runs_bind, runs_ensure, runs_update]
  constructor
  · rintro ⟨_, _, ⟨⟨locked, used⟩, rfl⟩, rfl⟩
    exact ⟨locked, used, rfl⟩
  · rintro ⟨locked, used, rfl⟩
    exact ⟨(), _, ⟨⟨locked, used⟩, rfl⟩, rfl⟩

/-- `iput` frees the inode or only drops the reference. -/
theorem runs_iput (ran : Runs (iput ip) fs value target) :
    (((fs.icache ip).ref = 1 ∧ (fs.icache ip).valid = true ∧ (fs.icache ip).nlink = 0) ∧
      ∃ middle, Runs (itrunc ip) fs () middle ∧
        target = (middle.setDinode (middle.icache ip).inum
          { (middle.icache ip).toDinode with type := .free }).setInode ip fun inode =>
            { inode with type := .free, valid := false, ref := inode.ref - 1 }) ∨
    (¬((fs.icache ip).ref = 1 ∧ (fs.icache ip).valid = true ∧ (fs.icache ip).nlink = 0) ∧
      target = fs.setInode ip fun inode => { inode with ref := inode.ref - 1 }) := by
  unfold iput iupdate at ran
  simp only [runs_bind, runs_reading, runs_whenever, runs_update] at ran
  obtain ⟨inode, _, ⟨rfl, rfl⟩, _, _, freed, rfl⟩ := ran
  rcases freed with ⟨last, _, middle, truncated, _, _, rfl, _, _, rfl, rfl⟩ | ⟨notLast, rfl⟩
  · refine .inl ⟨last, middle, truncated, ?_⟩
    simp [setInode, setDinode]
  · exact .inr ⟨notLast, rfl⟩

/-! ## Reading and writing -/

/-- Giving up the lock of a valid inode and taking it again changes nothing. -/
theorem eq_of_relocked {middle : Fs} {first second : Unit}
    (valid : (fs.icache ip).valid = true) (unlocked : Runs (iunlock ip) fs first middle)
    (locked : Runs (ilock ip) middle second target) : target = fs := by
  obtain ⟨wasLocked, -, rfl⟩ := runs_iunlock.mp unlocked
  obtain ⟨-, -, ⟨-, rfl⟩ | ⟨invalid, -⟩⟩ := runs_ilock.mp locked
  · rw [setInode_setInode]
    exact setInode_eq_self (by simp [← wasLocked])
  · simp [valid] at invalid

/-- A driver gives up the lock of its inode for a while. -/
theorem eq_of_console {β : Type} {value result : β} (valid : (fs.icache ip).valid = true)
    (ran : Runs (do iunlock ip; ilock ip; pure value) fs result target) : target = fs := by
  simp only [runs_bind, runs_pure] at ran
  obtain ⟨_, _, unlocked, _, _, locked, -, rfl⟩ := ran
  exact eq_of_relocked valid unlocked locked

variable {off : Nat}

theorem settled_readi {input : Option (List Byte)} {n : Nat} {bytes : Option (List Byte)}
    (valid : (fs.icache ip).valid = true) (ran : Runs (readi input ip off n) fs bytes target) :
    Settled ip fs target := by
  unfold readi at ran
  simp only [runs_bind, runs_reading] at ran
  obtain ⟨inode, _, ⟨rfl, rfl⟩, ran⟩ := ran
  split at ran
  · split at ran
    · rw [eq_of_console valid ran]
      exact .refl ip fs
    · exact keeps_pure _ _ _ ran
  · split at ran
    · exact keeps_pure _ _ _ ran
    · simp only [runs_bind, runs_pure] at ran
      obtain ⟨_, _, read, -, rfl⟩ := ran
      exact keeps_settled_readBlocks _ _ _ _ _ _ _ read

theorem settled_writei {src : List Byte} {written : Option Nat}
    (valid : (fs.icache ip).valid = true) (ran : Runs (writei ip off src) fs written target) :
    Settled ip fs target := by
  unfold writei at ran
  simp only [runs_bind, runs_reading] at ran
  obtain ⟨inode, _, ⟨rfl, rfl⟩, ran⟩ := ran
  split at ran
  · split at ran
    · rw [eq_of_console valid ran]
      exact .refl ip fs
    · exact keeps_pure _ _ _ ran
  · split at ran
    · exact keeps_pure _ _ _ ran
    · split at ran
      · exact keeps_pure _ _ _ ran
      · refine keeps_bind (keeps_settled_writeBlocks ip _ _ _) (fun _ => ?_) _ _ _ ran
        refine keeps_bind keeps_reading fun size => ?_
        refine keeps_bind (keeps_whenever ?_) fun _ => keeps_pure
        exact keeps_bind (keeps_update fun _ => settled_setInode rfl) fun _ =>
          keeps_settled_iupdate ip

theorem runs_readDirent {message : String} {de : Dirent} :
    Runs (readDirent message ip off) fs de target ↔
      ∃ bytes, Runs (readi none ip off direntSize) fs (some bytes) target ∧
        bytes.length = direntSize ∧ Dirent.ofBytes bytes = de := by
  unfold readDirent
  rw [runs_bind]
  constructor
  · rintro ⟨result, middle, read, ran⟩
    cases result with
    | none => exact (runs_stop.mp ran).elim
    | some bytes =>
      dsimp only at ran
      split at ran
      · obtain ⟨rfl, rfl⟩ := runs_pure.mp ran
        exact ⟨bytes, read, ‹_›, rfl⟩
      · exact (runs_stop.mp ran).elim
  · rintro ⟨bytes, read, length, rfl⟩
    refine ⟨some bytes, target, read, ?_⟩
    dsimp only
    rw [if_pos length, runs_pure]
    exact ⟨rfl, rfl⟩

end Xv6.FileSystem
