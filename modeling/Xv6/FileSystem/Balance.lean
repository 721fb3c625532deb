import Xv6.FileSystem.Session

/-!
# Every transaction balances its account

What each function of the directory layer and each transaction adds to the references
and locks of its session.  A function that returns an inode leaves one reference to it; on
every other way out a transaction has given back all it took.
-/

namespace Xv6.FileSystem

open Prog List Ensures

variable {fs target origin : Fs} {ip dp cwd : Islot} {base : Islot → Int}
  {held locks : List Islot} {name path : List Byte} {input : Option (List Byte)}

theorem dvd_of_mem_offsets {start size off : Nat} (aligned : direntSize ∣ start)
    (mem : off ∈ offsets start size) : direntSize ∣ off := by
  obtain ⟨index, -, rfl⟩ := mem_map.mp mem
  exact Nat.dvd_add aligned (Nat.dvd_mul_right ..)

namespace Session

/-! ## Directories -/

variable {off : Nat}

section

variable (session : Session origin base held locks fs)

include session

theorem readi {n : Nat} (mem : ip ∈ locks) :
    Yields (readi input ip off n) fs fun _ target =>
      Session origin base held locks target ∧ Settled ip fs target :=
  yields_of_runs fun bytes _ ran =>
    have settled := settled_readi (session.isValid mem) ran
    ⟨session.settled (.read ip input off n bytes (session.isLocked mem) ran) settled, settled⟩

theorem writei {src : List Byte} (mem : ip ∈ locks) (notDir : (fs.icache ip).type ≠ .dir) :
    Yields (writei ip off src) fs fun _ target => Session origin base held locks target :=
  yields_of_runs fun written _ ran =>
    session.settled (.write ip off src written (session.isLocked mem) notDir ran)
      (settled_writei (session.isValid mem) ran)

/-- A write of a whole entry into a directory. -/
theorem enter {bytes : List Byte} (mem : dp ∈ locks) (aligned : direntSize ∣ off)
    (entry : bytes = replicate direntSize 0 ∨ ∃ ip name, 1 ≤ (fs.icache ip).ref ∧
      bytes = Dirent.toBytes ⟨(fs.icache ip).inum, padName name⟩) :
    Yields (FileSystem.writei dp off bytes) fs fun _ target =>
      Session origin base held locks target ∧ Settled dp fs target :=
  yields_of_runs fun written _ ran =>
    have settled := settled_writei (session.isValid mem) ran
    ⟨session.settled (.enter dp off bytes written (session.isLocked mem) aligned entry ran)
      settled, settled⟩

theorem readDirent {message : String} (mem : dp ∈ locks) :
    Yields (readDirent message dp off) fs fun _ target =>
      Session origin base held locks target ∧ Settled dp fs target :=
  yields_of_runs fun _ _ ran =>
    have ⟨_, read, _⟩ := runs_readDirent.mp ran
    (session.readi mem).of_runs read

end

/-- The references that a lookup leaves. -/
def found (result : Option (Islot × Nat)) : List Islot :=
  (result.map Prod.fst).toList

variable {offs : List Nat}

section

variable (session : Session origin base held locks fs)

include session

theorem dirlookupFrom (mem : dp ∈ locks) (isDir : (fs.icache dp).type = .dir) :
    Yields (dirlookupFrom dp name offs) fs fun result target =>
      Session origin base (found result ++ held) locks target ∧
        (∀ entry ∈ result, entry.2 ∈ offs) ∧ (result = none → Settled dp fs target) := by
  induction offs generalizing fs with
  | nil => exact ⟨session, by simp, fun _ => .refl dp fs⟩
  | cons off rest ih =>
    rw [FileSystem.dirlookupFrom]
    refine ensures_bind.mpr ((session.readDirent mem).mono ?_)
    rintro de middle read ⟨after, settled⟩
    split
    · next isMatch =>
      refine .reading (ensures_bind.mpr (yields_of_runs fun ip target got => ?_))
      have op : Op fs target := .lookup dp ip "dirlink read" off de middle
        (session.isLocked mem) isDir read isMatch.1 got
      exact ⟨session.take op (.of_settled settled (counts_iget got)), by simp, by simp⟩
    · refine (ih after ((settled.type dp).trans isDir)).mono fun result target _ looked => ?_
      obtain ⟨after, offset, quiet⟩ := looked
      exact ⟨after, fun entry mem => mem_cons_of_mem _ (offset entry mem),
        fun none => settled.trans (quiet none)⟩

theorem dirlookup (mem : dp ∈ locks) :
    Yields (dirlookup dp name) fs fun result target =>
      Session origin base (found result ++ held) locks target ∧
        (∀ entry ∈ result, direntSize ∣ entry.2) ∧ (result = none → Settled dp fs target) := by
  refine Yields.checked fun isDir => .reading ?_
  refine (session.dirlookupFrom mem isDir).mono fun result target _ looked => ?_
  exact ⟨looked.1, fun entry mem =>
    dvd_of_mem_offsets (Nat.dvd_zero _) (looked.2.1 entry mem), looked.2.2⟩

theorem emptyFrom {last : Nat} (mem : dp ∈ locks) :
    Yields (emptyFrom dp last offs) fs fun off target =>
      Session origin base held locks target ∧ Settled dp fs target ∧ (off = last ∨ off ∈ offs) := by
  induction offs generalizing fs with
  | nil => exact ⟨session, .refl dp fs, .inl rfl⟩
  | cons first rest ih =>
    rw [FileSystem.emptyFrom]
    refine (session.readDirent mem).bind fun de middle read => ?_
    split
    · exact ⟨read.1, read.2, .inr mem_cons_self⟩
    · refine (ih read.1).mono fun off target _ scanned => ?_
      exact ⟨scanned.1, read.2.trans scanned.2.1, scanned.2.2.imp_right (mem_cons_of_mem first)⟩

end

/-- The number is that of an inode in use. -/
def Named (fs : Fs) (inum : Nat) : Prop :=
  ∃ ip, 1 ≤ (fs.icache ip).ref ∧ (fs.icache ip).inum = inum

variable {inum : Nat}

theorem Named.settled (named : Named fs inum) (settled : Settled dp fs target) :
    Named target inum := by
  obtain ⟨ip, used, inum_eq⟩ := named
  exact ⟨ip, (settled.ref ip).symm ▸ used, (settled.inum ip).trans inum_eq⟩

/-- A successful `dirlink` changes no reference, no lock and no inode number. -/
theorem dirlink (session : Session origin base held locks fs) (mem : dp ∈ locks)
    (owned : ∀ other ∈ locks, other ∈ held) (named : Named fs inum) :
    Yields (dirlink dp name inum) fs fun linked target =>
      Session origin base held locks target ∧ (linked = true → Settled dp fs target) := by
  refine (session.dirlookup mem).bind fun result middle looked => ?_
  cases result with
  | some result => exact (looked.1.iput (owned _)).bind fun _ _ put => ⟨put, by simp⟩
  | none =>
    refine .reading ((looked.1.emptyFrom mem).bind fun off second scanned => ?_)
    obtain ⟨scan, scanSettled, off_eq⟩ := scanned
    have quiet := (looked.2.2 rfl).trans scanSettled
    obtain ⟨ip, used, inum_eq⟩ := named.settled quiet
    have aligned : direntSize ∣ off := by
      rcases off_eq with rfl | mem
      · exact Nat.dvd_mul_right ..
      · exact dvd_of_mem_offsets (Nat.dvd_zero _) mem
    refine (scan.enter mem aligned (.inr ⟨ip, name, used, by rw [inum_eq]⟩)).bind ?_
    intro written third wrote
    split
    · exact ⟨wrote.1, fun _ => quiet.trans wrote.2⟩
    · trivial

/-! ## Paths -/

/-- The references that a path lookup leaves. -/
def reached (result : Option (Islot × List Byte)) : List Islot :=
  (result.map Prod.fst).toList

variable {parent : Bool}

theorem walk {names : List (List Byte)} (session : Session origin base (ip :: held) [] fs) :
    Yields (walk parent ip names) fs fun result target =>
      Session origin base (reached result ++ held) [] target := by
  induction names generalizing fs ip with
  | nil =>
    unfold FileSystem.walk
    split
    · exact (session.iput (by simp)).bind fun _ _ put => put
    · exact session
  | cons name rest ih =>
    unfold FileSystem.walk
    refine session.ilock.bind fun _ _ locked => .reading ?_
    split
    · exact locked.iunlockput.bind fun _ _ put => put
    · split
      · exact locked.iunlock.bind fun _ _ unlocked => unlocked
      · refine (locked.dirlookup mem_cons_self).bind fun next _ looked => ?_
        cases next with
        | none => exact looked.1.iunlockput.bind fun _ _ put => put
        | some next =>
          exact (looked.1.perm (.swap ..) .rfl).iunlockput.bind fun _ _ put => ih put

theorem usedBase (session : Session origin base held locks fs) (owned : 1 ≤ base ip) :
    1 ≤ (fs.icache ip).ref := by
  have := session.ref ip
  omega

theorem namex (session : Session origin base held [] fs) (cwdUsed : 1 ≤ base cwd) :
    Yields (namex cwd parent path) fs fun result target =>
      Session origin base (reached result ++ held) [] target := by
  refine ensures_bind.mpr (yields_of_runs fun ip middle started => ?_)
  unfold startOf at started
  split at started
  · exact (session.take (.root ip started) (counts_iget started)).walk
  · obtain ⟨rfl, -⟩ := runs_idup.mp started
    exact (session.take (.dup _ _ (session.usedBase cwdUsed) started) (counts_idup started)).walk

theorem namei (session : Session origin base held [] fs) (cwdUsed : 1 ≤ base cwd) :
    Yields (namei cwd path) fs fun result target =>
      Session origin base (result.toList ++ held) [] target :=
  (session.namex cwdUsed).bind fun _ _ looked => looked

/-! ## Links -/

theorem undoLink (session : Session origin base (ip :: held) [] fs) :
    Yields (undoLink ip) fs fun _ target => Session origin base held [] target := by
  refine session.ilock.bind fun _ _ locked => ?_
  refine (locked.relabel mem_cons_self (relabels_addLinks _)).bind fun _ _ changed => ?_
  exact changed.1.iunlockput.bind fun _ _ put => put

theorem linkInto (session : Session origin base held locks fs) (mem : dp ∈ locks)
    (owned : ∀ other ∈ locks, other ∈ held) (kept : ip ∈ held) :
    Yields (linkInto dp ip name) fs fun _ target => Session origin base held locks target := by
  refine reading (.reading ?_)
  split
  · exact session
  · exact (session.dirlink mem owned ⟨ip, session.used kept, rfl⟩).mono fun _ _ _ linked =>
      linked.1

theorem link {old new : List Byte} (session : Session origin base held [] fs)
    (cwdUsed : 1 ≤ base cwd) :
    Yields (link cwd old new) fs fun _ target => Session origin base held [] target := by
  refine (session.namei cwdUsed).bind fun found _ foundSession => ?_
  cases found with
  | none => exact foundSession
  | some ip =>
    refine foundSession.ilock.bind fun _ _ locked => .reading ?_
    split
    · exact locked.iunlockput.bind fun _ _ put => put
    · refine (locked.relabel mem_cons_self (relabels_addLinks 1)).bind ?_
      intro _ _ counted
      refine counted.1.iunlock.bind fun _ _ unlocked => ?_
      refine (unlocked.namex cwdUsed).bind fun parent _ parentSession => ?_
      cases parent with
      | none => exact parentSession.undoLink
      | some parent =>
        refine parentSession.ilock.bind fun _ _ locked => ?_
        refine (locked.linkInto mem_cons_self (by simp [reached])
          (by simp [reached])).bind fun linked _ entered => ?_
        refine entered.iunlockput.bind fun _ _ put => ?_
        split
        · exact (put.iput (by simp)).bind fun _ _ done => done
        · exact put.undoLink

theorem isdiremptyFrom (session : Session origin base held locks fs) (mem : ip ∈ locks) :
    Yields (isdiremptyFrom ip offs) fs fun _ target =>
      Session origin base held locks target := by
  induction offs generalizing fs with
  | nil => exact session
  | cons off rest ih =>
    rw [FileSystem.isdiremptyFrom]
    refine (session.readDirent mem).bind fun de _ read => ?_
    split
    · exact read.1
    · exact ih read.1

theorem removable (session : Session origin base held locks fs) (mem : ip ∈ locks) :
    Yields (removable ip) fs fun _ target => Session origin base held locks target := by
  refine reading ?_
  split
  · exact reading (session.isdiremptyFrom mem)
  · exact session

theorem removeEntry (session : Session origin base (ip :: dp :: held) [ip, dp] fs)
    (aligned : direntSize ∣ off) :
    Yields (removeEntry dp ip off) fs fun _ target => Session origin base held [] target := by
  have parentLocked : dp ∈ [ip, dp] := by simp
  refine (session.enter parentLocked aligned (.inl rfl)).bind fun written _ cleared => ?_
  refine Yields.checked fun _ => .reading ?_
  refine bind (.whenever (fun _ => (cleared.1.relabel parentLocked
    (relabels_addLinks _)).mono fun _ _ _ changed => changed.1) fun _ => cleared.1) ?_
  intro _ _ counted
  refine (counted.perm (.swap ..) (.swap ..)).iunlockput.bind fun _ _ parentPut => ?_
  refine (parentPut.relabel mem_cons_self (relabels_addLinks _)).bind fun _ _ changed => ?_
  exact changed.1.iunlockput.bind fun _ _ put => put

theorem unlink (session : Session origin base held [] fs) (cwdUsed : 1 ≤ base cwd) :
    Yields (unlink cwd path) fs fun _ target => Session origin base held [] target := by
  refine (session.namex cwdUsed).bind fun parent _ parentSession => ?_
  cases parent with
  | none => exact parentSession
  | some parent =>
    refine parentSession.ilock.bind fun _ _ locked => ?_
    split
    · exact locked.iunlockput.bind fun _ _ put => put
    · refine (locked.dirlookup mem_cons_self).bind fun found _ looked => ?_
      cases found with
      | none => exact looked.1.iunlockput.bind fun _ _ put => put
      | some found =>
        refine looked.1.ilock.bind fun _ _ locked => Yields.checked fun _ => ?_
        refine (locked.removable mem_cons_self).bind fun mayGo _ tested => ?_
        split
        · exact tested.removeEntry (looked.2.1 found rfl)
        · refine tested.iunlockput.bind fun _ _ put => ?_
          exact put.iunlockput.bind fun _ _ parentPut => parentPut

/-! ## Creation -/

/-- Dropping an inode leaves the inodes of other slots alone. -/
theorem stable_iunlockput {other : Islot} {value : Unit} (ne : other ≠ ip)
    (ran : Runs (FileSystem.iunlockput ip) fs value target) :
    Stable (fs.icache other) (target.icache other) := by
  unfold FileSystem.iunlockput at ran
  rw [runs_bind] at ran
  obtain ⟨_, middle, unlocked, put⟩ := ran
  have stable := stable_iput ne put
  obtain ⟨-, -, rfl⟩ := runs_iunlock.mp unlocked
  rw [Fs.icache_setInode_of_ne ne] at stable
  exact stable

theorem createDots (session : Session origin base (ip :: dp :: held) [ip, dp] fs) :
    Yields (createDots dp ip) fs fun _ target =>
      Session origin base (ip :: dp :: held) [ip, dp] target ∧
        Stable (fs.icache ip) (target.icache ip) := by
  have owned : ∀ other ∈ [ip, dp], other ∈ ip :: dp :: held := by simp
  refine (session.relabel (by simp) (relabels_addLinks 1)).bind fun _ _ counted => .reading ?_
  refine (counted.1.dirlink mem_cons_self owned
    ⟨ip, counted.1.used mem_cons_self, rfl⟩).bind fun self _ linked => ?_
  refine Yields.checked fun linkedSelf => .reading ?_
  refine (linked.1.dirlink mem_cons_self owned
    ⟨dp, linked.1.used (by simp), rfl⟩).bind fun parent _ entered => ?_
  refine ensures_ensure.mpr ?_
  split
  · next linkedParent =>
    exact ⟨entered.1, ((counted.2 ip).trans ((linked.2 linkedSelf).stable ip)).trans
      ((entered.2 linkedParent).stable ip)⟩
  · trivial

variable {type : FileType} {major minor : Int}

/-- The new inode is returned locked, with the type that was asked for. -/
theorem createNew (session : Session origin base (dp :: held) [dp] fs) (typed : type ≠ .free) :
    Yields (createNew dp name type major minor) fs fun ip target =>
      Session origin base (ip :: held) [ip] target ∧ (target.icache ip).type = type := by
  refine reading (ensures_bind.mpr (yields_of_runs fun ip first allocated => ?_))
  have allocSession := session.take
    (.alloc dp ip type (session.isLocked mem_cons_self) typed allocated)
    (counts_ialloc allocated)
  refine ensures_bind.mpr (allocSession.ilock.mono fun _ second locked lockedSession => ?_)
  have ne : ip ≠ dp := by simpa using lockedSession.nodup
  have valid := lockedSession.isValid mem_cons_self
  have lockedType : (second.icache ip).type = type := by
    have agrees := (lockedSession.sound.typed ip (lockedSession.used mem_cons_self) valid).1
    obtain ⟨inodes_eq, inum_eq⟩ := inodes_of_ilock locked
    rw [← agrees, inodes_eq, inum_eq, type_of_ialloc allocated]
  refine (lockedSession.relabel mem_cons_self fun _ => ⟨major, minor, 1, rfl⟩).bind ?_
  intro _ third labelled
  refine bind (.whenever (fun _ => labelled.1.createDots) fun _ =>
    ⟨labelled.1, .refl _⟩) fun _ fourth dotted => .reading ?_
  refine (dotted.1.dirlink (by simp) (by simp)
    ⟨ip, dotted.1.used mem_cons_self, rfl⟩).bind fun linked fifth entered => ?_
  refine Yields.checked fun isLinked => ensures_bind.mpr ?_
  refine (entered.1.perm (.swap ..) (.swap ..)).iunlockput.mono fun _ last ran put => ⟨put, ?_⟩
  have stable : Stable (second.icache ip) (last.icache ip) :=
    ((labelled.2 ip).trans dotted.2).trans
      (((entered.2 isLinked).stable ip).trans (stable_iunlockput ne ran))
  exact (stable.valid valid).2.trans lockedType

section

variable (session : Session origin base held [] fs)

include session

theorem create (cwdUsed : 1 ≤ base cwd) (typed : type ≠ .free) :
    Yields (create cwd path type major minor) fs fun result target =>
      Session origin base (result.toList ++ held) result.toList target ∧
        ∀ ip ∈ result, (target.icache ip).type = type := by
  refine (session.namex cwdUsed).bind fun parent _ parentSession => ?_
  cases parent with
  | none => exact ⟨parentSession, by simp⟩
  | some parent =>
    refine parentSession.ilock.bind fun _ _ locked => ?_
    refine (locked.dirlookup mem_cons_self).bind fun found _ looked => ?_
    cases found with
    | none =>
      exact (looked.1.createNew typed).bind fun ip _ made => ⟨made.1, by simpa using made.2⟩
    | some found =>
      refine (looked.1.perm (.swap ..) .rfl).iunlockput.bind fun _ _ put => ?_
      refine put.ilock.bind fun _ _ locked => .reading ?_
      split
      · next isFile => exact ⟨locked, by simp [isFile.1, isFile.2]⟩
      · exact locked.iunlockput.bind fun _ _ put => ⟨put, by simp⟩

/-- A directory is only opened for reading. -/
theorem openInode {omode : BitVec 32} (cwdUsed : 1 ≤ base cwd) :
    Yields (openInode cwd path omode) fs fun result target =>
      Session origin base (result.toList ++ held) result.toList target ∧
        ∀ ip ∈ result, omode ≠ 0 → (target.icache ip).type ≠ .dir := by
  unfold FileSystem.openInode
  split
  · refine (session.create cwdUsed (by simp)).mono fun _ _ _ made => ⟨made.1, fun ip mem _ => ?_⟩
    rw [made.2 ip mem]
    simp
  · refine (session.namei cwdUsed).bind fun found _ foundSession => ?_
    cases found with
    | none => exact ⟨foundSession, by simp⟩
    | some ip =>
      refine foundSession.ilock.bind fun _ _ locked => .reading ?_
      split
      · exact locked.iunlockput.bind fun _ _ put => ⟨put, by simp⟩
      · next notDir =>
        refine ⟨locked, ?_⟩
        simp only [Option.mem_def, Option.some.injEq]
        rintro _ rfl notRead isDir
        exact notDir ⟨isDir, notRead⟩

theorem make (cwdUsed : 1 ≤ base cwd) (typed : type ≠ .free) :
    Yields (make cwd path type major minor) fs fun _ target =>
      Session origin base held [] target := by
  refine (session.create cwdUsed typed).bind fun result _ made => ?_
  cases result with
  | none => exact made.1
  | some ip => exact made.1.iunlockput.bind fun _ _ put => put

theorem openDir (cwdUsed : 1 ≤ base cwd) :
    Yields (openDir cwd path) fs fun result target =>
      Session origin base (result.toList ++ held) [] target := by
  refine (session.namei cwdUsed).bind fun found _ foundSession => ?_
  cases found with
  | none => exact foundSession
  | some ip =>
    refine foundSession.ilock.bind fun _ _ locked => .reading ?_
    split
    · exact locked.iunlockput.bind fun _ _ put => put
    · exact locked.iunlock.bind fun _ _ unlocked => unlocked

end

/-! ## Program files -/

theorem loaduvm {offset filesz : Nat} {pages : List Nat}
    (session : Session origin base held locks fs) (mem : ip ∈ locks) :
    Yields (loaduvm input ip offset filesz pages) fs fun _ target =>
      Session origin base held locks target := by
  induction pages generalizing fs with
  | nil => exact session
  | cons page rest ih =>
    rw [FileSystem.loaduvm]
    refine (session.readi mem).bind fun bytes _ read => ?_
    split
    · exact ih read.1
    · exact read.1

variable {memory : Nat → Bool}

theorem loadSegments {segments : List Nat} {phoff : Nat}
    (session : Session origin base held locks fs) (mem : ip ∈ locks) :
    Yields (loadSegments input ip memory segments phoff) fs fun _ target =>
      Session origin base held locks target := by
  induction segments generalizing fs with
  | nil => exact session
  | cons segment rest ih =>
    rw [FileSystem.loadSegments]
    refine (session.readi mem).bind fun ph _ read => ?_
    cases ph with
    | none => exact read.1
    | some ph =>
      dsimp only
      split
      · exact read.1
      · split
        · exact ih read.1
        · split
          · exact read.1
          · refine (read.1.loaduvm mem).bind fun loaded _ copied => ?_
            split
            · exact ih copied
            · exact copied

theorem loadProgram {setup : Bool} (session : Session origin base held [] fs)
    (cwdUsed : 1 ≤ base cwd) :
    Yields (loadProgram input setup memory cwd path) fs fun _ target =>
      Session origin base held [] target := by
  refine (session.namei cwdUsed).bind fun found _ foundSession => ?_
  cases found with
  | none => exact foundSession
  | some ip =>
    refine foundSession.ilock.bind fun _ middle locked => ?_
    have loaded : Yields (loadElf input setup memory ip) middle fun _ target =>
        Session origin base (ip :: held) [ip] target := by
      refine (locked.readi mem_cons_self).bind fun elf _ read => ?_
      cases elf with
      | none => exact read.1
      | some elf =>
        dsimp only
        split
        · exact read.1
        · exact read.1.loadSegments mem_cons_self
    exact loaded.bind fun _ _ after => after.iunlockput.bind fun _ _ put => put

end Session

end Xv6.FileSystem
