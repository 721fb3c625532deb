import Xv6.FileSystem.Books

/-!
# Every system call closes its books

After a system call no reference and no lock belongs to it any more, whether it
succeeded or returned an error.
-/

namespace Xv6.FileSystem

open Xv6.Custody List Kernel Proc Function
open Xv6.Process (nproc nofile Slot)
open Prog

variable {origin : Fs} {procs procs' : Slot → Proc} {files files' : List Fslot}
  {inodes inodes' locks : List Islot} {kernel : Kernel} {f : Fslot} {ip : Islot} {p : Slot}
  {β : Type} {post : β → Kernel → Prop}

namespace Proc

@[simp]
theorem ofile_abandon (proc : Proc) (p : Slot) : (proc.abandon p).ofile = proc.ofile := by
  unfold abandon
  split <;> rfl

@[simp]
theorem cwd_abandon (proc : Proc) (p : Slot) : (proc.abandon p).cwd = proc.cwd := by
  unfold abandon
  split <;> rfl

@[simp]
theorem status_abandon (proc : Proc) (p : Slot) : (proc.abandon p).status = proc.status := by
  unfold abandon
  split <;> rfl

end Proc

namespace Books

/-! ## Descriptors -/

/-- References change hands between the processes and the system call. -/
theorem transfer (books : Books origin procs files inodes locks kernel)
    (file : ∀ g, descriptors procs' g + files'.count g = descriptors procs g + files.count g)
    (inode : ∀ ip, cwds procs' ip + inodes'.count ip = cwds procs ip + inodes.count ip) :
    Books origin procs' files' inodes' locks kernel where
  ops := books.ops
  sound := books.sound
  file := by
    intro g
    have same := file g
    have before := books.file g
    omega
  vacant := books.vacant
  inode := by
    intro ip
    have same := inode ip
    have before := books.inode ip
    unfold owners at before ⊢
    omega
  locked := books.locked
  nodup := books.nodup
  readable := books.readable
  pipes := books.pipes

theorem swap {f0 f1 : Fslot} (books : Books origin procs [f1, f0] inodes locks kernel) :
    Books origin procs [f0, f1] inodes locks kernel :=
  books.transfer (fun g => by rw [(Perm.swap f1 f0 []).count_eq]) fun _ => rfl

/-- The books do not depend on the process table of the kernel. -/
theorem withProcs (books : Books origin procs files inodes locks kernel) (table : Slot → Proc) :
    Books origin procs files inodes locks { kernel with procs := table } :=
  ⟨books.ops, books.sound, books.file, books.vacant, books.inode, books.locked, books.nodup,
    books.readable, books.pipes⟩

theorem setProc (books : Books origin procs files inodes locks kernel) (p : Slot)
    (change : Proc → Proc) : Books origin procs files inodes locks (kernel.setProc p change) :=
  books.withProcs _

variable {fd : Fin nofile}

/-- One descriptor changes hands. -/
theorem setFd {new : Option Fslot} (books : Books origin procs files inodes locks kernel)
    (file : ∀ g, files'.count g + (if new = some g then 1 else 0) =
      files.count g + if (procs p).ofile fd = some g then 1 else 0) :
    Books origin (Function.update procs p ((procs p).setFd fd new)) files' inodes locks kernel := by
  refine books.transfer (fun g => ?_) fun ip => ?_
  · have moved := descriptors_setFd procs p fd new g
    have same := file g
    omega
  · have moved := cwds_update procs p ((procs p).setFd fd new) ip
    have kept : ((procs p).setFd fd new).cwd = (procs p).cwd := rfl
    rw [kept] at moved
    omega

/-- A descriptor is assigned the reference of the system call. -/
theorem assignFd (books : Books origin procs (f :: files) inodes locks kernel)
    (free : (procs p).ofile fd = none) :
    Books origin (Function.update procs p ((procs p).setFd fd (some f))) files inodes locks
      kernel :=
  books.setFd fun g => by simp [free, count_cons]

/-- The reference of a descriptor passes to the system call. -/
theorem clearFd (books : Books origin procs files inodes locks kernel)
    (used : (procs p).ofile fd = some f) :
    Books origin (Function.update procs p ((procs p).setFd fd none)) (f :: files) inodes locks
      kernel :=
  books.setFd fun g => by simp [used, count_cons]

/-- Nothing changes for processes that keep their files and directories. -/
theorem sameFiles (books : Books origin procs files inodes locks kernel)
    (ofile : ∀ slot, (procs' slot).ofile = (procs slot).ofile)
    (cwd : ∀ slot, (procs' slot).cwd = (procs slot).cwd) :
    Books origin procs' files inodes locks kernel := by
  refine books.transfer (fun g => ?_) fun ip => ?_
  · simp only [descriptors, ofile]
  · simp only [cwds, cwd]

/-- A process changes without touching its files and its directory. -/
theorem adjust {change : Proc → Proc} (books : Books origin kernel.procs files inodes locks kernel)
    (ofile : (change (kernel.procs p)).ofile = (kernel.procs p).ofile)
    (cwd : (change (kernel.procs p)).cwd = (kernel.procs p).cwd) :
    Books origin (kernel.setProc p change).procs files inodes locks (kernel.setProc p change) := by
  refine (books.setProc p change).sameFiles (fun slot => ?_) fun slot => ?_
  all_goals by_cases eq : slot = p
  · simp [Kernel.setProc, eq, ofile]
  · simp [Kernel.setProc, eq]
  · simp [Kernel.setProc, eq, cwd]
  · simp [Kernel.setProc, eq]

/-- A process exchanges its directory with an inode of the system call. -/
theorem swapCwd (p : Slot) (proc : Proc)
    (books : Books origin procs files (proc.cwd.toList ++ inodes) locks kernel)
    (ofile : proc.ofile = (procs p).ofile) :
    Books origin (Function.update procs p proc) files ((procs p).cwd.toList ++ inodes) locks
      kernel := by
  have counted (ip : Islot) (cwd : Option Islot) :
      cwd.toList.count ip = if cwd = some ip then 1 else 0 := by
    cases cwd with
    | none => rfl
    | some other => simp [count_singleton]
  refine books.transfer (fun g => ?_) fun ip => ?_
  · have same : descriptors (Function.update procs p proc) g = descriptors procs g := by
      refine references_congr fun entry => ?_
      by_cases eq : entry.1 = p
      · simp [eq, ofile]
      · simp [eq]
    rw [same]
  · have moved := cwds_update procs p proc ip
    rw [count_append, count_append, counted, counted]
    omega

theorem used_of_ofile (books : Books origin procs files inodes locks kernel)
    (used : (procs p).ofile fd = some f) : 1 ≤ (kernel.ftable f).ref := by
  have refers : (fun entry : Slot × Fin nofile => (procs entry.1).ofile entry.2) (p, fd) =
      some f := used
  have counted : 0 < descriptors procs f := references_pos refers
  have before := books.file f
  omega

end Books

theorem ensures_fdalloc {next : Option (Fin nofile) → KernelM β}
    (full : Ensures Allowed (next none) kernel post)
    (assigned : ∀ fd, (kernel.procs p).ofile fd = none → Ensures Allowed (next (some fd))
      (kernel.setProc p fun proc => proc.setFd fd (some f)) post) :
    Ensures Allowed (fdalloc p f >>= next) kernel post := by
  unfold fdalloc
  rw [ensures_bind, ensures_bind, ensures_reading]
  cases found : (finRange nofile).find? fun fd => (kernel.procs p).ofile fd = none with
  | none => exact full
  | some fd => exact assigned fd (by simpa using find?_some found)

theorem ensures_argfd {fd : Int} {next : Option (Fin nofile × Fslot) → KernelM β}
    (bad : Ensures Allowed (next none) kernel post)
    (used : ∀ fd f, (kernel.procs p).ofile fd = some f →
      Ensures Allowed (next (some (fd, f))) kernel post) :
    Ensures Allowed (argfd p fd >>= next) kernel post := by
  unfold argfd
  rw [ensures_bind, ensures_reading]
  split
  · next bound =>
    cases entry : (kernel.procs p).ofile ⟨fd.toNat, by omega⟩ with
    | none => exact bad
    | some f => exact used _ f entry
  · exact bad

theorem ensures_cwdOf {next : Islot → KernelM β}
    (used : ∀ ip, (kernel.procs p).cwd = some ip → Ensures Allowed (next ip) kernel post) :
    Ensures Allowed (cwdOf p >>= next) kernel post := by
  unfold cwdOf
  rw [ensures_bind, ensures_bind, ensures_reading]
  cases cwd : (kernel.procs p).cwd with
  | none => exact ⟨by simp, by simp⟩
  | some ip => exact used ip cwd

/-! ## Between system calls -/

/-- A process that is not running holds nothing. -/
def Idle (procs : Slot → Proc) : Prop :=
  ∀ p, (procs p).status ≠ .live → (procs p).cwd = none ∧ ∀ fd, (procs p).ofile fd = none

/-- The books are closed: the system call holds nothing. -/
structure Closed (origin : Fs) (kernel : Kernel) : Prop where
  books : Books origin kernel.procs [] [] [] kernel
  idle : Idle kernel.procs

/-- Whenever the program returns, the books are closed. -/
abbrev Closes (origin : Fs) {α : Type} (prog : KernelM α) (kernel : Kernel) : Prop :=
  Ensures Allowed prog kernel fun _ target => Closed origin target

variable {proc : Proc}

theorem Idle.update (idle : Idle procs)
    (holds : proc.status ≠ .live → proc.cwd = none ∧ ∀ fd, proc.ofile fd = none) :
    Idle (Function.update procs p proc) := by
  intro slot
  by_cases eq : slot = p
  · rw [eq, update_self]
    exact holds
  · rw [update_of_ne eq]
    exact idle slot

theorem Idle.setProc (idle : Idle procs) (live : proc.status = .live) :
    Idle (Function.update procs p proc) :=
  idle.update fun notLive => absurd live notLive

theorem Books.closed (books : Books origin procs [] [] [] kernel) (same : kernel.procs = procs)
    (idle : Idle procs) : Closed origin kernel := by
  subst same
  exact ⟨books, idle⟩

namespace Closed

theorem sysDup (closed : Closed origin kernel) (live : (kernel.procs p).status = .live)
    (fd : Int) : Closes origin (sysDup p fd) kernel := by
  refine ensures_argfd closed fun old f entry => ensures_fdalloc closed fun new free => ?_
  -- the descriptor is assigned before the reference for it is taken
  have assigned := closed.books.setProc p fun proc => proc.setFd new (some f)
  refine (assigned.filedup (closed.books.used_of_ofile entry)).bind fun _ target after => ?_
  exact (after.1.assignFd free).closed after.2.1 (closed.idle.setProc live)

theorem sysClose (closed : Closed origin kernel) (live : (kernel.procs p).status = .live)
    (fd : Int) : Closes origin (sysClose p fd) kernel := by
  refine ensures_argfd closed fun old f entry => .update ?_
  have cleared := (closed.books.clearFd entry).setProc p fun proc => proc.setFd old none
  refine (cleared.fileclose (by simp)).bind fun _ target after => ?_
  exact after.1.closed after.2.1 (closed.idle.setProc live)

/-! ## Reading and writing -/

theorem advance (books : Books origin procs files inodes locks kernel) (r : Nat) :
    Books origin procs files inodes locks (kernel.setFile f fun file => file.advance r) :=
  books.setFile rfl rfl (books.file f) (fun _ _ => rfl) (books.vacant f)

section

variable (closed : Closed origin kernel)

include closed

theorem sysFstat (fd : Int) (buffer : Bool) : Closes origin (sysFstat p fd buffer) kernel := by
  refine ensures_argfd closed fun old f entry => ?_
  dsimp only
  split
  · refine Ensures.reading ?_
    split
    · refine Books.ensures_inFs_bind closed.books.session.ilock fun _ fs locked => .reading ?_
      have lockedBooks := closed.books.resume locked
      refine Books.ensures_inFs_bind lockedBooks.session.iunlock fun _ fs unlocked => ?_
      exact ⟨lockedBooks.resume unlocked, closed.idle⟩
    · exact closed
  · exact closed

theorem sysRead (fd : Int) (n : Option Nat) (transfer : Option (List Byte)) :
    Closes origin (sysRead p fd n transfer) kernel := by
  refine ensures_argfd closed fun old f entry => ?_
  cases n with
  | none => exact closed
  | some n =>
    refine Ensures.reading ?_
    split
    · exact closed
    · split
      · exact closed
      · refine Books.ensures_inFs_bind closed.books.session.ilock fun _ fs locked => ?_
        have lockedBooks := closed.books.resume locked
        refine Books.ensures_inFs_bind (lockedBooks.session.readi mem_cons_self)
          fun bytes fs read => .update ?_
        have advanced := advance (f := f) (lockedBooks.resume read.1) ((bytes.getD []).length)
        refine Books.ensures_inFs_bind advanced.session.iunlock fun _ fs unlocked => ?_
        exact ⟨advanced.resume unlocked, closed.idle⟩
      · exact ⟨by simp, by simp⟩

/-- A file that is open for writing is not a directory, so no chunk goes into one. -/
theorem writeChunks (kind : (kernel.ftable f).type = .inode ip)
    (writable : (kernel.ftable f).writable = true) (turns : Nat) (src : List Byte) :
    Closes origin (writeChunks f ip turns src) kernel := by
  induction turns generalizing kernel src with
  | zero => exact closed
  | succ turns ih =>
    unfold FileSystem.writeChunks
    split
    · exact closed
    · refine Books.ensures_inFs_bind closed.books.session.ilock fun _ fs locked => .reading ?_
      have lockedBooks := closed.books.resume locked
      have notDir := (lockedBooks.readable f ip kind).2 writable
      refine Books.ensures_inFs_bind (lockedBooks.session.writei mem_cons_self notDir)
        fun written fs wrote => .update ?_
      have advanced := advance (f := f) (lockedBooks.resume wrote) (written.getD 0)
      refine Books.ensures_inFs_bind advanced.session.iunlock fun _ fs unlocked => ?_
      have unlockedBooks := advanced.resume unlocked
      cases written with
      | none => exact ⟨unlockedBooks, closed.idle⟩
      | some count =>
        rw [ensures_bind, ensures_ensure]
        split
        · refine ih (unlockedBooks.closed rfl closed.idle) ?_ ?_ _
          · simpa [File.advance] using kind
          · simpa [File.advance] using writable
        · exact ⟨by simp, by simp⟩

theorem sysWrite (fd : Int) (src : Option (List Byte)) (transfer : Bool) :
    Closes origin (sysWrite p fd src transfer) kernel := by
  refine ensures_argfd closed fun old f entry => ?_
  cases src with
  | none => exact closed
  | some src =>
    refine Ensures.reading ?_
    split
    · exact closed
    · next writable =>
      split
      · exact closed
      · next ip kind => exact closed.writeChunks kind (by simpa using writable) _ _
      · exact ⟨by simp, by simp⟩

end

/-! ## Names -/

theorem owned_of_cwd (cwd : (procs p).cwd = some ip) (ftable : Fslot → File) :
    1 ≤ owners ftable procs ip := by
  have refers : (fun slot => (procs slot).cwd) p = some ip := cwd
  have counted : 0 < cwds procs ip := references_pos refers
  unfold owners
  omega

section

variable (closed : Closed origin kernel)

include closed

/-- A call that is one transaction in the current directory. -/
theorem onPath {body : Islot → List Byte → FsM Bool} (path : Option (List Byte))
    (balanced : ∀ cwd path, 1 ≤ owners kernel.ftable kernel.procs cwd →
      Yields (body cwd path) kernel.fs fun _ fs =>
        Session kernel.fs (owners kernel.ftable kernel.procs) [] [] fs) :
    Closes origin (onPath p path body) kernel := by
  cases path with
  | none => exact closed
  | some path =>
    refine ensures_cwdOf fun cwd cwd_eq => Books.ensures_inFs ?_
    exact (balanced cwd path (owned_of_cwd cwd_eq _)).mono fun value fs _ after =>
      ⟨closed.books.resume after, closed.idle⟩

theorem sysLink (old new : Option (List Byte)) : Closes origin (sysLink p old new) kernel := by
  cases new with
  | none => exact closed
  | some new => exact closed.onPath old fun _ _ used => closed.books.session.link used

variable (path : Option (List Byte))

theorem sysUnlink : Closes origin (sysUnlink p path) kernel :=
  closed.onPath path fun _ _ used => closed.books.session.unlink used

theorem sysMkdir : Closes origin (sysMkdir p path) kernel :=
  closed.onPath path fun _ _ used => closed.books.session.make used (by simp)

theorem sysMknod (major minor : Int) :
    Closes origin (sysMknod p path major minor) kernel :=
  closed.onPath path fun _ _ used => closed.books.session.make used (by simp)

theorem sysExec (input : Option (List Byte)) (setup : Bool)
    (memory : Nat → Bool) : Closes origin (sysExec p path input setup memory) kernel :=
  closed.onPath path fun _ _ used => closed.books.session.loadProgram used

theorem sysChdir (live : (kernel.procs p).status = .live) (path : Option (List Byte)) :
    Closes origin (sysChdir p path) kernel := by
  cases path with
  | none => exact closed
  | some path =>
    refine ensures_cwdOf fun cwd cwd_eq => Books.ensures_inFs_bind
      (closed.books.session.openDir (owned_of_cwd cwd_eq _)) fun found fs looked => ?_
    have foundBooks := closed.books.resume looked
    cases found with
    | none => exact ⟨foundBooks, closed.idle⟩
    | some ip =>
      have swapped := Books.swapCwd p { kernel.procs p with cwd := some ip } foundBooks rfl
      rw [cwd_eq] at swapped
      refine Books.ensures_inFs_bind (swapped.session.iput (by simp)) fun _ fs put => ?_
      exact ((swapped.resume put).setProc p fun proc => { proc with cwd := some ip }).closed
        rfl (closed.idle.setProc live)

theorem sysOpen (live : (kernel.procs p).status = .live) (path : Option (List Byte))
    (omode : BitVec 32) : Closes origin (sysOpen p path omode) kernel := by
  cases path with
  | none => exact closed
  | some path =>
    refine ensures_cwdOf fun cwd cwd_eq => Books.ensures_inFs_bind
      (closed.books.session.openInode (owned_of_cwd cwd_eq _)) fun found fs looked => ?_
    obtain ⟨foundSession, notDir⟩ := looked
    have foundBooks := closed.books.resume foundSession
    cases found with
    | none => exact ⟨foundBooks, closed.idle⟩
    | some ip =>
      have valid := foundSession.isValid mem_cons_self
      refine foundBooks.filealloc.bind fun file second after => ?_
      obtain ⟨fileBooks, procs_eq, fs_eq, fresh, -⟩ := after
      cases file with
      | none =>
        refine Books.ensures_inFs_bind fileBooks.session.iunlockput fun _ fs put => ?_
        exact (fileBooks.resume put).closed procs_eq closed.idle
      | some f =>
        have unused := (fresh f rfl).2
        refine ensures_fdalloc ?_ fun fd free => ?_
        · refine (fileBooks.fileclose (by simp [unused])).bind fun _ third after => ?_
          refine Books.ensures_inFs_bind after.1.session.iunlockput fun _ fs put => ?_
          exact (after.1.resume put).closed (after.2.1.trans procs_eq) closed.idle
        · rw [procs_eq] at free
          have assigned := (fileBooks.assignFd free).setProc p fun proc =>
            proc.setFd fd (some f)
          refine ensures_bind.mpr (Books.ensures_inFs ?_)
          refine assigned.session.iunlock.mono fun _ last unlocked after => ?_
          have unlockedBooks := assigned.resume after
          obtain ⟨-, -, rfl⟩ := runs_iunlock.mp unlocked
          have slot_eq : (second.fs.icache ip) = fs.icache ip := by rw [fs_eq]
          have entry : (Function.update kernel.procs p ((kernel.procs p).setFd fd
              (some f)) p).ofile fd = some f := by simp [setFd]
          have used := unlockedBooks.used_of_ofile entry
          refine (unlockedBooks.openFile unused (by omega) rfl rfl ?_ ?_).closed ?_
            (closed.idle.setProc live)
          · simpa [Kernel.setProc, slot_eq] using valid
          · intro writable
            have written : omode ≠ 0 := by
              rintro rfl
              simp at writable
            simpa [Kernel.setProc, slot_eq] using notDir ip rfl written
          · simp [Kernel.setProc, setFile, procs_eq]

end

/-! ## Pipes -/

/-- The kernel after `pipealloc` has set up a pipe. -/
def withPipe (kernel : Kernel) (f0 f1 : Fslot) : Kernel :=
  (({ kernel.setPipe kernel.npipes (fun _ => ⟨true, true, 0⟩) with
    npipes := kernel.npipes + 1 }).setFile f0 fun file =>
      { file with type := .pipe kernel.npipes, readable := true, writable := false }).setFile
    f1 fun file => { file with type := .pipe kernel.npipes, readable := false, writable := true }

/-- Two new files become the ends of a new pipe. -/
theorem pipeEnds {f0 f1 : Fslot} (books : Books origin procs [f1, f0] inodes locks kernel)
    (ne : f1 ≠ f0) (free0 : (kernel.ftable f0).type = .none)
    (free1 : (kernel.ftable f1).type = .none) :
    Books origin procs [f1, f0] inodes locks (withPipe kernel f0 f1) := by
  have at1 : (withPipe kernel f0 f1).ftable f1 = { kernel.ftable f1 with
      type := .pipe kernel.npipes, readable := false, writable := true } := by
    simp [withPipe, setFile, setPipe, ne]
  have at0 : (withPipe kernel f0 f1).ftable f0 = { kernel.ftable f0 with
      type := .pipe kernel.npipes, readable := true, writable := false } := by
    simp [withPipe, setFile, setPipe, Ne.symm ne]
  have others g (not0 : g ≠ f0) (not1 : g ≠ f1) :
      (withPipe kernel f0 f1).ftable g = kernel.ftable g := by
    simp [withPipe, setFile, setPipe, not0, not1]
  have cases g : g = f0 ∨ g = f1 ∨ (withPipe kernel f0 f1).ftable g = kernel.ftable g := by
    by_cases eq0 : g = f0
    · exact .inl eq0
    · by_cases eq1 : g = f1
      · exact .inr (.inl eq1)
      · exact .inr (.inr (others g eq0 eq1))
  have used g (mem : g ∈ [f1, f0]) : (kernel.ftable g).ref ≠ 0 := by
    intro zero
    have counted := books.file g
    have pos := count_pos_iff.mpr mem
    omega
  change Books origin procs [f1, f0] inodes locks { kernel with
    ftable := (withPipe kernel f0 f1).ftable
    pipes := (withPipe kernel f0 f1).pipes
    npipes := (withPipe kernel f0 f1).npipes }
  refine books.recount (fun g ip => ?_) (fun g ip kind => ?_) (fun g => ?_) (fun g zero => ?_)
    (books.pipes.alloc free0 free1 (by simp [at0]) (by simp [at1]) others)
  · rcases cases g with rfl | rfl | same
    · simp [at0, free0]
    · simp [at1, free1]
    · rw [same]
  · rcases cases g with rfl | rfl | same
    · simp [free0] at kind
    · simp [free1] at kind
    · rw [same]
  · rcases cases g with rfl | rfl | same
    · rw [at0]
      exact books.file g
    · rw [at1]
      exact books.file g
    · rw [same]
      exact books.file g
  · rcases cases g with rfl | rfl | same
    · rw [at0] at zero
      exact absurd zero (used g (by simp))
    · rw [at1] at zero
      exact absurd zero (used g (by simp))
    · rw [same] at zero ⊢
      exact books.vacant g zero

/-- Close both ends of a pipe that is not to be used. -/
theorem closeEnds {f0 f1 : Fslot} {α : Type} {value : α}
    (books : Books origin procs [f1, f0] [] [] kernel)
    (notInode0 : ∀ ip, (kernel.ftable f0).type ≠ .inode ip)
    (notInode1 : ∀ ip, (kernel.ftable f1).type ≠ .inode ip) (ne : f1 ≠ f0) :
    Ensures Allowed (do fileclose f0; fileclose f1; pure value) kernel fun result target =>
      result = value ∧ target.procs = kernel.procs ∧ Books origin procs [] [] [] target := by
  refine (books.swap.fileclose fun ip kind => absurd kind (notInode0 ip)).bind
    fun _ middle after => ?_
  obtain ⟨closedBooks, middle_eq, others⟩ := after
  refine (closedBooks.fileclose ?_).bind fun _ target after => ?_
  · rw [others f1 ne]
    exact fun ip kind => absurd kind (notInode1 ip)
  · exact ⟨rfl, after.2.1.trans middle_eq, after.1⟩

theorem pipealloc (closed : Closed origin kernel) (memory : Bool) :
    Ensures Allowed (pipealloc memory) kernel fun result target =>
      target.procs = kernel.procs ∧ match result with
        | none => Books origin kernel.procs [] [] [] target
        | some (f0, f1) => Books origin kernel.procs [f1, f0] [] [] target ∧
            (∀ ip, (target.ftable f0).type ≠ .inode ip) ∧
            (∀ ip, (target.ftable f1).type ≠ .inode ip) ∧ f1 ≠ f0 := by
  refine closed.books.filealloc.bind fun first second after => ?_
  obtain ⟨firstBooks, second_eq, -, fresh0, -⟩ := after
  cases first with
  | none => exact ⟨second_eq, firstBooks⟩
  | some f0 =>
    obtain ⟨-, free0⟩ := fresh0 f0 rfl
    refine firstBooks.filealloc.bind fun other third after => ?_
    obtain ⟨otherBooks, third_eq, -, fresh1, same⟩ := after
    cases other with
    | none =>
      have kept : third.ftable f0 = second.ftable f0 := same f0 (by simp)
      refine (otherBooks.fileclose (by simp)).bind fun _ fourth after => ?_
      exact ⟨after.2.1.trans (third_eq.trans second_eq), after.1⟩
    | some f1 =>
      obtain ⟨unused1, free1⟩ := fresh1 f1 rfl
      have ne : f1 ≠ f0 := by
        rintro rfl
        have counted := firstBooks.file f1
        simp only [Option.toList_some, cons_append, count_cons_self] at counted
        omega
      have kept : third.ftable f0 = second.ftable f0 := same f0 (by simpa using ne)
      dsimp only
      split
      · refine (closeEnds otherBooks (by simp [kept, free0]) (by simp [free1]) ne).mono ?_
        rintro _ target - ⟨rfl, procs_eq, books⟩
        exact ⟨procs_eq.trans (third_eq.trans second_eq), books⟩
      · refine ⟨third_eq.trans second_eq, pipeEnds otherBooks ne (kept ▸ free0) free1,
          ?_, ?_, ne⟩
        · simp [setFile, Ne.symm ne]
        · simp [setFile]

theorem sysPipe (closed : Closed origin kernel) (live : (kernel.procs p).status = .live)
    (buffer memory : Bool) : Closes origin (sysPipe p buffer memory) kernel := by
  unfold FileSystem.sysPipe
  split
  · exact closed
  · refine (closed.pipealloc memory).bind fun ends second after => ?_
    obtain ⟨second_eq, after⟩ := after
    cases ends with
    | none => exact after.closed second_eq closed.idle
    | some ends =>
      obtain ⟨f0, f1⟩ := ends
      obtain ⟨books, notInode0, notInode1, ne⟩ := after
      refine ensures_fdalloc ?_ fun fd0 free0 => ?_
      · refine (closeEnds books notInode0 notInode1 ne).mono fun _ _ _ ended => ?_
        exact ended.2.2.closed (ended.2.1.trans second_eq) closed.idle
      · rw [second_eq] at free0
        have assigned0 := (books.swap.assignFd free0).setProc p fun proc =>
          proc.setFd fd0 (some f0)
        have procs0 : (second.setProc p fun proc => proc.setFd fd0 (some f0)).procs =
            Function.update kernel.procs p ((kernel.procs p).setFd fd0 (some f0)) := by
          simp [Kernel.setProc, second_eq]
        refine ensures_fdalloc ?_ fun fd1 free1 => ?_
        · -- the first descriptor is given up again
          have restored := (books.setProc p fun proc => proc.setFd fd0 (some f0)).setProc p
            fun proc => proc.setFd fd0 none
          refine .update ((closeEnds restored notInode0 notInode1 ne).mono fun _ _ _ ended => ?_)
          refine ended.2.2.closed (ended.2.1.trans ?_) closed.idle
          funext slot
          by_cases eq : slot = p
          · simp [Kernel.setProc, second_eq, setFd, ← free0]
          · simp [Kernel.setProc, second_eq, eq]
        · rw [procs0] at free1
          have assigned1 := (assigned0.assignFd free1).setProc p fun proc =>
            proc.setFd fd1 (some f1)
          have idle0 : Idle (Function.update kernel.procs p ((kernel.procs p).setFd fd0
              (some f0))) := closed.idle.setProc live
          refine assigned1.closed ?_ (idle0.setProc ?_)
          · rw [Kernel.setProc, procs0]
          · simpa [setFd] using live

/-! ## Processes -/

variable {fds : List (Fin nofile)}

/-- The loop of `fork` gives the new process a reference for every descriptor of its parent. -/
theorem dupFiles {np : Slot} (nodup : fds.Nodup) (books : Books origin kernel.procs [] [] [] kernel)
    (empty : ∀ fd ∈ fds, (kernel.procs np).ofile fd = none) :
    Ensures Allowed (dupFiles p np fds) kernel fun _ target =>
      Books origin target.procs [] [] [] target ∧
        (∀ slot ≠ np, target.procs slot = kernel.procs slot) ∧
        (target.procs np).cwd = (kernel.procs np).cwd := by
  induction fds generalizing kernel with
  | nil => exact ⟨books, fun _ _ => rfl, rfl⟩
  | cons fd rest ih =>
    obtain ⟨notMem, nodupRest⟩ := nodup_cons.mp nodup
    have emptyRest := fun other mem => empty other (mem_cons_of_mem fd mem)
    unfold FileSystem.dupFiles
    rw [ensures_bind, ensures_reading]
    cases entry : (kernel.procs p).ofile fd with
    | none => exact ih nodupRest books emptyRest
    | some f =>
      refine (books.filedup (books.used_of_ofile entry)).bind fun _ middle after => ?_
      obtain ⟨dupBooks, middle_eq, -, -⟩ := after
      rw [← middle_eq] at dupBooks empty emptyRest ⊢
      have assigned := (dupBooks.assignFd (empty fd mem_cons_self)).setProc np fun proc =>
        proc.setFd fd (some f)
      refine .update ((ih nodupRest assigned fun other mem => ?_).mono ?_)
      · have otherNe : other ≠ fd := fun eq => notMem (eq ▸ mem)
        simpa [Kernel.setProc, setFd, otherNe] using emptyRest other mem
      · rintro _ target - ⟨targetBooks, same, cwd_eq⟩
        refine ⟨targetBooks, fun slot slotNe => ?_, ?_⟩
        · rw [same slot slotNe]
          simp [Kernel.setProc, slotNe]
        · rw [cwd_eq]
          simp [Kernel.setProc, setFd]

theorem fork (closed : Closed origin kernel) (memory : Bool) :
    Closes origin (fork p memory) kernel := by
  refine Ensures.reading ?_
  cases found : (finRange nproc).find? fun slot =>
      (kernel.procs slot).status = .unused with
  | none => exact closed
  | some np =>
    have unused : (kernel.procs np).status = .unused := by simpa using find?_some found
    obtain ⟨noCwd, noFiles⟩ := closed.idle np (by simp [unused])
    dsimp only
    split
    · exact closed
    · have adopted : Books origin
          (kernel.setProc np fun proc => { proc with parent := some p }).procs [] [] []
          (kernel.setProc np fun proc => { proc with parent := some p }) :=
        closed.books.adjust rfl rfl
      refine .update ((dupFiles (nodup_finRange nofile) adopted (fun fd _ => ?_)).bind
        fun _ second after => ?_)
      · simpa [Kernel.setProc] using noFiles fd
      · obtain ⟨dupBooks, same, cwd_eq⟩ := after
        have childCwd : (second.procs np).cwd = none := by
          rw [cwd_eq]
          simpa [Kernel.setProc] using noCwd
        refine ensures_cwdOf fun cwd cwdUsed => ensures_bind.mpr (Books.ensures_inFs ?_)
        refine yields_of_runs fun ip fs dup => ?_
        have taken : Session second.fs (owners second.ftable second.procs) [cwd] [] fs :=
          dupBooks.session.take
            (.dup cwd ip (dupBooks.session.usedBase (owned_of_cwd cwdUsed _)) dup)
            (counts_idup dup)
        obtain ⟨rfl, -⟩ := runs_idup.mp dup
        have started := Books.swapCwd np
          { second.procs np with cwd := some ip, status := .live } (dupBooks.resume taken) rfl
        rw [childCwd] at started
        refine (started.setProc np fun proc =>
          { proc with cwd := some ip, status := .live }).closed rfl fun slot => ?_
        by_cases eq : slot = np
        · simp [eq]
        · rw [update_of_ne eq, same slot eq]
          simpa [Kernel.setProc, eq] using closed.idle slot

/-- The loop of `exit` gives up every descriptor. -/
theorem closeFiles (books : Books origin kernel.procs [] [] [] kernel) :
    Ensures Allowed (closeFiles p fds) kernel fun _ target =>
      Books origin target.procs [] [] [] target ∧
        (∀ slot ≠ p, target.procs slot = kernel.procs slot) ∧
        ∀ fd, (fd ∈ fds ∨ (kernel.procs p).ofile fd = none) → (target.procs p).ofile fd = none := by
  induction fds generalizing kernel with
  | nil => exact ⟨books, fun _ _ => rfl, by simp⟩
  | cons fd rest ih =>
    unfold FileSystem.closeFiles
    rw [ensures_bind, ensures_reading]
    cases entry : (kernel.procs p).ofile fd with
    | none =>
      refine (ih books).mono fun _ target _ after => ⟨after.1, after.2.1, ?_⟩
      intro other gone
      refine after.2.2 other ?_
      rcases gone with mem | free
      · rcases mem_cons.mp mem with rfl | mem
        · exact .inr entry
        · exact .inl mem
      · exact .inr free
    | some f =>
      refine ((books.clearFd entry).fileclose (by simp)).bind fun _ middle after => ?_
      obtain ⟨closedBooks, middle_eq, -⟩ := after
      rw [← middle_eq] at closedBooks ⊢
      have cleared := closedBooks.setProc p fun proc => proc.setFd fd none
      refine .update ((ih cleared).mono fun _ target _ after =>
        ⟨after.1, fun slot ne => ?_, fun other gone => ?_⟩)
      · rw [after.2.1 slot ne]
        simp [Kernel.setProc, ne]
      · refine after.2.2 other ?_
        by_cases eq : other = fd
        · exact .inr (by simp [Kernel.setProc, setFd, eq])
        · exact gone.imp (fun mem => (mem_cons.mp mem).resolve_left eq) fun free => by
            simpa [Kernel.setProc, setFd, eq] using free

theorem exit (closed : Closed origin kernel) : Closes origin (exit p) kernel := by
  refine ensures_bind.mpr (ensures_ensure.mpr ?_)
  split
  · refine (closeFiles closed.books).bind fun _ second after => ?_
    obtain ⟨books, others, noFiles⟩ := after
    refine ensures_cwdOf fun cwd cwdUsed => ?_
    have start : Books origin second.procs [] ((none : Option Islot).toList ++ []) [] second :=
      books
    have left := Books.swapCwd p { second.procs p with cwd := none } start rfl
    rw [cwdUsed] at left
    refine Books.ensures_inFs_bind (left.session.iput (by simp)) fun _ fs put => ?_
    refine (((left.resume put).withProcs _).sameFiles (fun slot => ?_) fun slot => ?_).closed rfl
      fun slot notLive => ?_
    all_goals by_cases eq : slot = p
    · simp [Kernel.setProc, eq]
    · simp [Kernel.setProc, eq]
    · simp [Kernel.setProc, eq]
    · simp [Kernel.setProc, eq]
    · refine ⟨by simp [Kernel.setProc, eq], fun fd => ?_⟩
      simpa [Kernel.setProc, eq] using noFiles fd (.inl (mem_finRange fd))
    · have idle := closed.idle slot
      simp only [Kernel.setProc, update_of_ne eq, status_abandon,
        cwd_abandon, ofile_abandon, others slot eq] at notLive ⊢
      exact idle notLive
  · exact ⟨by simp, by simp⟩

theorem wait (closed : Closed origin kernel) : Closes origin (wait p) kernel := by
  refine Ensures.reading ?_
  cases found : (finRange nproc).find? fun slot =>
      (kernel.procs slot).parent = some p ∧ (kernel.procs slot).status = .zombie with
  | none => exact closed
  | some child =>
    have dead : (kernel.procs child).status = .zombie := by
      have holds := find?_some found
      simp only [decide_eq_true_eq] at holds
      exact holds.2
    exact ⟨closed.books.adjust rfl rfl,
      closed.idle.update fun _ => closed.idle child (by simp [dead])⟩

end Closed

end Xv6.FileSystem
