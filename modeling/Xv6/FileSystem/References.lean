import Xv6.FileSystem.Closing
import Xv6.Transition.Core

/-!
# Reference counts over whole runs

In every state between system calls the counts of open files and of in-core inodes are
the numbers of their owners, no inode is locked, and a pipe is freed with its last
descriptor.
-/

namespace Xv6.FileSystem

open Xv6.Custody Xv6.Transition Inode
open Xv6.Process (nproc nofile Slot)
open Prog

variable {kernel target : Kernel} {image : Image}

/-! ## Runs -/

namespace Closed

variable {origin : Fs} {p : Slot}

theorem silent {α : Type} {prog : KernelM α}
    (holds : Ensures Allowed prog kernel fun _ target => Closed origin target) :
    Ensures Allowed (silent prog) kernel fun _ target => Closed origin target := by
  unfold FileSystem.silent
  rw [ensures_bind]
  exact holds

theorem perform (closed : Closed origin kernel) (live : (kernel.procs p).status = .live)
    (call : Call) :
    Ensures Allowed (perform p call) kernel fun _ target => Closed origin target := by
  cases call with
  | dup fd => exact silent (closed.sysDup live fd)
  | read fd n transfer => exact silent (closed.sysRead fd n transfer)
  | write fd src transfer => exact silent (closed.sysWrite fd src transfer)
  | close fd => exact silent (closed.sysClose live fd)
  | fstat fd buffer => exact silent (closed.sysFstat fd buffer)
  | link old new => exact silent (closed.sysLink old new)
  | unlink path => exact silent (closed.sysUnlink path)
  | openFile path omode => exact silent (closed.sysOpen live path omode)
  | mkdir path => exact silent (closed.sysMkdir path)
  | mknod path major minor => exact silent (closed.sysMknod path major minor)
  | chdir path => exact silent (closed.sysChdir live path)
  | exec path input setup memory => exact silent (closed.sysExec path input setup memory)
  | pipe buffer memory => exact silent (closed.sysPipe live buffer memory)
  | fork memory => exact silent (closed.fork memory)
  | exit => exact closed.exit
  | wait => exact silent closed.wait

theorem rebase (closed : Closed origin kernel) : Closed kernel.fs kernel :=
  ⟨⟨.refl, closed.books.sound, closed.books.file, closed.books.vacant, closed.books.inode,
    closed.books.locked, closed.books.nodup, closed.books.readable, closed.books.pipes⟩,
    closed.idle⟩

end Closed

/-- A completed call is a run of its program by a live process. -/
theorem runs_of_step {event : Event} (step_eq : step kernel event = some target) :
    (kernel.procs event.proc).status = .live ∧
      Runs (perform event.proc event.call) kernel () target := by
  unfold step at step_eq
  split at step_eq
  · refine ⟨‹_›, ?_⟩
    unfold Runs
    cases ended : FileSystem.perform event.proc event.call kernel with
    | error reason => simp [ended] at step_eq
    | ok result =>
      simp only [ended, Option.some.injEq] at step_eq
      rw [← step_eq]
  · simp at step_eq

theorem Closed.step {event : Event} (closed : Closed kernel.fs kernel)
    (step_eq : step kernel event = some target) : Closed kernel.fs target := by
  obtain ⟨live, ran⟩ := runs_of_step step_eq
  exact (ensures_iff.mp (closed.perform live event.call)).2 _ _ ran

theorem cwds_boot (image : Image) (ip : Islot) :
    cwds (boot image).procs ip = if ip = 0 then 1 else 0 := by
  have updated : (fun slot => ((boot image).procs slot).cwd) =
      Function.update (fun _ => none) initproc (some 0) :=
    Function.comp_update Proc.cwd _ initproc _
  have counted := references_update (fun _ : Slot => (none : Option Islot)) initproc (some 0) ip
  have none : references (fun _ : Slot => (none : Option Islot)) ip = 0 :=
    references_eq_zero_iff.mpr (by simp)
  unfold cwds
  rw [updated]
  simp only [reduceCtorEq, if_false, Option.some.injEq, eq_comm] at counted ⊢
  omega

theorem sound_boot (image : Image) : Sound (boot image).fs := by
  have invalid ip : ((boot image).fs.icache ip).valid = false := by
    by_cases first : ip = 0 <;> simp [boot, first, zero]
  have used ip : 0 < ((boot image).fs.icache ip).ref → ip = 0 := by
    by_cases first : ip = 0
    · exact fun _ => first
    · simp [boot, first, zero]
  constructor
  · intro ip
    by_cases first : ip = 0
    · simp [boot, first]
    · simp [boot, first, zero]
  · intro ip positive
    rw [used ip positive]
    simp [boot]
  · exact fun first second firstUsed secondUsed _ =>
      (used first firstUsed).trans (used second secondUsed).symm
  · intro ip
    by_cases first : ip = 0 <;> simp [boot, first, zero]
  · intro ip _ valid
    simp [invalid] at valid

theorem closed_boot (image : Image) : Closed (boot image).fs (boot image) := by
  refine ⟨⟨.refl, sound_boot image, fun f => ?_, fun f _ => rfl, fun ip => ?_, fun ip => ?_, .nil,
    ?_, ?_⟩, fun p notLive => ?_⟩
  · have none : descriptors (boot image).procs f = 0 := by
      refine references_eq_zero_iff.mpr fun entry => ?_
      by_cases first : entry.1 = initproc <;> simp [boot, first, Proc.zero]
    rw [none]
    simp [boot, File.zero]
  · have none : openOn (boot image).ftable ip = 0 :=
      references_eq_zero_iff.mpr fun f => by simp [boot, File.zero, FileKind.inode?]
    rw [owners, cwds_boot, none]
    by_cases first : ip = 0
    · simp [boot, first]
    · simp [boot, first, zero]
  · by_cases first : ip = 0 <;> simp [boot, first, zero]
  · intro f ip kind
    simp [boot, File.zero] at kind
  · constructor
    · intro f id kind
      simp [boot, File.zero] at kind
    · intro f g id kind
      simp [boot, File.zero] at kind
    · intro id bound
      simp [boot] at bound
    · intro id bound
      simp [boot] at bound
  · by_cases first : p = initproc
    · simp [boot, first] at notLive
    · simp [boot, first, Proc.zero]

theorem closed_of_reachable (reach : Reachable step (boot image) kernel) :
    Closed kernel.fs kernel :=
  reach.invariant (fun kernel => Closed kernel.fs kernel) (closed_boot image)
    fun _ _ _ closed step_eq => (closed.step step_eq).rebase

/-! ## Open files -/

/-- The number of pairs of a live process and a descriptor for an open file. -/
def holders (kernel : Kernel) (f : Fslot) : Nat :=
  (Finset.univ.filter fun entry : Slot × Fin nofile =>
    (kernel.procs entry.1).status = .live ∧
      (kernel.procs entry.1).ofile entry.2 = some f).card

/-- A live process has a descriptor for an end of the pipe. -/
def HasEnd (kernel : Kernel) (id : Nat) : Prop :=
  ∃ p fd f, (kernel.procs p).status = .live ∧ (kernel.procs p).ofile fd = some f ∧
    (kernel.ftable f).type = .pipe id

/-- The counts of the file table are exact, the panics about them cannot happen, and the page of
every pipe is freed once, with the last descriptor. -/
structure FilesExact (kernel : Kernel) : Prop where
  refs : ∀ f, (kernel.ftable f).ref = holders kernel f
  calm : ∀ p call, (kernel.procs p).status = .live →
    ¬Fails (perform p call) kernel (.panic "filedup") ∧
      ¬Fails (perform p call) kernel (.panic "fileclose")
  inUse : ∀ id < kernel.npipes, HasEnd kernel id → (kernel.pipes id).freed = 0
  freedOnce : ∀ id < kernel.npipes, ¬HasEnd kernel id → (kernel.pipes id).freed = 1

theorem live_of_ofile (idle : Idle kernel.procs) {p : Slot} {fd : Fin nofile} {f : Fslot}
    (used : (kernel.procs p).ofile fd = some f) : (kernel.procs p).status = .live := by
  by_contra notLive
  simp [(idle p notLive).2 fd] at used

/-- The file of an open end is used by some process. -/
theorem Closed.hasEnd {id : Nat} {f : Fslot} {origin : Fs} (closed : Closed origin kernel)
    (kind : (kernel.ftable f).type = .pipe id) : HasEnd kernel id := by
  have counted := closed.books.file f
  have used : descriptors kernel.procs f ≠ 0 := by
    intro zero
    have vacant := closed.books.vacant f (by simp [counted, zero])
    simp [vacant] at kind
  have some_entry : ∃ entry : Slot × Fin nofile,
      (kernel.procs entry.1).ofile entry.2 = some f := by
    by_contra absent
    exact used (references_eq_zero_iff.mpr fun entry => fun refers => absent ⟨entry, refers⟩)
  obtain ⟨⟨p, fd⟩, entry⟩ := some_entry
  exact ⟨p, fd, f, live_of_ofile closed.idle entry, entry, kind⟩

/-- Open file counts and pipes in every state between system calls, for any processes and
any outcome of the calls. -/
theorem filesExact_of_reachable (reach : Reachable step (boot image) kernel) :
    FilesExact kernel := by
  have closed := closed_of_reachable reach
  have pipes := closed.books.pipes
  refine ⟨fun f => ?_, fun p call live => ?_, fun id bound hasEnd => ?_,
    fun id bound noEnd => ?_⟩
  · have entries (entry : Slot × Fin nofile) :
        ((kernel.procs entry.1).status = .live ∧ (kernel.procs entry.1).ofile entry.2 = some f) ↔
        (kernel.procs entry.1).ofile entry.2 = some f :=
      ⟨fun holds => holds.2, fun used => ⟨live_of_ofile closed.idle used, used⟩⟩
    have same : holders kernel f = descriptors kernel.procs f := by
      simp only [holders, entries, descriptors, references]
    rw [same, closed.books.file, List.count_nil, Int.natCast_zero, Int.add_zero]
  · have allowed := (ensures_iff.mp (closed.perform live call)).1
    exact ⟨fun failed => (allowed _ failed).1 rfl, fun failed => (allowed _ failed).2 rfl⟩
  · obtain ⟨p, fd, f, -, -, kind⟩ := hasEnd
    have opened := (pipes.opened id bound (kernel.ftable f).writable).mpr ⟨f, kind, rfl⟩
    rw [pipes.freed id bound, if_neg]
    rintro ⟨reader, writer⟩
    cases side : (kernel.ftable f).writable with
    | false => simp [Pipe.opened, side, reader] at opened
    | true => simp [Pipe.opened, side, writer] at opened
  · have shut side : (kernel.pipes id).opened side = false := by
      by_contra isOpen
      obtain ⟨f, kind, -⟩ := (pipes.opened id bound side).mp (by simpa using isOpen)
      exact noEnd (closed.hasEnd kind)
    rw [pipes.freed id bound, if_pos ⟨shut false, shut true⟩]

/-- The first process makes a pipe and forks; both processes close their ends. -/
def pipeForkClose : List Event :=
  [⟨0, .pipe true true⟩, ⟨0, .fork true⟩, ⟨0, .close 0⟩, ⟨0, .close 1⟩, ⟨1, .dup 0⟩, ⟨1, .exit⟩]

/-- The child closed the last descriptors when it exited, and the pipe is gone. -/
theorem filesExact_pipeForkClose :
    ∃ kernel, run step (boot emptyImage) pipeForkClose = some kernel ∧ kernel.npipes = 1 ∧
      (kernel.pipes 0).freed = 1 ∧ (kernel.procs 1).status = .zombie ∧ FilesExact kernel := by
  obtain ⟨kernel, execution, one, freed, dead⟩ : ∃ kernel ∈ run step (boot emptyImage)
      pipeForkClose, kernel.npipes = 1 ∧ (kernel.pipes 0).freed = 1 ∧
      (kernel.procs 1).status = .zombie := by decide +kernel
  exact ⟨kernel, execution, one, freed, dead, filesExact_of_reachable (.of_run execution)⟩

/-! ## In-core inodes -/

/-- The number of open files for an inode. -/
def openFiles (kernel : Kernel) (ip : Islot) : Nat :=
  (Finset.univ.filter fun f =>
    (kernel.ftable f).type = .inode ip ∧ 0 < (kernel.ftable f).ref).card

/-- The number of live processes in a directory. -/
def residents (kernel : Kernel) (ip : Islot) : Nat :=
  (Finset.univ.filter fun p =>
    (kernel.procs p).status = .live ∧ (kernel.procs p).cwd = some ip).card

/-- The counts of the inode cache are exact, no inode is locked and none is cached twice. -/
structure InodesExact (kernel : Kernel) : Prop where
  refs : ∀ ip, (kernel.fs.icache ip).ref = openFiles kernel ip + residents kernel ip
  unlocked : ∀ ip, (kernel.fs.icache ip).locked = false
  distinct : ∀ first second, 0 < (kernel.fs.icache first).ref →
    0 < (kernel.fs.icache second).ref →
    (kernel.fs.icache first).dev = (kernel.fs.icache second).dev →
    (kernel.fs.icache first).inum = (kernel.fs.icache second).inum → first = second

/-- In-core inode counts in every state between system calls, for arbitrary paths and any
outcome of the calls. -/
theorem inodesExact_of_reachable (reach : Reachable step (boot image) kernel) :
    InodesExact kernel := by
  have closed := closed_of_reachable reach
  refine ⟨fun ip => ?_, fun ip => ?_, fun first second firstUsed secondUsed _ inum =>
    closed.books.sound.distinct first second firstUsed secondUsed inum⟩
  · have files : openFiles kernel ip = openOn kernel.ftable ip := by
      refine congrArg Finset.card (Finset.filter_congr fun f _ => ?_)
      rw [FileKind.inode?_eq_some_iff]
      refine ⟨fun holds => holds.1, fun kind => ⟨kind, ?_⟩⟩
      have counted := closed.books.file f
      have used : (kernel.ftable f).ref ≠ 0 := by
        intro zero
        simp [closed.books.vacant f zero] at kind
      omega
    have homes : residents kernel ip = cwds kernel.procs ip := by
      refine congrArg Finset.card (Finset.filter_congr fun p _ => ?_)
      refine ⟨fun holds => holds.2, fun home => ⟨?_, home⟩⟩
      by_contra notLive
      simp [(closed.idle p notLive).1] at home
    rw [closed.books.inode, files, homes, owners, List.count_nil, Int.natCast_zero, Int.add_zero]
  · have locked := closed.books.locked ip
    simpa using locked

/-- The first process makes a directory, enters it and opens it; other lookups fail. -/
def mkdirChdirOpen : List Event :=
  [⟨0, .mkdir (some [0x61])⟩, ⟨0, .chdir (some [0x61])⟩, ⟨0, .openFile (some [0x2e]) 0⟩,
    ⟨0, .openFile (some [0x62]) 0⟩, ⟨0, .link (some []) (some [0x63])⟩]

/-- The new directory is held by its process and by one open file. -/
theorem inodesExact_mkdirChdirOpen :
    ∃ kernel, run step (boot emptyImage) mkdirChdirOpen = some kernel ∧
      (kernel.fs.icache 1).ref = 2 ∧ (kernel.procs 0).cwd = some 1 ∧
      (kernel.ftable ⟨0, by decide⟩).type = .inode 1 ∧ InodesExact kernel := by
  obtain ⟨kernel, execution, ref, cwd, type⟩ : ∃ kernel ∈ run step (boot emptyImage)
      mkdirChdirOpen, (kernel.fs.icache 1).ref = 2 ∧ (kernel.procs 0).cwd = some 1 ∧
      (kernel.ftable ⟨0, by decide⟩).type = .inode 1 := by decide +kernel
  exact ⟨kernel, execution, ref, cwd, type, inodesExact_of_reachable (.of_run execution)⟩

end Xv6.FileSystem
