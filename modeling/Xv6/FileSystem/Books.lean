import Mathlib.Data.Fintype.Prod
import Xv6.Custody.References
import Xv6.FileSystem.Balance
import Xv6.FileSystem.Calls

/-!
# The books of the file layer

Every reference to an open file and to an inode has an owner: a descriptor, an open
file, a current directory, or the system call that is running.  `Books` states that the
counts agree with the owners, and each function of the file layer says which
references it moves.  A system call may stop in the file system, but not in the panics of
`filedup` and `fileclose`.
-/

namespace Xv6.FileSystem

open Function Xv6.Custody List Kernel
open Xv6.Process (nproc nofile Slot)
open Prog

namespace Kernel

@[simp]
theorem ftable_setFile_self (kernel : Kernel) (f : Fslot) (change : File → File) :
    (kernel.setFile f change).ftable f = change (kernel.ftable f) :=
  update_self ..

theorem ftable_setFile_of_ne {kernel : Kernel} {f g : Fslot} (ne : g ≠ f) (change : File → File) :
    (kernel.setFile f change).ftable g = kernel.ftable g :=
  update_of_ne ne ..

end Kernel

/-! ## Counting the owners -/

/-- The inode behind an open file. -/
def FileKind.inode? : FileKind → Option Islot
  | .inode ip => some ip
  | _ => Option.none

theorem FileKind.inode?_eq_some_iff {kind : FileKind} {ip : Islot} :
    kind.inode? = some ip ↔ kind = .inode ip := by
  cases kind <;> simp [inode?]

/-- The number of descriptors for an open file. -/
def descriptors (procs : Slot → Proc) (f : Fslot) : Nat :=
  references (fun entry : Slot × Fin nofile => (procs entry.1).ofile entry.2) f

/-- The number of open files for an inode. -/
def openOn (ftable : Fslot → File) (ip : Islot) : Nat :=
  references (fun f => (ftable f).type.inode?) ip

/-- The number of processes in a directory. -/
def cwds (procs : Slot → Proc) (ip : Islot) : Nat :=
  references (fun p => (procs p).cwd) ip

/-- The references to an inode between system calls. -/
def owners (ftable : Fslot → File) (procs : Slot → Proc) (ip : Islot) : Int :=
  openOn ftable ip + cwds procs ip

theorem descriptors_setFd (procs : Slot → Proc) (p : Slot) (fd : Fin nofile)
    (new : Option Fslot) (f : Fslot) :
    descriptors (update procs p ((procs p).setFd fd new)) f +
        (if (procs p).ofile fd = some f then 1 else 0) =
      descriptors procs f + (if new = some f then 1 else 0) := by
  have updated : (fun entry : Slot × Fin nofile =>
      (update procs p ((procs p).setFd fd new) entry.1).ofile entry.2) =
      update (fun entry : Slot × Fin nofile => (procs entry.1).ofile entry.2) (p, fd) new := by
    funext ⟨slot, index⟩
    by_cases slotEq : slot = p
    · subst slotEq
      by_cases indexEq : index = fd
      · simp [indexEq, Proc.setFd]
      · simp [Proc.setFd, indexEq]
    · simp [slotEq]
  unfold descriptors
  rw [updated]
  exact references_update (fun entry : Slot × Fin nofile => (procs entry.1).ofile entry.2)
    (p, fd) new f

theorem cwds_update (procs : Slot → Proc) (p : Slot) (proc : Proc) (ip : Islot) :
    cwds (update procs p proc) ip + (if (procs p).cwd = some ip then 1 else 0) =
      cwds procs ip + (if proc.cwd = some ip then 1 else 0) := by
  have updated : (fun slot => (update procs p proc slot).cwd) =
      update (fun slot => (procs slot).cwd) p proc.cwd :=
    comp_update Proc.cwd procs p proc
  unfold cwds
  rw [updated]
  exact references_update (fun slot => (procs slot).cwd) p proc.cwd ip

theorem openOn_update (ftable : Fslot → File) (f : Fslot) (new : File) (ip : Islot) :
    openOn (update ftable f new) ip +
        (if (ftable f).type = .inode ip then 1 else 0) =
      openOn ftable ip + (if new.type = .inode ip then 1 else 0) := by
  have updated : (fun g => (update ftable f new g).type.inode?) =
      update (fun g => (ftable g).type.inode?) f new.type.inode? :=
    comp_update (fun file : File => file.type.inode?) ftable f new
  unfold openOn
  rw [updated]
  simpa only [FileKind.inode?_eq_some_iff] using
    references_update (fun g => (ftable g).type.inode?) f new.type.inode? ip

/-! ## Pipes -/

/-- Is the end of the pipe open? -/
def Pipe.opened (pipe : Pipe) (writable : Bool) : Bool :=
  if writable then pipe.writeopen else pipe.readopen

/-- Every end of a pipe has one open file while it is open, and the page of a pipe is freed
once, when no end is left. -/
structure PipesExact (ftable : Fslot → File) (pipes : Nat → Pipe) (npipes : Nat) : Prop where
  bound : ∀ f id, (ftable f).type = .pipe id → id < npipes
  single : ∀ f g id, (ftable f).type = .pipe id → (ftable g).type = .pipe id →
    (ftable f).writable = (ftable g).writable → f = g
  opened : ∀ id < npipes, ∀ writable, (pipes id).opened writable = true ↔
    ∃ f, (ftable f).type = .pipe id ∧ (ftable f).writable = writable
  freed : ∀ id < npipes, (pipes id).freed =
    if (pipes id).readopen = false ∧ (pipes id).writeopen = false then 1 else 0

/-- A file without references. -/
def File.vacated (file : File) : File :=
  { file with ref := 0, type := .none }

/-- What `pipeclose` does to a pipe. -/
def Pipe.close (pipe : Pipe) (writable : Bool) : Pipe :=
  let closed : Pipe :=
    if writable then { pipe with writeopen := false } else { pipe with readopen := false }
  if closed.readopen = false ∧ closed.writeopen = false then
    { closed with freed := closed.freed + 1 }
  else
    closed

theorem Pipe.opened_close (pipe : Pipe) (closing writable : Bool) :
    (pipe.close closing).opened writable =
      if writable = closing then false else pipe.opened writable := by
  unfold Pipe.close Pipe.opened
  cases closing <;> cases writable <;> simp <;> split <;> simp_all

/-- Closing an open end frees the page if the other end is closed. -/
theorem Pipe.freed_close {pipe : Pipe} {closing : Bool} (isOpen : pipe.opened closing = true)
    (freed : pipe.freed = if pipe.readopen = false ∧ pipe.writeopen = false then 1 else 0) :
    (pipe.close closing).freed =
      if (pipe.close closing).readopen = false ∧ (pipe.close closing).writeopen = false
        then 1 else 0 := by
  unfold Pipe.close
  unfold Pipe.opened at isOpen
  cases closing <;> simp_all <;> split <;> simp_all

theorem ensures_pipeclose {allowed : Stop → Prop} {id : Nat} {writable : Bool}
    {kernel : Kernel} {post : Unit → Kernel → Prop} :
    Ensures allowed (pipeclose id writable) kernel post ↔
      post () (kernel.setPipe id fun pipe => pipe.close writable) := by
  unfold pipeclose
  simp only [ensures_bind, ensures_update, ensures_reading, ensures_whenever,
    setPipe, update_self, update_idem, Pipe.close]
  generalize (if writable = true then { kernel.pipes id with writeopen := false } else
    { kernel.pipes id with readopen := false } : Pipe) = closed
  by_cases both : closed.readopen = false ∧ closed.writeopen = false
  · rw [if_pos both, if_pos both]
  · rw [if_neg both, if_neg both]

namespace PipesExact

variable {ftable : Fslot → File} {pipes : Nat → Pipe} {npipes : Nat} {f : Fslot}

variable {id : Nat}

theorem type_vacated (g : Fslot) :
    (update ftable f (ftable f).vacated g).type = .pipe id ↔
      g ≠ f ∧ (ftable g).type = .pipe id := by
  by_cases eq : g = f
  · simp [eq, File.vacated]
  · simp [eq]

theorem writable_vacated (g : Fslot) :
    (update ftable f (ftable f).vacated g).writable = (ftable g).writable := by
  by_cases eq : g = f
  · simp [eq, File.vacated]
  · simp [eq]

variable {ftable' : Fslot → File}

section

variable (exact : PipesExact ftable pipes npipes)

include exact

/-- Only the files of pipes matter. -/
theorem congr (type : ∀ g id, (ftable' g).type = .pipe id ↔ (ftable g).type = .pipe id)
    (writable : ∀ g id, (ftable g).type = .pipe id → (ftable' g).writable = (ftable g).writable) :
    PipesExact ftable' pipes npipes := by
  refine ⟨fun g id kind => exact.bound g id ((type g id).mp kind), ?_, ?_, exact.freed⟩
  · intro g h id first second side
    rw [type] at first second
    rw [writable g id first, writable h id second] at side
    exact exact.single g h id first second side
  · intro id bound side
    rw [exact.opened id bound side]
    refine exists_congr fun g => ?_
    rw [type]
    exact and_congr_right fun kind => by rw [writable g id kind]

/-- Closing a file that is not the end of a pipe. -/
theorem vacate (notPipe : ∀ id, (ftable f).type ≠ .pipe id) :
    PipesExact (update ftable f (ftable f).vacated) pipes npipes := by
  refine exact.congr (fun g id => ?_) fun g id _ => writable_vacated g
  rw [type_vacated]
  exact ⟨fun kind => kind.2, fun kind => ⟨fun eq => notPipe id (eq ▸ kind), kind⟩⟩

/-- Closing the file of an end of a pipe. -/
theorem close (kind : (ftable f).type = .pipe id) :
    PipesExact (update ftable f (ftable f).vacated)
      (update pipes id ((pipes id).close (ftable f).writable)) npipes := by
  constructor
  · simp only [type_vacated]
    exact fun g id kind => exact.bound g id kind.2
  · simp only [type_vacated, writable_vacated]
    exact fun g h id first second => exact.single g h id first.2 second.2
  · intro other otherBound writable
    simp only [type_vacated, writable_vacated]
    by_cases eq : other = id
    · subst eq
      rw [update_self, Pipe.opened_close]
      by_cases side : writable = (ftable f).writable
      · simp only [side, if_true, Bool.false_eq_true, false_iff, not_exists, not_and]
        exact fun g gKind sameSide => gKind.1 (exact.single g f other gKind.2 kind sameSide)
      rw [if_neg side, exact.opened other otherBound writable]
      constructor
      · rintro ⟨g, gKind, gSide⟩
        exact ⟨g, ⟨fun eq => side (eq ▸ gSide.symm), gKind⟩, gSide⟩
      · rintro ⟨g, ⟨-, gKind⟩, gSide⟩
        exact ⟨g, gKind, gSide⟩
    · rw [update_of_ne eq, exact.opened other otherBound writable]
      constructor
      · rintro ⟨g, gKind, gSide⟩
        refine ⟨g, ⟨fun same => eq ?_, gKind⟩, gSide⟩
        rw [same, kind] at gKind
        exact (FileKind.pipe.inj gKind).symm
      · rintro ⟨g, ⟨-, gKind⟩, gSide⟩
        exact ⟨g, gKind, gSide⟩
  · intro other otherBound
    by_cases eq : other = id
    · subst eq
      rw [update_self]
      exact Pipe.freed_close ((exact.opened other otherBound _).mpr ⟨f, kind, rfl⟩)
        (exact.freed other otherBound)
    · rw [update_of_ne eq]
      exact exact.freed other otherBound

/-- Two files become the ends of a new pipe. -/
theorem alloc {g : Fslot} (free : (ftable f).type = .none) (gFree : (ftable g).type = .none)
    (reader : (ftable' f).type = .pipe npipes ∧ (ftable' f).writable = false)
    (writer : (ftable' g).type = .pipe npipes ∧ (ftable' g).writable = true)
    (others : ∀ h ≠ f, h ≠ g → ftable' h = ftable h) :
    PipesExact ftable' (update pipes npipes ⟨true, true, 0⟩) (npipes + 1) := by
  have old h id (kind : (ftable h).type = .pipe id) : ftable' h = ftable h := by
    refine others h ?_ ?_
    · rintro rfl
      simp [free] at kind
    · rintro rfl
      simp [gFree] at kind
  have cases h id (kind : (ftable' h).type = .pipe id) : (h = f ∨ h = g) ∧ id = npipes ∨
      (ftable h).type = .pipe id ∧ id < npipes := by
    by_cases first : h = f
    · rw [first, reader.1] at kind
      exact .inl ⟨.inl first, (FileKind.pipe.inj kind).symm⟩
    by_cases second : h = g
    · rw [second, writer.1] at kind
      exact .inl ⟨.inr second, (FileKind.pipe.inj kind).symm⟩
    · rw [others h first second] at kind
      exact .inr ⟨kind, exact.bound h id kind⟩
  constructor
  · intro h id kind
    rcases cases h id kind with ⟨-, rfl⟩ | ⟨-, bound⟩ <;> omega
  · intro h k id first second side
    rcases cases h id first with ⟨isNew, rfl⟩ | ⟨isOld, bound⟩
    · rcases cases k _ second with ⟨isNew', -⟩ | ⟨-, bound⟩
      · rcases isNew with rfl | rfl <;> rcases isNew' with rfl | rfl
        · rfl
        · rw [reader.2, writer.2] at side
          exact absurd side (by simp)
        · rw [reader.2, writer.2] at side
          exact absurd side (by simp)
        · rfl
      · omega
    · rcases cases k id second with ⟨-, rfl⟩ | ⟨isOld', -⟩
      · omega
      · rw [old h id isOld, old k id isOld'] at side
        exact exact.single h k id isOld isOld' side
  · intro id bound side
    by_cases new : id = npipes
    · subst new
      rw [update_self]
      refine iff_of_true (by cases side <;> rfl) ?_
      cases side with
      | false => exact ⟨f, reader⟩
      | true => exact ⟨g, writer⟩
    rw [update_of_ne new, exact.opened id (by omega) side]
    constructor
    · rintro ⟨h, kind, hSide⟩
      exact ⟨h, (old h id kind).symm ▸ kind, (old h id kind).symm ▸ hSide⟩
    · rintro ⟨h, kind, hSide⟩
      rcases cases h id kind with ⟨-, eq⟩ | ⟨isOld, -⟩
      · exact absurd eq new
      · exact ⟨h, isOld, (old h id isOld) ▸ hSide⟩
  · intro id bound
    by_cases new : id = npipes
    · subst new
      simp
    · rw [update_of_ne new]
      exact exact.freed id (by omega)

end

end PipesExact

/-! ## The books -/

/-- The references to open files in `files` and to inodes in `inodes`, and the locks in
`locks`, belong to the running system call; all others to the descriptors and current
directories of the processes. -/
structure Books (origin : Fs) (procs : Slot → Proc) (files : List Fslot)
    (inodes locks : List Islot) (kernel : Kernel) : Prop where
  ops : Ops origin kernel.fs
  sound : Sound kernel.fs
  file : ∀ f, (kernel.ftable f).ref = descriptors procs f + files.count f
  vacant : ∀ f, (kernel.ftable f).ref = 0 → (kernel.ftable f).type = .none
  inode : ∀ ip, (kernel.fs.icache ip).ref = owners kernel.ftable procs ip + inodes.count ip
  locked : ∀ ip, (kernel.fs.icache ip).locked = true ↔ ip ∈ locks
  nodup : locks.Nodup
  readable : ∀ f ip, (kernel.ftable f).type = .inode ip →
    (kernel.fs.icache ip).valid = true ∧
      ((kernel.ftable f).writable = true → (kernel.fs.icache ip).type ≠ .dir)
  pipes : PipesExact kernel.ftable kernel.pipes kernel.npipes

/-- The reasons for which a system call may stop. -/
def Allowed (reason : Stop) : Prop :=
  reason ≠ .panic "filedup" ∧ reason ≠ .panic "fileclose"

namespace Books

variable {origin fs : Fs} {procs : Slot → Proc} {files : List Fslot}
  {inodes locks inodes' locks' : List Islot} {kernel : Kernel} {f : Fslot} {ip : Islot}

/-! ## Transactions -/

theorem owners_nonneg (ftable : Fslot → File) (procs : Slot → Proc) (ip : Islot) :
    0 ≤ owners ftable procs ip :=
  Int.add_nonneg (Int.natCast_nonneg _) (Int.natCast_nonneg _)

/-- Open the account of a transaction. -/
theorem session (books : Books origin procs files inodes locks kernel) :
    Session kernel.fs (owners kernel.ftable procs) inodes locks kernel.fs where
  ops := .refl
  sound := books.sound
  nonneg := owners_nonneg _ _
  ref := books.inode
  locked := books.locked
  nodup := books.nodup
  pinned := fun _ _ => .refl _

theorem owned_of_type (kind : (kernel.ftable f).type = .inode ip) :
    1 ≤ owners kernel.ftable procs ip := by
  have counted : 0 < openOn kernel.ftable ip :=
    references_pos (FileKind.inode?_eq_some_iff.mpr kind)
  unfold owners
  omega

/-- Enter what a transaction has done into the books. -/
theorem resume (books : Books origin procs files inodes locks kernel)
    (session : Session kernel.fs (owners kernel.ftable procs) inodes' locks' fs) :
    Books origin procs files inodes' locks' { kernel with fs := fs } where
  ops := books.ops.trans session.ops
  sound := session.sound
  file := books.file
  vacant := books.vacant
  inode := session.ref
  locked := session.locked
  nodup := session.nodup
  readable := by
    intro f ip kind
    obtain ⟨valid, notDir⟩ := books.readable f ip kind
    obtain ⟨validAfter, type_eq⟩ := (session.pinned ip (owned_of_type kind)).valid valid
    exact ⟨validAfter, fun writable => type_eq ▸ notDir writable⟩
  pipes := books.pipes

/-- A program of the file system may stop for any reason of its own. -/
theorem ensures_inFs {α : Type} {prog : FsM α} {post : α → Kernel → Prop}
    (holds : Yields prog kernel.fs fun value fs => post value { kernel with fs := fs }) :
    Ensures Allowed (inFs prog) kernel post :=
  ensures_on.mpr (holds.allow fun _ _ => ⟨by simp, by simp⟩)

theorem ensures_inFs_bind {α β : Type} {prog : FsM α} {next : α → KernelM β}
    {ended : α → Fs → Prop} {post : β → Kernel → Prop} (balanced : Yields prog kernel.fs ended)
    (rest : ∀ value fs, ended value fs →
      Ensures Allowed (next value) { kernel with fs := fs } post) :
    Ensures Allowed (inFs prog >>= next) kernel post :=
  ensures_bind.mpr (ensures_inFs (balanced.mono fun value fs _ => rest value fs))

/-! ## The file table -/

variable {files' : List Fslot}

/-- Open files may change without moving a reference to an inode. -/
theorem recount {ftable : Fslot → File} {pipes : Nat → Pipe} {npipes : Nat}
    (books : Books origin procs files inodes locks kernel)
    (kinds : ∀ g ip, (ftable g).type = .inode ip ↔ (kernel.ftable g).type = .inode ip)
    (writables : ∀ g ip, (kernel.ftable g).type = .inode ip →
      (ftable g).writable = (kernel.ftable g).writable)
    (file : ∀ g, (ftable g).ref = descriptors procs g + files'.count g)
    (vacant : ∀ g, (ftable g).ref = 0 → (ftable g).type = .none)
    (exact : PipesExact ftable pipes npipes) :
    Books origin procs files' inodes locks
      { kernel with ftable := ftable, pipes := pipes, npipes := npipes } where
  ops := books.ops
  sound := books.sound
  file := file
  vacant := vacant
  inode := by
    intro ip
    have same : openOn ftable ip = openOn kernel.ftable ip := by
      refine references_congr fun g => ?_
      rw [FileKind.inode?_eq_some_iff, FileKind.inode?_eq_some_iff, kinds]
    rw [books.inode, owners, owners, same]
  locked := books.locked
  nodup := books.nodup
  readable := by
    intro g ip kind
    rw [kinds] at kind
    rw [writables g ip kind]
    exact books.readable g ip kind
  pipes := exact

variable {change : File → File}

section

variable (books : Books origin procs files inodes locks kernel)

include books

/-- Change the count or the offset of one open file. -/
theorem setFile (type : (change (kernel.ftable f)).type = (kernel.ftable f).type)
    (writable : (change (kernel.ftable f)).writable = (kernel.ftable f).writable)
    (ref : (change (kernel.ftable f)).ref = descriptors procs f + files'.count f)
    (others : ∀ g ≠ f, files'.count g = files.count g)
    (vacant : (change (kernel.ftable f)).ref = 0 → (kernel.ftable f).type = .none) :
    Books origin procs files' inodes locks (kernel.setFile f change) := by
  have types g : (update kernel.ftable f (change (kernel.ftable f)) g).type =
      (kernel.ftable g).type ∧ (update kernel.ftable f (change (kernel.ftable f)) g).writable =
      (kernel.ftable g).writable := by
    by_cases eq : g = f
    · rw [eq, update_self]
      exact ⟨type, writable⟩
    · rw [update_of_ne eq]
      exact ⟨rfl, rfl⟩
  refine books.recount (fun g ip => by rw [(types g).1]) (fun g _ _ => (types g).2)
    (fun g => ?_) (fun g => ?_)
    (books.pipes.congr (fun g id => by rw [(types g).1]) fun g _ _ => (types g).2)
  all_goals by_cases eq : g = f
  · rw [eq, update_self, ref]
  · rw [update_of_ne eq, others g eq]
    exact books.file g
  · rw [eq, update_self, type]
    exact vacant
  · rw [update_of_ne eq]
    exact books.vacant g

theorem filealloc :
    Ensures Allowed filealloc kernel fun result target =>
      Books origin procs (result.toList ++ files) inodes locks target ∧
        target.procs = kernel.procs ∧ target.fs = kernel.fs ∧
        (∀ f ∈ result, (kernel.ftable f).ref = 0 ∧ (target.ftable f).type = .none) ∧
        ∀ g, result ≠ some g → target.ftable g = kernel.ftable g := by
  unfold FileSystem.filealloc
  rw [ensures_bind, ensures_reading]
  cases found : (finRange nfile).find? fun f => (kernel.ftable f).ref = 0 with
  | none => exact ⟨books, rfl, rfl, by simp, fun _ _ => rfl⟩
  | some f =>
    have unused : (kernel.ftable f).ref = 0 := by simpa using find?_some found
    have counted := books.file f
    rw [ensures_bind, ensures_update, ensures_pure]
    refine ⟨books.setFile rfl rfl ?_ ?_ (by simp), rfl, rfl, ?_, ?_⟩
    · simp only [Option.toList_some, cons_append, nil_append, count_cons_self]
      omega
    · intro g ne
      simp [Ne.symm ne]
    · simp [unused, books.vacant f unused]
    · intro g ne
      exact update_of_ne (fun eq => ne (by rw [eq])) ..

theorem filedup (used : 1 ≤ (kernel.ftable f).ref) :
    Ensures Allowed (filedup f) kernel fun _ target =>
      Books origin procs (f :: files) inodes locks target ∧ target.procs = kernel.procs ∧
        target.fs = kernel.fs ∧ ∀ g, 1 ≤ (kernel.ftable g).ref → 1 ≤ (target.ftable g).ref := by
  unfold FileSystem.filedup
  rw [ensures_bind, ensures_ensure, if_pos used, ensures_update]
  have counted := books.file f
  refine ⟨books.setFile rfl rfl ?_ ?_ (by simp only; omega), rfl, rfl, fun g usedBefore => ?_⟩
  · simp only [count_cons_self]
    omega
  · intro g ne
    simp [Ne.symm ne]
  · by_cases eq : g = f
    · subst eq
      simp only [Kernel.setFile, update_self]
      omega
    · simpa [Kernel.setFile, eq] using usedBefore

end

/-- The last reference to an open file goes, and what the file stood for passes to the system
call. -/
theorem vacate {pipes : Nat → Pipe} (books : Books origin procs (f :: files) inodes locks kernel)
    (last : (kernel.ftable f).ref = 1)
    (exact : PipesExact (update kernel.ftable f (kernel.ftable f).vacated) pipes kernel.npipes) :
    Books origin procs files ((kernel.ftable f).type.inode?.toList ++ inodes) locks
      { kernel with
        ftable := update kernel.ftable f (kernel.ftable f).vacated, pipes := pipes } := by
  have counted := books.file
  refine ⟨books.ops, books.sound, fun g => ?_, fun g => ?_, fun ip => ?_, books.locked,
    books.nodup, fun g ip kind => ?_, exact⟩
  · by_cases eq : g = f
    · have own := counted g
      rw [eq, count_cons_self] at own
      simp only [eq, update_self, File.vacated]
      omega
    · have other := counted g
      rw [count_cons_of_ne (Ne.symm eq)] at other
      simp only [update_of_ne eq]
      exact other
  · by_cases eq : g = f
    · simp [eq, File.vacated]
    · simpa [eq] using books.vacant g
  · have moved := openOn_update kernel.ftable f (kernel.ftable f).vacated ip
    have before := books.inode ip
    simp only [owners] at before ⊢
    have passed : (kernel.ftable f).type.inode?.toList.count ip =
        if (kernel.ftable f).type = .inode ip then 1 else 0 := by
      cases (kernel.ftable f).type with
      | none => rfl
      | pipe id => rfl
      | inode slot => simp [FileKind.inode?, count_singleton]
    simp only [File.vacated, reduceCtorEq, if_false] at moved
    rw [count_append]
    simp only [File.vacated]
    omega
  · by_cases eq : g = f
    · simp [eq, File.vacated] at kind
    · simp only [update_of_ne eq] at kind ⊢
      exact books.readable g ip kind

theorem fileclose (books : Books origin procs (f :: files) inodes locks kernel)
    (unlocked : ∀ ip, (kernel.ftable f).type = .inode ip → ip ∉ locks) :
    Ensures Allowed (fileclose f) kernel fun _ target =>
      Books origin procs files inodes locks target ∧ target.procs = kernel.procs ∧
        ∀ g ≠ f, target.ftable g = kernel.ftable g := by
  have counted := books.file f
  rw [count_cons_self] at counted
  have used : 1 ≤ (kernel.ftable f).ref := by omega
  unfold FileSystem.fileclose
  simp only [ensures_bind, ensures_ensure, if_pos used, ensures_update,
    ensures_reading, ensures_whenever, Kernel.setFile, update_self,
    update_idem]
  split
  · next dropped =>
    have last : (kernel.ftable f).ref = 1 := by omega
    have others g (ne : g ≠ f) : update kernel.ftable f (kernel.ftable f).vacated g =
        kernel.ftable g := update_of_ne ne ..
    unfold release
    cases kind : (kernel.ftable f).type with
    | none =>
      have vacated := books.vacate last (books.pipes.vacate (by simp [kind]))
      rw [kind] at vacated
      exact ⟨vacated, rfl, others⟩
    | pipe id =>
      have vacated := books.vacate last (books.pipes.close kind)
      rw [kind] at vacated
      exact ensures_pipeclose.mpr ⟨vacated, rfl, others⟩
    | inode ip =>
      have vacated := books.vacate last (books.pipes.vacate (by simp [kind]))
      rw [kind] at vacated
      have put := vacated.session.iput fun mem => absurd mem (unlocked ip kind)
      exact ensures_inFs (put.mono fun _ fs _ after => ⟨vacated.resume after, rfl, others⟩)
  · next kept =>
    have closed : Books origin procs files inodes locks
        (kernel.setFile f fun file => { file with ref := file.ref - 1 }) := by
      refine books.setFile rfl rfl ?_ ?_ ?_
      · simp only
        omega
      · intro g ne
        simp [Ne.symm ne]
      · intro zero
        simp only at zero
        omega
    exact ⟨closed, trivial, fun g ne => update_of_ne ne ..⟩

/-- An open file takes over a reference of the system call. -/
theorem openFile (books : Books origin procs files (ip :: inodes) locks kernel)
    (free : (kernel.ftable f).type = .none) (used : (kernel.ftable f).ref ≠ 0)
    (type : (change (kernel.ftable f)).type = .inode ip)
    (ref : (change (kernel.ftable f)).ref = (kernel.ftable f).ref)
    (valid : (kernel.fs.icache ip).valid = true)
    (notDir : (change (kernel.ftable f)).writable = true → (kernel.fs.icache ip).type ≠ .dir) :
    Books origin procs files inodes locks (kernel.setFile f change) := by
  refine ⟨books.ops, books.sound, fun g => ?_, fun g => ?_, fun slot => ?_, books.locked,
    books.nodup, fun g slot kind => ?_, ?_⟩
  · by_cases eq : g = f
    · rw [eq, ftable_setFile_self, ref]
      exact books.file f
    · rw [ftable_setFile_of_ne eq]
      exact books.file g
  · by_cases eq : g = f
    · rw [eq, ftable_setFile_self, ref]
      exact fun zero => absurd zero used
    · rw [ftable_setFile_of_ne eq]
      exact books.vacant g
  · have moved := openOn_update kernel.ftable f (change (kernel.ftable f)) slot
    have before := books.inode slot
    rw [free, type] at moved
    simp only [reduceCtorEq, if_false, FileKind.inode.injEq] at moved
    simp only [owners, Kernel.setFile, count_cons, beq_iff_eq] at before ⊢
    omega
  · by_cases eq : g = f
    · rw [eq, ftable_setFile_self, type] at kind
      obtain rfl := FileKind.inode.inj kind
      rw [eq, ftable_setFile_self]
      exact ⟨valid, notDir⟩
    · rw [ftable_setFile_of_ne eq] at kind ⊢
      exact books.readable g slot kind
  · refine books.pipes.congr (fun g id => ?_) fun g id kind => ?_
    · by_cases eq : g = f
      · simp [eq, type, free]
      · rw [ftable_setFile_of_ne eq]
    · by_cases eq : g = f
      · simp [eq, free] at kind
      · rw [ftable_setFile_of_ne eq]

end Books

end Xv6.FileSystem
