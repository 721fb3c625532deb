import Mathlib.Algebra.BigOperators.Group.Finset.Basic
import Xv6.Buffer.Capacity
import Xv6.FileSystem.Calls
import Xv6.FileSystem.Session

/-!
# When `iget` finds a slot

The references to in-core inodes belong to the current directories of the processes, to
open files, and to system calls that are running.  Here the calls of all processes are
interleaved: a step is one critical section under `icache.lock`, or the transfer of a
reference between a call and a current directory or an open file.  Which calls make
which steps is left open, so every interleaving of the system calls is a run.

A slot that `iget` may not recycle is referenced, so `iget` finds a slot while the
references are fewer than the slots.
-/

namespace Xv6.FileSystem.Sharing

open Function Xv6.Custody List Option Finset
open Xv6.Process (Slot)
open Prog Transition

/-- The inode cache, the current directories, the inodes of open files, and the references of
the running calls. -/
structure State where
  fs : Fs
  cwd : Slot → Option Islot
  files : Fslot → Option Islot
  calls : Slot → List Islot
  trap : Option String

/-- The steps of the calls. -/
inductive Event where
  /-- `iget(ROOTDEV, inum)`, for the root, an entry of a directory, or a new inode -/
  | iget (p : Slot) (inum : Nat)
  /-- `idup(proc->cwd)` -/
  | idup (p : Slot)
  /-- the last critical section of `iput(ip)` -/
  | iput (p : Slot) (ip : Islot)
  /-- `proc->cwd = ip`, after which the call drops the old directory -/
  | chdir (p : Slot) (ip : Islot)
  /-- `f->ip = ip` -/
  | openFile (p : Slot) (f : Fslot) (ip : Islot)
  /-- the last `fileclose(f)`, after which the call drops the inode -/
  | closeFile (p : Slot) (f : Fslot)
  /-- `np->cwd = idup(proc->cwd)` -/
  | fork (p child : Slot)
  /-- `proc->cwd = 0` in `exit`, which drops the directory -/
  | exit (p : Slot)

namespace State

/-- Replace the references of a running call. -/
def setCalls (state : State) (p : Slot) (refs : List Islot) : State :=
  { state with calls := update state.calls p refs }

/-- Set or clear a current directory. -/
def setCwd (state : State) (p : Slot) (cwd : Option Islot) : State :=
  { state with cwd := update state.cwd p cwd }

/-- Set or clear the inode of an open file. -/
def setFile (state : State) (f : Fslot) (ip : Option Islot) : State :=
  { state with files := update state.files f ip }

/-- A program that returns a reference; a panic stops the machine. -/
def obtaining (state : State) (prog : FsM Islot) (keep : State → Islot → State) : Option State :=
  match prog state.fs with
  | .ok (ip, fs) => some (keep { state with fs := fs } ip)
  | .error (.panic message) => some { state with trap := some message }
  | .error .hang => none

end State

/-- One step of the machine; `none` when the event is not enabled. -/
def step : Step State Event := fun state event =>
  if state.trap ≠ none then none
  else
    match event with
    | .iget p inum =>
      state.obtaining (FileSystem.iget rootdev inum) fun after ip =>
        after.setCalls p (ip :: state.calls p)
    | .idup p =>
      match state.cwd p with
      | none => none
      | some cwd =>
        state.obtaining (FileSystem.idup cwd) fun after ip =>
          after.setCalls p (ip :: state.calls p)
    | .iput p ip =>
      if ip ∈ state.calls p then
        some ({ state with
          fs := state.fs.setInode ip fun inode => { inode with ref := inode.ref - 1 } }.setCalls
            p ((state.calls p).erase ip))
      else none
    | .chdir p ip =>
      if ip ∈ state.calls p then
        some ((state.setCwd p (some ip)).setCalls p
          ((state.cwd p).toList ++ (state.calls p).erase ip))
      else none
    | .openFile p f ip =>
      if state.files f = none ∧ ip ∈ state.calls p then
        some ((state.setFile f (some ip)).setCalls p ((state.calls p).erase ip))
      else none
    | .closeFile p f =>
      match state.files f with
      | none => none
      | some ip => some ((state.setFile f none).setCalls p (ip :: state.calls p))
    | .fork p child =>
      match state.cwd p with
      | none => none
      | some cwd =>
        if state.cwd child = none then
          state.obtaining (FileSystem.idup cwd) fun after ip => after.setCwd child (some ip)
        else none
    | .exit p =>
      match state.cwd p with
      | none => none
      | some ip => some ((state.setCwd p none).setCalls p (ip :: state.calls p))

/-- No inode is in use. -/
def start (fs : Fs) : State where
  fs := { fs with icache := fun ip => { fs.icache ip with ref := 0 } }
  cwd := fun _ => none
  files := fun _ => none
  calls := fun _ => []
  trap := none

/-! ## The references -/

/-- The references of the running calls to an inode. -/
def inCalls (calls : Slot → List Islot) (ip : Islot) : Nat :=
  ∑ p, (calls p).count ip

theorem inCalls_update (calls : Slot → List Islot) (p : Slot) (refs : List Islot) (ip : Islot) :
    inCalls (update calls p refs) ip + (calls p).count ip = inCalls calls ip + refs.count ip := by
  unfold inCalls
  rw [← add_sum_erase univ _ (mem_univ p),
    ← add_sum_erase univ (fun q => (calls q).count ip) (mem_univ p)]
  have others q (mem : q ∈ univ.erase p) :
      (update calls p refs q).count ip = (calls q).count ip := by
    rw [update_of_ne (ne_of_mem_erase mem)]
  rw [sum_congr rfl others, update_self]
  omega

/-- The references to an inode. -/
def refs (state : State) (ip : Islot) : Nat :=
  references state.cwd ip + references state.files ip + inCalls state.calls ip

/-- All references. -/
def total (state : State) : Nat :=
  (Finset.univ.filter fun p => state.cwd p ≠ none).card +
    (Finset.univ.filter fun f => state.files f ≠ none).card + ∑ p, (state.calls p).length

/-- There are fewer references than slots. -/
def Room (state : State) : Prop :=
  total state < ninode

instance (state : State) : Decidable (Room state) :=
  inferInstanceAs (Decidable (_ < _))

theorem sum_refs (state : State) : ∑ ip, refs state ip = total state := by
  have counted (l : List Islot) : ∑ ip, l.count ip = l.length := by
    induction l with
    | nil => simp
    | cons ip l ih => simp [count_cons, sum_add_distrib, ih]
  have calls : ∑ ip, inCalls state.calls ip = ∑ p, (state.calls p).length := by
    unfold inCalls
    rw [sum_comm]
    exact sum_congr rfl fun p _ => counted _
  simp only [refs, sum_add_distrib, sum_references, calls, total]

/-- The counts in the cache are exact. -/
def Exact (state : State) : Prop :=
  ∀ ip, (state.fs.icache ip).ref = refs state ip

variable {state target : State} {p : Slot} {f : Fslot} {ip : Islot}

theorem refs_setCalls (state : State) (p : Slot) (list : List Islot) (ip : Islot) :
    refs (state.setCalls p list) ip + (state.calls p).count ip = refs state ip + list.count ip := by
  have moved := inCalls_update state.calls p list ip
  simp only [refs, State.setCalls]
  omega

theorem refs_setCwd (state : State) (p : Slot) (cwd : Option Islot) (ip : Islot) :
    refs (state.setCwd p cwd) ip + (state.cwd p).toList.count ip =
      refs state ip + cwd.toList.count ip := by
  have moved := references_update state.cwd p cwd ip
  simp only [refs, State.setCwd, count_toList]
  omega

theorem refs_setFile (state : State) (f : Fslot) (file : Option Islot) (ip : Islot) :
    refs (state.setFile f file) ip + (state.files f).toList.count ip =
      refs state ip + file.toList.count ip := by
  have moved := references_update state.files f file ip
  simp only [refs, State.setFile, count_toList]
  omega

/-- A program that takes one reference, for the call or for a current directory. -/
theorem Exact.obtaining {prog : FsM Islot} {keep : State → Islot → State} (exact : Exact state)
    (step : state.obtaining prog keep = some target)
    (counts : ∀ ip fs, Runs prog state.fs ip fs → Counts state.fs fs ip 1)
    (kept : ∀ ip fs, (keep { state with fs := fs } ip).fs = fs ∧
      ∀ other, refs (keep { state with fs := fs } ip) other =
        refs state other + [ip].count other) : Exact target := by
  unfold State.obtaining at step
  cases outcome : prog state.fs with
  | error reason =>
    cases reason with
    | panic message =>
      simp only [outcome, some.injEq] at step
      subst step
      exact exact
    | hang => simp [outcome] at step
  | ok result =>
    obtain ⟨ip, fs⟩ := result
    simp only [outcome, some.injEq] at step
    subst step
    intro other
    obtain ⟨fs_eq, refs_eq⟩ := kept ip fs
    rw [fs_eq, refs_eq, (counts ip fs outcome).ref, exact other, Nat.cast_add]
    by_cases eq : other = ip
    · rw [if_pos eq, eq, count_singleton_self, Nat.cast_one]
    · rw [if_neg eq, count_singleton, beq_false_of_ne (Ne.symm eq), if_neg (by decide),
        Nat.cast_zero]

/-- `idup` returns the inode it counts. -/
theorem counts_of_idup {fs after : Fs} {cwd : Islot}
    (ran : Runs (FileSystem.idup cwd) fs ip after) :
    Counts fs after ip 1 := by
  obtain ⟨rfl, -⟩ := runs_idup.mp ran
  exact counts_idup ran

/-- A reference of a call, taken out of its list. -/
theorem count_erase_of_mem {list : List Islot} (mem : ip ∈ list) (other : Islot) :
    list.count other = (list.erase ip).count other + [ip].count other := by
  rw [(perm_cons_erase mem).count_eq other, ← singleton_append, count_append, Nat.add_comm]

theorem refs_push (state : State) (p : Slot) (ip other : Islot) :
    refs (state.setCalls p (ip :: state.calls p)) other = refs state other + [ip].count other := by
  have moved := refs_setCalls state p (ip :: state.calls p) other
  have pushed : (ip :: state.calls p).count other =
      [ip].count other + (state.calls p).count other := by
    rw [← singleton_append, count_append]
  omega

theorem refs_pop (state : State) {p : Slot} (mem : ip ∈ state.calls p) (other : Islot) :
    refs (state.setCalls p ((state.calls p).erase ip)) other + [ip].count other =
      refs state other := by
  have moved := refs_setCalls state p ((state.calls p).erase ip) other
  have taken := count_erase_of_mem mem other
  omega

/-! ## References change hands -/

theorem refs_chdir (mem : ip ∈ state.calls p) (other : Islot) :
    refs ((state.setCwd p (some ip)).setCalls p
      ((state.cwd p).toList ++ (state.calls p).erase ip)) other = refs state other := by
  have entered := refs_setCwd state p (some ip) other
  have moved := refs_setCalls (state.setCwd p (some ip)) p
    ((state.cwd p).toList ++ (state.calls p).erase ip) other
  have taken := count_erase_of_mem mem other
  have calls : (state.setCwd p (some ip)).calls p = state.calls p := rfl
  rw [calls, count_append] at moved
  rw [toList_some] at entered
  omega

theorem refs_openFile (free : state.files f = none) (mem : ip ∈ state.calls p) (other : Islot) :
    refs ((state.setFile f (some ip)).setCalls p ((state.calls p).erase ip)) other =
      refs state other := by
  have opened := refs_setFile state f (some ip) other
  have dropped := refs_pop (state.setFile f (some ip)) mem other
  have calls : (state.setFile f (some ip)).calls p = state.calls p := rfl
  rw [calls] at dropped
  rw [free, toList_none, toList_some, count_nil] at opened
  omega

theorem refs_closeFile (file_eq : state.files f = some ip) (other : Islot) :
    refs ((state.setFile f none).setCalls p (ip :: state.calls p)) other = refs state other := by
  have closed := refs_setFile state f none other
  have pushed := refs_push (state.setFile f none) p ip other
  have calls : (state.setFile f none).calls p = state.calls p := rfl
  rw [calls] at pushed
  rw [file_eq, toList_none, toList_some, count_nil] at closed
  omega

theorem refs_exit (cwd_eq : state.cwd p = some ip) (other : Islot) :
    refs ((state.setCwd p none).setCalls p (ip :: state.calls p)) other = refs state other := by
  have left := refs_setCwd state p none other
  have pushed := refs_push (state.setCwd p none) p ip other
  have calls : (state.setCwd p none).calls p = state.calls p := rfl
  rw [calls] at pushed
  rw [cwd_eq, toList_none, toList_some, count_nil] at left
  omega

namespace Exact

theorem transfer (exact : Exact state) (fs : target.fs = state.fs)
    (same : ∀ other, refs target other = refs state other) : Exact target := by
  intro other
  rw [fs, same]
  exact exact other

/-- A call drops a reference. -/
theorem iput (exact : Exact state) (mem : ip ∈ state.calls p) :
    Exact (State.setCalls { state with
      fs := state.fs.setInode ip fun inode => { inode with ref := inode.ref - 1 } } p
        ((state.calls p).erase ip)) := by
  intro other
  have dropped : refs (State.setCalls { state with
      fs := state.fs.setInode ip fun inode => { inode with ref := inode.ref - 1 } } p
        ((state.calls p).erase ip)) other + [ip].count other = refs state other :=
    refs_pop state mem other
  have ref_eq : ((State.setCalls { state with
      fs := state.fs.setInode ip fun inode => { inode with ref := inode.ref - 1 } } p
        ((state.calls p).erase ip)).fs.icache other).ref + ([ip].count other : Nat) =
      (state.fs.icache other).ref := by
    by_cases eq : other = ip
    · simp [State.setCalls, eq]
    · simp [State.setCalls, Fs.icache_setInode_of_ne eq, Ne.symm eq]
  have counted := exact other
  omega

/-- A call takes a reference. -/
theorem take {prog : FsM Islot} (exact : Exact state)
    (counts : ∀ ip fs, Runs prog state.fs ip fs → Counts state.fs fs ip 1)
    (step : state.obtaining prog (fun after ip => after.setCalls p (ip :: state.calls p)) =
      some target) : Exact target := by
  refine exact.obtaining step counts fun ip fs => ⟨rfl, fun other => ?_⟩
  exact refs_push { state with fs := fs } p ip other

/-- A new process takes a reference to the directory of its parent. -/
theorem fork {cwd : Islot} {child : Slot} (exact : Exact state) (free : state.cwd child = none)
    (step : state.obtaining (FileSystem.idup cwd) (fun after ip => after.setCwd child (some ip)) =
      some target) : Exact target := by
  refine exact.obtaining step (fun _ _ ran => counts_of_idup ran) fun ip fs =>
    ⟨rfl, fun other => ?_⟩
  have entered := refs_setCwd { state with fs := fs } child (some ip) other
  have same : refs { state with fs := fs } other = refs state other := rfl
  simp only [free, toList_none, count_nil, Nat.add_zero] at entered
  exact entered

theorem step {event : Event} (exact : Exact state) (step : step state event = some target) :
    Exact target := by
  unfold Sharing.step at step
  obtain ⟨-, step⟩ := ite_none_left_eq_some.mp step
  cases event with
  | iget p inum => exact exact.take (fun _ _ ran => counts_iget ran) step
  | idup p =>
    simp only at step
    split at step
    · contradiction
    · exact exact.take (fun _ _ ran => counts_of_idup ran) step
  | iput p ip =>
    obtain ⟨mem, step⟩ := ite_none_right_eq_some.mp step
    cases step
    exact exact.iput mem
  | chdir p ip =>
    obtain ⟨mem, step⟩ := ite_none_right_eq_some.mp step
    cases step
    exact exact.transfer rfl (refs_chdir mem)
  | openFile p f ip =>
    obtain ⟨⟨free, mem⟩, step⟩ := ite_none_right_eq_some.mp step
    cases step
    exact exact.transfer rfl (refs_openFile free mem)
  | closeFile p f =>
    simp only at step
    split at step
    · contradiction
    · rename_i ip file_eq
      cases step
      exact exact.transfer rfl (refs_closeFile file_eq)
  | fork p child =>
    simp only at step
    split at step
    · contradiction
    · obtain ⟨free, step⟩ := ite_none_right_eq_some.mp step
      exact exact.fork free step
  | exit p =>
    simp only at step
    split at step
    · contradiction
    · rename_i ip cwd_eq
      cases step
      exact exact.transfer rfl (refs_exit cwd_eq)

end Exact

/-! ## Room -/

theorem exists_unused (exact : Exact state) (room : Room state) :
    ∃ ip, (state.fs.icache ip).ref = 0 := by
  by_contra used
  have referenced (ip : Islot) : 1 ≤ refs state ip := by
    have counted := exact ip
    have ne : (state.fs.icache ip).ref ≠ 0 := fun unused => used ⟨ip, unused⟩
    omega
  have all : ninode ≤ total state := by
    calc
      ninode = ∑ _ip : Islot, 1 := by simp
      _ ≤ ∑ ip, refs state ip := Finset.sum_le_sum fun ip _ => referenced ip
      _ = total state := sum_refs state
  unfold Room at room
  omega

/-- The panic of `iget`. -/
def noInodes : String := "iget: no inodes"

theorem iget_ne_error {fs : Fs} (unused : ∃ ip, (fs.icache ip).ref = 0) (dev inum : Nat)
    (reason : FsStop) : FileSystem.iget dev inum fs ≠ .error reason := by
  intro failed
  have fails : Fails (FileSystem.iget dev inum) fs reason := failed
  unfold FileSystem.iget at fails
  simp only [fails_bind, fails_reading, runs_reading, false_or] at fails
  obtain ⟨cached, _, ⟨-, rfl⟩, fails⟩ := fails
  cases cached with
  | some found => simp [fails_bind] at fails
  | none =>
    simp only [fails_bind, fails_reading, runs_reading, false_or] at fails
    obtain ⟨empty, _, ⟨empty_eq, rfl⟩, fails⟩ := fails
    cases empty with
    | some found => simp [fails_bind] at fails
    | none =>
      obtain ⟨ip, unused⟩ := unused
      exact find?_eq_none.mp empty_eq ip (mem_finRange ip) (by simpa using unused)

theorem idup_ne_error (fs : Fs) (ip : Islot) (reason : FsStop) :
    FileSystem.idup ip fs ≠ .error reason := by
  intro failed
  have fails : Fails (FileSystem.idup ip) fs reason := failed
  simp [FileSystem.idup, fails_bind] at fails

theorem trap_obtaining {prog : FsM Islot} {keep : State → Islot → State}
    (step : state.obtaining prog keep = some target)
    (returns : ∀ reason, prog state.fs ≠ .error reason)
    (kept : ∀ ip fs, (keep { state with fs := fs } ip).trap = state.trap) :
    target.trap = state.trap := by
  unfold State.obtaining at step
  cases outcome : prog state.fs with
  | error reason => exact absurd outcome (returns reason)
  | ok result =>
    obtain ⟨ip, fs⟩ := result
    simp only [outcome, some.injEq] at step
    subst step
    exact kept ip fs

/-- With room in the cache no step panics. -/
theorem trap_of_room {event : Event} (exact : Exact state) (room : Room state)
    (step : step state event = some target) : target.trap = none := by
  unfold Sharing.step at step
  obtain ⟨alive, step⟩ := ite_none_left_eq_some.mp step
  have running : state.trap = none := not_not.mp alive
  cases event with
  | iget p inum =>
    have returns := iget_ne_error (exists_unused exact room) rootdev inum
    exact (trap_obtaining step returns fun _ _ => rfl).trans running
  | idup p =>
    simp only at step
    split at step
    · cases step
    · exact (trap_obtaining step (idup_ne_error _ _) fun _ _ => rfl).trans running
  | iput p ip | chdir p ip | openFile p f ip =>
    obtain ⟨-, step⟩ := ite_none_right_eq_some.mp step
    cases step
    exact running
  | closeFile p f | exit p =>
    simp only at step
    split at step
    · cases step
    · cases step
      exact running
  | fork p child =>
    simp only at step
    split at step
    · cases step
    · obtain ⟨-, step⟩ := ite_none_right_eq_some.mp step
      exact (trap_obtaining step (idup_ne_error _ _) fun _ _ => rfl).trans running

theorem exact_start (fs : Fs) : Exact (start fs) := by
  intro ip
  simp [start, refs, inCalls, references]

/-- In a run whose steps are taken with room in the cache, `iget` always finds a slot. -/
theorem trap_eq_none {fs : Fs} {events : List Event}
    (along : Along step (fun state _ => Room state) (start fs) events)
    (execution : run step (start fs) events = some state) : state.trap = none := by
  have all : Exact state ∧ state.trap = none := by
    refine run_invariant_of_along (fun state => Exact state ∧ state.trap = none) ?_ ?_ along
      execution
    · exact ⟨exact_start fs, rfl⟩
    · rintro state event target ⟨exact, -⟩ room step
      exact ⟨exact.step step, trap_of_room exact room step⟩
  exact all.2

/-! ## Both caches -/

universe u

/-- Neither cache is exhausted in a run that leaves room in it: the panics of `bget` and of
`iget` are not reached. -/
theorem caches_suffice {P : Type u} [DecidableEq P] [Fintype P] {disksize : Nat} {log : Log.Area}
    {disk : Log.Disk} {blocks : List (Buffers.Event P)} {buffers : Buffers.State P}
    (bufferRoom : Along (Buffers.State.step disksize log) (fun state _ => state.Room)
      (.boot disk) blocks)
    (bufferRun : run (Buffers.State.step disksize log) (.boot disk) blocks = some buffers)
    {fs : Fs} {calls : List Event} {inodes : State}
    (inodeRoom : Along step (fun state _ => Room state) (start fs) calls)
    (inodeRun : run step (start fs) calls = some inodes) :
    buffers.trap ≠ some Buffers.State.noBuffers ∧ inodes.trap ≠ some noInodes := by
  refine ⟨Buffers.State.trap_ne_noBuffers bufferRoom bufferRun, ?_⟩
  rw [trap_eq_none inodeRoom inodeRun]
  simp

/-- 31 processes read different blocks at the same time. -/
def readers : List (Buffers.Event Slot) :=
  (List.range 31).map fun i => .bread (Fin.ofNat _ i) Buffers.rootdev (BitVec.ofNat 32 (100 + i))

/-- 50 processes change to different directories, and one more looks up another one. -/
def directories : List Event :=
  (List.range 50).flatMap (fun i =>
    [.iget (Fin.ofNat _ i) (i + 1), .chdir (Fin.ofNat _ i) (Fin.ofNat _ i)]) ++ [.iget 50 51]

/-- Both caches are too small for the processes that the kernel admits. -/
theorem caches_exhausted :
    ((run (Buffers.State.step 1000 ⟨2, 30,
      by decide⟩) (.boot fun _ _ => 0) readers).bind fun state =>
        state.trap) = some "bget: no buffers" ∧
      ((run step (start (boot emptyImage).fs) directories).bind fun state => state.trap) =
        some "iget: no inodes" := by
  decide +kernel

/-- A process reads a block, and another one changes its directory. -/
theorem caches_suffice_twice :
    ∃ (buffers : Buffers.State Slot) (inodes : State),
      run (Buffers.State.step 1000 ⟨2, 30, by decide⟩) (.boot fun _ _ => 0) (readers.take 2) =
        some buffers ∧
      run step (start (boot emptyImage).fs) (directories.take 4) = some inodes ∧
      buffers.trap ≠ some Buffers.State.noBuffers ∧ inodes.trap ≠ some noInodes := by
  have blocks : ((run (Buffers.State.step 1000 ⟨2, 30, by decide⟩) (.boot fun _ _ => 0)
      (readers.take 2)).map fun _ => ()) = some () := by
    decide +kernel
  have calls : ((run step (start (boot emptyImage).fs) (directories.take 4)).map fun _ => ()) =
      some () := by
    decide +kernel
  obtain ⟨buffers, bufferRun, -⟩ := Option.map_eq_some_iff.mp blocks
  obtain ⟨inodes, inodeRun, -⟩ := Option.map_eq_some_iff.mp calls
  exact ⟨buffers, inodes, bufferRun, inodeRun,
    caches_suffice (by decide +kernel) bufferRun (by decide +kernel) inodeRun⟩

end Xv6.FileSystem.Sharing
