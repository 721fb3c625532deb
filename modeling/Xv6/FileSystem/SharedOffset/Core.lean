import Xv6.FileSystem.Calls

/-!
# Writers that share an open file

After `fork` or `dup` several processes write through one `struct file`.  Each call of
`filewrite` cuts its data into pieces and writes a piece at the shared offset while it
holds the lock of the inode; between these sections, and while it waits for the lock, other
processes run.  The history of the run is kept beside the state: the calls, the pieces in
the order of their sections, and what the calls returned.
-/

namespace Xv6.FileSystem.SharedOffset

open Prog

universe u

/-- How far a process is in `filewrite`, with the data it has not yet written. -/
inductive Phase where
  | idle
  | outside (src : List Byte)
  | inside (src : List Byte)
  | leaving (rest : List Byte) (ok : Bool)
  deriving DecidableEq

namespace Phase

/-- The data that is not yet written. -/
def rest : Phase → List Byte
  | idle => []
  | outside src => src
  | inside src => src
  | leaving rest _ => rest

/-- The process holds the lock of the inode. -/
def Holds : Phase → Prop
  | inside _ => True
  | leaving _ _ => True
  | _ => False

/-- The process waits for the lock to write the data, or returns without any. -/
def resume (rest : List Byte) : Phase :=
  if rest = [] then .idle else .outside rest

variable {rest src : List Byte}

theorem rest_resume : (resume rest).rest = rest := by
  unfold resume
  split
  · rename_i none
    exact none.symm
  · rfl

theorem not_holds_resume : ¬(resume rest).Holds := by
  unfold resume
  split <;> exact id

theorem some_of_resume (waits : resume rest = .outside src ∨ resume rest = .inside src) :
    src ≠ [] := by
  unfold resume at waits
  split at waits
  · simp at waits
  · rename_i some
    rcases waits with waits | waits
    · cases waits
      exact some
    · cases waits

theorem resume_ne_leaving {ok : Bool} : resume rest ≠ .leaving src ok := by
  unfold resume
  split <;> simp

end Phase

/-- The file system, the shared open file, the processes, and the history. -/
structure State (P : Type u) where
  fs : Fs
  file : File
  phase : P → Phase
  calls : List (P × List Byte)
  pieces : List (P × List Byte)
  returned : List (P × Bool)

/-- The steps of a call of `filewrite`. -/
inductive Event (P : Type u) where
  | filewrite (p : P) (src : List Byte)
  | ilock (p : P)
  | writei (p : P)
  | iunlock (p : P)

/-- Go on with the result of a program of the file system, unless it stops the system. -/
def attempt {α : Type} {σ : Type u} (prog : FsM α) (fs : Fs) (next : α → Fs → Option σ) :
    Option σ :=
  match prog fs with
  | .ok (value, target) => next value target
  | .error _ => none

theorem attempt_eq_some_iff {α : Type} {σ : Type u} {prog : FsM α} {fs : Fs}
    {next : α → Fs → Option σ} {result : σ} :
    attempt prog fs next = some result ↔
      ∃ value target, Runs prog fs value target ∧ next value target = some result := by
  unfold attempt Runs
  cases prog fs with
  | error reason => simp
  | ok ended =>
    obtain ⟨value, target⟩ := ended
    simp

section Step

variable {P : Type u} [DecidableEq P]

namespace State

/-- A process goes on in its call. -/
def setPhase (state : State P) (p : P) (phase : Phase) : State P :=
  { state with phase := Function.update state.phase p phase }

/-- A call returns. -/
def finish (state : State P) (p : P) (ok : Bool) : State P :=
  { state.setPhase p .idle with returned := state.returned ++ [(p, ok)] }

end State

/-- One step of a process that writes to the file in the slot. -/
def step (ip : Islot) (state : State P) : Event P → Option (State P)
  | .filewrite p src =>
    if state.phase p = .idle then
      let called := { state with calls := state.calls ++ [(p, src)] }
      if state.file.writable = false then
        some (called.finish p false)
      else if src = [] then
        some (called.finish p true)
      else
        some (called.setPhase p (.outside src))
    else
      none
  | .ilock p =>
    match state.phase p with
    | .outside src => attempt (ilock ip) state.fs fun _ fs =>
      some ({ state with fs := fs }.setPhase p (.inside src))
    | _ => none
  | .writei p =>
    match state.phase p with
    | .inside src =>
      attempt (writei ip state.file.off (src.take writeChunk)) state.fs fun written fs =>
        match written with
        | none => some ({ state with fs := fs }.setPhase p (.leaving [] false))
        | some count =>
          -- otherwise the kernel panics with "short filewrite"
          if count = min src.length writeChunk then
            some ({ state with
              fs := fs
              file := state.file.advance count
              pieces := state.pieces ++ [(p, src.take writeChunk)] }.setPhase p
                (.leaving (src.drop writeChunk) true))
          else
            none
    | _ => none
  | .iunlock p =>
    match state.phase p with
    | .leaving rest ok => attempt (iunlock ip) state.fs fun _ fs =>
      let left := { state with fs := fs }
      if rest = [] then some (left.finish p ok) else some (left.setPhase p (.outside rest))
    | _ => none

end Step

/-- Nobody writes yet. -/
def start (P : Type u) (fs : Fs) (file : File) : State P where
  fs := fs
  file := file
  phase := fun _ => .idle
  calls := []
  pieces := []
  returned := []

end Xv6.FileSystem.SharedOffset
