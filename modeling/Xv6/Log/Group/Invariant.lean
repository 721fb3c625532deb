import Mathlib.Data.Finset.Card
import Xv6.Log.Group.Core

/-!
# The invariant of group commit

`outstanding` counts the operations in progress, at most one process commits, and
it does so with `committing` set and no operation in progress.  `Protocol` states
this together with what the log lists: no block twice, and nothing at all while
neither an operation nor a commit is in progress.
-/

namespace Xv6.Log

open Function Xv6.Transition List Pc

universe u

variable {P : Type u}

/-! ## Counting operations -/

/-- The number is that of the active processes. -/
def Counts (pc : P → Pc) (outstanding : Int) : Prop :=
  ∃ active : Finset P, (∀ process, process ∈ active ↔ (pc process).active = true) ∧
    outstanding = active.card

namespace Counts

variable {pc target : P → Pc} {outstanding : Int}

theorem congr (counts : Counts pc outstanding)
    (same : ∀ process, (target process).active = (pc process).active) :
    Counts target outstanding := by
  obtain ⟨active, members, card_eq⟩ := counts
  exact ⟨active, fun process => by rw [same]; exact members process, card_eq⟩

variable {process : P}

theorem pos (counts : Counts pc outstanding) (isActive : (pc process).active = true) :
    1 ≤ outstanding := by
  obtain ⟨active, members, rfl⟩ := counts
  have := Finset.card_pos.mpr ⟨process, (members process).mpr isActive⟩
  omega

/-- No process is active while nothing is outstanding. -/
theorem inactive (counts : Counts pc 0) (process : P) : (pc process).active = false := by
  by_contra isActive
  have := counts.pos (by simpa using isActive)
  omega

variable [DecidableEq P]

variable {next : Pc}

section

variable (counts : Counts pc outstanding)

include counts

theorem enter (before : (pc process).active = false) (after : next.active = true) :
    Counts (update pc process next) (outstanding + 1) := by
  obtain ⟨active, members, rfl⟩ := counts
  refine ⟨insert process active, fun other => ?_, ?_⟩
  · by_cases same : other = process
    · subst same
      simp [after]
    · simp [same, members]
  · rw [Finset.card_insert_of_notMem (by simp [members, before])]
    rfl

theorem leave (before : (pc process).active = true) (after : next.active = false) :
    Counts (update pc process next) (outstanding - 1) := by
  obtain ⟨active, members, rfl⟩ := counts
  have member : process ∈ active := (members process).mpr before
  refine ⟨active.erase process, fun other => ?_, ?_⟩
  · by_cases same : other = process
    · subst same
      simp [after]
    · simp [same, members]
  · have := Finset.card_pos.mpr ⟨process, member⟩
    rw [Finset.card_erase_of_mem member]
    omega

theorem update (same : next.active = (pc process).active) :
    Counts (update pc process next) outstanding := by
  apply counts.congr
  intro other
  by_cases equal : other = process
  · subst equal
    simpa using same
  · simp [equal]

end

end Counts

namespace State

variable {state target : State P} {log : Area} {event : Event P}

@[simp]
theorem wakeup_active (state : State P) (process : P) :
    (state.wakeup.pc process).active = (state.pc process).active := by
  simp only [wakeup]
  split
  · rename_i asleep
    rw [asleep]
    rfl
  · rfl

@[simp]
theorem wakeup_commit_iff (state : State P) (process : P) (stage : Stage) :
    state.wakeup.pc process = .commit stage ↔ state.pc process = .commit stage := by
  simp only [wakeup]
  split
  · rename_i asleep
    simp [asleep]
  · rfl

/-- A process that commits does so alone, and has emptied the header in the end. -/
structure Commits (state : State P) (process : P) (stage : Stage) : Prop where
  committing : state.committing = true
  alone : ∀ other stage', state.pc other = .commit stage' → other = process
  emptied : stage = .cleared ∨ stage = .finished → state.lh.block = []

/-- The invariant of the log and its processes. -/
structure Protocol (state : State P) : Prop where
  counted : Counts state.pc state.outstanding
  commits : ∀ process stage, state.pc process = .commit stage → state.Commits process stage
  drained : state.committing = true → state.outstanding = 0
  distinct : state.lh.block.Nodup
  resting : state.committing = false → state.outstanding = 0 → state.lh.block = []
  sound : state.trap ≠ some (.panic "log.committing")

namespace Protocol

theorem boot (dev : Dev) : (State.boot dev : State P).Protocol where
  counted := ⟨∅, by simp [State.boot, active], by simp [State.boot]⟩
  commits := nofun
  drained := nofun
  distinct := nodup_nil
  resting _ _ := rfl
  sound := nofun

variable {process : P}

section

variable (protocol : state.Protocol)

include protocol

/-- No commit is in progress while an operation is. -/
theorem not_committing (isActive : (state.pc process).active = true) :
    state.committing = false := by
  by_contra committing
  have := protocol.counted.pos isActive
  have := protocol.drained (by simpa using committing)
  omega

theorem no_committer (idle : state.committing = false) (process : P) (stage : Stage) :
    state.pc process ≠ .commit stage := by
  intro commits
  rw [(protocol.commits process stage commits).committing] at idle
  contradiction

theorem stop {trap : Trap} (ne : trap ≠ .panic "log.committing") : (state.stop trap).Protocol :=
  { protocol with
    commits := fun process stage commits => { protocol.commits process stage commits with }
    sound := by simpa [State.stop] using ne }

theorem wakeup : state.wakeup.Protocol where
  counted := protocol.counted.congr state.wakeup_active
  commits process stage commits := by
    have before :=
      protocol.commits process stage ((state.wakeup_commit_iff process stage).mp commits)
    exact { before with
      alone := fun other stage' commits' =>
        before.alone other stage' ((state.wakeup_commit_iff other stage').mp commits') }
  drained := protocol.drained
  distinct := protocol.distinct
  resting := protocol.resting
  sound := protocol.sound

variable [DecidableEq P]

/-- A process that does not commit moves on without touching the log. -/
theorem setPc {next : Pc} (activity : next.active = (state.pc process).active)
    (plain : ∀ stage, next ≠ .commit stage) : (state.setPc process next).Protocol := by
  have commits_iff other stage (commits : (state.setPc process next).pc other = .commit stage) :
      state.pc other = .commit stage := by
    by_cases same : other = process
    · subst same
      simp only [State.setPc, update_self] at commits
      exact absurd commits (plain stage)
    · simpa [State.setPc, same] using commits
  exact
    { counted := protocol.counted.update activity
      commits := fun other stage commits => by
        have before := protocol.commits other stage (commits_iff other stage commits)
        exact { before with
          alone := fun third stage' commits' =>
            before.alone third stage' (commits_iff third stage' commits') }
      drained := protocol.drained
      distinct := protocol.distinct
      resting := protocol.resting
      sound := protocol.sound }

theorem beginOp (waiting : state.pc process = .idle ∨ state.pc process = .woken) :
    (state.beginOp process).Protocol := by
  have inactive : (state.pc process).active = false := by
    rcases waiting with idle | woken
    · rw [idle, active]
    · rw [woken, active]
  have asleep : (state.setPc process .asleep).Protocol :=
    protocol.setPc (by rw [inactive, active]) (by simp)
  unfold State.beginOp
  split
  · exact asleep
  · rename_i idle
    rw [Bool.not_eq_true] at idle
    split
    · exact asleep
    · have entered := protocol.counted.enter inactive (show inOp.active = true from rfl)
      have isActive : (update state.pc process .inOp process).active = true := by
        simp [active]
      have positive := entered.pos isActive
      have none_commits other stage : update state.pc process .inOp other ≠ .commit stage := by
        by_cases same : other = process
        · simp [same]
        · simpa [same] using protocol.no_committer idle other stage
      exact
        { counted := entered
          commits := fun other stage commits => absurd commits (none_commits other stage)
          drained := fun committing => absurd committing (by simp [State.setPc, idle])
          distinct := protocol.distinct
          resting := fun _ zero => absurd zero (by simp only [State.setPc]; omega)
          sound := protocol.sound }

theorem logWrite (inOp : state.pc process = .inOp) (blockno : Blockno) :
    (state.logWrite log process blockno).Protocol := by
  unfold State.logWrite
  split
  · exact protocol.stop (by decide)
  · split
    · exact protocol.stop (by decide)
    · exact protocol.setPc (by rw [inOp]; rfl) (by simp)

theorem logRecord {blockno : Blockno} (logging : state.pc process = .logging blockno) :
    (state.logRecord process blockno).Protocol := by
  have isActive : (state.pc process).active = true := by rw [logging, active]
  unfold State.logRecord
  split
  · exact protocol.setPc (by rw [isActive]; rfl) (by simp)
  · rename_i unlisted
    split
    · rename_i room
      have idle := protocol.not_committing isActive
      have positive := protocol.counted.pos isActive
      have pushed : { state with lh := state.lh.push blockno room }.Protocol :=
        { protocol with
          distinct := nodup_append.mpr ⟨protocol.distinct, nodup_singleton _, by
            rintro first member second last rfl
            rw [mem_singleton.mp last] at member
            exact unlisted member⟩
          commits := fun other stage commits =>
            absurd commits (protocol.no_committer idle other stage)
          resting := fun _ zero => absurd zero (by simp only; omega) }
      exact pushed.setPc (by rw [isActive]; rfl) (by simp)
    · exact protocol.stop (by decide)

theorem endOp (inOp : state.pc process = .inOp) : (state.endOp process).Protocol := by
  have isActive : (state.pc process).active = true := by rw [inOp, active]
  have idle := protocol.not_committing isActive
  have none_commits := protocol.no_committer idle
  have left (next : Pc) (inactive : next.active = false) : Counts (update state.pc process next)
      (state.outstanding - 1) := protocol.counted.leave isActive inactive
  unfold State.endOp
  rw [if_neg (by simp [idle])]
  split
  · rename_i last
    have only other stage
        (commits : update state.pc process (.commit .start) other = .commit stage) :
        other = process ∧ stage = .start := by
      by_cases same : other = process
      · subst same
        simp only [update_self, commit.injEq] at commits
        exact ⟨rfl, commits.symm⟩
      · exact absurd (by simpa [same] using commits) (none_commits other stage)
    exact
      { counted := left (.commit .start) rfl
        commits := fun other stage commits => by
          obtain ⟨rfl, rfl⟩ := only other stage commits
          exact ⟨rfl, fun third stage' commits' => (only third stage' commits').1, by simp⟩
        drained := fun _ => last
        distinct := protocol.distinct
        resting := nofun
        sound := protocol.sound }
  · rename_i more
    refine Protocol.wakeup
      { counted := left .idle rfl
        commits := fun other stage commits => absurd ?_ (none_commits other stage)
        drained := fun committing => absurd committing (by simp [State.setPc, idle])
        distinct := protocol.distinct
        resting := fun _ zero => absurd zero more
        sound := protocol.sound }
    by_cases same : other = process
    · simp [State.setPc, same] at commits
    · simpa [State.setPc, same] using commits

variable {stage : Stage}

/-- The committing process goes on to another stage. -/
theorem advance (commits : state.pc process = .commit stage) (next : Stage) (dev : Dev)
    (lh : Header) (distinct : lh.block.Nodup)
    (emptied : next = .cleared ∨ next = .finished → lh.block = []) :
    ({ state with dev := dev, lh := lh }.setPc process (.commit next)).Protocol := by
  have before := protocol.commits process stage commits
  have only : ∀ other stage', update state.pc process (.commit next) other =
      .commit stage' → other = process ∧ stage' = next := by
    intro other stage' commits'
    by_cases same : other = process
    · subst same
      simp only [update_self, commit.injEq] at commits'
      exact ⟨rfl, commits'.symm⟩
    · rw [update_of_ne same] at commits'
      exact absurd (before.alone other stage' commits') same
  exact
    { counted := protocol.counted.update (by rw [commits]; rfl)
      commits := fun other stage' commits' => by
        obtain ⟨rfl, rfl⟩ := only other stage' commits'
        exact ⟨before.committing, fun third stage'' again => (only third stage'' again).1, emptied⟩
      drained := protocol.drained
      distinct := distinct
      resting := fun idle => absurd idle (by simp [State.setPc, before.committing])
      sound := protocol.sound }

theorem finish (commits : state.pc process = .commit .finished) :
    (({ state with committing := false }.setPc process .idle).wakeup).Protocol := by
  have none_commits other stage : update state.pc process .idle other ≠ .commit stage := by
    intro commits'
    by_cases same : other = process
    · simp [same] at commits'
    · rw [update_of_ne same] at commits'
      exact same ((protocol.commits process _ commits).alone other stage commits')
  exact Protocol.wakeup
    { counted := protocol.counted.update (by rw [commits]; rfl)
      commits := fun other stage commits' => absurd commits' (none_commits other stage)
      drained := nofun
      distinct := protocol.distinct
      resting := fun _ _ => (protocol.commits process _ commits).emptied (.inr rfl)
      sound := protocol.sound }

theorem commit (commits : state.pc process = .commit stage) :
    (state.commit log process stage).Protocol := by
  cases stage with
  | start =>
    unfold State.commit
    dsimp only
    split
    · exact protocol.advance commits .logged _ _ protocol.distinct (by simp)
    · apply protocol.advance commits .finished _ _ protocol.distinct
      intro _
      exact length_eq_zero_iff.mp (by omega)
  | logged => exact protocol.advance commits .headed _ _ protocol.distinct (by simp)
  | headed => exact protocol.advance commits .installed _ _ protocol.distinct (by simp)
  | installed => exact protocol.advance commits .cleared _ _ nodup_nil fun _ => rfl
  | cleared =>
    exact protocol.advance commits .finished _ _ protocol.distinct fun _ =>
      (protocol.commits process _ commits).emptied (.inl rfl)
  | finished => exact protocol.finish commits

/-- Every step keeps the protocol. -/
theorem step (step_eq : State.step log state event = some target) : target.Protocol := by
  obtain ⟨-, taken⟩ := taken_of_step step_eq
  cases taken with
  | beginOp waiting => exact protocol.beginOp waiting
  | kill asleep => exact protocol.setPc (by rw [asleep]; rfl) (by simp)
  | modify inOp blockno data =>
    exact { protocol with commits := fun other stage commits =>
      { protocol.commits other stage commits with } }
  | logWrite inOp blockno => exact protocol.logWrite inOp blockno
  | logRecord logging => exact protocol.logRecord logging
  | endOp inOp => exact protocol.endOp inOp
  | commit commits => exact protocol.commit commits

end

theorem of_reachable [DecidableEq P] {dev : Dev}
    (reach : Reachable (State.step log) (State.boot dev) state) : state.Protocol :=
  reach.invariant State.Protocol (.boot dev) fun _ _ _ protocol step_eq => protocol.step step_eq

end Protocol

end State

end Xv6.Log
