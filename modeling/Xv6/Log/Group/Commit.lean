import Xv6.Log.Group.Invariant

/-!
# Group commit

A commit runs alone: no operation is in progress, none can begin, and the header
in memory does not change under it.  A block that an operation has recorded stays
listed until the next commit starts.  That commit starts after the operation has
ended, so all blocks of one operation are committed together.
-/

namespace Xv6.Log

open Function Xv6.Transition

universe u

namespace State

variable {P : Type u} [DecidableEq P] {state target : State P} {log : Area} {event : Event P}
  {process : P} {blockno : Blockno}

/-- The event starts the work of a `commit`. -/
def Collects (state : State P) (event : Event P) : Prop :=
  ∃ process, event = .commit process ∧ state.pc process = .commit .start

/-! ## An operation in progress -/

/-- An operation in progress stays so until its own `end_op`. -/
theorem active_of_step (isActive : (state.pc process).active = true)
    (ne : event ≠ .endOp process) (step_eq : step log state event = some target) :
    (target.pc process).active = true := by
  have moved (other : P) (next : Pc) (activity : process = other → next.active = true) :
      (update state.pc other next process).active = true := by
    by_cases same : process = other
    · subst same
      rw [update_self, activity rfl]
    · rwa [update_of_ne same]
  -- A process that was not active is not the one whose operation is in progress.
  have untouched (other : P) (next : Pc) (inactive : (state.pc other).active = false) :
      (update state.pc other next process).active = true :=
    moved other next fun same => absurd isActive (by simp [same, inactive])
  obtain ⟨-, taken⟩ := taken_of_step step_eq
  cases taken with
  | @beginOp other waiting =>
    have inactive : (state.pc other).active = false := by
      rcases waiting with pc_eq | pc_eq <;> rw [pc_eq, Pc.active]
    unfold beginOp
    split
    · exact untouched other _ inactive
    · split <;> exact untouched other _ inactive
  | @kill other asleep => exact untouched other _ (by rw [asleep, Pc.active])
  | modify inOp blockno data => exact isActive
  | @logWrite other inOp blockno =>
    unfold logWrite
    split
    · exact isActive
    · split
      · exact isActive
      · exact moved other _ fun _ => rfl
  | @logRecord other blockno logging =>
    unfold logRecord
    split
    · exact moved other _ fun _ => rfl
    · split
      · exact moved other _ fun _ => rfl
      · exact isActive
  | @endOp other inOp =>
    have different : process ≠ other := fun same => ne (same ▸ rfl)
    unfold endOp
    dsimp only
    split
    · exact isActive
    · split <;> simpa [setPc, update_of_ne different] using isActive
  | @commit other stage commits =>
    have inactive : (state.pc other).active = false := by rw [commits, Pc.active]
    cases stage with
    | start =>
      unfold commit
      dsimp only
      split <;> exact untouched other _ inactive
    | logged | headed | installed | cleared => exact untouched other _ inactive
    | finished =>
      unfold commit
      rw [wakeup_active]
      exact untouched other _ inactive

omit [DecidableEq P] in
/-- No commit starts while an operation is in progress. -/
theorem not_collects_of_active (protocol : state.Protocol)
    (isActive : (state.pc process).active = true) : ¬state.Collects event := by
  rintro ⟨other, -, commits⟩
  exact protocol.no_committer (protocol.not_committing isActive) other .start commits

theorem along_of_active {events : List (Event P)} (protocol : state.Protocol)
    (isActive : (state.pc process).active = true) (unended : .endOp process ∉ events)
    (execution : run (step log) state events = some target) :
    Along (step log) (fun state event => ¬state.Collects event) state events ∧
      target.Protocol ∧ (target.pc process).active = true := by
  induction events generalizing state with
  | nil =>
    cases execution
    exact ⟨trivial, protocol, isActive⟩
  | cons event events ih =>
    obtain ⟨middle, step_eq, rest⟩ := run_cons_eq_some_iff.mp execution
    rw [List.mem_cons, not_or] at unended
    have stays := active_of_step isActive (Ne.symm unended.1) step_eq
    obtain ⟨along, result⟩ := ih (protocol.step step_eq) stays unended.2 rest
    refine ⟨⟨not_collects_of_active protocol isActive, fun next next_eq => ?_⟩, result⟩
    cases step_eq.symm.trans next_eq
    exact along

/-! ## A recorded block -/

/-- The block is listed, and no commit has started its work. -/
structure Listed (blockno : Blockno) (state : State P) : Prop where
  member : blockno ∈ state.lh.block
  waiting : ∀ process stage, state.pc process = .commit stage → stage = .start

namespace Listed

section

variable (listed : state.Listed blockno)

include listed

section

omit [DecidableEq P]

/-- A step that unlists nothing and lets no commit go on. -/
theorem frame (members : ∀ other ∈ state.lh.block, other ∈ target.lh.block)
    (commits : ∀ process stage, target.pc process = .commit stage → stage = .start ∨
      state.pc process = .commit stage) :
    target.Listed blockno where
  member := members blockno listed.member
  waiting process stage committing := by
    rcases commits process stage committing with start | before
    · exact start
    · exact listed.waiting process stage before

theorem wakeup : state.wakeup.Listed blockno :=
  listed.frame (fun _ => id) fun process stage committing =>
    .inr ((state.wakeup_commit_iff process stage).mp committing)

theorem stop (trap : Trap) : (state.stop trap).Listed blockno :=
  { listed with }

theorem recount (outstanding : Int) (committing : Bool) :
    { state with outstanding := outstanding, committing := committing }.Listed blockno :=
  ⟨listed.member, listed.waiting⟩

end

theorem setPc (next : Pc) (plain : ∀ stage, next = .commit stage → stage = .start) :
    (state.setPc process next).Listed blockno := by
  refine listed.frame (fun _ => id) fun other stage committing => ?_
  by_cases same : other = process
  · subst same
    exact .inl (plain stage (by simpa [State.setPc] using committing))
  · exact .inr (by simpa [State.setPc, same] using committing)

/-- A listed block stays listed until a commit starts its work. -/
theorem step (uncollected : ¬state.Collects event)
    (step_eq : State.step log state event = some target) : target.Listed blockno := by
  obtain ⟨-, taken⟩ := taken_of_step step_eq
  cases taken with
  | beginOp waiting =>
    unfold State.beginOp
    split
    · exact listed.setPc _ (by simp)
    · split
      · exact listed.setPc _ (by simp)
      · exact (listed.recount _ _).setPc _ (by simp)
  | kill asleep => exact listed.setPc _ (by simp)
  | modify inOp other data => exact { listed with }
  | logWrite inOp other =>
    unfold State.logWrite
    split
    · exact listed.stop _
    · split
      · exact listed.stop _
      · exact listed.setPc _ (by simp)
  | @logRecord process other logging =>
    unfold State.logRecord
    split
    · exact listed.setPc _ (by simp)
    · split
      · rename_i room
        have pushed : { state with lh := state.lh.push other room }.Listed blockno :=
          listed.frame (fun _ => List.mem_append_left _) fun _ _ => .inr
        exact pushed.setPc _ (by simp)
      · exact listed.stop _
  | endOp inOp =>
    unfold State.endOp
    dsimp only
    split
    · exact (listed.recount _ _).stop _
    · split
      · apply (listed.recount _ _).setPc _
        intro stage same
        cases same
        rfl
      · exact ((listed.recount _ _).setPc .idle (by simp)).wakeup
  | @commit process stage commits =>
    have start := listed.waiting process stage commits
    subst start
    exact absurd ⟨process, rfl, commits⟩ uncollected

theorem run {events : List (Event P)}
    (uncollected : Along (State.step log) (fun state event => ¬state.Collects event) state events)
    (execution : Transition.run (State.step log) state events = some target) :
    target.Listed blockno :=
  run_invariant_of_along (Listed blockno) listed
    (fun _ _ _ listed uncollected step_eq => listed.step uncollected step_eq) uncollected execution

end

end Listed

/-- A recorded block is listed, unless its store has overrun the array. -/
theorem listed_of_logRecord (protocol : state.Protocol)
    (logging : state.pc process = .logging blockno) :
    (state.logRecord process blockno).trap ≠ none ∨
      (state.logRecord process blockno).Listed blockno := by
  have isActive : (state.pc process).active = true := by rw [logging, Pc.active]
  have none_commits := protocol.no_committer (protocol.not_committing isActive)
  unfold logRecord
  split
  · rename_i member
    have listed : state.Listed blockno :=
      ⟨member, fun other stage commits => absurd commits (none_commits other stage)⟩
    exact .inr (listed.setPc _ (by simp))
  · split
    · rename_i room
      have listed : { state with lh := state.lh.push blockno room }.Listed blockno :=
        ⟨List.mem_append_right _ (List.mem_singleton_self _),
          fun other stage commits => absurd commits (none_commits other stage)⟩
      exact .inr (listed.setPc _ (by simp))
    · exact .inl (by simp [stop])

/-! ## A commit -/

/-- While a commit runs, no process is in an operation. -/
theorem step_of_commits (protocol : state.Protocol) {stage : Stage}
    (commits : state.pc process = .commit stage) (step_eq : step log state event = some target) :
    (∃ other next, process ≠ other ∧ (event = .beginOp other ∧ next = .asleep ∨
        event = .kill other ∧ next = .woken) ∧ target = state.setPc other next) ∨
      event = .commit process ∧ target = state.commit log process stage := by
  have committing := (protocol.commits process stage commits).committing
  have inactive : ∀ other, (state.pc other).active = false := by
    have counted := protocol.counted
    rw [protocol.drained committing] at counted
    exact counted.inactive
  obtain ⟨-, taken⟩ := taken_of_step step_eq
  cases taken with
  | @beginOp other waiting =>
    refine .inl ⟨other, _, ?_, .inl ⟨rfl, rfl⟩, by rw [beginOp, if_pos committing]⟩
    rintro rfl
    simp [commits] at waiting
  | @kill other asleep =>
    refine .inl ⟨other, _, ?_, .inr ⟨rfl, rfl⟩, rfl⟩
    rintro rfl
    simp [commits] at asleep
  | @commit other stage' commits' =>
    obtain rfl := (protocol.commits process stage commits).alone other stage' commits'
    cases commits.symm.trans commits'
    exact .inr ⟨rfl, rfl⟩
  | @modify other place | @logWrite other place | @endOp other place | @logRecord other _ place =>
    have := inactive other
    rw [place] at this
    contradiction

theorem commit_lh {stage : Stage} (ne : stage ≠ .installed) :
    (state.commit log process stage).lh = state.lh := by
  cases stage with
  | start =>
    unfold commit
    dsimp only
    split <;> rfl
  | installed => contradiction
  | logged | headed | cleared | finished => rfl

/-- What a commit that began with the header and the device has done by a stage. -/
def Underway (log : Area) (lh : Header) (dev : Dev) (state : State P) : Stage → Prop
  | .start => state.lh = lh ∧ state.dev = dev
  | .logged => 0 < lh.block.length ∧ state.lh = lh ∧ state.dev = log.writeLog lh dev
  | .headed => 0 < lh.block.length ∧ state.lh = lh ∧
      state.dev = log.writeHead lh (log.writeLog lh dev)
  | .installed => 0 < lh.block.length ∧
      state.dev = log.installTrans lh (log.writeHead lh (log.writeLog lh dev))
  | .cleared => 0 < lh.block.length ∧ state.lh = .empty ∧
      state.dev = log.installTrans lh (log.writeHead lh (log.writeLog lh dev))
  | .finished => state.dev = log.commit lh dev

theorem underway_commit {lh : Header} {dev : Dev} {stage : Stage} (unfinished : stage ≠ .finished)
    (underway : state.Underway log lh dev stage) :
    ∃ next, (state.commit log process stage).pc process = .commit next ∧
      (state.commit log process stage).Underway log lh dev next := by
  cases stage with
  | start =>
    obtain ⟨rfl, rfl⟩ := underway
    by_cases nonempty : state.lh.block.length > 0
    · exact ⟨.logged, by simp [commit, nonempty, setPc],
        by simp [commit, nonempty, setPc, Underway]⟩
    · exact ⟨.finished, by simp [commit, nonempty, setPc],
        by simp [commit, nonempty, setPc, Underway, Area.commit]⟩
  | logged =>
    obtain ⟨nonempty, rfl, dev_eq⟩ := underway
    exact ⟨.headed, update_self .., nonempty, rfl, congrArg (log.writeHead state.lh) dev_eq⟩
  | headed =>
    obtain ⟨nonempty, rfl, dev_eq⟩ := underway
    exact ⟨.installed, update_self .., nonempty, congrArg (log.installTrans state.lh) dev_eq⟩
  | installed => exact ⟨.cleared, update_self .., underway.1, rfl, underway.2⟩
  | cleared =>
    obtain ⟨nonempty, lh_eq, dev_eq⟩ := underway
    refine ⟨.finished, update_self .., ?_⟩
    simp only [Underway, Area.commit, if_pos nonempty, ← dev_eq, ← lh_eq]
    rfl
  | finished => contradiction

/-- Whatever the other processes do meanwhile, a commit does the work of `commit`. -/
theorem underway_of_run {events : List (Event P)} {final : State P} (protocol : state.Protocol)
    (starts : state.pc process = .commit .start)
    (unfinished : Along (step log) (fun state _ => state.pc process ≠ .commit .finished)
      state events)
    (execution : run (step log) state events = some final) :
    ∃ stage, final.pc process = .commit stage ∧ final.Underway log state.lh state.dev stage := by
  refine (run_invariant_of_along (fun current => current.Protocol ∧ ∃ stage,
    current.pc process = .commit stage ∧ current.Underway log state.lh state.dev stage)
    ⟨protocol, .start, starts, rfl, rfl⟩ ?_ unfinished execution).2
  rintro current event target ⟨protocol, stage, commits, underway⟩ unfinished step_eq
  refine ⟨protocol.step step_eq, ?_⟩
  rcases step_of_commits protocol commits step_eq with ⟨other, next, ne, -, rfl⟩ | ⟨-, rfl⟩
  · exact ⟨stage, (update_of_ne ne ..).trans commits, by cases stage <;> exact underway⟩
  · refine underway_commit (fun isFinished => unfinished ?_) underway
    rw [commits, isFinished]

/-! ## The theorem -/

/-- What the commit protocol guarantees in every run. -/
structure GroupCommit (P : Type u) [DecidableEq P] (log : Area) (dev : Dev) : Prop where
  /-- A commit runs only with `committing` set and nothing outstanding. -/
  alone : ∀ (state : State P) process stage, Reachable (step log) (boot dev) state →
    state.pc process = .commit stage → state.outstanding = 0 ∧ state.committing = true
  /-- No `log_write` and no successful `begin_op` happens while it runs. -/
  quiet : ∀ (state : State P) process stage, Reachable (step log) (boot dev) state →
    state.pc process = .commit stage → ∀ other blockno target,
      step log state (.logWrite other blockno) ≠ some target ∧
      step log state (.logRecord other) ≠ some target ∧
      (step log state (.beginOp other) = some target → target.pc other = .asleep)
  /-- The header it writes is the one it has collected. -/
  fixed : ∀ (state : State P) process stage, Reachable (step log) (boot dev) state →
    state.pc process = .commit stage → stage ≠ .installed → ∀ event target,
      step log state event = some target → target.lh = state.lh
  /-- `end_op` does not panic. -/
  sound : ∀ state : State P, Reachable (step log) (boot dev) state →
    state.trap ≠ some (.panic "log.committing")
  /-- No block is listed twice. -/
  distinct : ∀ state : State P, Reachable (step log) (boot dev) state → state.lh.block.Nodup
  /-- A block that an operation records is listed in the first commit that starts
  after the end of the operation, and none starts before. -/
  together : ∀ (before middle : List (Event P)) process blockno (start ended : State P),
    run (step log) (boot dev) before = some start → start.pc process = .logging blockno →
    .endOp process ∉ middle →
    run (step log) start (.logRecord process :: middle ++ [.endOp process]) = some ended →
    Along (step log) (fun state event => ¬state.Collects event) start
        (.logRecord process :: middle ++ [.endOp process]) ∧
      ∀ (later : List (Event P)) committer (final : State P),
        run (step log) ended later = some final →
        Along (step log) (fun state event => ¬state.Collects event) ended later →
        final.pc committer = .commit .start → blockno ∈ final.lh.block
  /-- A commit has done the work of `commit` on the device when it finishes. -/
  performed : ∀ (start final : State P) committer events,
    Reachable (step log) (boot dev) start → start.pc committer = .commit .start →
    run (step log) start events = some final →
    Along (step log) (fun state _ => state.pc committer ≠ .commit .finished) start events →
    final.pc committer = .commit .finished → final.dev = log.commit start.lh start.dev

/-- A system that has stopped makes no step. -/
theorem nil_of_stopped {events : List (Event P)} (stopped : state.trap ≠ none)
    (execution : run (step log) state events = some target) : events = [] := by
  cases events with
  | nil => rfl
  | cons event events =>
    obtain ⟨middle, step_eq, -⟩ := run_cons_eq_some_iff.mp execution
    exact absurd (taken_of_step step_eq).1 stopped

/-- A recorded block and the end of its operation. -/
theorem listed_until_end {before middle : List (Event P)} {dev : Dev} {start ended : State P}
    (reached : run (step log) (boot dev) before = some start)
    (logging : start.pc process = .logging blockno) (unended : .endOp process ∉ middle)
    (execution : run (step log) start (.logRecord process :: middle ++ [.endOp process]) =
      some ended) :
    Along (step log) (fun state event => ¬state.Collects event) start
        (.logRecord process :: middle ++ [.endOp process]) ∧ ended.Listed blockno := by
  have protocol := Protocol.of_reachable (.of_run reached)
  have isActive : (start.pc process).active = true := by rw [logging, Pc.active]
  obtain ⟨last, body, ending⟩ := run_concat_eq_some_iff.mp execution
  have noEnd : .endOp process ∉ .logRecord process :: middle := by simpa using unended
  obtain ⟨along, -⟩ := along_of_active protocol isActive noEnd body
  have whole : Along (step log) (fun state event => ¬state.Collects event) start
      (.logRecord process :: middle ++ [.endOp process]) :=
    (along_concat body).mpr ⟨along, by rintro ⟨other, impossible, -⟩; contradiction⟩
  refine ⟨whole, ?_⟩
  obtain ⟨recorded, record_eq, rest⟩ := run_cons_eq_some_iff.mp execution
  obtain ⟨-, taken⟩ := taken_of_step record_eq
  cases taken with
  | logRecord logging' =>
    cases logging.symm.trans logging'
    rcases listed_of_logRecord protocol logging with trapped | listed
    · -- A system that has stopped does not reach the `end_op`.
      exact absurd (nil_of_stopped trapped rest) (by simp)
    · exact listed.run (whole.2 _ record_eq) rest

theorem groupCommit (log : Area) (dev : Dev) : GroupCommit P log dev where
  alone state process stage reach commits := by
    have protocol := Protocol.of_reachable reach
    have committing := (protocol.commits process stage commits).committing
    exact ⟨protocol.drained committing, committing⟩
  quiet state process stage reach commits other blockno target := by
    refine ⟨?_, ?_, ?_⟩
    all_goals
      intro step_eq
      rcases step_of_commits (.of_reachable reach) commits step_eq with
        ⟨_, _, -, ⟨same, rfl⟩ | ⟨same, -⟩, rfl⟩ | ⟨same, -⟩
      all_goals cases same
    simp [setPc]
  fixed state process stage reach commits ne event target step_eq := by
    rcases step_of_commits (.of_reachable reach) commits step_eq with ⟨_, _, -, -, rfl⟩ | ⟨-, rfl⟩
    · rfl
    · exact commit_lh ne
  sound state reach := (Protocol.of_reachable reach).sound
  distinct state reach := (Protocol.of_reachable reach).distinct
  together before middle process blockno start ended reached logging unended execution := by
    obtain ⟨along, listed⟩ := listed_until_end reached logging unended execution
    exact ⟨along, fun later committer final rest uncollected _ =>
      (listed.run uncollected rest).member⟩
  performed start final committer events reach starts execution unfinished finished := by
    obtain ⟨stage, commits, underway⟩ :=
      underway_of_run (.of_reachable reach) starts unfinished execution
    cases finished.symm.trans commits
    exact underway

/-- Two operations record a block each; the last of them to end commits. -/
def twoOperations : List (Event Nat) :=
  [.beginOp 0, .beginOp 1, .modify 0 100 fun _ => 1, .logWrite 0 100, .logRecord 0,
    .logWrite 1 101, .logRecord 1, .endOp 0, .endOp 1]

theorem groupCommit_twoOperations :
    ∃ start final : State Nat, run (step .mkfs) (boot blankDev) twoOperations = some start ∧
      start.lh.block = [100, 101] ∧
      run (step .mkfs) start (List.replicate 5 (.commit 1)) = some final ∧
      final.dev = Area.mkfs.commit start.lh start.dev := by
  obtain ⟨start, opened, listed, starts, unfinished, final, execution, finished⟩ :
      ∃ start ∈ run (step .mkfs) (boot blankDev) twoOperations,
      start.lh.block = [100, 101] ∧ start.pc 1 = .commit .start ∧
      Along (step .mkfs) (fun state _ => state.pc 1 ≠ .commit .finished) start
        (List.replicate 5 (.commit 1)) ∧
      ∃ final ∈ run (step .mkfs) start (List.replicate 5 (.commit 1)),
        final.pc 1 = .commit .finished := by
    decide +kernel
  exact ⟨start, final, opened, listed, execution, (groupCommit .mkfs blankDev).performed start
    final 1 _ (.of_run opened) starts execution unfinished finished⟩

end State

end Xv6.Log
