import Xv6.Process.Sleep.Correctness
import Xv6.Sleeplock.Core

/-!
# Sleep-locks exclude and strand nobody

Every step is a step of the site at which processes wait for the lock, so the site's
invariant holds throughout: whoever has seen `lk->locked = 0` holds the inner spinlock
until it has stored `lk->locked = 1`, and whoever stores `lk->locked = 0` holds it until
it has woken the sleepers.  Beside it, `Valid` counts the processes that hold the lock.
-/

namespace Xv6.Process.Sleeplock

open Function Xv6.Transition Ptable Option State Sleep.State

/-! ## Where the two functions are in the code of the site -/

/-- The place of a process in the loop around `sleep`. -/
def Phase.Sleeping : Phase → Sleep.Sleeper → Prop
  | .acquiring, pc => pc ≠ .idle
  | .taking, pc => pc = .leaving
  | .outside, pc | .holding, pc | .releasing, pc | .waking, pc => pc = .idle

/-- The place of a process in the code of a waker. -/
def Phase.Waking : Phase → Sleep.Waker → Prop
  | .releasing, pc => pc = .entering ∨ pc = .changing
  | .waking, pc => pc = .raised ∨ pc = .waking ∨ pc = .woken
  | .outside, pc | .acquiring, pc | .taking, pc | .holding, pc => pc = .idle

/-- What is known of one process.  Behind the loop of `acquiresleep` it has seen
`lk->locked = 0`. -/
structure Placed (sleep : Sleep.State Slot Sleeplock) (slot : Slot) (phase : Phase) : Prop where
  sleeper : phase.Sleeping (sleep.sleeper slot)
  waker : phase.Waking (sleep.waker slot)
  passed : phase = .acquiring → sleep.sleeper slot = .leaving → sleep.data.locked = false
  awake : phase = .acquiring → sleep.sleeper slot ≠ .asleep →
    (sleep.table slot).state = .running

/-- The invariant: the site is safe, every process is where its phase says, and the lock is
taken exactly when one process holds it, whose pid it then stores. -/
structure Valid (chan : Chan) (state : State) : Prop where
  safe : (site chan).Safe state.sleep
  placed : ∀ slot, Placed state.sleep slot (state.phase slot)
  locked : state.sleep.data.locked = true ↔ ∃ slot, (state.phase slot).holds = true
  unique : ∀ first second, (state.phase first).holds = true →
    (state.phase second).holds = true → first = second
  pid : ∀ slot, (state.phase slot).holds = true →
    state.sleep.data.pid = (state.sleep.table slot).pid

variable {chan : Chan} {state : State} {slot : Slot}

namespace Placed

variable {sleep target : Sleep.State Slot Sleeplock} {phase : Phase}

/-- Nothing changes for a process that stays where it is, unless it is behind the loop. -/
theorem congr (placed : Placed sleep slot phase)
    (sleeper : target.sleeper slot = sleep.sleeper slot)
    (waker : target.waker slot = sleep.waker slot)
    (locked : sleep.sleeper slot = .leaving → phase = .acquiring →
      target.data.locked = sleep.data.locked)
    (running : (sleep.table slot).state = .running → (target.table slot).state = .running) :
    Placed target slot phase where
  sleeper := by
    rw [sleeper]
    exact placed.sleeper
  waker := by
    rw [waker]
    exact placed.waker
  passed := by
    rw [sleeper]
    intro acquiring leaving
    rw [locked leaving acquiring]
    exact placed.passed acquiring leaving
  awake := by
    rw [sleeper]
    exact fun acquiring up => running (placed.awake acquiring up)

end Placed

/-! ## Steps of the site -/

/-- A process moves in the loop around `sleep`. -/
structure Advances (state target : Sleep.State Slot Sleeplock) (slot : Slot) : Prop where
  data : target.data = state.data
  waker : target.waker = state.waker
  sleepers : ∀ other ≠ slot, target.sleeper other = state.sleeper other
  table : ∀ other ≠ slot, target.table other = state.table other
  pid : (target.table slot).pid = (state.table slot).pid
  up : state.sleeper slot ≠ .asleep
  idle : target.sleeper slot = .idle ↔ state.sleeper slot = .leaving
  leaving : target.sleeper slot = .leaving → state.data.locked = false
  running : state.sleeper slot = .idle ∨ (state.table slot).state = .running →
    target.sleeper slot = .asleep ∨ (target.table slot).state = .running

theorem advances_of_sleeperStep {state target : Sleep.State Slot Sleeplock}
    (step : (site chan).sleeperStep state slot = some target) : Advances state target slot := by
  unfold Sleep.Site.sleeperStep at step
  cases pc_eq : state.sleeper slot <;> simp only [pc_eq] at step
  case idle =>
    obtain ⟨running, step⟩ := ite_none_right_eq_some.mp step
    cases step
    constructor <;> simp_all [moveSleeper]
  case entering | calling =>
    obtain ⟨-, rfl⟩ := map_acquire_eq_some_iff.mp step
    constructor <;> simp_all [moveSleeper, setLock]
  case testing =>
    simp only [site, reduceCtorEq] at step
    split at step
    all_goals
      cases step
      constructor <;> simp_all [moveSleeper]
  case drowsy =>
    cases step
    constructor <;> simp_all [moveSleeper, setTable, setLock, goToSleep]
  case asleep => cases step
  case rising =>
    cases step
    constructor <;> simp_all [moveSleeper, setTable, release, setLock, clearChan]
  case handover | leaving =>
    cases step
    constructor <;> simp_all [moveSleeper, release, setLock]

/-- The order of the places of a waker with a lock of its own. -/
def successor : Sleep.Waker → Sleep.Waker
  | .idle => .entering
  | .entering => .changing
  | .raised => .waking
  | .waking => .woken
  | .changing | .woken => .idle

/-- A process moves in the code of a waker, where it may wake others. -/
structure Serves (state target : Sleep.State Slot Sleeplock) (slot : Slot) : Prop where
  data : target.data = state.data
  sleeper : target.sleeper = state.sleeper
  wakers : ∀ other ≠ slot, target.waker other = state.waker other
  waker : target.waker slot = successor (state.waker slot)
  wakes : Ptable.Wakes state.table target.table
  pid : ∀ other, (target.table other).pid = (state.table other).pid

theorem serves_of_wakerStep {state target : Sleep.State Slot Sleeplock}
    (step : (site chan).wakerStep state slot = some target) : Serves state target slot := by
  have still : Wakes state.table state.table := fun _ => .inl rfl
  have scanned := wakeup1_wakes state.table (some (site chan).chan)
  have pid_eq (other : Slot) :
      (state.table.wakeup1 (some (site chan).chan) other).pid = (state.table other).pid := by
    rw [wakeup1_apply]
  have moved (after : Sleep.Waker) {before : Sleep.Waker} (pc_eq : state.waker slot = before)
      (next : after = successor before) (middle : Sleep.State Slot Sleeplock) :
      (middle.moveWaker slot after).waker slot = successor (state.waker slot) := by
    rw [pc_eq, ← next]
    exact update_self ..
  unfold Sleep.Site.wakerStep at step
  cases pc_eq : state.waker slot <;> simp only [pc_eq] at step
  case entering | raised =>
    obtain ⟨-, rfl⟩ := map_acquire_eq_some_iff.mp step
    exact ⟨rfl, rfl, fun other ne => update_of_ne ne .., moved _ pc_eq rfl _,
      still, fun _ => rfl⟩
  case waking =>
    cases step
    exact ⟨rfl, rfl, fun other ne => update_of_ne ne .., moved _ pc_eq rfl _,
      scanned, pid_eq⟩
  all_goals
    cases step
    exact ⟨rfl, rfl, fun other ne => update_of_ne ne .., moved _ pc_eq rfl _,
      still, fun _ => rfl⟩

/-! ## Steps of the processes -/

namespace Valid

section

variable (valid : Valid chan state)

include valid

section

variable {sleep : Sleep.State Slot Sleeplock}

/-- One process moves and neither takes nor gives up the lock. -/
theorem move {phase : Phase} (safe : (site chan).Safe sleep)
    (data : sleep.data = state.sleep.data) (holds : phase.holds = (state.phase slot).holds)
    (pid : ∀ other, (state.phase other).holds = true →
      (sleep.table other).pid = (state.sleep.table other).pid)
    (placed : Placed sleep slot phase)
    (others : ∀ other ≠ slot, Placed sleep other (state.phase other)) :
    Valid chan (state.moveTo slot phase sleep) := by
  have same (other : Slot) :
      ((state.moveTo slot phase sleep).phase other).holds = (state.phase other).holds := by
    by_cases eq : other = slot
    · simp [moveTo, eq, holds]
    · simp [moveTo, eq]
  refine ⟨safe, fun other => ?_, ?_, fun first second => ?_, fun other => ?_⟩
  · by_cases eq : other = slot
    · simpa [moveTo, eq] using placed
    · simpa [moveTo, eq] using others other eq
  · simp only [same]
    exact data ▸ valid.locked
  · simp only [same]
    exact valid.unique first second
  · rw [same]
    intro held
    exact (congrArg Sleeplock.pid data).trans ((valid.pid other held).trans (pid other held).symm)

/-- A step in the loop around `sleep`. -/
theorem advance {phase : Phase}
    (step : (site chan).sleeperStep state.sleep slot = some sleep)
    (holds : phase.holds = (state.phase slot).holds) (placed : Placed sleep slot phase) :
    Valid chan (state.moveTo slot phase sleep) := by
  have advances := advances_of_sleeperStep step
  refine valid.move (valid.safe.sleeperStep step) advances.data holds ?_ placed ?_
  · intro other _
    by_cases eq : other = slot
    · rw [eq, advances.pid]
    · rw [advances.table other eq]
  · intro other ne
    refine (valid.placed other).congr (advances.sleepers other ne) ?_ (fun _ _ => ?_) ?_
    · rw [advances.waker]
    · rw [advances.data]
    · rw [advances.table other ne]
      exact id

/-- A step in the code of a waker. -/
theorem serve {phase : Phase}
    (step : (site chan).wakerStep state.sleep slot = some sleep)
    (holds : phase.holds = (state.phase slot).holds) (placed : Placed sleep slot phase) :
    Valid chan (state.moveTo slot phase sleep) := by
  have serves := serves_of_wakerStep step
  refine valid.move (valid.safe.wakerStep step) serves.data holds
    (fun other _ => serves.pid other) placed ?_
  intro other ne
  refine (valid.placed other).congr ?_ (serves.wakers other ne) (fun _ _ => ?_) fun running => ?_
  · rw [serves.sleeper]
  · rw [serves.data]
  · exact serves.wakes.keeps running (by decide)

/-- Two processes are never behind the loop at the same time. -/
theorem not_leaving {other : Slot} (ne : other ≠ slot)
    (leaving : state.sleep.sleeper slot = .leaving) : state.sleep.sleeper other ≠ .leaving := by
  intro otherLeaving
  have claims (process : Slot) (leaving : state.sleep.sleeper process = .leaving) :
      state.sleep.claims .other (.sleeper process) .other := by
    rw [claims, leaving]
    rfl
  have held := valid.safe.owned _ _ (claims slot leaving)
  have apart : Sleep.Holder.sleeper (W := Slot) other ≠ .sleeper slot := by simpa using ne
  exact valid.safe.owned.not_claims_of_ne held apart (claims other otherLeaving)

/-- A process goes around the loop of `acquiresleep`. -/
theorem wait
    (step : (site chan).sleeperStep state.sleep slot = some sleep)
    (free : (state.phase slot).holds = false) (idle : state.sleep.waker slot = .idle)
    (inLoop : state.sleep.sleeper slot ≠ .leaving)
    (running : state.sleep.sleeper slot = .idle ∨ (state.sleep.table slot).state = .running) :
    Valid chan (state.moveTo slot .acquiring sleep) := by
  have advances := advances_of_sleeperStep step
  refine valid.advance step free.symm ⟨?_, ?_, fun _ leaving => ?_, fun _ up => ?_⟩
  · exact fun back => inLoop (advances.idle.mp back)
  · exact (congrFun advances.waker slot).trans idle
  · rw [advances.data]
    exact advances.leaving leaving
  · exact (advances.running running).resolve_left up

end

/-- The process behind the loop takes the lock, which nobody holds. -/
theorem take (acquiring : state.phase slot = .acquiring)
    (leaving : state.sleep.sleeper slot = .leaving) :
    Valid chan (state.moveTo slot .taking
      (state.sleep.setData { locked := true, pid := (state.sleep.table slot).pid })) := by
  have placed := valid.placed slot
  rw [acquiring] at placed
  have free (other : Slot) : (state.phase other).holds ≠ true := by
    intro held
    have locked := valid.locked.mpr ⟨other, held⟩
    rw [placed.passed rfl leaving] at locked
    contradiction
  have only (other : Slot) (held : ((state.moveTo slot .taking
      (state.sleep.setData { locked := true, pid := (state.sleep.table slot).pid })).phase
        other).holds = true) : other = slot := by
    by_contra ne
    simp only [moveTo, update_of_ne ne] at held
    exact free other held
  refine ⟨?_, fun other => ?_, ?_, fun first second held held' => ?_, fun other held => ?_⟩
  · exact valid.safe.environment (by simp [site]) fun _ _ asleep => asleep
  · by_cases eq : other = slot
    · simp only [eq, moveTo, update_self]
      exact ⟨leaving, placed.waker, nofun, nofun⟩
    · simp only [moveTo, update_of_ne eq]
      exact (valid.placed other).congr rfl rfl
        (fun otherLeaving _ => absurd otherLeaving (valid.not_leaving eq leaving)) id
  · exact iff_of_true rfl ⟨slot, by simp [moveTo, Phase.holds]⟩
  · rw [only first held, only second held']
  · rw [only other held]
    rfl

theorem acquiresleep {target : State} (step : acquiresleep chan state slot = some target) :
    Valid chan target := by
  have placed := valid.placed slot
  unfold Sleeplock.acquiresleep at step
  cases phase_eq : state.phase slot <;> simp only [phase_eq] at step placed
  case outside =>
    obtain ⟨sleep, moved, rfl⟩ := map_eq_some_iff.mp step
    have idle : state.sleep.sleeper slot = .idle := placed.sleeper
    refine valid.wait moved (by rw [phase_eq]; rfl) placed.waker ?_ (.inl idle)
    rw [idle]
    decide
  case acquiring =>
    split at step
    · rename_i leaving
      cases step
      exact valid.take phase_eq leaving
    · rename_i inLoop
      obtain ⟨sleep, moved, rfl⟩ := map_eq_some_iff.mp step
      refine valid.wait moved (by rw [phase_eq]; rfl) placed.waker inLoop (.inr ?_)
      exact placed.awake rfl (advances_of_sleeperStep moved).up
  case taking =>
    obtain ⟨sleep, moved, rfl⟩ := map_eq_some_iff.mp step
    have advances := advances_of_sleeperStep moved
    refine valid.advance moved (by rw [phase_eq]; rfl) ⟨?_, ?_, nofun, nofun⟩
    · exact advances.idle.mpr placed.sleeper
    · exact (congrFun advances.waker slot).trans placed.waker
  all_goals cases step

/-- The process that holds the lock gives it up. -/
theorem giveUp (releasing : state.phase slot = .releasing)
    (changing : state.sleep.waker slot = .changing) :
    Valid chan (state.moveTo slot .waking
      ((state.sleep.setData { locked := false, pid := 0 }).moveWaker slot .raised)) := by
  have placed := valid.placed slot
  rw [releasing] at placed
  have holds : (state.phase slot).holds = true := by rw [releasing]; rfl
  have locked := valid.locked.mpr ⟨slot, holds⟩
  have free (other : Slot) : ((state.moveTo slot .waking ((state.sleep.setData
      { locked := false, pid := 0 }).moveWaker slot .raised)).phase other).holds ≠ true := by
    intro held
    by_cases eq : other = slot
    · simp [eq, moveTo, Phase.holds] at held
    · simp only [moveTo, update_of_ne eq] at held
      exact eq (valid.unique other slot held holds)
  refine ⟨?_, fun other => ?_, ?_, fun first _ held => absurd held (free first),
    fun other held => absurd held (free other)⟩
  · have change : (site chan).step state.sleep (.change slot { locked := false, pid := 0 }) =
        some ((state.sleep.setData { locked := false, pid := 0 }).moveWaker slot .raised) := by
      simp [Sleep.Site.step, site, changing, Sleep.Waker.atWork, locked]
    exact valid.safe.step change
  · by_cases eq : other = slot
    · simp only [eq, moveTo, update_self]
      refine ⟨placed.sleeper, .inl ?_, ?_, ?_⟩
      · simp [moveWaker]
      · intro impossible
        cases impossible
      · intro impossible
        cases impossible
    · simp only [moveTo, update_of_ne eq]
      refine (valid.placed other).congr rfl (update_of_ne eq ..) ?_ id
      intro leaving acquiring
      rw [(valid.placed other).passed acquiring leaving]
      rfl
  · exact iff_of_false (by simp [moveTo, moveWaker, setData])
      (not_exists.mpr free)

theorem releasesleep {target : State} (step : releasesleep chan state slot = some target) :
    Valid chan target := by
  have placed := valid.placed slot
  -- the place of the process in the code of a waker after the step
  have serves {sleep : Sleep.State Slot Sleeplock} {phase : Phase} {pc : Sleep.Waker}
      (step : (site chan).wakerStep state.sleep slot = some sleep)
      (pc_eq : state.sleep.waker slot = pc) (holds : phase.holds = (state.phase slot).holds)
      (idle : state.sleep.sleeper slot = .idle) (sleeping : phase.Sleeping .idle)
      (waking : phase.Waking (successor pc)) (apart : phase ≠ .acquiring) :
      Valid chan (state.moveTo slot phase sleep) := by
    have serves := serves_of_wakerStep step
    refine valid.serve step holds ⟨?_, ?_, fun eq => absurd eq apart, fun eq => absurd eq apart⟩
    · rw [serves.sleeper, idle]
      exact sleeping
    · rw [serves.waker, pc_eq]
      exact waking
  unfold Sleeplock.releasesleep at step
  cases phase_eq : state.phase slot <;> simp only [phase_eq] at step placed serves
  case holding =>
    obtain ⟨sleep, moved, rfl⟩ := map_eq_some_iff.mp step
    exact serves moved placed.waker rfl placed.sleeper rfl (.inl rfl) (by decide)
  case releasing =>
    split at step
    · rename_i changing
      cases step
      exact valid.giveUp phase_eq changing
    · rename_i waiting
      obtain ⟨sleep, moved, rfl⟩ := map_eq_some_iff.mp step
      have entering := placed.waker.resolve_right waiting
      exact serves moved entering rfl placed.sleeper rfl (.inr rfl) (by decide)
  case waking =>
    split at step
    · rename_i woken
      obtain ⟨sleep, moved, rfl⟩ := map_eq_some_iff.mp step
      exact serves moved woken rfl placed.sleeper rfl rfl (by decide)
    · rename_i busy
      obtain ⟨sleep, moved, rfl⟩ := map_eq_some_iff.mp step
      rcases placed.waker with raised | waking | woken
      · exact serves moved raised rfl placed.sleeper rfl (.inr (.inl rfl)) (by decide)
      · exact serves moved waking rfl placed.sleeper rfl (.inr (.inr rfl)) (by decide)
      · exact absurd woken busy
  all_goals cases step

/-! ## Steps of the environment -/

/-- The site moves, and nobody moves in `releasesleep` or behind the loop of `acquiresleep`. -/
theorem environment {sleep : Sleep.State Slot Sleeplock} {event : Sleep.Event Slot Sleeplock}
    (step : (site chan).step state.sleep event = some sleep) (data : sleep.data = state.sleep.data)
    (pid : ∀ other, (state.phase other).holds = true →
      (sleep.table other).pid = (state.sleep.table other).pid)
    (placed : ∀ other, Placed sleep other (state.phase other)) :
    Valid chan { state with sleep := sleep } where
  safe := valid.safe.step step
  placed := placed
  locked := by
    simp only [data]
    exact valid.locked
  unique := valid.unique
  pid := by
    intro other held
    simp only [data]
    rw [pid other held]
    exact valid.pid other held

/-- Somebody is woken. -/
theorem woken {table : Ptable} {event : Sleep.Event Slot Sleeplock}
    (step : (site chan).step state.sleep event = some (state.sleep.setTable table))
    (wakes : Wakes state.sleep.table table)
    (pid : ∀ other, (table other).pid = (state.sleep.table other).pid) :
    Valid chan { state with sleep := state.sleep.setTable table } := by
  refine valid.environment step rfl (fun other _ => pid other) fun other => ?_
  exact (valid.placed other).congr rfl rfl (fun _ _ => rfl)
    fun running => wakes.keeps running (by decide)

theorem dispatch {sleep : Sleep.State Slot Sleeplock}
    (step : (site chan).step state.sleep (.dispatch slot) = some sleep) :
    Valid chan { state with sleep := sleep } := by
  obtain ⟨⟨-, asleep, -⟩, target_eq⟩ := ite_none_right_eq_some.mp step
  cases target_eq
  refine valid.environment step rfl (fun other _ => ?_) fun other => ?_
  · by_cases eq : other = slot
    · simp [moveSleeper, setLock, setTable, setState, eq]
    · simp [moveSleeper, setLock, setTable, setState, eq]
  · by_cases eq : other = slot
    · subst eq
      have placed := valid.placed other
      have rising : ((((state.sleep.setTable (state.sleep.table.setState other .running)).setLock
          .ptable (some (.sleeper other))).moveSleeper other .rising).sleeper other) = .rising :=
        update_self ..
      refine ⟨?_, placed.waker, fun _ leaving => ?_, fun _ _ => ?_⟩
      · have before := placed.sleeper
        cases phase_eq : state.phase other <;> rw [phase_eq] at before
        all_goals simp_all [Phase.Sleeping]
      · rw [rising] at leaving
        contradiction
      · exact congrArg Proc.state (modify_self ..)
    · refine (valid.placed other).congr (update_of_ne eq ..) rfl (fun _ _ => rfl) ?_
      intro running
      exact (congrArg Proc.state (modify_of_ne _ _ eq)).trans running

theorem other {sleep : Sleep.State Slot Sleeplock} {proc : Proc}
    (keeps : state.phase slot = .outside ∨ proc.pid = (state.sleep.table slot).pid)
    (step : (site chan).step state.sleep (.other slot proc) = some sleep) :
    Valid chan { state with sleep := sleep } := by
  obtain ⟨⟨-, idle⟩, target_eq⟩ := ite_none_right_eq_some.mp step
  cases target_eq
  have apart : state.phase slot ≠ .acquiring := by
    intro acquiring
    have placed := (valid.placed slot).sleeper
    rw [acquiring] at placed
    exact placed idle
  refine valid.environment step rfl (fun other held => ?_) fun other => ?_
  · by_cases eq : other = slot
    · subst eq
      refine (congrArg Proc.pid (modify_self ..)).trans (keeps.resolve_left ?_)
      intro outside
      simp [outside, Phase.holds] at held
    · simp [setTable, eq]
  · by_cases eq : other = slot
    · subst eq
      have placed := valid.placed other
      exact ⟨placed.sleeper, placed.waker, fun acquiring => absurd acquiring apart,
        fun acquiring => absurd acquiring apart⟩
    · refine (valid.placed other).congr rfl rfl (fun _ _ => rfl) fun running => ?_
      exact (congrArg Proc.state (modify_of_ne _ _ eq)).trans running

theorem step {target : State} {event : Event} (step : step chan state event = some target) :
    Valid chan target := by
  cases event with
  | acquiresleep slot => exact valid.acquiresleep step
  | releasesleep slot => exact valid.releasesleep step
  | dispatch slot =>
    obtain ⟨sleep, moved, rfl⟩ := map_eq_some_iff.mp step
    exact valid.dispatch moved
  | schedRelease =>
    obtain ⟨sleep, moved, rfl⟩ := map_eq_some_iff.mp step
    obtain ⟨-, target_eq⟩ := ite_none_right_eq_some.mp moved
    cases target_eq
    refine valid.environment moved rfl (fun _ _ => rfl) fun other => ?_
    exact (valid.placed other).congr rfl rfl (fun _ _ => rfl) id
  | kill pid =>
    obtain ⟨sleep, moved, rfl⟩ := map_eq_some_iff.mp step
    obtain ⟨-, target_eq⟩ := ite_none_right_eq_some.mp moved
    cases target_eq
    refine valid.woken moved (kill_wakes _ pid) fun other => ?_
    obtain ⟨_, _, record_eq⟩ := state.sleep.table.kill_fields pid other
    rw [record_eq]
  | wakeup woken =>
    obtain ⟨sleep, moved, rfl⟩ := map_eq_some_iff.mp step
    obtain ⟨-, target_eq⟩ := ite_none_right_eq_some.mp moved
    cases target_eq
    refine valid.woken moved (wakeup1_wakes _ woken) fun other => ?_
    rw [wakeup1_apply]
  | other slot proc =>
    obtain ⟨keeps, step⟩ := ite_none_right_eq_some.mp step
    obtain ⟨sleep, moved, rfl⟩ := map_eq_some_iff.mp step
    exact valid.other keeps moved

end

theorem start (chan : Chan) (table : Ptable) : Valid chan (start table) where
  safe := .start _ table init
  placed _ := ⟨rfl, rfl, nofun, nofun⟩
  locked := by simp [Sleeplock.start, Sleep.State.start, init, Phase.holds]
  unique _ _ := nofun
  pid _ := nofun

end Valid

/-! ## Every interleaving -/

/-- At most one process is between its `acquiresleep` and its `releasesleep`, the lock is taken
exactly when there is one and then stores its pid, and when the inner spinlock is free and the
lock is not taken, nobody in `acquiresleep` sleeps. -/
structure Excludes (chan : Chan) (state : State) : Prop where
  unique : ∀ first second, (state.phase first).holds = true →
    (state.phase second).holds = true → first = second
  locked : state.sleep.data.locked = true ↔ ∃ slot, (state.phase slot).holds = true
  pid : ∀ slot, (state.phase slot).holds = true →
    state.sleep.data.pid = (state.sleep.table slot).pid
  awake : state.sleep.locks .other = none → state.sleep.data.locked = false →
    ∀ slot, state.phase slot = .acquiring → ¬state.sleep.table.SleepsOn (some chan) slot

theorem Valid.excludes (valid : Valid chan state) : Excludes chan state where
  unique := valid.unique
  locked := valid.locked
  pid := valid.pid
  awake := by
    intro free unlocked slot acquiring asleep
    have met : (site chan).condition state.sleep.data = true := by simp [site, unlocked]
    rcases valid.safe.delivered met with ⟨waker, pending⟩ | none_missed
    · exact valid.safe.owned.not_claims_of_free free (.waker waker)
        (Sleep.Waker.holds_of_pending _ pending)
    · by_cases down : state.sleep.sleeper slot = .asleep
      · exact none_missed slot (.inr ⟨down, asleep⟩)
      · have running := (valid.placed slot).awake acquiring down
        rw [asleep.1] at running
        contradiction

theorem valid_of_reachable {table : Ptable} (reach : Reachable (step chan) (start table) state) :
    Valid chan state :=
  reach.invariant (Valid chan) (.start chan table) fun _ _ _ valid step => valid.step step

theorem excludes_of_reachable (chan : Chan) (table : Ptable)
    (reach : Reachable (step chan) (start table) state) : Excludes chan state :=
  (valid_of_reachable reach).excludes

/-- The process of slot 1 takes the lock, that of slot 2 goes to sleep on it, and the first
gives it up. -/
def contention : List Event :=
  List.replicate 5 (.acquiresleep 1) ++ List.replicate 6 (.acquiresleep 2) ++
    [.schedRelease] ++ List.replicate 6 (.releasesleep 1)

theorem excludes_contention :
    ∃ state, run (step (.addr 0)) (start fun _ => { Proc.zero with state := .running })
        contention = some state ∧
      (state.phase 2 = .acquiring ∧ state.sleep.locks .other = none) ∧
      Excludes (.addr 0) state := by
  obtain ⟨state, execution, values⟩ : ∃ state ∈ run (step (.addr 0))
      (start fun _ => { Proc.zero with state := .running }) contention,
      state.phase 2 = .acquiring ∧ state.sleep.locks .other = none := by
    decide +kernel
  exact ⟨state, execution, values, excludes_of_reachable _ _ (.of_run execution)⟩

/-! ## What `holdingsleep` tells its caller -/

/-- The lock with its holder: the process that took it last, while it is taken. -/
structure Free where
  lock : State
  holder : Option Slot

/-- A process in neither function is about to call the other one. -/
def State.turn (state : State) (slot : Slot) (phase next : Phase) : State :=
  if state.phase slot = phase then state.moveTo slot next state.sleep else state

/-- `releasesleep` does not test who calls it: every process may call either function. -/
def Free.ready (free : Free) : Event → State
  | .acquiresleep slot | .other slot _ => free.lock.turn slot .holding .outside
  | .releasesleep slot => free.lock.turn slot .outside .holding
  | _ => free.lock

/-- The holder after a step: the process that has stored `lk->locked = 1`, and nobody once
some process has stored `lk->locked = 0`. -/
def Free.holderAfter (free : Free) (target : State) : Event → Option Slot
  | .acquiresleep slot => if target.phase slot = .taking then some slot else free.holder
  | .releasesleep slot =>
    if free.lock.phase slot = .releasing ∧ target.phase slot = .waking then none
    else free.holder
  | _ => free.holder

/-- Any process takes its next step in either function. -/
def freeStep (chan : Chan) : Step Free Event := fun free event =>
  (step chan (free.ready event) event).map fun target => ⟨target, free.holderAfter target event⟩

/-- The lock is taken exactly while somebody holds it. -/
def Free.Tracked (free : Free) : Prop :=
  free.lock.sleep.data.locked = true ↔ free.holder.isSome = true

/-- `acquiresleep` changes the lock only by the store that takes it. -/
theorem taking_of_acquiresleep {target : State}
    (step : acquiresleep chan state slot = some target) :
    target.phase slot = .taking ∧ target.sleep.data.locked = true ∨
      target.phase slot ≠ .taking ∧ target.sleep.data = state.sleep.data := by
  unfold acquiresleep at step
  split at step
  case h_2 =>
    split at step
    · cases step
      exact .inl ⟨update_self .., rfl⟩
    · obtain ⟨sleep, moved, rfl⟩ := map_eq_some_iff.mp step
      exact .inr ⟨by simp [moveTo], (advances_of_sleeperStep moved).data⟩
  case h_1 | h_3 =>
    obtain ⟨sleep, moved, rfl⟩ := map_eq_some_iff.mp step
    exact .inr ⟨by simp [moveTo], (advances_of_sleeperStep moved).data⟩
  all_goals cases step

/-- `releasesleep` changes the lock only by the store that gives it up. -/
theorem waking_of_releasesleep {target : State}
    (step : releasesleep chan state slot = some target) :
    state.phase slot = .releasing ∧ target.phase slot = .waking ∧
        target.sleep.data.locked = false ∨
      ¬(state.phase slot = .releasing ∧ target.phase slot = .waking) ∧
        target.sleep.data = state.sleep.data := by
  unfold releasesleep at step
  split at step
  case h_1 holding =>
    obtain ⟨sleep, moved, rfl⟩ := map_eq_some_iff.mp step
    exact .inr ⟨by simp [holding], (serves_of_wakerStep moved).data⟩
  case h_2 releasing =>
    split at step
    · cases step
      exact .inl ⟨releasing, update_self .., rfl⟩
    · obtain ⟨sleep, moved, rfl⟩ := map_eq_some_iff.mp step
      exact .inr ⟨by simp [moveTo], (serves_of_wakerStep moved).data⟩
  case h_3 waking =>
    split at step
    all_goals
      obtain ⟨sleep, moved, rfl⟩ := map_eq_some_iff.mp step
      exact .inr ⟨by simp [waking], (serves_of_wakerStep moved).data⟩
  all_goals cases step

theorem turn_data (state : State) (slot : Slot) (phase next : Phase) :
    (state.turn slot phase next).sleep.data = state.sleep.data := by
  unfold turn
  split <;> rfl

theorem Free.Tracked.step {free target : Free} {event : Event} (tracked : free.Tracked)
    (step : freeStep chan free event = some target) : target.Tracked := by
  obtain ⟨lock, moved, rfl⟩ := map_eq_some_iff.mp step
  cases event with
  | acquiresleep slot =>
    rcases taking_of_acquiresleep moved with ⟨taking, locked⟩ | ⟨notTaking, same⟩
    · simp [Tracked, holderAfter, taking, locked]
    · simpa [Tracked, holderAfter, notTaking, same, ready, turn_data] using tracked
  | releasesleep slot =>
    have releasing_iff : (free.ready (.releasesleep slot)).phase slot = .releasing ↔
        free.lock.phase slot = .releasing := by
      simp only [ready, turn]
      split <;> simp [moveTo, *]
    rcases waking_of_releasesleep moved with ⟨releasing, waking, unlocked⟩ | ⟨other, same⟩
    · simp [Tracked, holderAfter, releasing_iff.mp releasing, waking, unlocked]
    · rw [releasing_iff] at other
      simpa [Tracked, holderAfter, other, same, ready, turn_data] using tracked
  | dispatch slot | schedRelease | kill pid | wakeup woken =>
    obtain ⟨sleep, changed, rfl⟩ := map_eq_some_iff.mp moved
    obtain ⟨-, target_eq⟩ := ite_none_right_eq_some.mp changed
    cases target_eq
    exact tracked
  | other slot proc =>
    obtain ⟨-, allowed⟩ := ite_none_right_eq_some.mp moved
    obtain ⟨sleep, changed, rfl⟩ := map_eq_some_iff.mp allowed
    obtain ⟨-, target_eq⟩ := ite_none_right_eq_some.mp changed
    cases target_eq
    simpa [Tracked, holderAfter, ready, setTable, turn_data] using tracked

/-- `holdingsleep` tells the caller whether it holds the lock itself, and the functions that
test it stop a caller that does not. -/
structure Detects (free : Free) (slot : Slot) : Prop where
  holding : holdingsleep free.lock.sleep.data = true ↔ free.holder = some slot
  guards : free.holder ≠ some slot → ∀ guard : Guard, guard.panic free.lock.sleep.data ≠ none

/-- `holdingsleep` does not look at `lk->pid`, so it is wrong exactly when another process
holds the lock. -/
theorem detects_iff_of_reachable {table : Ptable} {free : Free}
    (reach : Reachable (freeStep chan) ⟨start table, none⟩ free) (slot : Slot) :
    Detects free slot ↔ ∀ other, free.holder = some other → other = slot := by
  have tracked : free.Tracked :=
    reach.invariant Free.Tracked (by simp [Free.Tracked, start, Sleep.State.start, init])
      fun _ _ _ tracked step => tracked.step step
  constructor
  · intro detects other held
    have holds := detects.holding.mp (tracked.mpr (by rw [held]; rfl))
    exact Option.some.inj (held.symm.trans holds)
  · intro only
    have holding : holdingsleep free.lock.sleep.data = true ↔ free.holder = some slot := by
      refine tracked.trans ⟨fun isHeld => ?_, fun held => by rw [held]; rfl⟩
      obtain ⟨other, held⟩ := Option.isSome_iff_exists.mp isHeld
      rwa [only other held] at held
    refine ⟨holding, fun notHeld guard => ?_⟩
    rw [ne_eq, ← holding, Bool.not_eq_true] at notHeld
    cases guard <;> simp [Guard.panic, notHeld]

/-- Every process runs, and nobody uses the lock. -/
def unused : Free := ⟨start fun _ => { Proc.zero with state := .running }, none⟩

/-- The process of slot 1 takes the lock. -/
def takeLock : List Event := List.replicate 5 (.acquiresleep 1)

/-- The process of slot 2 releases the lock that slot 1 took, and slot 1 is told so. -/
theorem detects_released :
    ∃ free ∈ run (freeStep (.addr 0)) unused (takeLock ++ List.replicate 6 (.releasesleep 2)),
      free.lock.phase 1 = .holding ∧ Detects free 1 := by
  obtain ⟨free, execution, holding, only⟩ : ∃ free ∈ run (freeStep (.addr 0)) unused
      (takeLock ++ List.replicate 6 (.releasesleep 2)),
      free.lock.phase 1 = .holding ∧ ∀ other, free.holder = some other → other = 1 := by
    decide +kernel
  exact ⟨free, execution, holding, (detects_iff_of_reachable (.of_run execution) 1).mpr only⟩

/-- While slot 1 holds the lock, `holdingsleep` returns true to slot 2 as well, and `brelse`
lets it pass. -/
theorem not_detected_other :
    ∃ free ∈ run (freeStep (.addr 0)) unused takeLock,
      free.holder = some 1 ∧ free.lock.phase 2 = .outside ∧
      free.lock.sleep.locks .other = none ∧ holdingsleep free.lock.sleep.data = true ∧
      Guard.brelse.panic free.lock.sleep.data = none := by
  decide +kernel

end Xv6.Process.Sleeplock
