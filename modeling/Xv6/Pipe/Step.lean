import Xv6.Locks.Ownership
import Xv6.Pipe.Core

/-!
# Steps of the pipe

`Taken` lists what a step can do, `Went` what a process in its call can do, each
with the condition under which it happens.  The locks follow from the places of
the processes: `LocksOwned`.
-/

namespace Xv6.Pipes

open Function Xv6.Process Xv6.Transition Xv6.Locks Ptable Option

namespace State

variable {next : State → State}

theorem map_acquire_eq_some_iff {state target : State} {lock : Lock} {slot : Slot} :
    (state.acquire lock slot).map next = some target ↔
      state.locks lock = none ∧ next (state.setLock lock (some (.process slot))) = target := by
  unfold acquire
  split <;> simp_all

theorem map_wakeup_eq_some_iff {state target : State} {chan : Option Chan} :
    (state.wakeup chan).map next = some target ↔
      state.locks .ptable = none ∧ next (state.setTable (state.table.wakeup1 chan)) = target := by
  unfold wakeup
  split <;> simp_all

/-- The places from which a process sleeps: its stages, the channel, and where it
goes on. -/
inductive Napper (p : Nat) : (Nap → Pc) → Chan → Pc → Prop
  | write (call : Nat) :
      Napper p (fun nap => .write call (.nap nap)) (nwriteChan p) (.write call .entering)
  | read (n : Int) : Napper p (fun nap => .read n (.nap nap)) (nreadChan p) (.read n .entering)

/-- The outcomes of a step of a process in its call. -/
inductive Went (p : Nat) (state : State) (slot : Slot) : State → Prop
  | writeEnter {call : Nat} (at_ : state.pc slot = .write call .entering)
      (free : state.locks .pipe = none) :
      Went p state slot (((state.setLock .pipe (some (.process slot))).setFrame call
        { state.frames call with since := (state.frames call).i }).move slot (.write call .loop))
  | writeFail {call : Nat} (at_ : state.pc slot = .write call .loop)
      (more : ((state.frames call).i : Int) < (state.frames call).n)
      (full : state.pipe.ring.Full)
      (fails : state.pipe.readopen = false ∨ (state.table slot).killed = true) :
      Went p state slot (state.move slot (.write call (.leave (-1))))
  | writeFull {call : Nat} (at_ : state.pc slot = .write call .loop)
      (full : state.pipe.ring.Full) (readopen : state.pipe.readopen = true) :
      Went p state slot (state.move slot (.write call .signal))
  | store {call : Nat} (at_ : state.pc slot = .write call .loop)
      (more : ((state.frames call).i : Int) < (state.frames call).n)
      (notFull : ¬state.pipe.ring.Full) : Went p state slot (state.store call)
  | writeEnd {call : Nat} (at_ : state.pc slot = .write call .loop)
      (finished : (state.frames call).n ≤ (state.frames call).i) :
      Went p state slot (state.move slot (.write call .done))
  | writeSignal {call : Nat} (at_ : state.pc slot = .write call .signal)
      (free : state.locks .ptable = none) :
      Went p state slot ((state.setTable (state.table.wakeup1 (some (nreadChan p)))).move slot
        (.write call (.nap .calling)))
  | writeDone {call : Nat} (at_ : state.pc slot = .write call .done)
      (free : state.locks .ptable = none) :
      Went p state slot ((state.setTable (state.table.wakeup1 (some (nreadChan p)))).move slot
        (.write call (.leave (state.frames call).n)))
  | writeLeave {call : Nat} {ret : Int} (at_ : state.pc slot = .write call (.leave ret)) :
      Went p state slot (((state.setFrame call
        { state.frames call with ret := some ret }).release .pipe).move slot .idle)
  | readEnter {n : Int} (at_ : state.pc slot = .read n .entering)
      (free : state.locks .pipe = none) :
      Went p state slot
        ((state.setLock .pipe (some (.process slot))).move slot (.read n .test))
  | readKilled {n : Int} (at_ : state.pc slot = .read n .test) :
      Went p state slot (state.move slot (.read n (.leave [] (-1))))
  | readNap {n : Int} (at_ : state.pc slot = .read n .test)
      (empty : state.pipe.ring.Empty) (writeopen : state.pipe.writeopen = true) :
      Went p state slot (state.move slot (.read n (.nap .calling)))
  | readStart {n : Int} (at_ : state.pc slot = .read n .test) :
      Went p state slot (state.move slot (.read n (.copy [])))
  | copy {n : Int} {got : List Byte} (at_ : state.pc slot = .read n (.copy got))
      (notEmpty : ¬state.pipe.ring.Empty) :
      Went p state slot ((state.setPipe { state.pipe with ring := state.pipe.ring.pop }).move slot
        (.read n (.copy (got ++ [state.pipe.ring.front]))))
  | readEnd {n : Int} {got : List Byte} (at_ : state.pc slot = .read n (.copy got)) :
      Went p state slot (state.move slot (.read n (.signal got)))
  | readSignal {n : Int} {got : List Byte} (at_ : state.pc slot = .read n (.signal got))
      (free : state.locks .ptable = none) :
      Went p state slot ((state.setTable (state.table.wakeup1 (some (nwriteChan p)))).move slot
        (.read n (.leave got got.length)))
  | readLeave {n : Int} {got : List Byte} {ret : Int}
      (at_ : state.pc slot = .read n (.leave got ret)) :
      Went p state slot
        (({ state with returned := state.returned ++ got }.release .pipe).move slot .idle)
  | closeEnter {writable : Bool} (at_ : state.pc slot = .close writable .entering)
      (free : state.locks .pipe = none) :
      Went p state slot
        ((state.setLock .pipe (some (.process slot))).move slot (.close writable .flag))
  | closeFlag {writable : Bool} (at_ : state.pc slot = .close writable .flag) :
      Went p state slot ((state.setPipe
        (if writable then { state.pipe with writeopen := false }
          else { state.pipe with readopen := false })).move slot (.close writable .signal))
  | closeSignal {writable : Bool} (at_ : state.pc slot = .close writable .signal)
      (free : state.locks .ptable = none) :
      Went p state slot ((state.setTable (state.table.wakeup1
        (some (if writable then nreadChan p else nwriteChan p)))).move slot
          (.close writable .leave))
  | closeLeave {writable : Bool} (at_ : state.pc slot = .close writable .leave) (freed : Bool) :
      Went p state slot (({ state with freed := freed }.release .pipe).move slot .idle)
  | napCalling {stage : Nap → Pc} {chan : Chan} {again : Pc} (napper : Napper p stage chan again)
      (at_ : state.pc slot = stage .calling) (free : state.locks .ptable = none) :
      Went p state slot
        ((state.setLock .ptable (some (.process slot))).move slot (stage .handover))
  | napHandover {stage : Nap → Pc} {chan : Chan} {again : Pc}
      (napper : Napper p stage chan again) (at_ : state.pc slot = stage .handover) :
      Went p state slot ((state.release .pipe).move slot (stage .drowsy))
  | napDrowsy {stage : Nap → Pc} {chan : Chan} {again : Pc} (napper : Napper p stage chan again)
      (at_ : state.pc slot = stage .drowsy) :
      Went p state slot (((state.setTable (state.table.goToSleep slot chan)).setLock .ptable
        (some .scheduler)).move slot (stage .asleep))
  | napRising {stage : Nap → Pc} {chan : Chan} {again : Pc} (napper : Napper p stage chan again)
      (at_ : state.pc slot = stage .rising) :
      Went p state slot
        (((state.setTable (state.table.clearChan slot)).release .ptable).move slot again)

variable {stage : Nap → Pc}

theorem went_of_napStep {p : Nat} {state target : State} {slot : Slot} {chan : Chan} {again : Pc}
    {nap : Nap} (napper : Napper p stage chan again) (at_ : state.pc slot = stage nap)
    (step : state.napStep slot chan stage again nap = some target) : Went p state slot target := by
  cases nap with
  | calling =>
    obtain ⟨free, rfl⟩ := map_acquire_eq_some_iff.mp step
    exact .napCalling napper at_ free
  | handover =>
    cases step
    exact .napHandover napper at_
  | drowsy =>
    cases step
    exact .napDrowsy napper at_
  | asleep => cases step
  | rising =>
    cases step
    exact .napRising napper at_

theorem went_of_goStep {p : Nat} {state target : State} {slot : Slot}
    (step : state.goStep p slot = some target) : Went p state slot target := by
  unfold goStep at step
  split at step
  · contradiction
  · rename_i call place at_
    cases place with
    | entering =>
      obtain ⟨free, rfl⟩ := map_acquire_eq_some_iff.mp step
      exact .writeEnter at_ free
    | loop =>
      simp only [writeStep] at step
      split at step
      · rename_i more
        split at step
        · rename_i full
          split at step
          · rename_i fails
            cases step
            exact .writeFail at_ more full fails
          · cases step
            exact .writeFull at_ full (by simp_all)
        · rename_i notFull
          cases step
          exact .store at_ more notFull
      · rename_i finished
        cases step
        exact .writeEnd at_ (not_lt.mp finished)
    | signal =>
      obtain ⟨free, rfl⟩ := map_wakeup_eq_some_iff.mp step
      exact .writeSignal at_ free
    | nap nap => exact went_of_napStep (.write call) at_ step
    | done =>
      obtain ⟨free, rfl⟩ := map_wakeup_eq_some_iff.mp step
      exact .writeDone at_ free
    | leave ret =>
      cases step
      exact .writeLeave at_
  · rename_i n place at_
    cases place with
    | entering =>
      obtain ⟨free, rfl⟩ := map_acquire_eq_some_iff.mp step
      exact .readEnter at_ free
    | test =>
      simp only [readStep] at step
      split at step
      · rename_i waits
        split at step
        · cases step
          exact .readKilled at_
        · cases step
          exact .readNap at_ waits.1 waits.2
      · cases step
        exact .readStart at_
    | nap nap => exact went_of_napStep (.read n) at_ step
    | copy got =>
      simp only [readStep] at step
      split at step
      · rename_i more
        cases step
        exact .copy at_ more.2
      · cases step
        exact .readEnd at_
    | signal got =>
      obtain ⟨free, rfl⟩ := map_wakeup_eq_some_iff.mp step
      exact .readSignal at_ free
    | leave got ret =>
      cases step
      exact .readLeave at_
  · rename_i writable place at_
    cases place with
    | entering =>
      obtain ⟨free, rfl⟩ := map_acquire_eq_some_iff.mp step
      exact .closeEnter at_ free
    | flag =>
      cases step
      exact .closeFlag at_
    | signal =>
      obtain ⟨free, rfl⟩ := map_wakeup_eq_some_iff.mp step
      exact .closeSignal at_ free
    | leave =>
      cases step
      exact .closeLeave at_ _

/-- Nobody but the process that steps goes to sleep. -/
theorem Went.calm {p : Nat} {state target : State} {slot : Slot} (went : Went p state slot target)
    (other : Slot) (ne : other ≠ slot) (chan : Option Chan)
    (asleep : target.table.SleepsOn chan other) : state.table.SleepsOn chan other := by
  cases went with
  | writeSignal | writeDone | readSignal | closeSignal =>
    refine (wakeup1_wakes state.table _).sleepsOn ?_ asleep
    rw [wakeup1_apply]
  | napDrowsy napper at_ =>
    simpa [SleepsOn, goToSleep, move, setLock, setTable, ne] using asleep
  | napRising napper at_ =>
    simpa [SleepsOn, clearChan, move, State.release, setLock, setTable, ne] using asleep
  | _ => exact asleep

/-- The outcomes of a step.  The last one covers `kill`, wakeups by others and
changes of processes outside of the pipe: they put nobody to sleep who is in a
call. -/
inductive Taken (p : Nat) (state : State) : Event → State → Prop
  | write {slot : Slot} {n : Int} {addr : Nat → Byte} (idle : state.pc slot = .idle)
      (running : (state.table slot).state = .running) :
      Taken p state (.write slot n addr)
        (({ state with calls := state.calls + 1 }.setFrame state.calls
          ⟨n, addr, 0, 0, none⟩).move slot (.write state.calls .entering))
  | read {slot : Slot} {n : Int} (idle : state.pc slot = .idle)
      (running : (state.table slot).state = .running) :
      Taken p state (.read slot n) (state.move slot (.read n .entering))
  | close {slot : Slot} {writable : Bool} (idle : state.pc slot = .idle)
      (running : (state.table slot).state = .running) :
      Taken p state (.close slot writable) (state.move slot (.close writable .entering))
  | go {slot : Slot} {target : State} (went : Went p state slot target) :
      Taken p state (.go slot) target
  | dispatch {slot : Slot} {stage : Nap → Pc} {chan : Chan} {again : Pc}
      (napper : Napper p stage chan again) (at_ : state.pc slot = stage .asleep)
      (free : state.locks .ptable = none ∨ state.locks .ptable = some .scheduler) :
      Taken p state (.dispatch slot)
        (((state.setTable (state.table.setState slot .running)).setLock .ptable
          (some (.process slot))).move slot (stage .rising))
  | schedRelease (held : state.locks .ptable = some .scheduler) :
      Taken p state .schedRelease (state.release .ptable)
  | environment {event : Event} {table : Ptable}
      (calm : ∀ slot chan, state.pc slot ≠ .idle → table.SleepsOn chan slot →
        state.table.SleepsOn chan slot) :
      Taken p state event (state.setTable table)

theorem call_eq_some_iff {state target : State} {slot : Slot} {pc : Pc} :
    state.call slot pc = some target ↔
      (state.pc slot = .idle ∧ (state.table slot).state = .running ∧ state.freed = false) ∧
        state.move slot pc = target := by
  unfold call
  split <;> simp_all

theorem napper_of_napping {state : State} {slot : Slot} (p : Nat)
    (napping : state.napping slot = some stage) :
    ∃ chan again, Napper p stage chan again ∧ state.pc slot = stage .asleep := by
  unfold State.napping at napping
  split at napping
  · rename_i call at_
    cases napping
    exact ⟨_, _, .write call, at_⟩
  · rename_i n at_
    cases napping
    exact ⟨_, _, .read n, at_⟩
  · contradiction

theorem taken_of_step {p : Nat} {state target : State} {event : Event}
    (step_eq : step p state event = some target) : Taken p state event target := by
  cases event with
  | write slot n addr =>
    obtain ⟨⟨idle, running, -⟩, rfl⟩ := call_eq_some_iff.mp step_eq
    exact .write idle running
  | read slot n =>
    obtain ⟨⟨idle, running, -⟩, rfl⟩ := call_eq_some_iff.mp step_eq
    exact .read idle running
  | close slot writable =>
    obtain ⟨⟨idle, running, -⟩, rfl⟩ := call_eq_some_iff.mp step_eq
    exact .close idle running
  | go slot =>
    obtain ⟨-, went⟩ := ite_none_left_eq_some.mp step_eq
    exact .go (went_of_goStep went)
  | dispatch slot =>
    obtain ⟨⟨free, -⟩, mapped⟩ := ite_none_right_eq_some.mp step_eq
    obtain ⟨stage, napping, rfl⟩ := map_eq_some_iff.mp mapped
    obtain ⟨chan, again, napper, at_⟩ := napper_of_napping p napping
    exact .dispatch napper at_ free
  | schedRelease =>
    obtain ⟨held, same⟩ := ite_none_right_eq_some.mp step_eq
    cases same
    exact .schedRelease held
  | kill pid =>
    obtain ⟨-, same⟩ := ite_none_right_eq_some.mp step_eq
    cases same
    refine .environment fun slot chan _ asleep =>
      (kill_wakes state.table pid).sleepsOn ?_ asleep
    obtain ⟨_, _, record_eq⟩ := state.table.kill_fields pid slot
    rw [record_eq]
  | wakeup chan =>
    obtain ⟨-, same⟩ := ite_none_right_eq_some.mp step_eq
    cases same
    refine .environment fun slot _ _ asleep =>
      (wakeup1_wakes state.table chan).sleepsOn ?_ asleep
    rw [wakeup1_apply]
  | other slot proc =>
    obtain ⟨⟨-, idle⟩, same⟩ := ite_none_right_eq_some.mp step_eq
    cases same
    refine .environment fun other chan busy asleep => ?_
    have ne : other ≠ slot := by
      rintro rfl
      exact busy idle
    simpa [SleepsOn, ne] using asleep

end State

/-! ## The locks -/

/-- The locks a process holds in `sleep`. -/
def Nap.holds (lock : Lock) : Nap → Prop
  | .calling => lock = .pipe
  | .handover => True
  | .drowsy | .rising => lock = .ptable
  | .asleep => False

/-- The locks a process holds in its call. -/
def Pc.holds (lock : Lock) : Pc → Prop
  | .idle | .write _ .entering | .read _ .entering | .close _ .entering => False
  | .write _ (.nap nap) | .read _ (.nap nap) => nap.holds lock
  | .write _ _ | .read _ _ | .close _ _ => lock = .pipe

namespace State

/-- The locks everyone must hold. -/
def claims (state : State) : Holder → Lock → Prop
  | .process slot, lock => (state.pc slot).holds lock
  | .scheduler, _ => False

/-- Everyone holds the locks that its place in the code needs. -/
def LocksOwned (state : State) : Prop := Owned state.locks state.claims

namespace LocksOwned

variable {p : Nat} {state target : State} {slot : Slot}

variable {pc : Pc}

/-- One process moves and changes the locks accordingly. -/
theorem of_move (pc_eq : target.pc = update state.pc slot pc)
    (move : Move state.locks target.locks state.claims (.process slot)
      (fun lock => pc.holds lock)) :
    target.LocksOwned := by
  refine Owned.of_move move (fun other lock ne claimed => ?_) (fun lock claimed => ?_)
  · cases other with
    | scheduler => exact claimed
    | process other =>
      have ne' : other ≠ slot := fun same => ne (by rw [same])
      simpa [claims, pc_eq, ne'] using claimed
  · simpa [claims, pc_eq] using claimed

/-- A place that holds no other locks than the one before. -/
theorem stay (owned : state.LocksOwned) (pc_eq : target.pc = update state.pc slot pc)
    (locks_eq : target.locks = state.locks)
    (own : ∀ lock, pc.holds lock → (state.pc slot).holds lock) : target.LocksOwned := by
  apply of_move pc_eq
  rw [locks_eq]
  exact .stay owned own

variable {lock : Lock}

/-- The process acquires a lock that is free. -/
theorem acquire (owned : state.LocksOwned) (pc_eq : target.pc = update state.pc slot pc)
    (locks_eq : target.locks = update state.locks lock (some (.process slot)))
    (free : ∀ holder, ¬state.claims holder lock)
    (own : ∀ other, pc.holds other → other = lock ∨ (state.pc slot).holds other) :
    target.LocksOwned := by
  apply of_move pc_eq
  rw [locks_eq]
  exact .acquire owned free own

/-- The process gives up a lock it holds. -/
theorem giveAway (owned : state.LocksOwned) {holder : Option Holder}
    (pc_eq : target.pc = update state.pc slot pc)
    (locks_eq : target.locks = update state.locks lock holder)
    (held : (state.pc slot).holds lock)
    (own : ∀ other, pc.holds other → other ≠ lock ∧ (state.pc slot).holds other) :
    target.LocksOwned := by
  apply of_move pc_eq
  rw [locks_eq]
  exact .giveAway owned (owned (.process slot) lock held) own holder

theorem went (owned : state.LocksOwned) (went : Went p state slot target) :
    target.LocksOwned := by
  have unclaimed {lock : Lock} (free : state.locks lock = none) := owned.not_claims_of_free free
  cases went with
  | writeEnter at_ free | readEnter at_ free | closeEnter at_ free =>
    exact owned.acquire rfl rfl (unclaimed free) fun _ => .inl
  | store at_ more notFull => exact owned
  | writeFail at_ | writeFull at_ | writeEnd at_ | writeSignal at_ | writeDone at_ | readKilled at_
  | readNap at_ | readStart at_ | copy at_ | readEnd at_ | readSignal at_ | closeFlag at_
  | closeSignal at_ =>
    refine owned.stay rfl rfl fun lock holds => ?_
    rw [at_]
    exact holds
  | writeLeave at_ | readLeave at_ | closeLeave at_ =>
    refine owned.giveAway rfl rfl ?_ nofun
    rw [at_]
    rfl
  | napCalling napper at_ free =>
    refine owned.acquire rfl rfl (unclaimed free) fun lock holds => ?_
    rw [at_]
    cases lock with
    | ptable => exact .inl rfl
    | pipe => cases napper <;> exact .inr rfl
  | napHandover napper at_ =>
    refine owned.giveAway rfl rfl ?_ fun lock holds => ?_
    · rw [at_]
      cases napper <;> trivial
    · rw [at_]
      cases napper <;> cases holds <;> exact ⟨by decide, trivial⟩
  | napDrowsy napper at_ | napRising napper at_ =>
    refine owned.giveAway rfl rfl ?_ ?_
    · rw [at_]
      cases napper <;> rfl
    · cases napper <;> nofun

theorem taken {event : Event} (owned : state.LocksOwned) (taken : Taken p state event target) :
    target.LocksOwned := by
  cases taken with
  | write idle | read idle | close idle => exact owned.stay rfl rfl nofun
  | go went => exact owned.went went
  | dispatch napper at_ free =>
    have unclaimed holder : ¬state.claims holder .ptable := by
      intro claimed
      have held := owned holder .ptable claimed
      rcases free with free | scheduled
      · rw [free] at held
        contradiction
      · rw [scheduled] at held
        cases held
        exact claimed
    refine owned.acquire rfl rfl unclaimed fun lock holds => ?_
    cases napper <;> exact .inl holds
  | schedRelease held =>
    have move : Move state.locks (state.release .ptable).locks state.claims .scheduler
        fun _ => False :=
      .giveAway owned held nofun none
    exact Owned.of_move move (fun _ _ _ claimed => claimed) nofun
  | environment calm => exact owned

theorem start (table : Ptable) (data : Fin pipesize → Byte) :
    (State.start table data).LocksOwned := by
  intro holder lock claimed
  cases holder <;> exact claimed.elim

end LocksOwned

end State

end Xv6.Pipes
