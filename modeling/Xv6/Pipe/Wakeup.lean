import Xv6.Pipe.Fifo

/-!
# Nobody sleeps on a pipe in vain

A reader that has found the pipe empty keeps the lock until it holds
`ptable.lock`, and whoever stores a byte or closes the write end keeps the lock
until it has called `wakeup(&p->nread)`; likewise for writers.  There is one way
out of `pipewrite` without the wakeup: the exit for a full buffer.  A call that
has stored bytes since it acquired the lock and then takes this exit leaves the
readers asleep.
-/

namespace Xv6.Pipes

open Function Xv6.Process Xv6.Transition Xv6.Locks Ptable

/-- The two kinds of sleepers. -/
inductive Side where
  | readers
  | writers
  deriving DecidableEq, Repr

/-- The process is in `sleep` and not yet asleep. -/
def Nap.sinking : Nap → Bool
  | .calling | .handover | .drowsy => true
  | .asleep | .rising => false

/-- The process is in `piperead`. -/
def Pc.reading : Pc → Bool
  | .read _ _ => true
  | .idle | .write _ _ | .close _ _ => false

/-- The call whose loop the process is at the head of. -/
def Pc.looping : Pc → Option Nat
  | .write call .loop => some call
  | _ => none

namespace Side

/-- The channel they sleep on. -/
def chan (p : Nat) : Side → Chan
  | .readers => nreadChan p
  | .writers => nwriteChan p

/-- They have no reason to sleep. -/
def Ready (pipe : Pipe) : Side → Prop
  | .readers => ¬pipe.ring.Empty ∨ pipe.writeopen = false
  | .writers => ¬pipe.ring.Full ∨ pipe.readopen = false

/-- The process has decided to sleep.  A writer calls `wakeup` before. -/
def sinking : Side → Pc → Bool
  | .readers, .read _ (.nap nap) => nap.sinking
  | .writers, .write _ (.nap nap) => nap.sinking
  | .writers, .write _ .signal => true
  | _, _ => false

/-- The process has gone to sleep and not been switched to again. -/
def asleep : Side → Pc → Bool
  | .readers, .read _ (.nap .asleep) => true
  | .writers, .write _ (.nap .asleep) => true
  | _, _ => false

/-- The process will call `wakeup` before it releases the lock. -/
def Owes (frames : Nat → Frame) : Side → Pc → Prop
  | .readers, .write call .loop => (frames call).since < (frames call).i
  | .readers, .write _ .signal | .readers, .write _ .done => True
  | .readers, .close true .signal => True
  | .writers, .read _ (.copy _) | .writers, .read _ (.signal _) => True
  | .writers, .close false .signal => True
  | _, _ => False

/-- Only the debt of a writer in its loop depends on its activation record. -/
theorem Owes.congr {frames frames' : Nat → Frame} {side : Side} {pc : Pc}
    (owes : side.Owes frames pc)
    (same : side = .readers → ∀ call, pc = .write call .loop →
      (frames' call).since = (frames call).since ∧ (frames' call).i = (frames call).i) :
    side.Owes frames' pc := by
  cases side with
  | readers =>
    cases pc with
    | write call place =>
      cases place with
      | loop =>
        obtain ⟨since_eq, i_eq⟩ := same rfl call rfl
        simpa [Owes, since_eq, i_eq] using owes
      | entering | signal | nap nap | done | leave ret => exact owes
    | close writable place => cases writable <;> cases place <;> exact owes
    | idle | read n place => exact owes
  | writers =>
    cases pc with
    | read n place => cases place <;> exact owes
    | close writable place => cases writable <;> cases place <;> exact owes
    | idle | write call place => exact owes

theorem holds_of_owes {frames : Nat → Frame} {side : Side} {pc : Pc} (owes : side.Owes frames pc) :
    pc.holds .pipe := by
  unfold Owes at owes
  split at owes <;> first | rfl | contradiction

theorem holds_of_sinking {side : Side} {pc : Pc} (sinking : side.sinking pc = true) :
    pc.holds .pipe ∨ pc.holds .ptable := by
  unfold Side.sinking at sinking
  split at sinking
  · rename_i nap
    cases nap <;> simp_all [Nap.sinking, Pc.holds, Nap.holds]
  · rename_i nap
    cases nap <;> simp_all [Nap.sinking, Pc.holds, Nap.holds]
  · exact .inl rfl
  · contradiction

/-- The process sleeps on the channel, or is on its way there. -/
def Missed (p : Nat) (state : State) (side : Side) (slot : Slot) : Prop :=
  side.sinking (state.pc slot) = true ∨
    side.asleep (state.pc slot) = true ∧ state.table.SleepsOn (some (side.chan p)) slot

theorem reading_of_missed {p : Nat} {state : State} {slot : Slot}
    (missed : Side.readers.Missed p state slot) : (state.pc slot).reading = true := by
  cases pc_eq : state.pc slot with
  | read n place => rfl
  | idle | write call place | close writable place =>
    simp [Missed, pc_eq, sinking, asleep] at missed

/-- If they have no reason to sleep, someone is about to wake them or nobody
needs it. -/
def Delivered (p : Nat) (state : State) (side : Side) : Prop :=
  side.Ready state.pipe →
    (∃ slot, side.Owes state.frames (state.pc slot)) ∨ ∀ slot, ¬side.Missed p state slot

namespace Delivered

variable {p : Nat} {state target : State} {side : Side} {slot : Slot} {pc : Pc}

/-- A process that moves to a place where it owes a wakeup. -/
theorem of_owes (pc_eq : target.pc = update state.pc slot pc)
    (owes : side.Owes target.frames pc) : side.Delivered p target :=
  fun _ => .inl ⟨slot, by simpa [pc_eq] using owes⟩

/-- With both locks in hand, `wakeup` finds everyone who needs it. -/
theorem woken (owned : state.LocksOwned) (holds : (state.pc slot).holds .pipe)
    (free : state.locks .ptable = none)
    (pc_eq : target.pc = update state.pc slot pc)
    (table_eq : target.table = state.table.wakeup1 (some (side.chan p)))
    (awake : side.sinking pc = false) : side.Delivered p target := by
  refine fun _ => .inr fun other missing => ?_
  rcases missing with sinking | ⟨-, asleep⟩
  · by_cases same : other = slot
    · rw [same, pc_eq, update_self, awake] at sinking
      contradiction
    · rw [pc_eq, update_of_ne same] at sinking
      have ne : Holder.process other ≠ Holder.process slot := by simpa using same
      rcases holds_of_sinking sinking with claims | claims
      · exact owned.not_claims_of_ne (owned (.process slot) .pipe holds) ne claims
      · exact owned.not_claims_of_free free (.process other) claims
  · rw [table_eq] at asleep
    exact not_sleepsOn_wakeup1 _ _ _ asleep

variable (delivered : side.Delivered p state) (pc_eq : target.pc = update state.pc slot pc)
  (ready : side.Ready target.pipe → side.Ready state.pipe)
  (calm : ∀ other ≠ slot, ∀ chan, target.table.SleepsOn chan other →
    state.table.SleepsOn chan other)
include delivered pc_eq ready calm

/-- A process that owes nothing moves, and does not miss anything that it has not
missed before. -/
theorem keep (owes : ∀ other, side.Owes state.frames (state.pc other) →
      other ≠ slot ∧ side.Owes target.frames (state.pc other))
    (missed : side.Ready target.pipe → side.sinking pc = true ∨ side.asleep pc = true →
      side.sinking (state.pc slot) = true) : side.Delivered p target := by
  intro now
  rcases delivered (ready now) with ⟨other, owing⟩ | none_missed
  · obtain ⟨ne, still⟩ := owes other owing
    exact .inl ⟨other, by simpa [pc_eq, ne] using still⟩
  · refine .inr fun other missing => ?_
    by_cases same : other = slot
    · subst same
      refine none_missed other (.inl (missed now ?_))
      rw [Missed, pc_eq, update_self] at missing
      exact missing.imp_right And.left
    · apply none_missed other
      rw [Missed, pc_eq, update_of_ne same] at missing
      exact missing.imp_right fun ⟨asleep, sleeps⟩ => ⟨asleep, calm other same _ sleeps⟩

/-- A process that owes nothing moves without touching an activation record. -/
theorem stay (frames_eq : target.frames = state.frames)
    (owes : ¬side.Owes state.frames (state.pc slot))
    (missed : side.Ready target.pipe → side.sinking pc = true ∨ side.asleep pc = true →
      side.sinking (state.pc slot) = true) : side.Delivered p target := by
  refine delivered.keep pc_eq ready calm (fun other owing => ⟨?_, ?_⟩) missed
  · rintro rfl
    exact owes owing
  · rw [frames_eq]
    exact owing

/-- A process that owes nothing moves to a place where it does not sleep. -/
theorem pass (frames_eq : target.frames = state.frames)
    (owes : ¬side.Owes state.frames (state.pc slot))
    (up : side.sinking pc = false ∧ side.asleep pc = false) : side.Delivered p target :=
  delivered.stay pc_eq ready calm frames_eq owes (by simp [up])

end Delivered

end Side

namespace State

/-- No call has gone back behind the byte it had reached when it acquired the lock. -/
def Marked (state : State) : Prop := ∀ call, (state.frames call).since ≤ (state.frames call).i

theorem Marked.update {state target : State} (marked : state.Marked) {call : Nat} {frame : Frame}
    (frames_eq : target.frames = update state.frames call frame)
    (le : frame.since ≤ frame.i) : target.Marked := by
  intro other
  by_cases same : other = call
  · rw [frames_eq, same, update_self]
    exact le
  · rw [frames_eq, update_of_ne same]
    exact marked other

theorem Marked.taken {p : Nat} {state target : State} {event : Event} (marked : state.Marked)
    (taken : Taken p state event target) : target.Marked := by
  cases taken with
  | write idle running => exact marked.update rfl (Nat.zero_le _)
  | go went =>
    cases went with
    | writeEnter at_ free => exact marked.update rfl (le_refl _)
    | @store call at_ more notFull => exact marked.update rfl (Nat.le_succ_of_le (marked call))
    | @writeLeave call ret at_ => exact marked.update rfl (marked call)
    | _ => exact marked
  | _ => exact marked

/-- A call that stops at a full buffer has stored nothing since it acquired the
lock, or nobody is reading. -/
def Loud (state : State) : Event → Prop
  | .go slot =>
    ∀ call ∈ (state.pc slot).looping, state.pipe.ring.Full →
      state.pipe.readopen = false ∨ (state.table slot).killed = true →
      (state.frames call).since < (state.frames call).i →
      ∀ other, (state.pc other).reading = false
  | _ => True

instance Loud.decidable (state : State) : (event : Event) → Decidable (state.Loud event)
  | .go slot =>
    inferInstanceAs (Decidable (∀ call ∈ (state.pc slot).looping, state.pipe.ring.Full →
      state.pipe.readopen = false ∨ (state.table slot).killed = true →
      (state.frames call).since < (state.frames call).i →
      ∀ other, (state.pc other).reading = false))
  | .write _ _ _ | .read _ _ | .close _ _ | .dispatch _ | .schedRelease | .kill _ | .wakeup _
  | .other _ _ => .isTrue trivial

end State

open State

namespace Side.Delivered

variable {p : Nat} {state target : State} {side : Side} {slot : Slot}

theorem went (delivered : side.Delivered p state) (owned : state.LocksOwned)
    (marked : state.Marked) (loud : state.Loud (.go slot)) (went : Went p state slot target) :
    side.Delivered p target := by
  have calm := went.calm
  cases went with
  | @writeEnter call at_ free =>
    -- While the lock is free nobody owes anything.
    refine delivered.keep rfl id calm (fun other owes => ?_) ?_
    · exact absurd (holds_of_owes owes) (owned.not_claims_of_free free (.process other))
    · cases side <;> simp [sinking, asleep]
  | @writeFail call at_ more full fails =>
    cases side with
    | writers => exact delivered.pass rfl id calm rfl (by simp [at_, Owes]) ⟨rfl, rfl⟩
    | readers =>
      by_cases stored : (state.frames call).since < (state.frames call).i
      · -- Nobody is reading, so nobody sleeps.
        have nobody := loud call (by simp [at_, Pc.looping]) full fails stored
        refine fun _ => .inr fun other missing => ?_
        have reading := reading_of_missed missing
        by_cases same : other = slot
        · simp [move, same, Pc.reading] at reading
        · simp [move, same, nobody other] at reading
      · exact delivered.pass rfl id calm rfl (by simpa [at_, Owes] using stored) ⟨rfl, rfl⟩
  | writeFull at_ full readopen =>
    cases side with
    | readers => exact .of_owes rfl trivial
    | writers =>
      refine delivered.stay rfl id calm rfl (by simp [at_, Owes]) fun ready => ?_
      simp [Ready, move, full, readopen] at ready
  | @store call at_ more notFull =>
    cases side with
    | readers =>
      refine fun _ => .inl ⟨slot, ?_⟩
      simpa [State.store, setFrame, at_, Owes] using Nat.lt_succ_of_le (marked call)
    | writers =>
      refine fun _ => (delivered (.inl notFull)).imp ?_ id
      rintro ⟨other, owes⟩
      exact ⟨other, owes.congr (by simp)⟩
  | writeEnd at_ finished =>
    cases side with
    | readers => exact .of_owes rfl trivial
    | writers => exact delivered.pass rfl id calm rfl (by simp [at_, Owes]) ⟨rfl, rfl⟩
  | writeSignal at_ free =>
    cases side with
    | readers => exact .woken owned (by rw [at_]; rfl) free rfl rfl rfl
    | writers => exact delivered.stay rfl id calm rfl (by simp [at_, Owes]) (by simp [at_, sinking])
  | writeDone at_ free =>
    cases side with
    | readers => exact .woken owned (by rw [at_]; rfl) free rfl rfl rfl
    | writers => exact delivered.pass rfl id calm rfl (by simp [at_, Owes]) ⟨rfl, rfl⟩
  | @writeLeave call ret at_ =>
    refine delivered.keep rfl id calm (fun other owes => ⟨?_, ?_⟩) ?_
    · rintro rfl
      rw [at_] at owes
      cases side <;> exact owes
    · refine owes.congr fun _ other _ => ?_
      by_cases same : other = call <;> simp [move, State.release, setLock, setFrame, same]
    · cases side <;> simp [sinking, asleep]
  | readEnter at_ free | closeEnter at_ free | readLeave at_ | closeLeave at_ | readKilled at_ =>
    cases side <;> exact delivered.pass rfl id calm rfl (by simp [at_, Owes]) ⟨rfl, rfl⟩
  | readNap at_ empty writeopen =>
    cases side with
    | readers =>
      refine delivered.stay rfl id calm rfl (by simp [at_, Owes]) fun ready => ?_
      simp [Ready, move, empty, writeopen] at ready
    | writers => exact delivered.pass rfl id calm rfl (by simp [at_, Owes]) ⟨rfl, rfl⟩
  | readStart at_ | readEnd at_ =>
    cases side with
    | readers => exact delivered.pass rfl id calm rfl (by simp [at_, Owes]) ⟨rfl, rfl⟩
    | writers => exact .of_owes rfl trivial
  | copy at_ notEmpty =>
    cases side with
    | readers =>
      exact delivered.pass rfl (fun _ => .inl notEmpty) calm rfl (by simp [at_, Owes]) ⟨rfl, rfl⟩
    | writers => exact .of_owes rfl trivial
  | readSignal at_ free =>
    cases side with
    | readers => exact delivered.pass rfl id calm rfl (by simp [at_, Owes]) ⟨rfl, rfl⟩
    | writers => exact .woken owned (by rw [at_]; rfl) free rfl rfl rfl
  | @closeFlag writable at_ =>
    -- The end that is closed decides who is woken next.
    cases writable <;> cases side
    · exact delivered.pass rfl id calm rfl (by simp [at_, Owes]) ⟨rfl, rfl⟩
    · exact .of_owes rfl trivial
    · exact .of_owes rfl trivial
    · exact delivered.pass rfl id calm rfl (by simp [at_, Owes]) ⟨rfl, rfl⟩
  | @closeSignal writable at_ free =>
    have held : (state.pc slot).holds .pipe := by rw [at_]; rfl
    cases writable <;> cases side
    · exact delivered.pass rfl id calm rfl (by simp [at_, Owes]) ⟨rfl, rfl⟩
    · exact .woken owned held free rfl rfl rfl
    · exact .woken owned held free rfl rfl rfl
    · exact delivered.pass rfl id calm rfl (by simp [at_, Owes]) ⟨rfl, rfl⟩
  | napCalling napper at_ | napHandover napper at_ | napDrowsy napper at_ | napRising napper at_ =>
    refine delivered.stay rfl id calm rfl ?_ ?_
    · cases napper <;> cases side <;> simp [at_, Owes]
    · cases napper <;> cases side <;> simp [at_, sinking, asleep, Nap.sinking]

theorem taken {event : Event} (delivered : side.Delivered p state) (owned : state.LocksOwned)
    (orderly : state.Orderly) (marked : state.Marked) (loud : state.Loud event)
    (taken : Taken p state event target) : side.Delivered p target := by
  cases taken with
  | @write slot n addr idle running =>
    refine delivered.keep rfl id (fun _ _ _ => id) (fun other owes => ⟨?_, ?_⟩) ?_
    · rintro rfl
      rw [idle] at owes
      cases side <;> exact owes
    · -- The record of the new call belongs to nobody else.
      refine owes.congr fun _ call at_ => ?_
      have fits := orderly.fits other
      rw [at_] at fits
      simp [move, setFrame, fits.call_lt.ne]
    · cases side <;> simp [sinking, asleep]
  | read idle running | close idle running =>
    cases side <;>
      exact delivered.pass rfl id (fun _ _ _ => id) rfl (by simp [idle, Owes]) ⟨rfl, rfl⟩
  | go went => exact delivered.went owned marked loud went
  | dispatch napper at_ free =>
    refine delivered.pass rfl id (fun other ne chan => ?_) rfl ?_ ?_
    · simp [SleepsOn, setState, move, setLock, setTable, ne]
    · cases napper <;> cases side <;> simp [at_, Owes]
    · cases napper <;> cases side <;> exact ⟨rfl, rfl⟩
  | schedRelease held => exact delivered
  | environment calm =>
    refine fun ready => (delivered ready).imp_right fun none_missed slot missing => ?_
    apply none_missed slot
    rcases missing with sinking | ⟨asleep, sleeps⟩
    · exact .inl sinking
    · refine .inr ⟨asleep, calm slot _ (fun idle => ?_) sleeps⟩
      have asleepBefore : side.asleep (state.pc slot) = true := asleep
      rw [idle] at asleepBefore
      cases side <;> simp [Side.asleep] at asleepBefore

theorem start (table : Ptable) (data : Fin pipesize → Byte) (side : Side) :
    side.Delivered p (State.start table data) := by
  refine fun _ => .inr fun slot missing => ?_
  cases side <;> simp [Missed, State.start, sinking, asleep] at missing

end Side.Delivered

namespace State

/-- A process in a call sleeps only in `sched`. -/
def Awake (state : State) : Prop :=
  ∀ slot, (state.table slot).state = .sleeping → state.pc slot ≠ .idle →
    ∃ side : Side, side.asleep (state.pc slot) = true

theorem Awake.update {state target : State} (awake : state.Awake) {slot : Slot} {pc : Pc}
    (pc_eq : target.pc = update state.pc slot pc)
    (own : (target.table slot).state = .sleeping → pc ≠ .idle →
      ∃ side : Side, side.asleep pc = true)
    (others : ∀ other ≠ slot, (target.table other).state = .sleeping →
      (state.table other).state = .sleeping) : target.Awake := by
  intro other sleeping busy
  by_cases same : other = slot
  · subst same
    simpa [pc_eq] using own sleeping (by simpa [pc_eq] using busy)
  · simpa [pc_eq, same] using awake other (others other same sleeping)
      (by simpa [pc_eq, same] using busy)

theorem Awake.went {p : Nat} {state target : State} {slot : Slot} (awake : state.Awake)
    (went : Went p state slot target) : target.Awake := by
  have others (other : Slot) (ne : other ≠ slot)
      (sleeping : (target.table other).state = .sleeping) :
      (state.table other).state = .sleeping :=
    (went.calm other ne _ ⟨sleeping, rfl⟩).1
  -- A process that moves on was not asleep.
  have up (busy : state.pc slot ≠ .idle) (up : ∀ side : Side, side.asleep (state.pc slot) = false) :
      (state.table slot).state ≠ .sleeping := by
    intro sleeping
    obtain ⟨side, asleep⟩ := awake slot sleeping busy
    rw [up side] at asleep
    contradiction
  cases went with
  | store at_ more notFull => exact awake
  | writeSignal at_ | writeDone at_ | readSignal at_ | closeSignal at_ =>
    refine awake.update rfl (fun sleeping _ => absurd ?_ (up (by simp [at_]) ?_)) others
    · exact (wakeup1_wakes state.table _).reflects sleeping (by decide)
    · rw [at_]
      rintro (_ | _) <;> rfl
  | napCalling napper at_ | napHandover napper at_ =>
    refine awake.update rfl (fun sleeping _ => absurd sleeping (up ?_ ?_)) others
    · cases napper <;> simp [at_]
    · rw [at_]
      cases napper <;> rintro (_ | _) <;> rfl
  | napDrowsy napper at_ =>
    refine awake.update rfl (fun _ _ => ?_) others
    cases napper with
    | write call => exact ⟨.writers, rfl⟩
    | read n => exact ⟨.readers, rfl⟩
  | napRising napper at_ =>
    refine awake.update rfl (fun sleeping _ => absurd ?_ (up ?_ ?_)) others
    · simpa [move, State.release, setLock, setTable, clearChan] using sleeping
    · cases napper <;> simp [at_]
    · rw [at_]
      cases napper <;> rintro (_ | _) <;> rfl
  | writeEnter at_ | writeFail at_ | writeFull at_ | writeEnd at_ | writeLeave at_ | readEnter at_
  | readKilled at_ | readNap at_ | readStart at_ | copy at_ | readEnd at_ | readLeave at_
  | closeEnter at_ | closeFlag at_ | closeLeave at_ =>
    refine awake.update rfl (fun sleeping _ => absurd sleeping (up (by simp [at_]) ?_)) others
    rw [at_]
    rintro (_ | _) <;> rfl

theorem Awake.taken {p : Nat} {state target : State} {event : Event} (awake : state.Awake)
    (taken : Taken p state event target) : target.Awake := by
  cases taken with
  | write idle running | read idle running | close idle running =>
    refine awake.update rfl (fun sleeping _ => ?_) fun _ _ => id
    exact absurd (running.symm.trans sleeping) (by decide)
  | go went => exact awake.went went
  | dispatch napper at_ free =>
    refine awake.update rfl (fun sleeping _ => ?_) fun other ne => ?_
    · simp [move, setLock, setTable, setState] at sleeping
    · simp [move, setLock, setTable, setState, ne]
  | schedRelease held => exact awake
  | environment calm =>
    intro slot sleeping busy
    have asleep := calm slot _ busy ⟨sleeping, rfl⟩
    exact awake slot asleep.1 busy

/-! ## Whole runs -/

/-- While the lock of the pipe is free, a process that sleeps in `piperead` finds
the pipe empty and its write end open, and one that sleeps in `pipewrite` finds it
full and its read end open. -/
structure Attentive (p : Nat) (state : State) : Prop where
  readers : state.locks .pipe = none → ∀ slot n place, state.pc slot = .read n place →
    state.table.SleepsOn (some (nreadChan p)) slot →
    state.pipe.ring.Empty ∧ state.pipe.writeopen = true
  writers : state.locks .pipe = none → ∀ slot call place, state.pc slot = .write call place →
    state.table.SleepsOn (some (nwriteChan p)) slot →
    state.pipe.ring.Full ∧ state.pipe.readopen = true

/-- What carries the result through a run. -/
structure Safe (p : Nat) (state : State) : Prop where
  owned : state.LocksOwned
  orderly : state.Orderly
  marked : state.Marked
  awake : state.Awake
  delivered : ∀ side : Side, side.Delivered p state

theorem Safe.step {p : Nat} {state target : State} {event : Event} (safe : state.Safe p)
    (loud : state.Loud event) (step_eq : step p state event = some target) : target.Safe p := by
  have taken := taken_of_step step_eq
  exact
    { owned := safe.owned.taken taken
      orderly := safe.orderly.taken taken
      marked := safe.marked.taken taken
      awake := safe.awake.taken taken
      delivered := fun side =>
        (safe.delivered side).taken safe.owned safe.orderly safe.marked loud taken }

theorem Safe.start (p : Nat) (table : Ptable) (data : Fin pipesize → Byte) :
    (State.start table data).Safe p where
  owned := .start table data
  orderly := .start table data
  marked _ := Nat.le_refl 0
  awake _ _ busy := absurd rfl busy
  delivered := Side.Delivered.start table data

/-- With the lock free nobody owes a wakeup, so nobody sleeps without a reason. -/
theorem Safe.not_ready {p : Nat} {state : State} (safe : state.Safe p)
    (free : state.locks .pipe = none) {side : Side} {slot : Slot}
    (asleep : side.asleep (state.pc slot) = true)
    (sleeps : state.table.SleepsOn (some (side.chan p)) slot) : ¬side.Ready state.pipe := by
  intro ready
  rcases safe.delivered side ready with ⟨other, owes⟩ | none_missed
  · exact safe.owned.not_claims_of_free free (.process other) (Side.holds_of_owes owes)
  · exact none_missed slot (.inr ⟨asleep, sleeps⟩)

theorem Safe.attentive {p : Nat} {state : State} (safe : state.Safe p) : state.Attentive p := by
  constructor
  · intro free slot n place at_ sleeps
    obtain ⟨side, asleep⟩ := safe.awake slot sleeps.1 (by simp [at_])
    cases side with
    | writers => simp [at_, Side.asleep] at asleep
    | readers => simpa [Side.Ready] using safe.not_ready free asleep sleeps
  · intro free slot call place at_ sleeps
    obtain ⟨side, asleep⟩ := safe.awake slot sleeps.1 (by simp [at_])
    cases side with
    | readers => simp [at_, Side.asleep] at asleep
    | writers => simpa [Side.Ready] using safe.not_ready free asleep sleeps

/-- Nobody sleeps in vain in a run in which no call of `pipewrite` takes the exit
for a full buffer after it has stored bytes for someone who is reading. -/
theorem attentive_of_run {p : Nat} {table : Ptable} {data : Fin pipesize → Byte} {state : State}
    {events : List Event} (loud : Along (step p) Loud (start table data) events)
    (execution : run (step p) (start table data) events = some state) : state.Attentive p := by
  have safe : state.Safe p :=
    run_invariant_of_along (fun state => state.Safe p) (.start p table data)
      (fun _ _ _ safe loud step_eq => safe.step loud step_eq) loud execution
  exact safe.attentive

/-- Every process runs and has the number of its slot as its identifier. -/
def crowd : Ptable := fun slot => { Proc.zero with state := .running, pid := slot.val }

/-- A reader falls asleep on the empty pipe, and a writer stores one byte. -/
def readerWriter : List Event :=
  .read 1 10 :: List.replicate 5 (.go 1) ++ [.schedRelease, .write 2 1 fun _ => 7] ++
    List.replicate 5 (.go 2)

/-- The reader has been woken. -/
theorem attentive_readerWriter :
    ∃ state, run (step 4096) (start crowd fun _ => 1) readerWriter = some state ∧
      (state.table 1).state = .runnable ∧ ¬state.pipe.ring.Empty ∧ state.Attentive 4096 := by
  have loud : Along (step 4096) Loud (start crowd fun _ => 1) readerWriter := by decide +kernel
  obtain ⟨state, execution, woken, filled⟩ : ∃ state ∈ run (step 4096) (start crowd fun _ => 1)
      readerWriter, (state.table 1).state = .runnable ∧ ¬state.pipe.ring.Empty := by decide +kernel
  exact ⟨state, execution, woken, filled, attentive_of_run loud execution⟩

/-- A reader falls asleep on the empty pipe.  A writer of 513 bytes is killed when
it has the lock, fills the buffer and leaves. -/
def killedWriter : List Event :=
  .read 1 10 :: List.replicate 5 (.go 1) ++
    [.schedRelease, .write 2 513 fun _ => 7, .go 2, .kill 2] ++ List.replicate 514 (.go 2)

/-- The lock is free, the pipe is full and open, and the reader is left asleep. -/
theorem not_attentive_killedWriter :
    ∃ state, run (step 4096) (start crowd fun _ => 1) killedWriter = some state ∧
      state.locks .pipe = none ∧ state.pc 1 = .read 10 (.nap .asleep) ∧
      state.table.SleepsOn (some (nreadChan 4096)) 1 ∧ ¬state.pipe.ring.Empty ∧
      ¬state.Attentive 4096 := by
  obtain ⟨state, execution, free, at_, sleeps, notEmpty⟩ : ∃ state ∈ run (step 4096)
      (start crowd fun _ => 1) killedWriter, state.locks .pipe = none ∧
      state.pc 1 = .read 10 (.nap .asleep) ∧ state.table.SleepsOn (some (nreadChan 4096)) 1 ∧
      ¬state.pipe.ring.Empty := by decide +kernel
  refine ⟨state, execution, free, at_, sleeps, notEmpty, fun attentive => ?_⟩
  exact notEmpty (attentive.readers free 1 10 _ at_ sleeps).1

end State

end Xv6.Pipes
