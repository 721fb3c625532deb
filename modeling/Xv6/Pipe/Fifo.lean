import Xv6.Pipe.Step

/-!
# Pipes are first-in first-out

The bytes that `piperead` has returned, followed by those that a reader has in
hand, are the first bytes ever stored; the others are in the ring buffer.  A
reader has bytes in hand only while it holds the lock, so the order of the bytes
is the order in which the calls held the lock.
-/

namespace Xv6.Pipes

open Function Xv6.Process Xv6.Transition Xv6.Locks List

/-- The bytes a reader has copied and not yet returned. -/
def Pc.got : Pc → List Byte
  | .read _ (.copy got) | .read _ (.signal got) | .read _ (.leave got _) => got
  | _ => []

namespace State

/-- The bytes in the hand of the holder of the lock. -/
def inHand (state : State) : List Byte :=
  match state.locks .pipe with
  | some (.process slot) => (state.pc slot).got
  | _ => []

/-- All bytes ever stored. -/
def bytes (state : State) : List Byte := state.stored.map Prod.snd

/-- The bytes that a call of `pipewrite` has stored. -/
def bytesOf (state : State) (call : Nat) : List Byte :=
  (state.stored.filter fun entry => entry.1 = call).map Prod.snd

/-- The ring buffer continues where the readers are. -/
def Lossless (state : State) : Prop :=
  ∃ taken, state.pipe.ring.Represents state.bytes taken ∧
    state.returned ++ state.inHand = state.bytes.take taken

theorem pipesize_lt : pipesize < 2 ^ 32 := by decide

theorem pipesize_dvd : pipesize ∣ 2 ^ 32 := by decide

theorem inHand_of_held {state : State} {slot : Slot}
    (held : state.locks .pipe = some (.process slot)) : state.inHand = (state.pc slot).got := by
  simp [inHand, held]

theorem inHand_of_free {state : State} (free : state.locks .pipe = none) : state.inHand = [] := by
  simp [inHand, free]

/-- The hand of another process is not changed, nor the own one if it holds the
same bytes as before. -/
theorem inHand_eq_of_got {state target : State} {slot : Slot} {pc : Pc}
    (pc_eq : target.pc = update state.pc slot pc)
    (lock_eq : target.locks .pipe = state.locks .pipe) (got_eq : pc.got = (state.pc slot).got) :
    target.inHand = state.inHand := by
  unfold inHand
  rw [lock_eq, pc_eq]
  split
  · rename_i holder held
    by_cases same : holder = slot
    · subst same
      simpa using got_eq
    · simp [same]
  · rfl

namespace Lossless

variable {p : Nat} {state target : State} {slot : Slot}

/-- Steps that leave the ring buffer alone. -/
theorem keep (lossless : state.Lossless) (ring_eq : target.pipe.ring = state.pipe.ring)
    (stored_eq : target.stored = state.stored)
    (hand : target.returned ++ target.inHand = state.returned ++ state.inHand) :
    target.Lossless := by
  obtain ⟨taken, represents, returned⟩ := lossless
  refine ⟨taken, ?_, ?_⟩
  · rw [ring_eq, bytes, stored_eq]
    exact represents
  · rw [hand, bytes, stored_eq]
    exact returned

variable {pc : Pc}

section

variable (lossless : state.Lossless)

include lossless

theorem stay (pc_eq : target.pc = update state.pc slot pc)
    (lock_eq : target.locks .pipe = state.locks .pipe)
    (ring_eq : target.pipe.ring = state.pipe.ring) (stored_eq : target.stored = state.stored)
    (returned_eq : target.returned = state.returned) (got_eq : pc.got = (state.pc slot).got) :
    target.Lossless := by
  apply lossless.keep ring_eq stored_eq
  rw [returned_eq, inHand_eq_of_got pc_eq lock_eq got_eq]

/-- A process that acquires the lock has nothing in hand. -/
theorem acquire (pc_eq : target.pc = update state.pc slot pc)
    (free : state.locks .pipe = none) (held : target.locks .pipe = some (.process slot))
    (ring_eq : target.pipe.ring = state.pipe.ring) (stored_eq : target.stored = state.stored)
    (returned_eq : target.returned = state.returned) (got_eq : pc.got = []) : target.Lossless := by
  apply lossless.keep ring_eq stored_eq
  rw [returned_eq, inHand_of_free free, inHand_of_held held, pc_eq, update_self, got_eq]

/-- A process that releases the lock returns what it has in hand. -/
theorem release (held : state.locks .pipe = some (.process slot)) (free : target.locks .pipe = none)
    (ring_eq : target.pipe.ring = state.pipe.ring) (stored_eq : target.stored = state.stored)
    (returned_eq : target.returned = state.returned ++ (state.pc slot).got) : target.Lossless := by
  apply lossless.keep ring_eq stored_eq
  rw [returned_eq, inHand_of_held held, inHand_of_free free, append_nil]

theorem store {call : Nat} (notFull : ¬state.pipe.ring.Full) : (state.store call).Lossless := by
  obtain ⟨taken, represents, returned⟩ := lossless
  have bytes_eq : (state.store call).bytes =
      state.bytes ++ [(state.frames call).addr (state.frames call).i] := by
    simp [bytes, State.store, setFrame]
  refine ⟨taken, ?_, ?_⟩
  · rw [bytes_eq]
    exact represents.push pipesize_lt pipesize_dvd notFull _
  · rw [bytes_eq, take_append_of_le_length represents.le]
    exact returned

theorem copy {n : Int} {got : List Byte} (at_ : state.pc slot = .read n (.copy got))
    (held : state.locks .pipe = some (.process slot)) (notEmpty : ¬state.pipe.ring.Empty) :
    ((state.setPipe { state.pipe with ring := state.pipe.ring.pop }).move slot
      (.read n (.copy (got ++ [state.pipe.ring.front])))).Lossless := by
  obtain ⟨taken, represents, returned⟩ := lossless
  obtain ⟨popped, take_eq⟩ := represents.pop pipesize_lt pipesize_dvd notEmpty
  rw [inHand_of_held held, at_] at returned
  have hand : ((state.setPipe { state.pipe with ring := state.pipe.ring.pop }).move slot
      (.read n (.copy (got ++ [state.pipe.ring.front])))).inHand =
        got ++ [state.pipe.ring.front] := by
    simp [inHand, move, setPipe, held, Pc.got]
  refine ⟨taken + 1, popped, ?_⟩
  rw [hand, ← append_assoc]
  exact (congrArg (· ++ [state.pipe.ring.front]) returned).trans take_eq.symm

theorem went (owned : state.LocksOwned) (went : Went p state slot target) : target.Lossless := by
  have held (holds : (state.pc slot).holds .pipe) : state.locks .pipe = some (.process slot) :=
    owned (.process slot) .pipe holds
  cases went with
  | writeEnter at_ free | readEnter at_ free | closeEnter at_ free =>
    exact lossless.acquire rfl free rfl rfl rfl rfl rfl
  | store at_ more notFull => exact lossless.store notFull
  | copy at_ notEmpty => exact lossless.copy at_ (held (by rw [at_]; rfl)) notEmpty
  | writeFail at_ | writeFull at_ | writeEnd at_ | writeSignal at_ | writeDone at_ | readKilled at_
  | readNap at_ | readStart at_ | readEnd at_ | readSignal at_ | closeSignal at_ =>
    exact lossless.stay rfl rfl rfl rfl rfl (by rw [at_]; rfl)
  | @closeFlag writable at_ =>
    refine lossless.stay rfl rfl ?_ rfl rfl (by rw [at_]; rfl)
    cases writable <;> rfl
  | writeLeave at_ | closeLeave at_ =>
    exact lossless.release (held (by rw [at_]; rfl)) rfl rfl rfl (by simp [at_, Pc.got]; rfl)
  | readLeave at_ =>
    exact lossless.release (held (by rw [at_]; rfl)) rfl rfl rfl (by rw [at_]; rfl)
  | napCalling napper at_ free | napDrowsy napper at_ | napRising napper at_ =>
    refine lossless.stay rfl rfl rfl rfl rfl ?_
    rw [at_]
    cases napper <;> rfl
  | napHandover napper at_ =>
    refine lossless.release (held ?_) rfl rfl rfl ?_
    · rw [at_]
      cases napper <;> trivial
    · rw [at_]
      cases napper <;> simp [Pc.got] <;> rfl

theorem taken {event : Event} (owned : state.LocksOwned) (taken : Taken p state event target) :
    target.Lossless := by
  cases taken with
  | write idle | read idle | close idle =>
    exact lossless.stay rfl rfl rfl rfl rfl (by rw [idle]; rfl)
  | go went => exact lossless.went owned went
  | dispatch napper at_ free =>
    refine lossless.stay rfl rfl rfl rfl rfl ?_
    rw [at_]
    cases napper <;> rfl
  | schedRelease held | environment calm => exact lossless.keep rfl rfl rfl

end

theorem start (table : Ptable) (data : Fin pipesize → Byte) :
    (State.start table data).Lossless := by
  refine ⟨0, ⟨rfl, rfl, Nat.le_refl 0, Nat.zero_le _, fun _ bound => ?_⟩, rfl⟩
  simp [State.start, bytes] at bound

end Lossless

end State

/-! ## The calls of `pipewrite` -/

/-- What a call may return: `-1`, or its argument `n` when it has stored as many
bytes. -/
def Frame.MayReturn (frame : Frame) (ret : Int) : Prop :=
  ret = -1 ∨ ret = frame.n ∧ frame.n ≤ frame.i

/-- The first record belongs to the same call, which has not gone back. -/
structure Frame.Continues (frame other : Frame) : Prop where
  n : frame.n = other.n
  addr : frame.addr = other.addr
  i : other.i ≤ frame.i

theorem Frame.Continues.mayReturn {frame other : Frame} (continues : frame.Continues other)
    {ret : Int} (may : other.MayReturn ret) : frame.MayReturn ret := by
  rw [MayReturn, continues.n]
  refine may.imp_right fun ⟨ret_eq, enough⟩ => ⟨ret_eq, ?_⟩
  have := continues.i
  omega

namespace State

/-- A writer is in a call that has been made, and returns what it may. -/
def Fits (state : State) : Pc → Prop
  | .write call .done =>
    call < state.calls ∧ (state.frames call).MayReturn (state.frames call).n
  | .write call (.leave ret) => call < state.calls ∧ (state.frames call).MayReturn ret
  | .write call _ => call < state.calls
  | .idle | .read _ _ | .close _ _ => True

/-- Each call has stored the first bytes of its argument, in order, and a call
that returns its argument `n` has stored all of them. -/
structure Orderly (state : State) : Prop where
  known : ∀ entry ∈ state.stored, entry.1 < state.calls
  bytesOf : ∀ call, state.bytesOf call =
    (List.range (state.frames call).i).map (state.frames call).addr
  le : ∀ call, ((state.frames call).i : Int) ≤ max (state.frames call).n 0
  fits : ∀ slot, state.Fits (state.pc slot)
  ret : ∀ call ret, (state.frames call).ret = some ret → (state.frames call).MayReturn ret

theorem Fits.call_lt {state : State} {call : Nat} {place : WriteAt}
    (fits : state.Fits (.write call place)) : call < state.calls := by
  cases place <;> simp_all [Fits]

theorem Fits.congr {state target : State} {pc : Pc} (fits : state.Fits pc)
    (calls_le : state.calls ≤ target.calls)
    (continues : ∀ call place, pc = .write call place →
      (target.frames call).Continues (state.frames call)) : target.Fits pc := by
  cases pc with
  | idle => trivial
  | read n place => trivial
  | close writable place => trivial
  | write call place =>
    have agree := continues call place rfl
    cases place with
    | done =>
      refine ⟨fits.1.trans_le calls_le, ?_⟩
      rw [agree.n]
      exact agree.mayReturn fits.2
    | leave ret => exact ⟨fits.1.trans_le calls_le, agree.mayReturn fits.2⟩
    | entering | loop | signal | nap nap => exact fits.call_lt.trans_le calls_le

namespace Orderly

variable {p : Nat} {state target : State} {slot : Slot}

variable {pc : Pc}

theorem fits_update (pc_eq : target.pc = update state.pc slot pc) (own : target.Fits pc)
    (others : ∀ other ≠ slot, target.Fits (state.pc other)) (other : Slot) :
    target.Fits (target.pc other) := by
  by_cases equal : other = slot
  · simpa [pc_eq, equal] using own
  · simpa [pc_eq, equal] using others other equal

/-- Steps of one process that store nothing. -/
theorem keep (orderly : state.Orderly) (pc_eq : target.pc = update state.pc slot pc)
    (calls_eq : target.calls = state.calls) (stored_eq : target.stored = state.stored)
    (continues : ∀ call, (target.frames call).Continues (state.frames call))
    (i_eq : ∀ call, (target.frames call).i = (state.frames call).i)
    (ret : ∀ call ret, (target.frames call).ret = some ret → (state.frames call).MayReturn ret)
    (fits : state.Fits pc) : target.Orderly where
  known := by
    rw [stored_eq, calls_eq]
    exact orderly.known
  bytesOf call := by
    rw [i_eq, (continues call).addr]
    simpa only [State.bytesOf, stored_eq] using orderly.bytesOf call
  le call := by
    rw [i_eq, (continues call).n]
    exact orderly.le call
  fits := by
    have congr {pc : Pc} (fits : state.Fits pc) : target.Fits pc :=
      fits.congr calls_eq.ge fun call _ _ => continues call
    exact fits_update pc_eq (congr fits) fun other _ => congr (orderly.fits other)
  ret call value ret_eq := (continues call).mayReturn (ret call value ret_eq)

/-- Steps of one process that touch no activation record. -/
theorem stay (orderly : state.Orderly) (pc_eq : target.pc = update state.pc slot pc)
    (calls_eq : target.calls = state.calls) (stored_eq : target.stored = state.stored)
    (frames_eq : target.frames = state.frames) (fits : state.Fits pc) : target.Orderly := by
  apply orderly.keep pc_eq calls_eq stored_eq _ _ _ fits
  · intro call
    rw [frames_eq]
    exact ⟨rfl, rfl, le_refl _⟩
  · rw [frames_eq]
    exact fun _ => rfl
  · rw [frames_eq]
    exact orderly.ret

variable {call : Nat}

section

variable (orderly : state.Orderly)

include orderly

/-- A store to the activation record of a call, apart from its progress. -/
theorem record {frame : Frame} (pc_eq : target.pc = update state.pc slot pc)
    (calls_eq : target.calls = state.calls) (stored_eq : target.stored = state.stored)
    (frames_eq : target.frames = update state.frames call frame)
    (n : frame.n = (state.frames call).n) (addr : frame.addr = (state.frames call).addr)
    (i : frame.i = (state.frames call).i)
    (ret : ∀ ret, frame.ret = some ret → (state.frames call).MayReturn ret) (fits : state.Fits pc) :
    target.Orderly := by
  apply orderly.keep pc_eq calls_eq stored_eq _ _ _ fits
  · intro other
    by_cases same : other = call
    · rw [frames_eq, same, update_self]
      exact ⟨n, addr, i.ge⟩
    · rw [frames_eq, update_of_ne same]
      exact ⟨rfl, rfl, le_refl _⟩
  · intro other
    by_cases same : other = call
    · rw [frames_eq, same, update_self, i]
    · rw [frames_eq, update_of_ne same]
  · intro other
    by_cases same : other = call
    · rw [frames_eq, same, update_self]
      exact ret
    · rw [frames_eq, update_of_ne same]
      exact orderly.ret other

/-- The next byte of a call is stored behind its earlier ones. -/
theorem store (known : call < state.calls)
    (more : ((state.frames call).i : Int) < (state.frames call).n) :
    (state.store call).Orderly := by
  have continues other : ((state.store call).frames other).Continues (state.frames other) := by
    by_cases same : other = call
    · simp only [State.store, setFrame, same, update_self]
      exact ⟨rfl, rfl, Nat.le_succ _⟩
    · simp only [State.store, setFrame, update_of_ne same]
      exact ⟨rfl, rfl, le_refl _⟩
  constructor
  · intro entry member
    simp only [State.store, setFrame, mem_append, mem_singleton] at member
    rcases member with member | rfl
    · exact orderly.known entry member
    · exact known
  · intro other
    have before := orderly.bytesOf other
    unfold State.bytesOf at before ⊢
    by_cases same : other = call
    · subst same
      simp only [State.store, setFrame, update_self, filter_append, map_append, before, range_succ]
      simp
    · simp only [State.store, setFrame, update_of_ne same, filter_append,
        map_append, before]
      simp [Ne.symm same]
  · intro other
    by_cases same : other = call
    · subst same
      simp only [State.store, setFrame, update_self]
      omega
    · simp only [State.store, setFrame, update_of_ne same]
      exact orderly.le other
  · intro slot
    have calls_le : state.calls ≤ (state.store call).calls := le_refl _
    exact (orderly.fits slot).congr calls_le fun other _ _ => continues other
  · intro other ret ret_eq
    apply (continues other).mayReturn (orderly.ret other ret _)
    by_cases same : other = call
    · subst same
      simpa [State.store, setFrame] using ret_eq
    · simpa [State.store, setFrame, same] using ret_eq

/-- A new call has stored nothing yet. -/
theorem write (n : Int) (addr : Nat → Byte) :
    (({ state with calls := state.calls + 1 }.setFrame state.calls
      ⟨n, addr, 0, 0, none⟩).move slot (.write state.calls .entering)).Orderly := by
  have fresh : state.bytesOf state.calls = [] := by
    simp only [State.bytesOf, map_eq_nil_iff, filter_eq_nil_iff]
    intro entry member
    have := orderly.known entry member
    simp only [decide_eq_true_eq]
    omega
  constructor
  · intro entry member
    exact (orderly.known entry member).trans (Nat.lt_succ_self _)
  · intro call
    by_cases same : call = state.calls
    · subst same
      simpa [State.bytesOf, move, setFrame] using fresh
    · simpa [State.bytesOf, move, setFrame, same] using orderly.bytesOf call
  · intro call
    by_cases same : call = state.calls
    · subst same
      simp [move, setFrame]
    · simpa [move, setFrame, same] using orderly.le call
  · apply fits_update rfl (Nat.lt_succ_self _)
    intro other _
    refine (orderly.fits other).congr (Nat.le_succ _) fun call place at_ => ?_
    have older : call < state.calls := by
      have fits := orderly.fits other
      rw [at_] at fits
      exact fits.call_lt
    simp only [move, setFrame, update_of_ne older.ne]
    exact ⟨rfl, rfl, le_refl _⟩
  · intro call ret ret_eq
    by_cases same : call = state.calls
    · simp [move, setFrame, same] at ret_eq
    · simp only [move, setFrame, update_of_ne same] at ret_eq ⊢
      exact orderly.ret call ret ret_eq

theorem went (went : Went p state slot target) : target.Orderly := by
  have fits := orderly.fits slot
  cases went with
  | @writeEnter call at_ free =>
    rw [at_] at fits
    exact orderly.record rfl rfl rfl rfl rfl rfl rfl (orderly.ret call) fits.call_lt
  | @writeLeave call ret at_ =>
    rw [at_] at fits
    refine orderly.record rfl rfl rfl rfl rfl rfl rfl ?_ trivial
    rintro value ⟨⟩
    exact fits.2
  | store at_ more notFull =>
    rw [at_] at fits
    exact orderly.store fits.call_lt more
  | writeFail at_ =>
    rw [at_] at fits
    exact orderly.stay rfl rfl rfl rfl ⟨fits.call_lt, .inl rfl⟩
  | writeEnd at_ finished =>
    rw [at_] at fits
    exact orderly.stay rfl rfl rfl rfl ⟨fits.call_lt, .inr ⟨rfl, finished⟩⟩
  | writeFull at_ | writeSignal at_ | writeDone at_ =>
    rw [at_] at fits
    exact orderly.stay rfl rfl rfl rfl fits
  | napCalling napper at_ | napHandover napper at_ | napDrowsy napper at_ | napRising napper at_ =>
    rw [at_] at fits
    refine orderly.stay rfl rfl rfl rfl ?_
    cases napper <;> exact fits
  | readEnter at_ | readKilled at_ | readNap at_ | readStart at_ | copy at_ | readEnd at_
  | readSignal at_ | readLeave at_ | closeEnter at_ | closeFlag at_ | closeSignal at_
  | closeLeave at_ => exact orderly.stay rfl rfl rfl rfl trivial

theorem taken {event : Event} (taken : Taken p state event target) : target.Orderly := by
  cases taken with
  | write idle => exact orderly.write _ _
  | read idle | close idle => exact orderly.stay rfl rfl rfl rfl trivial
  | go went => exact orderly.went went
  | @dispatch slot stage chan again napper at_ free =>
    have fits := orderly.fits slot
    rw [at_] at fits
    refine orderly.stay rfl rfl rfl rfl ?_
    cases napper <;> exact fits
  | schedRelease held | environment calm =>
    exact ⟨orderly.1, orderly.2, orderly.3, orderly.4, orderly.5⟩

end

theorem start (table : Ptable) (data : Fin pipesize → Byte) :
    (State.start table data).Orderly where
  known _ member := absurd member not_mem_nil
  bytesOf _ := rfl
  le _ := le_refl _
  fits _ := trivial
  ret _ _ ret_eq := by cases ret_eq

end Orderly

/-! ## Whole runs -/

/-- A pipe is a queue of bytes: the ring buffer never overflows, the bytes
returned by `piperead` are the first of those stored by `pipewrite`, and each call
of `pipewrite` has stored the first `i` bytes of its argument in order, all of
them if it has returned `n`. -/
structure Fifo (state : State) : Prop where
  bounded : (state.pipe.ring.nwrite - state.pipe.ring.nread).toNat ≤ pipesize
  lossless : state.returned <+: state.bytes
  known : ∀ entry ∈ state.stored, entry.1 < state.calls
  inOrder : ∀ call, state.bytesOf call =
    (List.range (state.frames call).i).map (state.frames call).addr
  complete : ∀ call ret, (state.frames call).ret = some ret →
    ret = -1 ∨ ret = (state.frames call).n ∧ (state.frames call).i = ret.toNat

theorem fifo_of_invariants {state : State} (lossless : state.Lossless) (orderly : state.Orderly) :
    state.Fifo := by
  obtain ⟨taken, represents, returned⟩ := lossless
  constructor
  · rw [represents.distance pipesize_lt]
    have := represents.room
    omega
  · have handed : state.returned <+: state.bytes.take taken := by
      rw [← returned]
      exact prefix_append _ _
    exact handed.trans (List.take_prefix taken state.bytes)
  · exact orderly.known
  · exact orderly.bytesOf
  · intro call ret ret_eq
    refine (orderly.ret call ret ret_eq).imp_right fun ⟨ret_eq, enough⟩ => ⟨ret_eq, ?_⟩
    have := orderly.le call
    omega

/-- Any number of readers and writers in any interleaving, for as long as the
counters may run. -/
theorem fifo_of_reachable {p : Nat} {table : Ptable} {data : Fin pipesize → Byte} {state : State}
    (reach : Reachable (step p) (start table data) state) : state.Fifo := by
  have invariants : state.LocksOwned ∧ state.Lossless ∧ state.Orderly := by
    refine reach.invariant (fun state => state.LocksOwned ∧ state.Lossless ∧ state.Orderly)
      ⟨.start table data, .start table data, .start table data⟩ ?_
    rintro state event target ⟨owned, lossless, orderly⟩ step_eq
    have taken := taken_of_step step_eq
    exact ⟨owned.taken taken, lossless.taken owned taken, orderly.taken taken⟩
  exact fifo_of_invariants invariants.2.1 invariants.2.2

/-- One process writes the bytes 7 and 8 and returns, another reads one byte. -/
def writeTwoReadOne : List Event :=
  .write 1 2 (fun i => if i = 0 then 7 else 8) :: List.replicate 6 (.go 1) ++
    .read 2 1 :: List.replicate 6 (.go 2)

theorem fifo_writeTwoReadOne :
    ∃ state, run (step 4096) (start (fun _ => { Proc.zero with state := .running }) fun _ => 1)
        writeTwoReadOne = some state ∧
      state.returned = [7] ∧ state.bytes = [7, 8] ∧ (state.frames 0).ret = some 2 ∧
      state.Fifo := by
  obtain ⟨state, execution, returned, bytes, ret⟩ : ∃ state ∈ run (step 4096)
      (start (fun _ => { Proc.zero with state := .running }) fun _ => 1) writeTwoReadOne,
      state.returned = [7] ∧ state.bytes = [7, 8] ∧ (state.frames 0).ret = some 2 := by
    decide +kernel
  exact ⟨state, execution, returned, bytes, ret, fifo_of_reachable (.of_run execution)⟩

end State

end Xv6.Pipes
