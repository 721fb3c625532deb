import Xv6.Console.Editing

/-!
# The line discipline

The log of deliveries is what the readers took of the committed characters, in
order: a byte went to the `dst` of one call of `consoleread`, and a control-D was
the empty read of one call.  A reader sleeps only while nothing is committed that
has not been taken.
-/

namespace Xv6.Console

open Function Xv6.Process Xv6.Transition List Ptable Option Delivery

/-- The call of a delivery. -/
def Delivery.call : Delivery → Nat
  | .byte call _ | .eof call => call

/-- The byte a delivery stores for a call. -/
def Delivery.byteFor (call : Nat) : Delivery → Option Byte
  | .byte owner c => if owner = call then some c else none
  | .eof _ => none

/-- The bytes delivered to a call, in order. -/
def bytesOf (log : List Delivery) (call : Nat) : List Byte :=
  log.filterMap (Delivery.byteFor call)

/-- What a call of `consoleread` has got: it stops after a newline, and it
returns the number of its bytes, which is zero for exactly one control-D. -/
structure Served (log : List Delivery) (call : Nat) (frame : Frame) : Prop where
  dst : frame.dst = bytesOf log call
  line : newline ∉ frame.dst.dropLast
  stops : newline ∈ frame.dst → frame.ret ≠ none
  pending : frame.ret = none → log.count (.eof call) = 0
  returned : ∀ ret, frame.ret = some ret →
    ret = frame.dst.length ∧ log.count (.eof call) = if ret = 0 then 1 else 0

namespace Served

variable {log : List Delivery} {call : Nat} {frame : Frame}

section

variable (served : Served log call frame)

include served

/-- A delivery to another call. -/
theorem concat_of_ne {delivery : Delivery} (ne : delivery.call ≠ call) :
    Served (log ++ [delivery]) call frame := by
  have bytes_eq : bytesOf (log ++ [delivery]) call = bytesOf log call := by
    cases delivery with
    | byte owner c =>
      have ne : owner ≠ call := ne
      simp [bytesOf, byteFor, ne]
    | eof owner => simp [bytesOf, byteFor]
  have count_eq : (log ++ [delivery]).count (.eof call) = log.count (.eof call) := by
    rw [count_append, count_singleton, if_neg, Nat.add_zero]
    intro same
    rw [beq_iff_eq] at same
    exact ne (congrArg Delivery.call same)
  exact ⟨bytes_eq ▸ served.dst, served.line, served.stops, count_eq ▸ served.pending,
    count_eq ▸ served.returned⟩

/-- A call that is not over has not met a newline. -/
theorem newline_notMem (isOpen : frame.ret = none) : newline ∉ frame.dst :=
  fun member => served.stops member isOpen

/-- A byte is stored for a call, which is over after a newline. -/
theorem byte (isOpen : frame.ret = none) (c : Byte) (n : Nat) (ret : Option Int)
    (ends : c = newline → ret ≠ none)
    (ret_eq : ∀ value, ret = some value → value = (frame.dst.length + 1 : Nat)) :
    Served (log ++ [.byte call c]) call
      { frame with n := n, dst := frame.dst ++ [c], ret := ret } := by
  have none_yet := served.pending isOpen
  refine ⟨?_, ?_, ?_, ?_, ?_⟩
  · simp [bytesOf, byteFor, served.dst]
  · simpa using served.newline_notMem isOpen
  · intro member
    rcases mem_append.mp member with member | member
    · exact absurd member (served.newline_notMem isOpen)
    · exact ends (mem_singleton.mp member).symm
  · simp [none_yet]
  · intro value returned
    have value_eq := ret_eq value returned
    have positive : value ≠ 0 := by omega
    refine ⟨by simpa using value_eq, ?_⟩
    rw [if_neg positive]
    simp [none_yet]

end

variable {ret : Int}

/-- A call returns the bytes it has got. -/
theorem finish (served : Served log call frame) (isOpen : frame.ret = none) (n : Nat)
    (ret_eq : ret = frame.dst.length) (positive : 1 ≤ frame.dst.length) :
    Served log call { frame with n := n, ret := some ret } := by
  refine ⟨served.dst, served.line, fun _ => nofun, nofun, ?_⟩
  intro value returned
  cases returned
  refine ⟨ret_eq, ?_⟩
  rw [if_neg (by omega), served.pending isOpen]

/-- A call that meets a control-D first returns zero. -/
theorem eof (served : Served log call frame) (isOpen : frame.ret = none) (n : Nat)
    (ret_eq : ret = 0) (empty : frame.dst = []) :
    Served (log ++ [.eof call]) call { frame with n := n, ret := some ret } := by
  refine ⟨?_, served.line, fun _ => nofun, nofun, ?_⟩
  · simp [bytesOf, byteFor, served.dst]
  · intro value returned
    cases returned
    refine ⟨by simp [ret_eq, empty], ?_⟩
    rw [if_pos ret_eq, count_append, served.pending isOpen]
    simp

end Served

/-- The line discipline. -/
structure Disciplined (state : State) : Prop where
  order : (state.input.w - state.input.r).toNat ≤ (state.input.e - state.input.r).toNat
  room : (state.input.e - state.input.r).toNat ≤ inputBuf
  full : (state.input.e - state.input.r).toNat = inputBuf → state.input.w = state.input.e
  asleep : ∀ slot, state.reader slot ≠ none → (state.table slot).state = .sleeping →
    (state.input.e - state.input.r).toNat < inputBuf
  delivered : state.committed =
    state.log.map Delivery.symbol ++ state.input.between state.input.r state.input.w
  plain : ∀ call c, .byte call c ∈ state.log → c ≠ ctrl 'D'
  known : ∀ delivery ∈ state.log, delivery.call < state.calls
  served : ∀ call < state.calls, Served state.log call (state.frames call)

/-- The calls of `consoleread` that are considered: a positive number of bytes,
by a process that is not killed. -/
def Regular (state : State) : Event → Prop
  | .read slot n => 1 ≤ n ∧ (state.table slot).killed = false
  | .resume slot => (state.table slot).killed = false
  | _ => True

instance (state : State) : (event : Event) → Decidable (Regular state event)
  | .read _ _ => inferInstanceAs (Decidable (_ ∧ _))
  | .resume _ => inferInstanceAs (Decidable (_ = _))
  | .intr _ | .kill _ | .wakeup _ | .other _ _ => .isTrue trivial

namespace State

variable {chan : Chan} {state : State}

/-- The invariant of the console. -/
structure Invariant (chan : Chan) (state : State) : Prop where
  edits : ∃ line, state.Edits line
  taken : state.committed.take state.log.length = state.log.map Delivery.symbol
  plain : ∀ call c, .byte call c ∈ state.log → c ≠ ctrl 'D'
  known : ∀ delivery ∈ state.log, delivery.call < state.calls
  served : ∀ call < state.calls, Served state.log call (state.frames call)
  waiting : ∀ slot call, state.reader slot = some call → call < state.calls ∧
    (state.frames call).ret = none ∧ 1 ≤ (state.frames call).n ∧
    (state.frames call).dst.length + (state.frames call).n = (state.frames call).target
  alone : ∀ slot other call, state.reader slot = some call → state.reader other = some call →
    slot = other
  asleep : ∀ slot, state.reader slot ≠ none → (state.table slot).state = .sleeping →
    state.input.r = state.input.w ∧ (state.table slot).chan = some chan

variable {target : State}

section

variable (invariant : state.Invariant chan)

include invariant

/-- The line under editing does not depend on the readers. -/
theorem Invariant.edits_of_eq (input_eq : target.input = state.input)
    (committed_eq : target.committed = state.committed) (log_eq : target.log = state.log) :
    ∃ line, target.Edits line := by
  obtain ⟨line, edits⟩ := invariant.edits
  exact ⟨line, edits.of_eq input_eq committed_eq log_eq⟩

theorem Invariant.disciplined : Disciplined state := by
  obtain ⟨line, edits⟩ := invariant.edits
  have taken := edits.taken
  have room := edits.room
  refine ⟨?_, ?_, ?_, ?_, ?_, invariant.plain, invariant.known, invariant.served⟩
  · rw [edits.toNat_w_sub_r, edits.toNat_e_sub_r]
    omega
  · rw [edits.toNat_e_sub_r]
    omega
  · rw [edits.toNat_e_sub_r]
    intro isFull
    refine (edits.e_eq_w_iff.mpr (edits.full ?_)).symm
    rw [length_append]
    omega
  · intro slot reading asleep
    have nothing := edits.r_eq_w_iff.mp (invariant.asleep slot reading asleep).1
    rw [edits.toNat_e_sub_r]
    by_contra isFull
    have empty := edits.full (by rw [length_append]; omega)
    rw [empty, length_nil] at isFull
    unfold inputBuf at isFull
    omega
  · rw [edits.between_r_w, ← invariant.taken, take_append_drop]

/-! ## Interrupts -/

/-- A committed line wakes every reader that sleeps. -/
theorem Invariant.handled {line : List Byte} (handled : Handled chan state target)
    (editsAfter : target.Edits line) : target.Invariant chan := by
  obtain ⟨_, edits⟩ := invariant.edits
  cases handled with
  | edit input echo =>
    refine { invariant with edits := ⟨line, editsAfter⟩, asleep := ?_ }
    intro slot reading asleep
    obtain ⟨nothing, chan_eq⟩ := invariant.asleep slot reading asleep
    exact ⟨editsAfter.r_eq_w_iff.mpr (edits.r_eq_w_iff.mp nothing), chan_eq⟩
  | commit input echo more =>
    refine { invariant with edits := ⟨line, editsAfter⟩, taken := ?_, asleep := ?_ }
    · rw [take_append_of_le_length edits.taken]
      exact invariant.taken
    · intro slot reading asleep
      have before := (state.table.wakeup1_wakes (some chan)).reflects asleep (by decide)
      obtain ⟨-, chan_eq⟩ := invariant.asleep slot reading before
      rw [wakeup1_state, if_pos ⟨before, chan_eq⟩] at asleep
      contradiction

theorem Invariant.consoleintr (chars : List Byte) :
    (state.consoleintr chan chars).Invariant chan := by
  induction chars generalizing state with
  | nil => exact invariant
  | cons c chars ih =>
    obtain ⟨_, edits⟩ := invariant.edits
    obtain ⟨_, editsAfter⟩ : ∃ line, (state.handle chan c).Edits line := edits.handle c
    exact ih (invariant.handled (handled_handle chan state c) editsAfter)

end

/-! ## Readers -/

/-- The process in `slot` is in the loop of `consoleread`, with `n` characters to
go. -/
structure Reading (state : State) (slot : Slot) (call n : Nat) : Prop where
  known : call < state.calls
  ret : (state.frames call).ret = none
  positive : 1 ≤ (state.frames call).target
  count : (state.frames call).dst.length + n = (state.frames call).target
  awake : state.reader slot = none
  sole : ∀ other, state.reader other ≠ some call
  alive : (state.table slot).killed = false

variable {slot : Slot} {call n : Nat}

section

variable (invariant : state.Invariant chan)

include invariant

section

variable (reading : state.Reading slot call n)
include reading

/-- The end of a call. -/
theorem Invariant.finish {left : Nat} {ret : Int}
    (served : Served state.log call { state.frames call with n := left, ret := some ret }) :
    (state.finish slot call left ret).Invariant chan := by
  have reader_eq : update state.reader slot none = state.reader :=
    update_eq_self_iff.mpr reading.awake.symm
  unfold State.finish
  rw [reader_eq]
  refine { invariant with edits := invariant.edits_of_eq rfl rfl rfl, served := ?_, waiting := ?_ }
  · intro other bound
    by_cases same : other = call
    · subst same
      simpa [setFrame] using served
    · simpa [setFrame, same] using invariant.served other bound
  · intro other owner reader_eq
    have ne : owner ≠ call := by
      rintro rfl
      exact reading.sole other reader_eq
    simpa [setFrame, ne] using invariant.waiting other owner reader_eq

theorem Invariant.sleep (more : 1 ≤ n)
    (nothing : state.input.r = state.input.w) : (state.sleep chan slot call n).Invariant chan := by
  have served := invariant.served call reading.known
  refine
    { invariant with
      edits := invariant.edits_of_eq rfl rfl rfl
      served := ?_
      waiting := ?_
      alone := ?_
      asleep := ?_ }
  · intro other bound
    by_cases same : other = call
    · subst same
      simp only [State.sleep, setFrame, update_self]
      exact ⟨served.dst, served.line, served.stops, served.pending, served.returned⟩
    · simpa [State.sleep, setFrame, same] using invariant.served other bound
  · intro other owner reader_eq
    by_cases same : other = slot
    · subst same
      obtain rfl : call = owner := by simpa [State.sleep, setFrame] using reader_eq
      simpa [State.sleep, setFrame, reading.known, reading.ret, more] using reading.count
    have isReader : state.reader other = some owner := by
      simpa [State.sleep, setFrame, same] using reader_eq
    have ne : owner ≠ call := by
      rintro rfl
      exact reading.sole other isReader
    simpa [State.sleep, setFrame, ne] using invariant.waiting other owner isReader
  · intro first second owner firstReads secondReads
    simp only [State.sleep, setFrame, update_apply] at firstReads secondReads
    split at firstReads <;> split at secondReads
    · simp [*]
    · cases firstReads
      exact absurd secondReads (reading.sole second)
    · cases secondReads
      exact absurd firstReads (reading.sole first)
    · exact invariant.alone first second owner firstReads secondReads
  · intro other isReader asleep
    by_cases same : other = slot
    · subst same
      exact ⟨nothing, by simp [State.sleep, setFrame, goToSleep]⟩
    · simp only [State.sleep, setFrame, goToSleep, update_of_ne same,
        modify_of_ne _ _ same] at isReader asleep ⊢
      exact invariant.asleep other isReader asleep

/-- A reader takes a character; what it does with it is the delivery. -/
theorem Invariant.take (more : state.input.r ≠ state.input.w)
    {delivery : Delivery} (input_eq : target.input = { state.input with r := state.input.r + 1 })
    (rest : target.committed = state.committed ∧ target.table = state.table ∧
      target.reader = state.reader ∧ target.calls = state.calls)
    (log_eq : target.log = state.log ++ [delivery]) (owner : delivery.call = call)
    (symbol : delivery.symbol = state.input.get state.input.r)
    (plain : ∀ call c, delivery = .byte call c → c ≠ ctrl 'D')
    (others : ∀ other ≠ call, target.frames other = state.frames other)
    (served : Served target.log call (target.frames call)) : target.Invariant chan := by
  obtain ⟨committed_eq, table_eq, reader_eq, calls_eq⟩ := rest
  obtain ⟨line, edits⟩ := invariant.edits
  obtain ⟨editsAfter, take_eq⟩ := edits.take more input_eq committed_eq log_eq
  refine ⟨⟨line, editsAfter⟩, ?_, ?_, ?_, ?_, ?_, ?_, ?_⟩
  · rw [take_eq, invariant.taken, log_eq, map_append, ← symbol]
    rfl
  · intro owner c member
    rw [log_eq, mem_append, mem_singleton] at member
    rcases member with member | last
    · exact invariant.plain owner c member
    · exact plain owner c last.symm
  · intro entry member
    rw [log_eq, mem_append, mem_singleton] at member
    rw [calls_eq]
    rcases member with member | rfl
    · exact invariant.known entry member
    · exact owner ▸ reading.known
  · intro other bound
    rw [calls_eq] at bound
    by_cases same : other = call
    · subst same
      exact served
    · rw [others other same, log_eq]
      exact (invariant.served other bound).concat_of_ne (owner ▸ Ne.symm same)
  · intro other owner isReader
    rw [reader_eq] at isReader
    rw [calls_eq]
    have ne : owner ≠ call := by
      rintro rfl
      exact reading.sole other isReader
    rw [others owner ne]
    exact invariant.waiting other owner isReader
  · rw [reader_eq]
    exact invariant.alone
  · intro other isReader asleep
    rw [reader_eq] at isReader
    rw [table_eq] at asleep
    exact absurd (invariant.asleep other isReader asleep).1 more

/-- The loop of `consoleread`, up to its return or to `sleep`. -/
theorem Invariant.copy :
    (state.copy chan slot call n).Invariant chan := by
  induction n generalizing state with
  | zero =>
    have count := reading.count
    have positive := reading.positive
    have served := invariant.served call reading.known
    exact invariant.finish reading (served.finish reading.ret 0 (by omega) (by omega))
  | succ n ih =>
    have count := reading.count
    have served := invariant.served call reading.known
    have reader_eq : update state.reader slot none = state.reader :=
      update_eq_self_iff.mpr reading.awake.symm
    unfold State.copy
    by_cases nothing : state.input.r = state.input.w
    · rw [if_pos nothing, if_neg (by simp [reading.alive])]
      exact invariant.sleep reading (Nat.le_add_left 1 n) nothing
    rw [if_neg nothing]
    by_cases isEof : state.input.get state.input.r = ctrl 'D'
    · rw [if_pos isEof]
      by_cases partly : n + 1 < (state.frames call).target
      · rw [if_pos partly, BitVec.add_sub_cancel]
        exact invariant.finish reading (served.finish reading.ret (n + 1) (by omega) (by omega))
      rw [if_neg partly]
      have empty : (state.frames call).dst = [] := length_eq_zero_iff.mp (by omega)
      refine invariant.take reading nothing rfl ⟨rfl, rfl, reader_eq, rfl⟩ rfl rfl
        isEof.symm nofun ?_ ?_
      · intro other ne
        simp [State.finish, takeEof, setFrame, ne]
      · simpa [State.finish, takeEof, setFrame] using
          served.eof reading.ret (n + 1) (by omega) empty
    · rw [if_neg isEof]
      have plain owner c (same : byte call (state.input.get state.input.r) = .byte owner c) :
          c ≠ ctrl 'D' := by
        cases same
        exact isEof
      by_cases isNewline : state.input.get state.input.r = newline
      · rw [if_pos isNewline]
        refine invariant.take reading nothing rfl ⟨rfl, rfl, reader_eq, rfl⟩ rfl rfl rfl
          plain ?_ ?_
        · intro other ne
          simp [State.finish, takeByte, setFrame, ne]
        · simpa [State.finish, takeByte, setFrame] using
            served.byte reading.ret _ n (some _) (fun _ => some_ne_none _) (by
              intro value returned
              cases returned
              omega)
      · rw [if_neg isNewline]
        apply ih
        · refine invariant.take reading nothing rfl ⟨rfl, rfl, rfl, rfl⟩ rfl rfl rfl plain ?_ ?_
          · intro other ne
            simp [takeByte, setFrame, ne]
          · simpa [takeByte, setFrame, reading.ret] using
              served.byte reading.ret _ _ none (fun same => absurd same isNewline) nofun
        · refine ⟨reading.known, ?_, ?_, ?_, reading.awake, reading.sole, reading.alive⟩
          · simpa [takeByte, setFrame] using reading.ret
          · simpa [takeByte, setFrame] using reading.positive
          · simp only [takeByte, setFrame, update_self, length_append,
              length_singleton]
            omega

end

/-! ## Steps -/

/-- Steps that touch only the process table, and put no reader to sleep. -/
theorem Invariant.setTable {table : Ptable}
    (asleep : ∀ slot, state.reader slot ≠ none → (table slot).state = .sleeping →
      (state.table slot).state = .sleeping ∧ (table slot).chan = (state.table slot).chan) :
    { state with table := table }.Invariant chan := by
  refine { invariant with edits := invariant.edits_of_eq rfl rfl rfl, asleep := ?_ }
  intro slot reading sleeping
  obtain ⟨before, chan_eq⟩ := asleep slot reading sleeping
  obtain ⟨nothing, on_chan⟩ := invariant.asleep slot reading before
  exact ⟨nothing, chan_eq.trans on_chan⟩

/-- The first step of a call of `consoleread`. -/
theorem Invariant.read (idle : state.reader slot = none) (positive : 1 ≤ n)
    (alive : (state.table slot).killed = false) :
    (({ state with calls := state.calls + 1 }.setFrame state.calls ⟨n, n, [], none⟩).copy chan slot
      state.calls n).Invariant chan := by
  have fresh delivery (member : delivery ∈ state.log) : delivery.call ≠ state.calls :=
    (invariant.known delivery member).ne
  have old : ∀ slot call, state.reader slot = some call → call ≠ state.calls :=
    fun slot call reading => (invariant.waiting slot call reading).1.ne
  apply Invariant.copy
  · refine
      { invariant with
        edits := invariant.edits_of_eq rfl rfl rfl
        known := fun delivery member => Nat.lt_succ_of_lt (invariant.known delivery member)
        served := ?_
        waiting := ?_ }
    · intro call bound
      by_cases same : call = state.calls
      · subst same
        have noBytes : bytesOf state.log state.calls = [] := by
          apply filterMap_eq_nil_iff.mpr
          intro delivery member
          have ne := fresh delivery member
          cases delivery with
          | byte owner c => exact if_neg ne
          | eof owner => rfl
        have noEof : state.log.count (.eof state.calls) = 0 :=
          count_eq_zero.mpr fun member => fresh _ member rfl
        simpa [setFrame] using ⟨noBytes.symm, by simp, by simp, fun _ => noEof, by simp⟩
      · have bound : call < state.calls := by
          have : call < state.calls + 1 := bound
          omega
        simpa [setFrame, same] using invariant.served call bound
    · intro other call reading
      have ne := old other call reading
      obtain ⟨bound, rest⟩ := invariant.waiting other call reading
      simpa [setFrame, ne, Nat.lt_succ_of_lt bound] using rest
  · exact
      { known := Nat.lt_succ_self _
        ret := by simp [setFrame]
        positive := by simpa [setFrame] using positive
        count := by simp [setFrame]
        awake := idle
        sole := fun other reading => old other _ reading rfl
        alive := alive }

/-- A reader goes on after `sleep`. -/
theorem Invariant.resume (reader : state.reader slot = some call)
    (alive : (state.table slot).killed = false) :
    ({ state with
        table := (state.table.setState slot .running).clearChan slot
        reader := update state.reader slot none }.copy chan slot call
          (state.frames call).n).Invariant chan := by
  obtain ⟨bound, isOpen, more, count⟩ := invariant.waiting slot call reader
  have positive : 1 ≤ (state.frames call).target := by omega
  have others other owner (reading : update state.reader slot none other = some owner) :
      other ≠ slot ∧ state.reader other = some owner := by
    rw [update_apply] at reading
    split at reading
    · contradiction
    · rename_i ne
      exact ⟨ne, reading⟩
  apply Invariant.copy
  · refine
      { invariant with
        edits := invariant.edits_of_eq rfl rfl rfl
        waiting := ?_
        alone := ?_
        asleep := ?_ }
    · exact fun other owner reading => invariant.waiting other owner (others other owner reading).2
    · intro first second owner firstReads secondReads
      exact invariant.alone first second owner (others first owner firstReads).2
        (others second owner secondReads).2
    · intro other reading asleep
      obtain ⟨owner, reading⟩ := ne_none_iff_exists'.mp reading
      obtain ⟨ne, before⟩ := others other owner reading
      simp only [clearChan, setState, modify_of_ne _ _ ne] at asleep ⊢
      exact invariant.asleep other (by simp [before]) asleep
  · exact
      { known := bound
        ret := isOpen
        positive := positive
        count := count
        awake := update_self _ _ _
        sole := by
          intro other reading
          obtain ⟨ne, before⟩ := others other call reading
          exact ne (invariant.alone other slot call before reader)
        alive := by simpa [clearChan, setState] using alive }

/-- Every step keeps the line discipline. -/
theorem Invariant.step {event : Event} (regular : Regular state event)
    (stepped : step chan state event = some target) : target.Invariant chan := by
  cases event with
  | intr chars =>
    cases stepped
    exact invariant.consoleintr chars
  | read slot n =>
    obtain ⟨enabled, same⟩ := ite_none_right_eq_some.mp stepped
    cases same
    exact invariant.read enabled.2 regular.1 regular.2
  | resume slot =>
    obtain ⟨-, resumed⟩ := ite_none_right_eq_some.mp stepped
    obtain ⟨call, reader, same⟩ := map_eq_some_iff.mp resumed
    cases same
    exact invariant.resume reader regular
  | kill pid =>
    cases stepped
    apply invariant.setTable
    intro slot _ asleep
    obtain ⟨_, _, fields⟩ := state.table.kill_fields pid slot
    exact ⟨(state.table.kill_wakes pid).reflects asleep (by decide), by rw [fields]⟩
  | wakeup address =>
    cases stepped
    apply invariant.setTable
    intro slot _ asleep
    exact ⟨(state.table.wakeup1_wakes address).reflects asleep (by decide),
      by rw [wakeup1_apply]⟩
  | other outsider proc =>
    obtain ⟨idle, same⟩ := ite_none_right_eq_some.mp stepped
    cases same
    apply invariant.setTable
    intro slot reading asleep
    have ne : slot ≠ outsider := by
      rintro rfl
      exact reading idle
    rw [modify_of_ne _ _ ne] at asleep ⊢
    exact ⟨asleep, rfl⟩

end

end State

theorem invariant_boot (chan : Chan) (table : Ptable) : (boot table).Invariant chan where
  edits :=
    ⟨[], ⟨⟨rfl, rfl, le_refl _, Nat.zero_le _, fun index bound => absurd bound (by simp [boot])⟩,
      rfl, le_refl _⟩, fun _ => rfl, by simp⟩
  taken := rfl
  plain := by simp [boot]
  known := by simp [boot]
  served := by simp [boot]
  waiting := by simp [boot]
  alone := by simp [boot]
  asleep := by simp [boot]

/-- In every run the console keeps its discipline, and a character that erases
changes neither what is committed nor the part of the buffer it stands in. -/
theorem disciplined_of_run {chan : Chan} {table : Ptable} {events : List Event} {state : State}
    (regular : Along (State.step chan) Regular (boot table) events)
    (execution : run (State.step chan) (boot table) events = some state) :
    Disciplined state ∧ ∀ c, State.Erases c →
      (state.handle chan c).committed = state.committed ∧
      (state.handle chan c).input.r = state.input.r ∧
      (state.handle chan c).input.w = state.input.w ∧
      (state.handle chan c).input.between state.input.r state.input.w =
        state.input.between state.input.r state.input.w := by
  have invariant : state.Invariant chan :=
    run_invariant_of_along (State.Invariant chan) (invariant_boot chan table)
      (fun _ _ _ held condition stepped => held.step condition stepped) regular execution
  refine ⟨invariant.disciplined, ?_⟩
  intro c erases
  obtain ⟨e, echo, handle_eq⟩ := State.handle_of_erases erases chan state
  rw [handle_eq]
  exact ⟨rfl, rfl, rfl, rfl⟩

/-- A reader that sleeps is given a line with an erased character, and takes a
control-D as an empty read after the two bytes before it. -/
def eofRun : List Event :=
  [.read 0 4, .intr [97, 98, 8, 13], .resume 0, .intr [99, ctrl 'D'], .read 0 4, .read 0 4]

theorem disciplined_eofRun :
    ∃ state, run (State.step (.addr 128)) (boot fun _ => { Proc.zero with state := .running })
        eofRun = some state ∧
      state.log = [.byte 0 97, .byte 0 newline, .byte 1 99, .eof 2] ∧ Disciplined state := by
  obtain ⟨state, execution, log_eq⟩ : ∃ state ∈ run (State.step (.addr 128))
      (boot fun _ => { Proc.zero with state := .running }) eofRun,
      state.log = [.byte 0 97, .byte 0 newline, .byte 1 99, .eof 2] := by decide +kernel
  exact ⟨state, execution, log_eq, (disciplined_of_run (by decide +kernel) execution).1⟩

end Xv6.Console
