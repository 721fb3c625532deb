import Xv6.Console.Core

/-!
# Line editing

The buffer represents the committed characters followed by the line under
editing, and the readers have taken a first part of the committed ones.  Editing
stays inside the line, and the line is empty whenever the buffer is full.
-/

namespace Xv6.Console

open Xv6.Process Xv6.Transition List RingBuffer

theorem inputBuf_lt : inputBuf < 2 ^ 32 := by decide

theorem inputBuf_dvd : inputBuf ∣ 2 ^ 32 := by decide

/-- The characters between `r` and `e` as a ring buffer. -/
def Input.ring (input : Input) : RingBuffer Byte inputBuf 32 := ⟨input.buf, input.r, input.e⟩

/-- The committed character behind a delivery. -/
def Delivery.symbol : Delivery → Byte
  | .byte _ c => c
  | .eof _ => ctrl 'D'

namespace State

variable {chan : Chan} {state : State} {line : List Byte}

/-! ## Editing -/

/-- The buffer holds the committed characters that have not been taken, followed
by `line`. -/
structure Holds (state : State) (line : List Byte) : Prop where
  ring : state.input.ring.Represents (state.committed ++ line) state.log.length
  w : state.input.w = BitVec.ofNat 32 state.committed.length
  taken : state.log.length ≤ state.committed.length

namespace Holds

section

variable (holds : state.Holds line)

include holds

theorem r : state.input.r = BitVec.ofNat 32 state.log.length :=
  holds.ring.nread

theorem e : state.input.e = BitVec.ofNat 32 (state.committed ++ line).length :=
  holds.ring.nwrite

theorem room : state.committed.length + line.length ≤ state.log.length + inputBuf := by
  have := holds.ring.room
  rwa [length_append] at this

/-- `w - r` counts the committed characters that wait for a reader. -/
theorem toNat_w_sub_r :
    (state.input.w - state.input.r).toNat = state.committed.length - state.log.length := by
  have := holds.room
  rw [holds.w, holds.r]
  exact toNat_ofNat_sub holds.taken (by omega) inputBuf_lt

/-- `e - r` counts the occupied cells. -/
theorem toNat_e_sub_r :
    (state.input.e - state.input.r).toNat =
      state.committed.length + line.length - state.log.length := by
  rw [← length_append]
  exact holds.ring.distance inputBuf_lt

theorem line_le : line.length ≤ inputBuf := by
  have room := holds.room
  have taken := holds.taken
  omega

/-- `e - w` is the length of the line. -/
theorem toNat_e_sub_w : (state.input.e - state.input.w).toNat = line.length := by
  have window := Nat.add_le_add_left holds.line_le state.committed.length
  rw [holds.e, holds.w, length_append,
    toNat_ofNat_sub (Nat.le_add_right _ _) window inputBuf_lt, Nat.add_sub_cancel_left]

theorem e_eq_w_iff : state.input.e = state.input.w ↔ line = [] := by
  have window := Nat.add_le_add_left holds.line_le state.committed.length
  rw [holds.e, holds.w, length_append]
  constructor
  · intro equal
    have := ofNat_inj_of_window (Nat.le_add_right _ _) window inputBuf_lt equal.symm
    exact length_eq_zero_iff.mp (by omega)
  · rintro rfl
    rfl

theorem r_eq_w_iff : state.input.r = state.input.w ↔ state.log.length = state.committed.length := by
  have := holds.room
  rw [holds.r, holds.w]
  constructor
  · exact ofNat_inj_of_window holds.taken (by omega) inputBuf_lt
  · intro equal
    rw [equal]

/-- The characters a reader can take, as they stand in the buffer. -/
theorem between_r_w :
    state.input.between state.input.r state.input.w = state.committed.drop state.log.length := by
  have window := holds.ring.window inputBuf_dvd (le_refl _)
    (show state.log.length + (state.committed.length - state.log.length) ≤ _ by
      have := holds.taken
      rw [length_append]
      omega)
  rw [Input.between, holds.toNat_w_sub_r, holds.r]
  refine window.trans ?_
  rw [drop_append_of_le_length holds.taken, take_left' (by rw [length_drop])]

/-- The line, as it stands in the buffer. -/
theorem between_w_e : state.input.between state.input.w state.input.e = line := by
  have window := holds.ring.window inputBuf_dvd holds.taken
    (show state.committed.length + line.length ≤ _ by rw [length_append])
  rw [Input.between, holds.toNat_e_sub_w, holds.w]
  refine window.trans ?_
  rw [drop_left, take_length]

end

/-- The character in front of `e` is the last one of the line. -/
theorem get_e_sub_one {last : Byte} (holds : state.Holds (line ++ [last])) :
    state.input.get (state.input.e - 1) = last := by
  have bound : state.committed.length + line.length <
      (state.committed ++ (line ++ [last])).length := by simp
  have content := holds.ring.content (state.committed.length + line.length) bound
    (Nat.le_add_right_of_le holds.taken)
  have e_eq : state.input.e - 1 =
      BitVec.ofNat 32 (state.committed.length + line.length) := by
    rw [holds.e, length_append, length_append, ← Nat.add_assoc, BitVec.ofNat_add]
    exact BitVec.add_sub_cancel _ _
  rw [Input.get, e_eq, cell_ofNat inputBuf_dvd]
  refine content.trans ?_
  simp [getElem_append_right]

theorem commit (holds : state.Holds line) :
    (state.commit chan).Holds [] ∧ (state.commit chan).committed = state.committed ++ line := by
  have committed_eq : (state.commit chan).committed = state.committed ++ line := by
    rw [State.commit, holds.between_w_e]
  refine ⟨⟨?_, ?_, ?_⟩, committed_eq⟩
  · rw [committed_eq, append_nil]
    exact holds.ring
  · rw [committed_eq]
    exact holds.e
  · rw [committed_eq, length_append]
    exact Nat.le_add_right_of_le holds.taken

end Holds

/-- `line` is the line under editing. -/
structure Edits (state : State) (line : List Byte) : Prop extends state.Holds line where
  full : (state.committed ++ line).length = state.log.length + inputBuf → line = []
  unbroken : newline ∉ line

namespace Edits

/-- Only the buffer and its history matter. -/
theorem of_eq (edits : state.Edits line) {target : State} (input_eq : target.input = state.input)
    (committed_eq : target.committed = state.committed) (log_eq : target.log = state.log) :
    target.Edits line where
  ring := by
    rw [input_eq, committed_eq, log_eq]
    exact edits.ring
  w := by
    rw [input_eq, committed_eq]
    exact edits.w
  taken := by
    rw [committed_eq, log_eq]
    exact edits.taken
  full := by
    rw [committed_eq, log_eq]
    exact edits.full
  unbroken := edits.unbroken

theorem eraseLast {last : Byte} (edits : state.Edits (line ++ [last])) :
    state.eraseLast.Edits line where
  ring := by
    have more : state.log.length < (state.committed ++ (line ++ [last])).length := by
      have := edits.taken
      simp only [length_append, length_singleton]
      omega
    have retracted := edits.ring.retract more
    rwa [← append_assoc, dropLast_concat] at retracted
  w := edits.w
  taken := edits.taken
  full := by
    intro isFull
    have := edits.room
    simp only [State.eraseLast, setInput, consputc, length_append, length_singleton] at isFull this
    omega
  unbroken := fun member => edits.unbroken (mem_append_left _ member)

section

variable (edits : state.Edits line)

include edits

/-- Control-U erases the whole line. -/
theorem killLine {fuel : Nat} (enough : fuel = line.length) : (state.killLine fuel).Edits [] := by
  induction fuel generalizing state line with
  | zero =>
    rw [length_eq_zero_iff.mp enough.symm] at edits
    exact edits
  | succ fuel ih =>
    have nonempty : line ≠ [] := ne_nil_of_length_eq_add_one enough.symm
    obtain ⟨rest, last, rfl⟩ : ∃ rest last, line = rest ++ [last] :=
      ⟨_, _, (dropLast_append_getLast nonempty).symm⟩
    have continues : state.input.e ≠ state.input.w ∧
        state.input.get (state.input.e - 1) ≠ newline := by
      refine ⟨mt edits.e_eq_w_iff.mp nonempty, ?_⟩
      rw [edits.get_e_sub_one]
      rintro rfl
      exact edits.unbroken (by simp)
    rw [State.killLine, if_pos continues]
    exact ih edits.eraseLast (by simpa using enough)

theorem eraseStep (c : Byte) : ∃ rest, (state.eraseStep c).Edits rest := by
  unfold State.eraseStep
  split
  · exact ⟨[], edits.killLine edits.toNat_e_sub_w⟩
  · split
    · rename_i more
      have nonempty := mt edits.e_eq_w_iff.mpr more
      rw [← dropLast_append_getLast nonempty] at edits
      exact ⟨_, edits.eraseLast⟩
    · exact ⟨line, edits⟩

/-- A stored character extends the line. -/
theorem store (space : (state.input.e - state.input.r).toNat < inputBuf) (c : Byte) :
    ((state.setInput (state.input.store c)).consputc c.toNat).Holds (line ++ [c]) where
  ring := by
    have notFull : ¬state.input.ring.Full := by
      have count := edits.toNat_e_sub_r
      rw [edits.ring.full_iff inputBuf_lt, length_append]
      omega
    have pushed := edits.ring.push inputBuf_lt inputBuf_dvd notFull c
    rwa [append_assoc] at pushed
  w := edits.w
  taken := edits.taken

/-- A character that is inserted commits the line or extends it. -/
theorem insert (space : (state.input.e - state.input.r).toNat < inputBuf) (c : Byte) :
    (state.insert chan c).Edits [] ∨ (state.insert chan c).Edits (line ++ [c]) := by
  have stored := edits.store space c
  unfold State.insert
  dsimp only
  split
  · exact .inl ⟨stored.commit.1, by simp, by simp⟩
  · rename_i noCommit
    rw [Commits, not_or, not_or] at noCommit
    refine .inr ⟨stored, ?_, ?_⟩
    · intro isFull
      refine absurd ?_ noCommit.2.2
      rw [stored.e, stored.r, isFull, BitVec.ofNat_add]
    · simpa [edits.unbroken] using Ne.symm noCommit.1

/-- Every character leaves a line under editing. -/
theorem handle (c : Byte) : ∃ line, (state.handle chan c).Edits line := by
  unfold State.handle
  split
  · exact ⟨line, edits⟩
  · split
    · exact edits.eraseStep c
    · split
      · rename_i accepted
        rcases edits.insert accepted.2 (if c = carriageReturn then newline else c) with
          committed | extended
        · exact ⟨[], committed⟩
        · exact ⟨_, extended⟩
      · exact ⟨line, edits⟩

/-- A reader takes the first committed character that is left. -/
theorem take (more : state.input.r ≠ state.input.w) {target : State} {delivery : Delivery}
    (input_eq : target.input = { state.input with r := state.input.r + 1 })
    (committed_eq : target.committed = state.committed)
    (log_eq : target.log = state.log ++ [delivery]) :
    target.Edits line ∧ target.committed.take target.log.length =
      state.committed.take state.log.length ++ [state.input.get state.input.r] := by
  have taken := edits.taken
  have room := edits.room
  have left : state.log.length < state.committed.length := by
    have := mt edits.r_eq_w_iff.mpr more
    omega
  have notEmpty : ¬state.input.ring.Empty := by
    rw [edits.ring.empty_iff inputBuf_lt, length_append]
    omega
  have length_eq : target.log.length = state.log.length + 1 := by rw [log_eq]; simp
  obtain ⟨popped, take_eq⟩ := edits.ring.pop inputBuf_lt inputBuf_dvd notEmpty
  constructor
  · refine ⟨⟨?_, ?_, ?_⟩, ?_, edits.unbroken⟩
    · rw [length_eq, committed_eq, input_eq]
      exact popped
    · rw [input_eq, committed_eq]
      exact edits.w
    · rw [length_eq, committed_eq]
      exact left
    · rw [committed_eq, length_append]
      omega
  · rw [take_append_of_le_length left, take_append_of_le_length taken] at take_eq
    rw [length_eq, committed_eq]
    exact take_eq

end

end Edits

/-! ## What a character can change -/

/-- The input record with another edit index, and further echo. -/
def edited (state : State) (e : BitVec 32) (echo : List Nat) : State :=
  { state with input := { state.input with e := e }, echo := echo }

theorem killLine_eq (fuel : Nat) (state : State) :
    ∃ e echo, state.killLine fuel = state.edited e echo := by
  induction fuel generalizing state with
  | zero => exact ⟨_, _, rfl⟩
  | succ fuel ih =>
    unfold killLine
    split
    · exact ih state.eraseLast
    · exact ⟨_, _, rfl⟩

/-- Erasing moves only the edit index. -/
theorem handle_of_erases {c : Byte} (erases : Erases c) (chan : Chan) (state : State) :
    ∃ e echo, state.handle chan c = state.edited e echo := by
  unfold handle
  split
  · exact ⟨_, _, rfl⟩
  · unfold eraseStep
    split
    · exact killLine_eq _ state
    · split <;> exact ⟨_, _, rfl⟩

/-- What a character can do: it edits, or it commits and wakes the readers. -/
inductive Handled (chan : Chan) (state : State) : State → Prop where
  | edit (input : Input) (echo : List Nat) :
      Handled chan state { state with input := input, echo := echo }
  | commit (input : Input) (echo : List Nat) (line : List Byte) :
      Handled chan state
        { state with
          input := input
          echo := echo
          committed := state.committed ++ line
          table := state.table.wakeup1 (some chan) }

theorem handled_insert (chan : Chan) (state : State) (c : Byte) :
    Handled chan state (state.insert chan c) := by
  unfold insert
  dsimp only
  split
  · exact .commit _ _ _
  · exact .edit _ _

theorem handled_handle (chan : Chan) (state : State) (c : Byte) :
    Handled chan state (state.handle chan c) := by
  by_cases erases : Erases c
  · obtain ⟨e, echo, handle_eq⟩ := handle_of_erases erases chan state
    rw [handle_eq]
    exact .edit _ _
  unfold handle
  split
  · exact .edit _ _
  · by_cases accepted : c ≠ 0 ∧ (state.input.e - state.input.r).toNat < inputBuf
    · rw [if_pos accepted]
      exact handled_insert chan state _
    · rw [if_neg accepted]
      exact .edit _ _

end State

end Xv6.Console
