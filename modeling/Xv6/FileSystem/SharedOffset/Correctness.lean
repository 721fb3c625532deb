import Mathlib.Algebra.BigOperators.Group.Finset.Basic
import Xv6.FileSystem.Chunks
import Xv6.FileSystem.SharedOffset.Core

/-!
# The shared offset loses no update

Whoever holds the lock of the inode writes at the end of the file, where the shared offset
is, and moves the offset to the new end before the lock is released.  So the file is the
concatenation of the pieces in the order of their sections, and the pieces of a call stay
in their order.
-/

namespace Xv6.FileSystem.SharedOffset

open Function Xv6.Transition List Phase
open Prog Volume

universe u

/-! ## The pieces of a call -/

/-- The data of a call, cut into the pieces that `filewrite` writes. -/
def cut (src : List Byte) : List (List Byte) :=
  if src = [] then [] else src.take writeChunk :: cut (src.drop writeChunk)
termination_by src.length
decreasing_by
  have chunk : writeChunk = 6656 := rfl
  have positive : 0 < src.length := List.length_pos_iff.mpr ‹_›
  rw [List.length_drop]
  omega

theorem cut_nil : cut [] = [] := by
  rw [cut, if_pos rfl]

theorem cut_of_ne {src : List Byte} (some : src ≠ []) :
    cut src = src.take writeChunk :: cut (src.drop writeChunk) := by
  rw [cut, if_neg some]

section Invariant

variable {P : Type u} [DecidableEq P]

/-- The items of a process in a history. -/
def ofProcess {α : Type} (p : P) (history : List (P × α)) : List α :=
  (history.filter fun item => item.1 = p).map Prod.snd

theorem ofProcess_concat {α : Type} (p q : P) (history : List (P × α)) (item : α) :
    ofProcess p (history ++ [(q, item)]) = ofProcess p history ++ if q = p then [item] else [] := by
  unfold ofProcess
  by_cases same : q = p <;> simp [same]

namespace State

/-- The number of bytes of all calls. -/
def total (state : State P) : Nat :=
  (state.calls.map fun call => call.2.length).sum

end State

/-- The file in a slot that is in use. -/
structure InUse (ip : Islot) (inum : Nat) (fs : Fs) : Prop where
  sound : Sound fs
  whole : Whole fs
  used : 0 < (fs.icache ip).ref
  named : (fs.icache ip).inum = inum
  isFile : (fs.inodes inum).type = .file

/-- What holds in every state as long as the data fits into a file. -/
structure Valid (ip : Islot) (inum : Nat) (state : State P) : Prop where
  inUse : InUse ip inum state.fs
  writable : state.file.writable = true
  locked : ∀ p, (state.phase p).Holds → (state.fs.icache ip).locked = true
  alone : ∀ p q, (state.phase p).Holds → (state.phase q).Holds → p = q
  some : ∀ p src, state.phase p = .outside src ∨ state.phase p = .inside src → src ≠ []
  succeeds : ∀ p rest, state.phase p ≠ .leaving rest false
  offset : state.file.off = (state.fs.inodes inum).size
  contents : state.fs.volume.contents inum = (state.pieces.map Prod.snd).flatten
  order : ∀ p, ofProcess p state.pieces ++ cut (state.phase p).rest =
    (ofProcess p state.calls).flatMap cut
  pending : ∃ active : Finset P, (∀ p ∉ active, (state.phase p).rest = []) ∧
    state.total = state.file.off + ∑ p ∈ active, (state.phase p).rest.length
  returned : ∀ call ∈ state.returned, call.2 = true

variable {ip : Islot} {inum : Nat} {state target : State P} {p : P}

/-- The data that is not yet written when one process goes on. -/
theorem sum_rest_update {phase : P → Phase} {active : Finset P}
    (others : ∀ q ∉ active, (phase q).rest = []) (p : P) (next : Phase) :
    (∀ q ∉ insert p active, (update phase p next q).rest = []) ∧
      ∑ q ∈ insert p active, (update phase p next q).rest.length + (phase p).rest.length =
        ∑ q ∈ active, (phase q).rest.length + next.rest.length := by
  constructor
  · intro q outside
    obtain ⟨ne, notIn⟩ := not_or.mp (mt Finset.mem_insert.mpr outside)
    rw [update_of_ne ne]
    exact others q notIn
  · have same : ∑ q ∈ active, (phase q).rest.length =
        ∑ q ∈ insert p active, (phase q).rest.length :=
      (Finset.sum_insert_of_eq_zero_if_notMem fun notIn => by rw [others p notIn]; rfl).symm
    have rest : ∑ q ∈ (insert p active).erase p, (update phase p next q).rest.length =
        ∑ q ∈ (insert p active).erase p, (phase q).rest.length := by
      refine Finset.sum_congr rfl fun q member => ?_
      rw [update_of_ne (Finset.ne_of_mem_erase member)]
    rw [same, ← Finset.add_sum_erase _ _ (Finset.mem_insert_self p active),
      ← Finset.add_sum_erase _ (fun q => (phase q).rest.length) (Finset.mem_insert_self p active),
      update_self]
    omega

/-! ## The file -/

namespace InUse

variable {fs after : Fs}

section

variable (inUse : InUse ip inum fs)

include inUse

theorem ilock (ran : Runs (FileSystem.ilock ip) fs () after) :
    InUse ip inum after ∧ after.volume = fs.volume ∧ (fs.icache ip).locked = false ∧
      (after.icache ip).locked = true := by
  obtain ⟨used, -, isLocked, inum_eq, -, -, volume_eq⟩ := inUse.whole.locked_eq ran
  have type_eq : (after.inodes inum).type = .file :=
    (congrArg (fun volume => (volume.nodes inum).type) volume_eq).trans inUse.isFile
  exact ⟨⟨inUse.sound.op (.lock ip ran), inUse.whole.ilock ran, used, inum_eq.trans inUse.named,
    type_eq⟩, volume_eq, (runs_ilock.mp ran).2.1, isLocked⟩

theorem iunlock (ran : Runs (FileSystem.iunlock ip) fs () after) :
    InUse ip inum after ∧ after.volume = fs.volume := by
  have sound := inUse.sound.op (.unlock ip ran)
  have whole := inUse.whole.iunlock ran
  obtain ⟨-, -, rfl⟩ := runs_iunlock.mp ran
  refine ⟨⟨sound, whole, ?_, ?_, inUse.isFile⟩, rfl⟩
  · rw [Fs.icache_setInode_self]
    exact inUse.used
  · rw [Fs.icache_setInode_self]
    exact inUse.named

/-- Bytes are appended to the file. -/
theorem writei (isLocked : (fs.icache ip).locked = true) {off : Nat} {src : List Byte}
    (atEnd : off = (fs.inodes inum).size) (fits : off + src.length ≤ maxfile * bsize)
    {written : Option Nat} (ran : Runs (FileSystem.writei ip off src) fs written after) :
    written = some src.length ∧ InUse ip inum after ∧ (after.icache ip).locked = true ∧
      (after.inodes inum).size = off + src.length ∧
      after.volume.contents inum = fs.volume.contents inum ++ src := by
  have clean := inUse.whole.clean ip inUse.used (inUse.sound.valid isLocked)
  rw [inUse.named] at clean
  have type_eq : (fs.icache ip).type = .file := clean ▸ inUse.isFile
  have size_eq : (fs.icache ip).size = off := by rw [clean, atEnd]
  have file : ByteFile fs ip :=
    inUse.whole.byteFile inUse.used (inUse.sound.valid isLocked) (.inl type_eq)
  have accepted : ¬Refused (fs.icache ip).size off src.length := by
    rw [refused_iff (Nat.le_of_eq size_eq.symm)]
    omega
  have rewritten := (file.writei off src).of_runs ran
  rw [if_neg accepted] at rewritten
  obtain ⟨rfl, rewritten⟩ := rewritten
  have notDir : (fs.icache ip).type ≠ .dir := by simp [type_eq]
  have sound := inUse.sound.op (.write ip off src _ isLocked notDir ran)
  obtain ⟨addrs, inode_eq⟩ := rewritten.inode
  have after_inum : (after.icache ip).inum = inum := by
    rw [inode_eq]
    exact inUse.named
  have node := rewritten.file.clean
  rw [after_inum, inode_eq] at node
  refine ⟨rfl, ⟨sound, inUse.whole.writei inUse.sound isLocked ran, ?_, after_inum, ?_⟩, ?_, ?_, ?_⟩
  · rw [inode_eq]
    exact inUse.used
  · rw [← node]
    exact type_eq
  · rw [inode_eq]
    exact isLocked
  · rw [← node, size_eq]
    exact Nat.max_eq_right (Nat.le_add_right ..)
  · have length : (fs.volume.contents inum).length = off := by
      rw [length_contents, atEnd]
      rfl
    have contents := rewritten.contents
    rw [inUse.named] at contents
    rw [contents, take_of_length_le (Nat.le_of_eq length),
      drop_of_length_le (by rw [length]; exact Nat.le_add_right ..), append_nil]

end

end InUse

/-! ## The processes -/

namespace Valid

section

variable (valid : Valid ip inum state)

include valid

/-- A process goes on without the lock, or as the only one that has it. -/
theorem moves (p : P) (next : Phase) {locked : Bool}
    (keeps : ∀ q ≠ p, (state.phase q).Holds → locked = true ∧ ¬next.Holds)
    (own : next.Holds → locked = true) :
    (∀ q, (update state.phase p next q).Holds → locked = true) ∧
      ∀ q r, (update state.phase p next q).Holds → (update state.phase p next r).Holds → q = r := by
  have cases q (holds : (update state.phase p next q).Holds) : q = p ∧ next.Holds ∨ q ≠ p ∧
      (state.phase q).Holds := by
    by_cases same : q = p
    · rw [same, update_self] at holds
      exact .inl ⟨same, holds⟩
    · rw [update_of_ne same] at holds
      exact .inr ⟨same, holds⟩
  constructor
  · intro q holds
    rcases cases q holds with ⟨-, holds⟩ | ⟨ne, holds⟩
    · exact own holds
    · exact (keeps q ne holds).1
  · intro q r holds other
    rcases cases q holds with ⟨rfl, takes⟩ | ⟨ne, has⟩
    · rcases cases r other with ⟨rfl, -⟩ | ⟨ne, has⟩
      · rfl
      · exact absurd takes (keeps r ne has).2
    · rcases cases r other with ⟨rfl, takes⟩ | ⟨-, otherHas⟩
      · exact absurd takes (keeps q ne has).2
      · exact valid.alone q r has otherHas

/-- Data that is not yet written is not empty. -/
theorem some_update (p : P) {next : Phase}
    (own : ∀ src, next = .outside src ∨ next = .inside src → src ≠ []) (q : P) (src : List Byte)
    (at_q : update state.phase p next q = .outside src ∨
      update state.phase p next q = .inside src) :
    src ≠ [] := by
  by_cases same : q = p
  · rw [same, update_self] at at_q
    exact own src at_q
  · rw [update_of_ne same] at at_q
    exact valid.some q src at_q

theorem succeeds_update (p : P) {next : Phase} (own : ∀ rest, next ≠ .leaving rest false) (q : P)
    (rest : List Byte) : update state.phase p next q ≠ .leaving rest false := by
  by_cases same : q = p
  · rw [same, update_self]
    exact own rest
  · rw [update_of_ne same]
    exact valid.succeeds q rest

/-- A process goes on with the same data. -/
theorem of_same_rest {fs : Fs} {next : Phase} (inUse : InUse ip inum fs)
    (volume_eq : fs.volume = state.fs.volume) (rest : next.rest = (state.phase p).rest)
    (keeps : ∀ q ≠ p, (state.phase q).Holds → (fs.icache ip).locked = true ∧ ¬next.Holds)
    (own : next.Holds → (fs.icache ip).locked = true)
    (some : ∀ src, next = .outside src ∨ next = .inside src → src ≠ [])
    (succeeds : ∀ rest, next ≠ .leaving rest false) :
    Valid ip inum ({ state with fs := fs }.setPhase p next) := by
  have rests q : (update state.phase p next q).rest = (state.phase q).rest := by
    by_cases same : q = p
    · rw [same, update_self, rest]
    · rw [update_of_ne same]
  have size_eq : (fs.inodes inum).size = (state.fs.inodes inum).size :=
    congrArg (fun volume => (volume.nodes inum).size) volume_eq
  obtain ⟨locked, alone⟩ := valid.moves p next keeps own
  refine ⟨inUse, valid.writable, locked, alone, valid.some_update p some,
    valid.succeeds_update p succeeds, valid.offset.trans size_eq.symm, ?_, ?_, ?_, valid.returned⟩
  · have contents_eq : fs.volume.contents inum = state.fs.volume.contents inum := by
      rw [volume_eq]
    exact contents_eq.trans valid.contents
  · intro q
    have order := valid.order q
    rw [← rests q] at order
    exact order
  · obtain ⟨active, others, total⟩ := valid.pending
    refine ⟨active, fun q notIn => ?_, ?_⟩
    · exact (rests q).trans (others q notIn)
    · refine total.trans (congrArg (state.file.off + ·) (Finset.sum_congr rfl fun q _ => ?_))
      rw [← rests q]
      rfl

theorem ilock {src : List Byte} {fs : Fs} (at_p : state.phase p = .outside src)
    (ran : Runs (FileSystem.ilock ip) state.fs () fs) :
    Valid ip inum ({ state with fs := fs }.setPhase p (.inside src)) := by
  obtain ⟨inUse, volume_eq, free, isLocked⟩ := valid.inUse.ilock ran
  refine valid.of_same_rest inUse volume_eq ?_ ?_ (fun _ => isLocked) ?_ (by simp)
  · rw [at_p]
    rfl
  · intro q _ holds
    rw [valid.locked q holds] at free
    cases free
  · intro other same
    rcases same with same | same
    · cases same
    · cases same
      exact valid.some p src (.inl at_p)

theorem iunlock {rest : List Byte} {ok : Bool} {fs : Fs} (at_p : state.phase p = .leaving rest ok)
    (ran : Runs (FileSystem.iunlock ip) state.fs () fs) :
    Valid ip inum ({ state with fs := fs }.setPhase p (.resume rest)) := by
  obtain ⟨inUse, volume_eq⟩ := valid.inUse.iunlock ran
  have holds : (state.phase p).Holds := by
    rw [at_p]
    trivial
  refine valid.of_same_rest inUse volume_eq ?_ ?_ (fun takes => absurd takes not_holds_resume)
    (fun _ => some_of_resume) fun _ => resume_ne_leaving
  · rw [at_p, rest_resume]
    rfl
  · intro q ne has
    exact absurd (valid.alone q p has holds) ne

/-- A call begins. -/
theorem filewrite (src : List Byte) (at_p : state.phase p = .idle) :
    Valid ip inum ({ state with calls := state.calls ++ [(p, src)] }.setPhase p (.resume src)) := by
  obtain ⟨locked, alone⟩ := valid.moves p (.resume src)
    (fun q _ has => ⟨valid.locked q has, not_holds_resume⟩)
    fun takes => absurd takes not_holds_resume
  refine ⟨valid.inUse, valid.writable, locked, alone, valid.some_update p fun _ => some_of_resume,
    valid.succeeds_update p fun _ => resume_ne_leaving, valid.offset, valid.contents, ?_, ?_,
    valid.returned⟩
  · intro q
    have order := valid.order q
    change ofProcess q state.pieces ++ cut (update state.phase p (.resume src) q).rest =
      (ofProcess q (state.calls ++ [(p, src)])).flatMap cut
    rw [ofProcess_concat]
    by_cases same : q = p
    · subst same
      rw [at_p, rest, cut_nil] at order
      rw [update_self, rest_resume, flatMap_append, ← order]
      simp
    · rw [update_of_ne same, if_neg (Ne.symm same), append_nil]
      exact order
  · obtain ⟨active, others, total⟩ := valid.pending
    obtain ⟨others', sum_eq⟩ := sum_rest_update others p (.resume src)
    rw [at_p, rest_resume, rest, length_nil, Nat.add_zero] at sum_eq
    refine ⟨insert p active, others', ?_⟩
    change ((state.calls ++ [(p, src)]).map fun call => call.2.length).sum =
      state.file.off + ∑ q ∈ insert p active, (update state.phase p (.resume src) q).rest.length
    rw [map_append, sum_append, sum_eq, ← Nat.add_assoc, ← total]
    rfl

/-- The data that a process has not yet written fits into the file. -/
theorem rest_fits (p : P) : state.file.off + (state.phase p).rest.length ≤ state.total := by
  obtain ⟨active, others, total⟩ := valid.pending
  rw [total]
  by_cases member : p ∈ active
  · rw [← Finset.add_sum_erase _ _ member]
    omega
  · rw [others p member]
    exact Nat.le_add_right ..

/-- A piece is written at the shared offset. -/
theorem writei (fits : state.total ≤ maxfile * bsize) {src : List Byte} {written : Option Nat}
    {fs : Fs} (at_p : state.phase p = .inside src)
    (ran : Runs (FileSystem.writei ip state.file.off (src.take writeChunk)) state.fs written fs) :
    written = .some (min src.length writeChunk) ∧
      Valid ip inum ({ state with
        fs := fs
        file := state.file.advance (min src.length writeChunk)
        pieces := state.pieces ++ [(p, src.take writeChunk)] }.setPhase p
          (.leaving (src.drop writeChunk) true)) := by
  have holds : (state.phase p).Holds := by
    rw [at_p]
    trivial
  have some : src ≠ [] := valid.some p src (.inr at_p)
  have room := valid.rest_fits p
  rw [at_p, rest] at room
  have taken : (src.take writeChunk).length = min src.length writeChunk := by
    rw [length_take, Nat.min_comm]
  obtain ⟨rfl, inUse, isLocked, size_eq, contents_eq⟩ :=
    valid.inUse.writei (valid.locked p holds) valid.offset (by omega) ran
  rw [taken] at size_eq
  refine ⟨congrArg Option.some taken, ?_⟩
  have off_eq : (state.file.advance (min src.length writeChunk)).off =
      state.file.off + min src.length writeChunk := by
    have maxfile_eq : maxfile * bsize = 71680 := rfl
    exact Nat.mod_eq_of_lt (by omega)
  obtain ⟨locked, alone⟩ := valid.moves p (.leaving (src.drop writeChunk) true)
    (fun q ne has => absurd (valid.alone q p has holds) ne) fun _ => isLocked
  refine ⟨inUse, valid.writable, locked, alone, valid.some_update p (by simp),
    valid.succeeds_update p (by simp), off_eq.trans size_eq.symm, ?_, ?_, ?_, valid.returned⟩
  · refine contents_eq.trans ?_
    rw [valid.contents]
    simp [State.setPhase]
  · intro q
    have order := valid.order q
    change ofProcess q (state.pieces ++ [(p, src.take writeChunk)]) ++ cut (update
      state.phase p (.leaving (src.drop writeChunk) true) q).rest = _
    rw [ofProcess_concat]
    by_cases same : q = p
    · subst same
      rw [at_p, rest, cut_of_ne some] at order
      rw [update_self, if_pos rfl, append_assoc]
      exact order
    · rw [update_of_ne same, if_neg (Ne.symm same), append_nil]
      exact order
  · obtain ⟨active, others, total⟩ := valid.pending
    obtain ⟨others', sum_eq⟩ :=
      sum_rest_update others p (.leaving (src.drop writeChunk) true)
    refine ⟨insert p active, others', ?_⟩
    rw [at_p, rest, rest, length_drop] at sum_eq
    change state.total = (state.file.advance (min src.length writeChunk)).off +
      ∑ q ∈ insert p active,
        (update state.phase p (.leaving (src.drop writeChunk) true) q).rest.length
    omega

end

/-- A call returns. -/
theorem finish (valid : Valid ip inum (state.setPhase p .idle)) :
    Valid ip inum (state.finish p true) := by
  refine { valid with returned := fun call member => ?_ }
  rcases mem_append.mp member with earlier | now
  · exact valid.returned call earlier
  · rw [mem_singleton.mp now]

theorem step (valid : Valid ip inum state) {event : Event P} (fits : state.total ≤ maxfile * bsize)
    (stepped : SharedOffset.step ip state event = .some target) : Valid ip inum target := by
  cases event with
  | filewrite p src =>
    simp only [SharedOffset.step, valid.writable, Bool.true_eq_false, if_false] at stepped
    split at stepped
    · rename_i at_p
      have called := valid.filewrite src at_p
      unfold resume at called
      split at stepped
      · rename_i none
        rw [if_pos none] at called
        cases stepped
        exact called.finish
      · rename_i some
        rw [if_neg some] at called
        cases stepped
        exact called
    · cases stepped
  | ilock p =>
    simp only [SharedOffset.step] at stepped
    split at stepped
    · rename_i src at_p
      obtain ⟨_, fs, ran, next⟩ := attempt_eq_some_iff.mp stepped
      cases next
      exact valid.ilock at_p ran
    · cases stepped
  | writei p =>
    simp only [SharedOffset.step] at stepped
    split at stepped
    · rename_i src at_p
      obtain ⟨written, fs, ran, next⟩ := attempt_eq_some_iff.mp stepped
      obtain ⟨rfl, valid'⟩ := valid.writei fits at_p ran
      simp only [if_true] at next
      cases next
      exact valid'
    · cases stepped
  | iunlock p =>
    simp only [SharedOffset.step] at stepped
    split at stepped
    · rename_i rest ok at_p
      obtain ⟨_, fs, ran, next⟩ := attempt_eq_some_iff.mp stepped
      have left := valid.iunlock at_p ran
      unfold resume at left
      obtain rfl : ok = true := by
        cases ok with
        | true => rfl
        | false => exact absurd at_p (valid.succeeds p rest)
      split at next
      · rename_i none
        rw [if_pos none] at left
        cases next
        exact left.finish
      · rename_i some
        rw [if_neg some] at left
        cases next
        exact left
    · cases stepped

end Valid

/-- The bytes of all calls only become more. -/
theorem total_le_of_step {event : Event P} (stepped : step ip state event = some target) :
    state.total ≤ target.total := by
  cases event with
  | filewrite p src =>
    simp only [step] at stepped
    have called : state.total ≤
        ((state.calls ++ [(p, src)]).map fun call => call.2.length).sum := by
      rw [map_append, sum_append]
      exact Nat.le_add_right ..
    split at stepped
    · split at stepped
      · cases stepped
        exact called
      · split at stepped
        · cases stepped
          exact called
        · cases stepped
          exact called
    · cases stepped
  | ilock p =>
    simp only [step] at stepped
    split at stepped
    · obtain ⟨_, fs, -, next⟩ := attempt_eq_some_iff.mp stepped
      cases next
      exact Nat.le_refl _
    · cases stepped
  | writei p =>
    simp only [step] at stepped
    split at stepped
    · obtain ⟨written, fs, -, next⟩ := attempt_eq_some_iff.mp stepped
      split at next
      · cases next
        exact Nat.le_refl _
      · split at next
        · cases next
          exact Nat.le_refl _
        · cases next
    · cases stepped
  | iunlock p =>
    simp only [step] at stepped
    split at stepped
    · obtain ⟨_, fs, -, next⟩ := attempt_eq_some_iff.mp stepped
      split at next
      · cases next
        exact Nat.le_refl _
      · cases next
        exact Nat.le_refl _
    · cases stepped

/-! ## Runs -/

/-- An empty file that is open for writing, before any process has called `filewrite`. -/
structure Fresh (ip : Islot) (fs : Fs) (file : File) : Prop where
  inUse : InUse ip (fs.icache ip).inum fs
  empty : (fs.inodes (fs.icache ip).inum).size = 0
  writable : file.writable = true
  off : file.off = 0

theorem Fresh.valid {fs : Fs} {file : File} (fresh : Fresh ip fs file) :
    Valid ip (fs.icache ip).inum (start P fs file) := by
  refine ⟨fresh.inUse, fresh.writable, fun _ => False.elim, fun _ _ => False.elim, by simp [start],
    by simp [start], ?_, ?_, fun p => ?_, ⟨∅, fun _ _ => rfl, ?_⟩, by simp [start]⟩
  · exact fresh.off.trans fresh.empty.symm
  · have length : (fs.volume.contents (fs.icache ip).inum).length = 0 := by
      rw [length_contents]
      exact fresh.empty
    exact length_eq_zero_iff.mp length
  · simp [start, ofProcess, rest, cut_nil]
  · simp [start, State.total, fresh.off]

/-- The file after some pieces: the contents are the pieces in the order in which they were
written, every call has written its pieces in their order, and no call fails. -/
structure Concatenated (inum : Nat) (state : State P) : Prop where
  size : (state.fs.inodes inum).size = (state.pieces.map fun piece => piece.2.length).sum
  off : state.file.off = (state.pieces.map fun piece => piece.2.length).sum
  contents : state.fs.volume.contents inum = (state.pieces.map Prod.snd).flatten
  order : ∀ p, ofProcess p state.pieces ++ cut (state.phase p).rest =
    (ofProcess p state.calls).flatMap cut
  finished : (∀ p, state.phase p = .idle) →
    (state.fs.inodes inum).size = state.total ∧ state.file.off = state.total
  returned : ∀ call ∈ state.returned, call.2 = true

theorem Valid.concatenated (valid : Valid ip inum state) : Concatenated inum state := by
  have size : (state.fs.inodes inum).size =
      (state.pieces.map fun piece => piece.2.length).sum := by
    have length := congrArg length valid.contents
    rw [length_contents, length_flatten, map_map] at length
    exact length
  refine ⟨size, valid.offset.trans size, valid.contents, valid.order, fun finished => ?_,
    valid.returned⟩
  obtain ⟨active, -, total⟩ := valid.pending
  have none : ∑ p ∈ active, (state.phase p).rest.length = 0 :=
    Finset.sum_eq_zero fun p _ => by rw [finished p]; rfl
  rw [none] at total
  exact ⟨valid.offset.symm.trans total.symm, total.symm⟩

/-- No write to a shared file is lost: as long as the data of all calls fits into a file, the
pieces follow each other in the order of their sections. -/
theorem concatenated_of_reachable {fs : Fs} {file : File} (fresh : Fresh ip fs file)
    (reach : Reachable (step ip) (start P fs file) state)
    (fits : state.total ≤ maxfile * bsize) : Concatenated (fs.icache ip).inum state := by
  have invariant : state.total ≤ maxfile * bsize → Valid ip (fs.icache ip).inum state :=
    reach.invariant
      (fun state => state.total ≤ maxfile * bsize → Valid ip (fs.icache ip).inum state)
      (fun _ => fresh.valid) fun state event target valid stepped fits => by
        have before := (total_le_of_step stepped).trans fits
        exact (valid before).step before stepped
  exact (invariant fits).concatenated

end Invariant

/-- Two processes write to a new file; the second one is first to get the lock. -/
def twoWriters : List (Event Bool) :=
  [.filewrite true [1, 2], .filewrite false [3], .ilock false, .writei false, .iunlock false,
    .ilock true, .writei true, .iunlock true]

theorem concatenated_twoWriters :
    ∃ (kernel : Kernel) (state : State Bool), Fresh 1 kernel.fs (kernel.ftable firstFile) ∧
      run (step 1) (start Bool kernel.fs (kernel.ftable firstFile)) twoWriters = some state ∧
      state.pieces = [(false, [3]), (true, [1, 2])] ∧
      Concatenated (kernel.fs.icache 1).inum state := by
  obtain ⟨kernel, execution, state, run_eq, pieces, total⟩ :
    ∃ kernel ∈ run FileSystem.step (boot emptyImage) createFile,
      ∃ state ∈ run (step 1) (start Bool kernel.fs (kernel.ftable firstFile)) twoWriters,
        state.pieces = [(false, [3]), (true, [1, 2])] ∧ state.total = 3 := by decide +kernel
  obtain ⟨writing, off, empty⟩ := writing_createFile execution
  have fresh : Fresh 1 kernel.fs (kernel.ftable firstFile) :=
    ⟨⟨writing.sound, writing.whole, writing.used, rfl, writing.isFile⟩, empty, writing.writable,
      off⟩
  exact ⟨kernel, state, fresh, run_eq, pieces,
    concatenated_of_reachable fresh (.of_run run_eq) (by rw [total]; decide)⟩

end Xv6.FileSystem.SharedOffset
