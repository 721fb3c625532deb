import Mathlib.Algebra.Order.BigOperators.Group.Finset
import Xv6.Buffer.Refinement

/-!
# When `bget` finds a buffer

A buffer that `bget` may not recycle is referenced by a process, or it is dirty because
the log has pinned it.  The references are those of the processes that have its lock and
of the processes that wait for it or are about to drop it.  A dirty buffer belongs to a
block in the header of the log: `commit` clears the header only after it has written
every such block.  So `bget` finds a buffer while the blocks in the header and the
references of the processes are fewer than the buffers.
-/

namespace Xv6.Buffers

open Function Xv6.Log Xv6.Custody Xv6.Transition List State

universe u

variable {P : Type u} [DecidableEq P]

/-- The blocks that a commit still writes to their home locations before it clears the header. -/
def installs (lh : Header) : List Stmt → List Blockno
  | [] => []
  | .commit :: rest => lh.block ++ installs lh rest
  | .installTrans tail :: rest => lh.block.drop tail ++ installs lh rest
  | .clear :: _ => []
  | .instr (.copy target _) :: rest => target :: installs lh rest
  | .instr (.bread _) :: rest | .instr .head :: rest | .instr (.brelse _) :: rest
  | .writeLog _ :: rest | .writeHead :: rest | .finish :: rest => installs lh rest

theorem mem_installs_expand {log : Area} {lh : Header} {stmt : Stmt} {rest : List Stmt}
    {blockno : Blockno} (isCall : stmt.isCall = true) (listed : blockno ∈ lh.block)
    (pending : blockno ∈ installs lh (stmt :: rest)) :
    blockno ∈ installs lh (expand log lh stmt ++ rest) := by
  cases stmt with
  | commit =>
    have some_listed : lh.block.length > 0 := length_pos_of_mem listed
    simp only [expand, if_pos some_listed, cons_append, installs, append_nil]
    exact listed
  | writeLog tail =>
    cases found : lh.block[tail]? with
    | none => simpa [expand, found, installs] using pending
    | some block =>
      simp only [expand, found] at pending ⊢
      exact mem_cons_of_mem _ pending
  | writeHead => simpa [expand, writeHeadBody, installs] using pending
  | installTrans tail =>
    cases found : lh.block[tail]? with
    | none =>
      have finished := getElem?_eq_none_iff.mp found
      simpa [expand, found, installs, drop_eq_nil_iff.mpr finished] using pending
    | some block =>
      obtain ⟨bound, rfl⟩ := List.getElem?_eq_some_iff.mp found
      simp only [installs, drop_eq_getElem_cons bound] at pending
      simp only [expand, found]
      exact pending
  | clear | finish | instr instr => contradiction

/-! ## Dirty buffers -/

namespace View

variable {view target : View P} {p : P} {pc : Pc} {b : Bufno} {buf : Buf P}

/-- No buffer gets dirty. -/
def Cleaner (view target : View P) : Prop :=
  ∀ b, (target.buf b).dirty = true →
    (view.buf b).dirty = true ∧ (target.buf b).blockno = (view.buf b).blockno

theorem cleaner_set
    (own : buf.dirty = true → (view.buf b).dirty = true ∧ buf.blockno = (view.buf b).blockno) :
    view.Cleaner (view.set p pc b buf) := by
  intro other
  rcases eq_or_ne other b with rfl | ne
  · rwa [buf_set_self]
  · rw [buf_set_of_ne ne]
    exact fun dirty => ⟨dirty, rfl⟩

/-- Only `log_write` makes a buffer dirty. -/
theorem cleaner_of_effect {store : Option (Blockno × Block)} (effect : Effect view p store target)
    (place : ∀ b, view.pc p ≠ .modified b) : view.Cleaner target := by
  cases effect with
  | quiet => exact fun _ dirty => ⟨dirty, rfl⟩
  | refer | lock | read | modify | unlock | drop =>
    exact cleaner_set fun dirty => ⟨dirty, rfl⟩
  | recycle => exact cleaner_set (by simp [recycle])
  | @write b data =>
    let buf := { view.buf b with data := data, dirty := false, valid := true }
    have cleaner : view.Cleaner (view.set p .idle b buf) := cleaner_set (by simp [buf])
    exact cleaner
  | pin modified => exact absurd modified (place _)

/-- A commit that writes a block leaves no dirty buffer for it. -/
theorem Coherent.blockno_ne_of_effect [Fintype P] {contents : Blockno → Block} {blockno : Blockno}
    {data : Block} (coherent : view.Coherent contents)
    (effect : Effect view p (some (blockno, data)) target)
    (place : ∀ b, target.pc p ≠ .modified b) (dirty : (target.buf b).dirty = true) :
    (target.buf b).blockno ≠ blockno := by
  cases effect with
  | modify => exact absurd pc_set_self (place _)
  | @write written _ idle locked =>
    rcases eq_or_ne b written with rfl | ne
    · simp at dirty
    · rw [buf_set_of_ne ne] at dirty ⊢
      exact coherent.blockno_ne ((coherent.sound written).locked (by simp [locked]))
        ((coherent.sound b).dirty dirty) ne

end View

namespace State

variable {state target : State P} {p : P} {b : Bufno} {log : Area} {disksize : Nat}

/-- The block of a dirty buffer is in the header, and a commit will still write it before it
clears the header. -/
def Listed (state : State P) : Prop :=
  ∀ b, (state.buf b).dirty = true → (state.buf b).blockno ∈ state.lh.block ∧
    ∀ p, (state.proc p).todo ≠ [] →
      (state.buf b).blockno ∈ installs state.lh (state.proc p).todo

namespace Listed

section

variable (listed : Listed state)

include listed

omit [DecidableEq P] in
theorem congr (cleaner : state.view.Cleaner target.view) (lh : target.lh = state.lh)
    (todo : ∀ q, (target.proc q).todo = (state.proc q).todo) : Listed target := by
  intro b dirty
  obtain ⟨was, blockno_eq⟩ := cleaner b dirty
  obtain ⟨mem, pending⟩ := listed b was
  rw [blockno_eq, lh]
  refine ⟨mem, fun q => ?_⟩
  rw [todo]
  exact pending q

/-- A commit goes on, and keeps the blocks of dirty buffers in what remains. -/
theorem setTodo {todo : List Stmt}
    (remains : ∀ b, (state.buf b).dirty = true → todo ≠ [] →
      (state.buf b).blockno ∈ installs state.lh todo) :
    Listed (state.setTodo p todo) := by
  intro b dirty
  obtain ⟨mem, pending⟩ := listed b dirty
  refine ⟨mem, fun q => ?_⟩
  by_cases eq : q = p
  · subst eq
    simp only [State.setTodo, update_self]
    exact remains b dirty
  · simp only [State.setTodo, update_of_ne eq]
    exact pending q

theorem logWrite (noTodo : ∀ q, (state.proc q).todo = []) : Listed (state.logWrite log p b) := by
  have todo (q : P) : ((state.logWrite log p b).proc q).todo = [] := noTodo_logWrite noTodo q
  rcases logWrite_cases log state p b with ⟨message, target_eq, -⟩ | ⟨lh, target_eq, mem, grown⟩
  · rw [target_eq]
    exact listed
  · intro other dirty
    refine ⟨?_, fun q busy => absurd (todo q) busy⟩
    rw [target_eq] at dirty ⊢
    by_cases eq : other = b
    · subst eq
      simpa [buf, setPc, setBuf, Bcache.set] using mem
    have was : (state.buf other).dirty = true := by
      simpa [buf, setPc, setBuf, Bcache.set, eq] using dirty
    have old := (listed other was).1
    have kept : (state.buf other).blockno ∈ lh.block := by
      rcases grown with rfl | ⟨-, block_eq, -⟩
      · exact old
      · rw [block_eq]
        exact mem_append_left _ old
    simpa [buf, setPc, setBuf, Bcache.set, eq] using kept

theorem endOp (settled : state.committing = false) : Listed (state.endOp p) := by
  have left : Listed (state.leaveOp p) := by
    exact listed.congr (fun _ dirty => ⟨dirty, rfl⟩) rfl (proc_update Proc.todo state (by rfl))
  rw [State.endOp, if_neg (by simp [settled])]
  split
  · have started : Listed { state.leaveOp p with committing := true } := left
    refine started.setTodo fun b dirty _ => ?_
    exact mem_append_left _ (listed b dirty).1
  · exact left

theorem taken [Fintype P] {contents : Blockno → Block} {event : Event P}
    (coherent : state.view.Coherent contents) (protocol : state.Protocol log)
    (taken : Taken log state event target) (alive : target.trap = none) : Listed target := by
  cases taken with
  | beginOp =>
    exact listed.congr (fun _ dirty => ⟨dirty, rfl⟩) rfl (proc_update Proc.todo state (by rfl))
  | operate stores place outcome =>
    exact listed.congr (View.cleaner_of_effect (outcome.effect.elim id id) place)
      outcome.sameLog.lh outcome.sameLog.todo
  | @modify p b place locked inOp home data =>
    have cleaner : state.view.Cleaner (state.view.set p (.modified b) b
        { state.buf b with data := data }) := View.cleaner_set fun dirty => ⟨dirty, rfl⟩
    exact listed.congr cleaner rfl (proc_update Proc.todo state (by rfl))
  | @logWrite p b modified =>
    obtain ⟨inOp, -⟩ := protocol.modified p b modified
    exact listed.logWrite (protocol.idle inOp).2
  | @endOp p free inOp => exact listed.endOp (protocol.idle inOp).1
  | @call p stmt rest todo isCall =>
    refine listed.setTodo fun b dirty _ => ?_
    obtain ⟨mem, pending⟩ := listed b dirty
    have before := pending p (by simp [todo])
    rw [todo] at before
    exact mem_installs_expand isCall mem before
  | @clear p rest todo =>
    intro b dirty
    -- nothing is pending behind the loop of `install_trans`
    have pending := (listed b dirty).2 p (by simp [todo])
    rw [todo] at pending
    exact absurd pending (not_mem_nil)
  | finish =>
    have ended : Listed { state with committing := false } := listed
    exact ended.setTodo fun _ _ busy => absurd rfl busy
  | @instr p instr rest store _ idle todo performs outcome =>
    have same := outcome.sameLog
    cases outcome with
    | stop => simp [stop] at alive
    | done effect calm =>
      rw [view_setTodo] at effect
      have place (b : Bufno) : state.pc p ≠ .modified b := by simp [idle]
      have place' (b : Bufno) : target.pc p ≠ .modified b := fun modified =>
        place b (congrFun (pc_setTodo state p rest) p ▸ calm p b modified)
      intro other dirty
      obtain ⟨was, blockno_eq⟩ := View.cleaner_of_effect effect place other dirty
      obtain ⟨mem, pending⟩ := listed other was
      rw [← blockno_eq] at mem pending
      rw [same.lh]
      refine ⟨mem, fun q busy => ?_⟩
      rw [same.todo] at busy ⊢
      by_cases mover : q = p
      · subst mover
        have before := pending q (by simp [todo])
        rw [todo] at before
        simp only [State.setTodo, update_self]
        cases performs with
        | bread | head | brelse => exact before
        | copy =>
          exact (mem_cons.mp before).resolve_left
            (coherent.blockno_ne_of_effect effect place' dirty)
      · have noTodo := protocol.noTodo (by simp [todo]) mover
        simp [State.setTodo, update_of_ne mover, noTodo] at busy

end

end Listed

/-! ## Room -/

/-- The references of the processes to buffers: locks, and calls that wait for a buffer or are
about to drop it. -/
def uses [Fintype P] (state : State P) : Nat :=
  (Finset.univ.filter fun b => (state.buf b).lock ≠ none).card +
    (Finset.univ.filter fun p => (state.pc p).pending ≠ none).card

/-- The blocks in the header of the log and the references of the processes are fewer than the
buffers. -/
def Room [Fintype P] (state : State P) : Prop :=
  state.lh.block.length + state.uses < nbuf

instance [Fintype P] (state : State P) : Decidable state.Room :=
  inferInstanceAs (Decidable (_ < _))

theorem Outcome.trap_ne {store : Option (Blockno × Block)} (outcome : Outcome state p store target)
    (found : state.bcache.victim ≠ none) (alive : state.trap ≠ some noBuffers) :
    target.trap ≠ some noBuffers := by
  cases outcome with
  | stop full => exact fun stopped => found (full (Option.some.inj stopped))
  | done _ _ _ trap => rwa [trap]

theorem trap_endOp (alive : state.trap ≠ some noBuffers) (p : P) :
    (state.endOp p).trap ≠ some noBuffers := by
  unfold endOp
  split
  · simp [stop, noBuffers]
  · split <;> exact alive

variable [Fintype P] {contents : Blockno → Block}

omit [DecidableEq P] in
theorem sum_refcnt (coherent : state.view.Coherent contents) :
    ∑ b, (state.buf b).refcnt = state.uses := by
  have owners : ∑ b, (state.buf b).owners =
      (Finset.univ.filter fun b => (state.buf b).lock ≠ none).card := by
    rw [Finset.card_filter]
    refine Finset.sum_congr rfl fun b _ => ?_
    by_cases free : (state.buf b).lock = none <;> simp [Buf.owners]
  have pending := sum_references fun p => (state.pc p).pending
  rw [uses, ← owners, ← pending, ← Finset.sum_add_distrib]
  exact Finset.sum_congr rfl fun b _ => coherent.counted b

omit [DecidableEq P] in
theorem victim_of_room (coherent : state.view.Coherent contents) (listed : Listed state)
    (room : state.Room) : state.bcache.victim ≠ none := by
  intro missing
  have taken (b : Bufno) : (state.buf b).refcnt ≠ 0 ∨ (state.buf b).dirty = true := by
    have kept := find?_eq_none.mp missing b (mem_reverse.mpr (state.bcache.lru.mem_order b))
    by_contra free
    obtain ⟨unused, clean⟩ := not_or.mp free
    exact kept (by simpa using And.intro (not_not.mp unused) (by simpa using clean))
  have referenced : (Finset.univ.filter fun b => (state.buf b).refcnt ≠ 0).card ≤ state.uses := by
    rw [← sum_refcnt coherent, Finset.card_filter]
    refine Finset.sum_le_sum fun b _ => ?_
    split <;> omega
  have pinned : (Finset.univ.filter fun b => (state.buf b).dirty = true).card ≤
      state.lh.block.length := by
    refine le_trans ?_ state.lh.block.toFinset_card_le
    refine Finset.card_le_card_of_injOn (fun b => (state.buf b).blockno) (fun b mem => ?_) ?_
    · simp only [Finset.coe_filter] at mem
      simpa using (listed b mem.2).1
    · intro first mem second mem' same
      simp only [Finset.coe_filter] at mem mem'
      by_contra ne
      exact coherent.blockno_ne ((coherent.sound second).dirty mem'.2)
        ((coherent.sound first).dirty mem.2) ne same
  have all : nbuf ≤ (Finset.univ.filter fun b => (state.buf b).refcnt ≠ 0).card +
      (Finset.univ.filter fun b => (state.buf b).dirty = true).card := by
    calc
      nbuf = (Finset.univ : Finset Bufno).card := (Finset.card_fin nbuf).symm
      _ ≤ ((Finset.univ.filter fun b => (state.buf b).refcnt ≠ 0) ∪
          Finset.univ.filter fun b => (state.buf b).dirty = true).card :=
        Finset.card_le_card fun b _ => by simpa using taken b
      _ ≤ _ := Finset.card_union_le ..
  unfold Room at room
  omega

/-! ## The panic -/

/-- With room in the cache no step panics in `bget`. -/
theorem trap_of_room {event : Event P} (coherent : state.view.Coherent contents)
    (listed : Listed state) (room : state.Room) (alive : state.trap ≠ some noBuffers)
    (taken : Taken log state event target) : target.trap ≠ some noBuffers := by
  have found := victim_of_room coherent listed room
  cases taken with
  | beginOp | modify | call | clear | finish => exact alive
  | operate stores place outcome | instr idle todo performs outcome =>
    exact outcome.trap_ne found alive
  | @logWrite p b modified =>
    rcases logWrite_cases log state p b with ⟨message, target_eq, other⟩ | ⟨lh, target_eq, -⟩
    · rw [target_eq]
      simpa [stop] using other
    · rw [target_eq]
      exact alive
  | endOp => exact trap_endOp alive _

/-- In a run whose steps are taken with room in the cache, `bget` always finds a buffer. -/
theorem trap_ne_noBuffers {disk : Disk} {events : List (Event P)}
    (along : Along (step disksize log) (fun state _ => state.Room) (boot disk) events)
    (execution : run (step disksize log) (boot disk) events = some state) :
    state.trap ≠ some noBuffers := by
  have all : (∃ contents, Refines log state contents) ∧
      (state.trap = none → Listed state) ∧ state.trap ≠ some noBuffers := by
    refine run_invariant_of_along (fun state => (∃ contents, Refines log state contents) ∧
      (state.trap = none → Listed state) ∧ state.trap ≠ some noBuffers) ?_ ?_ along execution
    · refine ⟨⟨disk, .boot log disk⟩, fun _ b dirty => ?_, by simp [boot]⟩
      simp [boot] at dirty
    · rintro state event target ⟨⟨contents, refines⟩, listed, alive⟩ room step_eq
      have running := alive_of_step step_eq
      have taken := refines.taken_of_step step_eq
      obtain ⟨contents', refines', -⟩ := refines.stepped step_eq
      have coherent := refines.coherent
      exact ⟨⟨contents', refines'⟩,
        fun alive' => (listed running).taken coherent refines.protocol taken alive',
        trap_of_room coherent (listed running) room alive taken⟩
  exact all.2.2

end State

end Xv6.Buffers
