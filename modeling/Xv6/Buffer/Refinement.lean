import Xv6.Buffer.Protocol

/-!
# The buffer cache refines the disk

Every step keeps the contents of the blocks outside of the log, except that a
process of an operation stores to the block whose buffer it holds.  So whoever has
got a buffer from `bread` finds in it what was stored last.  A buffer that was
passed to `log_write` stays the buffer of its block until `install_trans` writes it,
and no block outside of the log changes on the disk before the header is written.
-/

namespace Xv6.Buffers

open Function Xv6.Log Xv6.Redo Xv6.Custody Xv6.Transition Option State

universe u

variable {P : Type u} [DecidableEq P]

/-- What the blocks hold after the stores of a run. -/
def stored (disk : Disk) (events : List (Event P)) : Disk :=
  replay disk (events.filterMap Event.stores)

namespace State

variable {state target : State P} {p : P} {b : Bufno} {log : Area} {disksize : Nat}

namespace Refines

variable [Fintype P] {contents : Blockno → Block}

theorem taken_of_step {event : Event P} (refines : Refines log state contents)
    (step_eq : step disksize log state event = some target) : Taken log state event target :=
  State.taken_of_step (fun b => (refines.coherent.sound b).clean) step_eq

/-- A step stores what its event says, and nothing else outside of the log. -/
theorem stepped {event : Event P} (refines : Refines log state contents)
    (step_eq : step disksize log state event = some target) :
    ∃ contents', Refines log target contents' ∧ ∀ blockno, ¬log.Contains blockno →
      contents' blockno = replay contents event.stores.toList blockno := by
  have alive := alive_of_step step_eq
  have protocol := refines.protocol
  cases refines.taken_of_step step_eq with
  | beginOp outside settled =>
    exact ⟨_, refines.operate alive settled (by simp [outside]) (by simp), fun _ _ => rfl⟩
  | operate stores place outcome =>
    rw [stores]
    exact ⟨_, refines.call alive outcome, fun _ _ => rfl⟩
  | modify place locked inOp home data =>
    exact ⟨_, refines.modify place locked inOp home data, fun _ _ => rfl⟩
  | logWrite modified => exact ⟨_, refines.logWrite modified, fun _ _ => rfl⟩
  | endOp free inOp => exact ⟨_, refines.endOp alive free inOp, fun _ _ => rfl⟩
  | @call p stmt rest todo isCall =>
    have busy : (state.proc p).todo ≠ [] := by simp [todo]
    refine ⟨_, refines.proceed protocol.transaction protocol.settled
      (fun q ne => protocol.noTodo busy ne) (fun _ => protocol.committer p busy) ?_, fun _ _ => rfl⟩
    rw [flatten_expand log state.lh isCall, ← todo]
    exact refines.safe alive p
  | @clear p rest todo =>
    have busy : (state.proc p).todo ≠ [] := by simp [todo]
    have safe := refines.safe alive p
    rw [todo] at safe
    exact ⟨_, refines.proceed (fun nonempty => absurd rfl nonempty) protocol.settled
      (fun q ne => protocol.noTodo busy ne) (fun _ => protocol.committer p busy) safe,
      fun _ _ => rfl⟩
  | finish todo =>
    exact ⟨_, refines.proceed protocol.transaction (by simp)
      (fun q ne => protocol.noTodo (by simp [todo]) ne) (by simp) trivial, fun _ _ => rfl⟩
  | @instr p instr rest store _ idle todo performs outcome =>
    have safe := refines.safe alive p
    rw [todo] at safe
    cases performs with
    | bread | brelse => exact ⟨_, (refines.instr todo outcome safe).elim id id, fun _ _ => rfl⟩
    | @copy b from_ locked source =>
      obtain ⟨keeps, safe⟩ := safe
      rw [← refines.coherent.data_of_locked source] at safe keeps
      rcases refines.instr todo outcome safe with refined | refined
      · exact ⟨_, refined, fun _ _ => rfl⟩
      · refine ⟨_, refined, fun blockno home => ?_⟩
        by_cases same : blockno = (state.buf b).blockno
        · subst same
          rw [toList_some, replay_cons, replay_nil, write_self]
          exact keeps.resolve_left home
        · exact write_of_ne _ same
    | head data =>
      rcases refines.instr todo outcome (safe.2 data) with refined | refined
      · exact ⟨_, refined, fun _ _ => rfl⟩
      · refine ⟨_, refined, fun blockno home => write_of_ne _ ?_⟩
        rintro rfl
        exact home safe.1

omit [DecidableEq P] in
theorem boot (log : Area) (disk : Disk) : Refines log (State.boot disk : State P) disk where
  coherent := .boot disk
  protocol := by
    constructor <;> simp [State.boot, operations, references, Header.empty]
  safe := fun _ _ => trivial

/-- The contents of the blocks after a run are what its events have stored. -/
theorem of_run {disk : Disk} {events : List (Event P)}
    (execution : run (step disksize log) (State.boot disk) events = some state) :
    ∃ contents, Refines log state contents ∧ ∀ blockno, ¬log.Contains blockno →
      contents blockno = stored disk events blockno := by
  refine run_induction (fun events state => ∃ contents, Refines log state contents ∧
    ∀ blockno, ¬log.Contains blockno → contents blockno = stored disk events blockno)
    ⟨disk, boot log disk, fun _ _ => rfl⟩ ?_ execution
  rintro events state event target - ⟨contents, refines, agrees⟩ step_eq
  obtain ⟨contents', refines', changed⟩ := refines.stepped step_eq
  refine ⟨contents', refines', fun blockno home => ?_⟩
  rw [changed blockno home, stored, List.filterMap_append, replay_append]
  exact replay_congr (agrees blockno home) _

end Refines

/-! ## Effects of the steps -/

variable {event : Event P}

/-- The event executes an instruction of `commit`. -/
def Executes (state : State P) (event : Event P) (instr : Instr) : Prop :=
  ∃ p rest, event = .go p ∧ (state.proc p).todo = .instr instr :: rest ∧ state.pc p = .idle

theorem view_endOp (state : State P) (p : P) : (state.endOp p).view = state.view := by
  have left : (state.leaveOp p).view = state.view := view_update { state with outstanding := _ } rfl
  unfold endOp
  split
  · exact left
  · split
    · exact (view_setTodo { state.leaveOp p with committing := true } ..).trans left
    · exact left

/-- A step stores nothing, or it is a store of a process, or an instruction of
`commit` that writes a buffer. -/
theorem effect_of_taken (taken : Taken log state event target) :
    ∃ store, Effect state.view event.process store target.view ∧ (store = none ∨
      (target.disk = state.disk ∧ ∃ b, target.pc event.process = .modified b) ∨
      ∃ dst data, store = some (dst, data) ∧ ((∃ src, Executes state event (.copy dst src)) ∨
        Executes state event .head ∧ dst = log.start)) := by
  have quiet (view_eq : target.view = state.view) :
      Effect state.view event.process none target.view := view_eq ▸ .quiet
  cases taken with
  | @beginOp p =>
    exact ⟨none, quiet (view_update { state with outstanding := _ } rfl), .inl rfl⟩
  | operate stores place outcome => exact ⟨none, outcome.effect.elim id id, .inl rfl⟩
  | @modify p b place locked inOp home data =>
    have view_eq : ((state.setBuf b { state.buf b with data := data }).setPc p (.modified b)).view =
        state.view.set p (.modified b) b { state.buf b with data := data } := view_setPc ..
    have effect : Effect state.view p (some ((state.buf b).blockno, data)) _ := .modify place locked
    rw [← view_eq] at effect
    exact ⟨_, effect, .inr (.inl ⟨rfl, b,
      (congrArg (fun view => view.pc p) view_eq).trans View.pc_set_self⟩)⟩
  | @logWrite p b modified =>
    refine ⟨none, ?_, .inl rfl⟩
    rcases logWrite_cases log state p b with ⟨message, target_eq, -⟩ | ⟨lh, target_eq, -⟩
    · rw [target_eq]
      exact .quiet
    · have pinned : Outcome { state with lh := lh } p none (({ state with lh := lh }.setBuf b
          { state.buf b with dirty := true }).setPc p .idle) := outcome_setPc (.pin modified)
      rw [target_eq]
      exact pinned.effect.elim id id
  | endOp => exact ⟨none, quiet (view_endOp ..), .inl rfl⟩
  | call => exact ⟨none, quiet (view_setTodo ..), .inl rfl⟩
  | clear => exact ⟨none, quiet (view_setTodo { state with lh := _ } ..), .inl rfl⟩
  | finish => exact ⟨none, quiet (view_setTodo { state with committing := _ } ..), .inl rfl⟩
  | @instr p instr rest store _ idle todo performs outcome =>
    have effect := outcome.effect
    rw [view_setTodo] at effect
    rcases effect with effect | effect
    · exact ⟨none, effect, .inl rfl⟩
    · refine ⟨store, effect, ?_⟩
      cases performs with
      | bread | brelse => exact .inl rfl
      | copy locked source =>
        exact .inr (.inr ⟨_, _, rfl, .inl ⟨_, p, rest, rfl, todo, idle⟩⟩)
      | head data => exact .inr (.inr ⟨_, _, rfl, .inr ⟨⟨p, rest, rfl, todo, idle⟩, rfl⟩⟩)

/-! ## Before the header is written -/

/-- No commit in progress has written its header. -/
def Unsealed (log : Area) (state : State P) : Prop :=
  ∀ p, Quiet log (flatten log state.lh (state.proc p).todo)

theorem noTodo_logWrite (noTodo : ∀ q, (state.proc q).todo = []) (q : P) :
    ((state.logWrite log p b).proc q).todo = [] := by
  rcases logWrite_cases log state p b with ⟨message, target_eq, -⟩ | ⟨lh, target_eq, -⟩
  · rw [target_eq]
    exact noTodo q
  · rw [target_eq]
    exact (proc_update Proc.todo state (by rfl) q).trans (noTodo q)

namespace Unsealed

omit [DecidableEq P] in
theorem same (unsealed : Unsealed log state) (same : SameLog state target) :
    Unsealed log target := by
  intro p
  rw [same.lh, same.todo]
  exact unsealed p

theorem setTodo (unsealed : Unsealed log state) {todo : List Stmt}
    (quiet : Quiet log (flatten log state.lh todo)) : Unsealed log (state.setTodo p todo) := by
  intro q
  by_cases mover : q = p
  · subst mover
    simpa only [State.setTodo, update_self] using quiet
  · simpa only [State.setTodo, update_of_ne mover] using unsealed q

omit [DecidableEq P] in
theorem of_noTodo (noTodo : ∀ p, (state.proc p).todo = []) : Unsealed log state := by
  intro p
  rw [noTodo p]
  trivial

theorem taken [Fintype P] (unsealed : Unsealed log state) (protocol : state.Protocol log)
    (taken : Taken log state event target) (notHead : ¬Executes state event .head) :
    Unsealed log target := by
  cases taken with
  | @beginOp p =>
    intro q
    have todo : ((state.beginOp p).proc q).todo = (state.proc q).todo :=
      proc_update Proc.todo state (by rfl) q
    rw [todo]
    exact unsealed q
  | operate stores place outcome => exact unsealed.same outcome.sameLog
  | modify => exact unsealed.same (sameLog_setPc ..)
  | @logWrite p b modified =>
    obtain ⟨inOp, -⟩ := protocol.modified p b modified
    exact .of_noTodo (noTodo_logWrite (protocol.idle inOp).2)
  | @endOp p free inOp =>
    obtain ⟨settled, noTodo⟩ := protocol.idle inOp
    have left : Unsealed log (state.leaveOp p) :=
      .of_noTodo fun q => (proc_update Proc.todo state (by rfl) q).trans (noTodo q)
    rw [endOp, if_neg (by simp [settled])]
    split
    · have started : Unsealed log { state.leaveOp p with committing := true } := left
      exact started.setTodo (quiet_commit protocol.transaction)
    · exact left
  | @call p stmt rest todo isCall =>
    refine unsealed.setTodo ?_
    rw [flatten_expand log state.lh isCall, ← todo]
    exact unsealed p
  | @clear p rest todo =>
    intro q
    by_cases mover : q = p
    · subst mover
      have quiet := unsealed q
      rw [todo] at quiet
      simp only [State.setTodo, update_self]
      exact quiet
    · have noTodo := protocol.noTodo (by simp [todo]) mover
      simp only [State.setTodo, update_of_ne mover, noTodo]
      trivial
  | @finish p rest todo =>
    have ended : Unsealed log { state with committing := false } := unsealed
    exact ended.setTodo trivial
  | @instr p instr rest store _ idle todo performs outcome =>
    have quiet := unsealed p
    rw [todo] at quiet
    refine Unsealed.same (unsealed.setTodo ?_) outcome.sameLog
    cases performs with
    | bread | brelse => exact quiet
    | copy => exact quiet.2
    | head => exact absurd ⟨p, rest, rfl, todo, idle⟩ notHead

end Unsealed

variable {blockno : Blockno}

/-- Before the header is written no block outside of the log changes on the disk. -/
theorem disk_of_unsealed (unsealed : Unsealed log state) (taken : Taken log state event target)
    (notHead : ¬Executes state event .head) (home : ¬log.Contains blockno) :
    target.disk blockno = state.disk blockno := by
  obtain ⟨store, effect, rfl | ⟨disk_eq, -⟩ |
    ⟨dst, data, rfl, ⟨src, p, rest, rfl, todo, idle⟩ | ⟨head, -⟩⟩⟩ := effect_of_taken taken
  · exact congrFun ((View.disk_of_effect effect).elim id id) blockno
  · rw [disk_eq]
  · have quiet := unsealed p
    rw [todo] at quiet
    rcases View.disk_of_effect effect with disk_eq | disk_eq
    · exact congrFun disk_eq blockno
    · refine (congrFun disk_eq blockno).trans (write_of_ne _ ?_)
      rintro rfl
      exact home quiet.1
  · exact absurd head notHead

/-! ## The theorem -/

/-- The event writes a block from the log to its home location. -/
def Installs (blockno : Blockno) (state : State P) (event : Event P) : Prop :=
  ∃ src, Executes state event (.copy blockno src)

/-- A buffer that may differ from the disk is neither recycled nor forgotten until
its block is installed. -/
theorem Refines.stale [Fintype P] {contents : Blockno → Block}
    (refines : Refines log state contents) (alive : state.trap = none)
    (taken : Taken log state event target) (home : ¬log.Contains (state.buf b).blockno)
    (notInstalled : ¬Installs (state.buf b).blockno state event) (stale : state.view.Stale b) :
    target.view.Stale b ∧ (target.buf b).key = (state.buf b).key := by
  have coherent := refines.coherent
  obtain ⟨store, effect, reason⟩ := effect_of_taken taken
  refine ⟨(coherent.stale_effect effect stale).resolve_right ?_, coherent.key_effect effect stale⟩
  rintro ⟨idle, data', rfl⟩
  rcases reason with none | ⟨-, b', modified⟩ | ⟨dst, data, store_eq, executes⟩
  · contradiction
  · cases idle.symm.trans modified
  · obtain ⟨rfl, -⟩ := Prod.mk.inj (some.inj store_eq)
    rcases executes with copies | ⟨⟨p, rest, rfl, todo, -⟩, start_eq⟩
    · exact notInstalled copies
    · -- The header block belongs to the log.
      have safe := refines.safe alive p
      rw [todo] at safe
      rw [start_eq] at home
      exact home safe.1

/-- A call of `log_write` in a run from `boot`, for the buffer a process has changed,
that returns. -/
structure LogWritten (disksize : Nat) (log : Area) (disk : Disk) (before : List (Event P)) (p : P)
    (b : Bufno) (state target : State P) : Prop where
  execution : run (step disksize log) (boot disk) before = some state
  modified : state.pc p = .modified b
  step_eq : step disksize log state (.logWrite p) = some target
  returned : target.trap = none

variable {disk : Disk} {before after : List (Event P)} {logged written : State P}

theorem LogWritten.rest (call : LogWritten disksize log disk before p b logged written)
    (execution : run (step disksize log) (boot disk) (before ++ .logWrite p :: after) =
      some state) : run (step disksize log) written after = some state := by
  obtain ⟨middle, first, rest⟩ := run_append_eq_some_iff.mp execution
  obtain ⟨next, step_eq, rest⟩ := run_cons_eq_some_iff.mp rest
  rw [call.execution, some.injEq] at first
  subst first
  rw [call.step_eq, some.injEq] at step_eq
  subst step_eq
  exact rest

/-- The cache with the disk, after a run. -/
structure CachesDisk (disksize : Nat) (log : Area) (disk : Disk) (events : List (Event P))
    (state : State P) : Prop where
  contents : ∀ p b, (state.buf b).lock = some p → ¬log.Contains (state.buf b).blockno →
    (state.buf b).data = stored disk events (state.buf b).blockno
  returned : ∀ before middle p dev blockno,
    events = before ++ .bread p dev blockno :: (middle ++ [.go p]) →
    (∀ event ∈ middle, event.process ≠ p) → state.trap = none →
    ∃ b, (state.buf b).lock = some p ∧ (state.buf b).dev = dev ∧ (state.buf b).blockno = blockno
  pinned : ∀ before after p b logged written, events = before ++ .logWrite p :: after →
    LogWritten disksize log disk before p b logged written →
    Along (step disksize log)
      (fun state event => ¬Installs (logged.buf b).blockno state event) written after →
    (state.buf b).dev = (logged.buf b).dev ∧ (state.buf b).blockno = (logged.buf b).blockno
  unwritten : ∀ before after p b logged written, events = before ++ .logWrite p :: after →
    LogWritten disksize log disk before p b logged written →
    Along (step disksize log) (fun state event => ¬Executes state event .head) written after →
    state.disk (logged.buf b).blockno = logged.disk (logged.buf b).blockno

/-- A buffer somebody waits for stays the one for its block. -/
theorem key_of_taken [Fintype P] {contents : Blockno → Block}
    (coherent : state.view.Coherent contents) (taken : Taken log state event target)
    (waiting : state.pc p = .waiting b) : (target.buf b).key = (state.buf b).key := by
  obtain ⟨store, effect, -⟩ := effect_of_taken taken
  refine View.key_of_effect effect fun unused => ?_
  have pending : (state.pc p).pending = some b := by
    rw [waiting]
    rfl
  have positive := coherent.refcnt_pos pending
  omega

variable {dev : Device}

theorem waiting_of_bget (returned : (state.bget p dev blockno).trap = none) :
    ∃ b, (state.bget p dev blockno).pc p = .waiting b ∧
      ((state.bget p dev blockno).buf b).key = (dev, blockno) := by
  unfold bget at returned ⊢
  split
  · rename_i b found
    have key := Bcache.of_lookup_eq_some found
    exact ⟨b, by simp [pc, setPc], by simpa [Buf.key, buf, setPc, setBuf, Bcache.set] using key⟩
  · split
    · rename_i b found
      exact ⟨b, by simp [pc, setPc], by simp [Buf.key, buf, setPc, setBuf, Bcache.set, recycle]⟩
    · simp_all [stop]

theorem locked_of_fill (returned : (state.fill disksize p b).trap = none) :
    ((state.fill disksize p b).buf b).lock = some p ∧
      ((state.fill disksize p b).buf b).key = (state.buf b).key := by
  simp only [fill] at returned ⊢
  split
  · simp [Buf.key, buf, setPc, setBuf, Bcache.set]
  · split
    · simp_all [stop]
    · rename_i buf disk done
      obtain ⟨-, -, -, -, rfl⟩ := of_iderw_eq_ok done
      split <;> simp [Buf.key, buf, setPc, setBuf, Bcache.set]

theorem bget_of_step (step_eq : step disksize log state (.bread p dev blockno) = some target) :
    target = state.bget p dev blockno := by
  have alive := alive_of_step step_eq
  simp only [step, alive, ne_eq, not_true_eq_false, if_false, ite_none_right_eq_some,
    some.injEq] at step_eq
  exact step_eq.2.symm

theorem fill_of_step (waiting : state.pc p = .waiting b)
    (step_eq : step disksize log state (.go p) = some target) :
    target = state.fill disksize p b := by
  have alive := alive_of_step step_eq
  simp only [step, alive, ne_eq, not_true_eq_false, if_false, go, waiting,
    ite_none_right_eq_some, some.injEq] at step_eq
  exact step_eq.2.symm

theorem pinned_of_run [Fintype P] (call : LogWritten disksize log disk before p b logged written)
    (execution : run (step disksize log) written after = some state)
    (along : Along (step disksize log)
      (fun state event => ¬Installs (logged.buf b).blockno state event) written after) :
    (state.buf b).key = (logged.buf b).key := by
  obtain ⟨contents, refines, -⟩ := Refines.of_run call.execution
  obtain ⟨-, home⟩ := refines.protocol.modified p b call.modified
  have stale := refines.coherent.stale_of_modified call.modified
  -- From the call on, the buffer may differ from the disk and stays the one for the block.
  let Kept (state : State P) : Prop := (∃ contents, Refines log state contents) ∧
    state.view.Stale b ∧ (state.buf b).key = (logged.buf b).key
  have preserved : ∀ state event target, Kept state → ¬Installs (logged.buf b).blockno state event →
      step disksize log state event = some target → Kept target := by
    rintro state event target ⟨⟨contents, refines⟩, stale, same⟩ notInstalled step_eq
    obtain ⟨contents', refines', -⟩ := refines.stepped step_eq
    rw [← Buf.blockno_of_key same] at home notInstalled
    obtain ⟨stale', same'⟩ := refines.stale (alive_of_step step_eq)
      (refines.taken_of_step step_eq) home notInstalled stale
    exact ⟨⟨contents', refines'⟩, stale', same'.trans same⟩
  have kept : Kept written := by
    refine preserved logged _ written ⟨⟨contents, refines⟩, stale, rfl⟩ ?_ call.step_eq
    rintro ⟨_, _, _, event_eq, _⟩
    contradiction
  exact (run_invariant_of_along Kept kept preserved along execution).2.2

theorem unwritten_of_run [Fintype P] (call : LogWritten disksize log disk before p b logged written)
    (execution : run (step disksize log) written after = some state)
    (along : Along (step disksize log) (fun state event => ¬Executes state event .head)
      written after) : state.disk (logged.buf b).blockno = logged.disk (logged.buf b).blockno := by
  obtain ⟨contents, refines, -⟩ := Refines.of_run call.execution
  obtain ⟨inOp, home⟩ := refines.protocol.modified p b call.modified
  have unsealed : Unsealed log logged := .of_noTodo (refines.protocol.idle inOp).2
  let Same (state : State P) : Prop := (∃ contents, Refines log state contents) ∧
    Unsealed log state ∧ state.disk (logged.buf b).blockno = logged.disk (logged.buf b).blockno
  have preserved : ∀ state event target, Same state → ¬Executes state event .head →
      step disksize log state event = some target → Same target := by
    rintro state event target ⟨⟨contents, refines⟩, unsealed, disk_eq⟩ notHead step_eq
    obtain ⟨contents', refines', -⟩ := refines.stepped step_eq
    have taken := refines.taken_of_step step_eq
    exact ⟨⟨contents', refines'⟩, unsealed.taken refines.protocol taken notHead,
      (disk_of_unsealed unsealed taken notHead home).trans disk_eq⟩
  have same : Same written := by
    refine preserved logged _ written ⟨⟨contents, refines⟩, unsealed, rfl⟩ ?_ call.step_eq
    rintro ⟨_, _, event_eq, _⟩
    contradiction
  exact (run_invariant_of_along Same same preserved along execution).2.2

variable {events : List (Event P)}

theorem trap_of_run (execution : run (step disksize log) state (events ++ [event]) = some target) :
    state.trap = none := by
  obtain ⟨middle, execution, last⟩ := run_append_eq_some_iff.mp execution
  cases events with
  | nil =>
    cases execution
    obtain ⟨next, step_eq, -⟩ := run_cons_eq_some_iff.mp last
    exact alive_of_step step_eq
  | cons event events =>
    obtain ⟨next, step_eq, -⟩ := run_cons_eq_some_iff.mp execution
    exact alive_of_step step_eq

/-- A process waits for the buffer that `bget` has found, whatever the others do. -/
theorem waiting_of_run [Fintype P] {contents : Blockno → Block}
    (refines : Refines log state contents) (waiting : state.pc p = .waiting b)
    (others : ∀ event ∈ events, event.process ≠ p)
    (execution : run (step disksize log) state events = some target) :
    target.pc p = .waiting b ∧ (target.buf b).key = (state.buf b).key := by
  induction events generalizing state contents with
  | nil =>
    cases execution
    exact ⟨waiting, rfl⟩
  | cons event events ih =>
    obtain ⟨next, step_eq, rest⟩ := run_cons_eq_some_iff.mp execution
    obtain ⟨contents', refines', -⟩ := refines.stepped step_eq
    have taken := refines.taken_of_step step_eq
    have ne : p ≠ event.process := (others event List.mem_cons_self).symm
    obtain ⟨store, effect, -⟩ := effect_of_taken taken
    have waiting' : next.pc p = .waiting b := (View.pc_of_effect effect ne).trans waiting
    rw [← key_of_taken refines.coherent taken waiting]
    exact ih refines' waiting' (fun later member => others later (List.mem_cons_of_mem _ member))
      rest

theorem returned_of_run [Fintype P] {middle : List (Event P)}
    (execution : run (step disksize log) (boot disk)
      (before ++ .bread p dev blockno :: (middle ++ [.go p])) = some state)
    (others : ∀ event ∈ middle, event.process ≠ p) (returned : state.trap = none) :
    ∃ b, (state.buf b).lock = some p ∧ (state.buf b).dev = dev ∧
      (state.buf b).blockno = blockno := by
  obtain ⟨start, first, rest⟩ := run_append_eq_some_iff.mp execution
  obtain ⟨asked, bread_eq, rest⟩ := run_cons_eq_some_iff.mp rest
  have asked_alive := trap_of_run rest
  obtain ⟨waited, second, last⟩ := run_append_eq_some_iff.mp rest
  obtain ⟨_, go_eq, ended⟩ := run_cons_eq_some_iff.mp last
  cases ended
  obtain ⟨contents, refines, -⟩ := Refines.of_run first
  obtain ⟨contents', refines', -⟩ := refines.stepped bread_eq
  obtain rfl := bget_of_step bread_eq
  obtain ⟨b, waiting, found⟩ := waiting_of_bget asked_alive
  obtain ⟨waiting', same⟩ := waiting_of_run refines' waiting others second
  obtain rfl := fill_of_step waiting' go_eq
  obtain ⟨locked, same'⟩ := locked_of_fill returned
  exact ⟨b, locked, Prod.mk.inj (same'.trans (same.trans found))⟩

/-- After any run of any number of processes, with any interleaving, eviction and
commit, the cache together with the disk is a disk. -/
theorem cachesDisk_of_run [Fintype P] {disk : Disk} {events : List (Event P)}
    (execution : run (step disksize log) (boot disk) events = some state) :
    CachesDisk disksize log disk events state := by
  constructor
  · intro p b locked home
    obtain ⟨contents, refines, agrees⟩ := Refines.of_run execution
    rw [refines.coherent.data_of_locked locked, agrees _ home]
  · rintro before middle p dev blockno rfl others returned
    exact returned_of_run execution others returned
  · rintro before after p b logged written rfl call along
    exact Prod.mk.inj (pinned_of_run call (call.rest execution) along)
  · rintro before after p b logged written rfl call along
    exact unwritten_of_run call (call.rest execution) along

/-- One process changes a block in an operation of its own, and another one reads it
after the commit. -/
def changeCommitRead : List (Event (Fin 2)) :=
  [.beginOp 0, .bread 0 rootdev 60, .go 0, .modify 0 60 fun _ => 7, .logWrite 0, .brelse 0 60,
    .go 0, .endOp 0] ++ List.replicate 37 (.go 0) ++ [.bread 1 rootdev 60, .go 1]

theorem cachesDisk_changeCommitRead :
    ∃ state : State (Fin 2), run (step 1000 .mkfs) (boot fun _ _ => 0) changeCommitRead =
        some state ∧ (state.buf ⟨0, by decide⟩).lock = some 1 ∧
      (state.buf ⟨0, by decide⟩).data ⟨0, by decide⟩ = 7 ∧ state.disk 60 ⟨0, by decide⟩ = 7 ∧
      CachesDisk 1000 .mkfs (fun _ _ => 0) changeCommitRead state := by
  obtain ⟨state, execution, lock, data, disk⟩ : ∃ state ∈ run (step 1000 .mkfs) (boot fun _ _ => 0)
      changeCommitRead, (state.buf ⟨0, by decide⟩).lock = some 1 ∧
      (state.buf ⟨0, by decide⟩).data ⟨0, by decide⟩ = 7 ∧ state.disk 60 ⟨0, by decide⟩ = 7 := by
    decide +kernel
  exact ⟨state, execution, lock, data, disk, cachesDisk_of_run execution⟩

end State

end Xv6.Buffers
