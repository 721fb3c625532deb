import Xv6.Buffer.Core

/-!
# Steps of the buffer cache

`Effect` lists what a call can do to the buffers, the disk and the place of the process
that makes it, each with the condition under which it happens.  `Outcome` adds that the
call leaves the log alone or stops the system, and `Taken` says where in its program the
process is.
-/

namespace Xv6.Buffers

open Function Xv6.Log Xv6.Redo Xv6.Transition List Option

universe u

variable {P : Type u}

/-! ## The loops over the buffers -/

namespace Bcache

variable {bcache : Bcache P} {dev : Device} {blockno : Blockno} {b : Bufno}

theorem of_lookup_eq_some (found : bcache.lookup dev blockno = some b) :
    (bcache.buf b).dev = dev ∧ (bcache.buf b).blockno = blockno := by
  simpa using find?_some found

theorem of_lookup_eq_none (missing : bcache.lookup dev blockno = none) (b : Bufno)
    (dev_eq : (bcache.buf b).dev = dev) : (bcache.buf b).blockno ≠ blockno := by
  have := find?_eq_none.mp missing b (bcache.lru.mem_order b)
  simp only [decide_eq_true_eq, not_and] at this
  exact this dev_eq

theorem of_victim_eq_some (found : bcache.victim = some b) :
    (bcache.buf b).refcnt = 0 ∧ (bcache.buf b).dirty = false := by
  simpa using find?_some found

end Bcache

/-- What `iderw` has done when it returns. -/
theorem of_iderw_eq_ok {disksize : Nat} {disk disk' : Disk} {buf buf' : Buf P}
    (done : iderw disksize disk buf = .ok (buf', disk')) :
    buf.lock ≠ none ∧ buf.dev = rootdev ∧ buf.blockno.toNat < disksize ∧
      disk' = (if buf.dirty then write disk (buf.blockno, buf.data) else disk) ∧
      buf' = if buf.dirty then { buf with dirty := false, valid := true }
        else { buf with data := disk buf.blockno, valid := true } := by
  unfold iderw at done
  split_ifs at done with _ _ dev range dirty
  · simp_all [rootdev, Xv6.rootdev]
  · cases done
    simp_all [rootdev, Xv6.rootdev]

/-- The panic of `bget`. -/
def State.noBuffers : String := "bget: no buffers"

theorem iderw_ne_noBuffers {disksize : Nat} {disk : Disk} {buf : Buf P} {message : String}
    (failed : iderw disksize disk buf = .error message) : message ≠ State.noBuffers := by
  unfold iderw at failed
  split_ifs at failed <;> cases failed <;> decide

/-! ## What a call does to the buffers -/

/-- The buffers, the disk and the places of the processes. -/
structure View (P : Type u) where
  buf : Bufno → Buf P
  disk : Disk
  pc : P → Pc

/-- One process moves, and one buffer changes. -/
def View.set [DecidableEq P] (view : View P) (p : P) (pc : Pc) (b : Bufno) (buf : Buf P) :
    View P :=
  { view with buf := update view.buf b buf, pc := update view.pc p pc }

/-- The effects of a call of one process, with the block and the data it stores. -/
inductive Effect [DecidableEq P] (view : View P) (p : P) : Option (Blockno × Block) → View P → Prop
  | quiet : Effect view p none view
  | refer {b : Bufno} (idle : view.pc p = .idle) :
      Effect view p none
        (view.set p (.waiting b) b { view.buf b with refcnt := (view.buf b).refcnt + 1 })
  | recycle {b : Bufno} {dev : Device} {blockno : Blockno} (idle : view.pc p = .idle)
      (unused : (view.buf b).refcnt = 0) (clean : (view.buf b).dirty = false)
      (missing : ∀ other, (view.buf other).dev = dev → (view.buf other).blockno ≠ blockno) :
      Effect view p none (view.set p (.waiting b) b (State.recycle (view.buf b) dev blockno))
  | lock {b : Bufno} (waiting : view.pc p = .waiting b) (free : (view.buf b).lock = none)
      (valid : (view.buf b).valid = true) :
      Effect view p none (view.set p .idle b { view.buf b with lock := some p })
  | read {b : Bufno} (waiting : view.pc p = .waiting b) (free : (view.buf b).lock = none)
      (invalid : (view.buf b).valid = false) (dev : (view.buf b).dev = rootdev) :
      Effect view p none (view.set p .idle b { view.buf b with
        lock := some p, valid := true, data := view.disk (view.buf b).blockno })
  | modify {b : Bufno} {data : Block} (place : view.pc p = .idle ∨ view.pc p = .modified b)
      (locked : (view.buf b).lock = some p) :
      Effect view p (some ((view.buf b).blockno, data))
        (view.set p (.modified b) b { view.buf b with data := data })
  | pin {b : Bufno} (modified : view.pc p = .modified b) :
      Effect view p none (view.set p .idle b { view.buf b with dirty := true })
  | write {b : Bufno} {data : Block} (idle : view.pc p = .idle)
      (locked : (view.buf b).lock = some p) :
      Effect view p (some ((view.buf b).blockno, data))
        ({ view with disk := Redo.write view.disk ((view.buf b).blockno, data) }.set p .idle b
          { view.buf b with data := data, dirty := false, valid := true })
  | unlock {b : Bufno} (idle : view.pc p = .idle) (locked : (view.buf b).lock = some p) :
      Effect view p none (view.set p (.releasing b) b { view.buf b with lock := none })
  | drop {b : Bufno} (releasing : view.pc p = .releasing b) :
      Effect view p none
        (view.set p .idle b { view.buf b with refcnt := (view.buf b).refcnt - 1 })

namespace View

variable [DecidableEq P] {view target : View P} {p q : P} {pc : Pc} {b other : Bufno} {buf : Buf P}

@[simp]
theorem buf_set_self : (view.set p pc b buf).buf b = buf :=
  update_self ..

@[simp]
theorem buf_set_of_ne (ne : other ≠ b) : (view.set p pc b buf).buf other = view.buf other :=
  update_of_ne ne ..

@[simp]
theorem pc_set_self : (view.set p pc b buf).pc p = pc :=
  update_self ..

@[simp]
theorem pc_set_of_ne (ne : q ≠ p) : (view.set p pc b buf).pc q = view.pc q :=
  update_of_ne ne ..

/-- A call moves no other process. -/
theorem pc_of_effect {store : Option (Blockno × Block)} (effect : Effect view p store target)
    (ne : q ≠ p) : target.pc q = view.pc q := by
  cases effect with
  | quiet => rfl
  | refer | recycle | lock | read | modify | pin | write | unlock | drop => exact pc_set_of_ne ne

/-- A call that stores nothing changes no buffer in place. -/
theorem calm_of_effect (effect : Effect view p none target) (modified : target.pc q = .modified b) :
    view.pc q = .modified b := by
  rcases eq_or_ne q p with rfl | mover
  · cases effect with
    | quiet => exact modified
    | refer | recycle | lock | read | pin | unlock | drop =>
      rw [pc_set_self] at modified
      contradiction
  · rwa [pc_of_effect effect mover] at modified

end View

namespace State

variable {state target : State P} {p : P} {b : Bufno} {blockno : Blockno} {disksize : Nat}
  {log : Area} {store : Option (Blockno × Block)}

/-- The buffer with a number. -/
abbrev buf (state : State P) (b : Bufno) : Buf P :=
  state.bcache.buf b

/-- The place of a process. -/
abbrev pc (state : State P) (p : P) : Pc :=
  (state.proc p).pc

/-- The part of the state that the calls on buffers are about. -/
abbrev view (state : State P) : View P :=
  ⟨state.buf, state.disk, state.pc⟩

/-- The variables of the log, the operations and the remaining programs are the
same. -/
structure SameLog (state target : State P) : Prop where
  lh : target.lh = state.lh
  committing : target.committing = state.committing
  outstanding : target.outstanding = state.outstanding
  inOp : ∀ p, (target.proc p).inOp = (state.proc p).inOp
  todo : ∀ p, (target.proc p).todo = (state.proc p).todo

variable [DecidableEq P]

/-- How a call of a process ends. -/
inductive Outcome (state : State P) (p : P) (store : Option (Blockno × Block)) : State P → Prop
  | stop {message : String} (full : message = noBuffers → state.bcache.victim = none) :
      Outcome state p store (state.stop message)
  | done {target : State P} (effect : Effect state.view p store target.view)
      (calm : ∀ q b, target.pc q = .modified b → state.pc q = .modified b)
      (log : SameLog state target) (trap : target.trap = state.trap) :
      Outcome state p store target

theorem Outcome.sameLog (outcome : Outcome state p store target) : SameLog state target := by
  cases outcome with
  | stop => exact ⟨rfl, rfl, rfl, fun _ => rfl, fun _ => rfl⟩
  | done _ _ log => exact log

theorem Outcome.effect (outcome : Outcome state p store target) :
    Effect state.view p none target.view ∨ Effect state.view p store target.view := by
  cases outcome with
  | stop => exact .inl .quiet
  | done effect => exact .inr effect

theorem of_held_eq_some (found : state.held p blockno = some b) :
    (state.buf b).lock = some p ∧ (state.buf b).blockno = blockno := by
  simpa using find?_some found

section

variable (state : State P)

/-- A process changes its record, and stays where it is. -/
theorem view_update {proc : Proc} (pc_eq : proc.pc = state.pc p) :
    { state with proc := update state.proc p proc }.view = state.view := by
  have pcs := comp_update Proc.pc state.proc p proc
  rw [pc_eq] at pcs
  exact congrArg (View.mk state.buf state.disk) (pcs.trans (update_eq_self ..))

theorem view_setTodo (p : P) (todo : List Stmt) :
    (state.setTodo p todo).view = state.view :=
  view_update state rfl

theorem pc_setTodo (p : P) (todo : List Stmt) :
    (state.setTodo p todo).pc = state.pc :=
  congrArg View.pc (view_setTodo state p todo)

theorem view_setPc (p : P) (pc : Pc) :
    (state.setPc p pc).view = { state.view with pc := update state.pc p pc } :=
  congrArg (View.mk state.buf state.disk) (comp_update Proc.pc state.proc p _)

/-- A field of the records that a process does not change. -/
theorem proc_update {α : Type} (field : Proc → α) (state : State P) {proc : Proc}
    (same : field proc = field (state.proc p)) (q : P) :
    field (update state.proc p proc q) = field (state.proc q) := by
  rcases eq_or_ne q p with rfl | ne
  · simpa using same
  · simp [ne]

theorem sameLog_setPc (bcache : Bcache P) (p : P) (pc : Pc) :
    SameLog state ({ state with bcache := bcache }.setPc p pc) :=
  ⟨rfl, rfl, rfl, proc_update _ state rfl, proc_update _ state rfl⟩

end

/-- A call that changes the buffers and moves the process. -/
theorem outcome_setPc {pc : Pc} {bcache : Bcache P}
    (effect : Effect state.view p none ⟨bcache.buf, state.disk, update state.pc p pc⟩) :
    Outcome state p none ({ state with bcache := bcache }.setPc p pc) := by
  have moved : Effect state.view p none ({ state with bcache := bcache }.setPc p pc).view := by
    rw [view_setPc]
    exact effect
  exact .done moved (fun _ _ => View.calm_of_effect moved) (sameLog_setPc ..) rfl

theorem outcome_bget {dev : Device} (idle : state.pc p = .idle) :
    Outcome state p none (state.bget p dev blockno) := by
  unfold bget
  split
  · exact outcome_setPc (.refer idle)
  · rename_i missing
    split
    · rename_i b found
      obtain ⟨unused, clean⟩ := Bcache.of_victim_eq_some found
      exact outcome_setPc (.recycle idle unused clean (Bcache.of_lookup_eq_none missing))
    · rename_i full
      exact .stop fun _ => full

theorem outcome_fill (disksize : Nat) (waiting : state.pc p = .waiting b)
    (free : (state.buf b).lock = none)
    (undirty : (state.buf b).valid = false → (state.buf b).dirty = false) :
    Outcome state p none (state.fill disksize p b) := by
  simp only [fill]
  split
  · rename_i valid
    exact outcome_setPc (.lock waiting free valid)
  · rename_i notValid
    have invalid : (state.buf b).valid = false := by simpa using notValid
    split
    · rename_i message failed
      exact .stop fun full => absurd full (iderw_ne_noBuffers failed)
    · rename_i buf disk done
      obtain ⟨-, dev, -, disk_eq, buf_eq⟩ := of_iderw_eq_ok done
      rw [if_neg (by simp [undirty invalid])] at disk_eq buf_eq
      subst disk_eq buf_eq
      exact outcome_setPc (.read waiting free invalid dev)

theorem outcome_bwrite (disksize : Nat) (idle : state.pc p = .idle)
    (locked : (state.buf b).lock = some p) (data : Block) :
    Outcome state p (some ((state.buf b).blockno, data)) (state.bwrite disksize b data) := by
  simp only [bwrite]
  split
  · exact .stop (by simp [noBuffers])
  · split
    · rename_i message failed
      exact .stop fun full => absurd full (iderw_ne_noBuffers failed)
    · rename_i written disk done
      obtain ⟨-, -, -, disk_eq, buf_eq⟩ := of_iderw_eq_ok done
      subst disk_eq buf_eq
      have effect : Effect state.view p (some ((state.buf b).blockno, data)) _ := .write idle locked
      have still : update state.pc p .idle = state.pc := update_eq_self_iff.mpr idle.symm
      rw [View.set, still] at effect
      exact .done effect (fun _ _ => id) ⟨rfl, rfl, rfl, fun _ => rfl, fun _ => rfl⟩ rfl

theorem outcome_brelse (idle : state.pc p = .idle) (locked : (state.buf b).lock = some p) :
    Outcome state p none (state.brelse p b) := by
  simp only [brelse]
  split
  · exact .stop (by simp [noBuffers])
  · exact outcome_setPc (.unlock idle locked)

theorem outcome_drop (releasing : state.pc p = .releasing b) :
    Outcome state p none (state.drop p b) := by
  simp only [drop]
  split <;> exact outcome_setPc (.drop releasing)

end State

/-! ## What the processes do -/

/-- The statement is a call or a loop, which `expand` replaces. -/
def Stmt.isCall : Stmt → Bool
  | .commit | .writeLog _ | .writeHead | .installTrans _ => true
  | .clear | .finish | .instr _ => false

/-- The block an event stores to, and the data. -/
def Event.stores : Event P → Option (Blockno × Block)
  | .modify _ blockno data => some (blockno, data)
  | _ => none

namespace State

variable [DecidableEq P] {state target : State P} {p : P} {disksize : Nat} {log : Area}

/-- What an instruction of `commit` stores. -/
inductive Performs (log : Area) (state : State P) (p : P) :
    Instr → Option (Blockno × Block) → Prop
  | bread (blockno : Blockno) : Performs log state p (.bread blockno) none
  | copy {b from_ : Bufno} (locked : (state.buf b).lock = some p)
      (source : (state.buf from_).lock = some p) :
      Performs log state p (.copy (state.buf b).blockno (state.buf from_).blockno)
        (some ((state.buf b).blockno, (state.buf from_).data))
  | head (data : Block) : Performs log state p .head (some (log.start, data))
  | brelse (blockno : Blockno) : Performs log state p (.brelse blockno) none

/-- The outcomes of `step`, with the condition each event requires. -/
inductive Taken (log : Area) (state : State P) : Event P → State P → Prop
  | beginOp {p : P} (outside : (state.proc p).inOp = false)
      (settled : state.committing = false) : Taken log state (.beginOp p) (state.beginOp p)
  | operate {event : Event P} {target : State P} (stores : event.stores = none)
      (place : ∀ b, state.pc event.process ≠ .modified b)
      (outcome : Outcome state event.process none target) : Taken log state event target
  | modify {p : P} {b : Bufno} (place : state.pc p = .idle ∨ state.pc p = .modified b)
      (locked : (state.buf b).lock = some p) (inOp : (state.proc p).inOp = true)
      (home : ¬log.Contains (state.buf b).blockno) (data : Block) :
      Taken log state (.modify p (state.buf b).blockno data)
        ((state.setBuf b { state.buf b with data := data }).setPc p (.modified b))
  | logWrite {p : P} {b : Bufno} (modified : state.pc p = .modified b) :
      Taken log state (.logWrite p) (state.logWrite log p b)
  | endOp {p : P} (free : (state.proc p).Free) (inOp : (state.proc p).inOp = true) :
      Taken log state (.endOp p) (state.endOp p)
  | call {p : P} {stmt : Stmt} {rest : List Stmt}
      (todo : (state.proc p).todo = stmt :: rest) (isCall : stmt.isCall = true) :
      Taken log state (.go p) (state.setTodo p (expand log state.lh stmt ++ rest))
  | clear {p : P} {rest : List Stmt} (todo : (state.proc p).todo = .clear :: rest) :
      Taken log state (.go p) ({ state with lh := .empty }.setTodo p rest)
  | finish {p : P} {rest : List Stmt} (todo : (state.proc p).todo = .finish :: rest) :
      Taken log state (.go p) ({ state with committing := false }.setTodo p [])
  | instr {p : P} {instr : Instr} {rest : List Stmt} {store : Option (Blockno × Block)}
      {target : State P} (idle : state.pc p = .idle)
      (todo : (state.proc p).todo = .instr instr :: rest)
      (performs : Performs log state p instr store)
      (outcome : Outcome (state.setTodo p rest) p store target) :
      Taken log state (.go p) target

/-- What `log_write` does when it does not panic: a block that is already listed is
absorbed. -/
theorem logWrite_cases (log : Area) (state : State P) (p : P) (b : Bufno) :
    (∃ message, state.logWrite log p b = state.stop message ∧ message ≠ noBuffers) ∨
      ∃ lh : Header, state.logWrite log p b = ({ state with lh := lh }.setBuf b
          { state.buf b with dirty := true }).setPc p .idle ∧
        (state.buf b).blockno ∈ lh.block ∧
        (lh = state.lh ∨ (state.buf b).blockno ∉ state.lh.block ∧
          lh.block = state.lh.block ++ [(state.buf b).blockno] ∧
          lh.block.length + 1 ≤ log.size) := by
  simp only [logWrite]
  split
  · exact .inl ⟨_, rfl, by decide⟩
  · split
    · exact .inl ⟨_, rfl, by decide⟩
    · refine .inr ⟨_, rfl, ?_⟩
      split
      · rename_i listed
        exact ⟨listed, .inl rfl⟩
      · rename_i unlisted
        refine ⟨by simp [Header.push], .inr ⟨unlisted, rfl, ?_⟩⟩
        simp only [Header.push, length_append, length_singleton]
        omega

theorem taken_of_perform {stmt : Stmt} {rest : List Stmt} (idle : state.pc p = .idle)
    (todo : (state.proc p).todo = stmt :: rest)
    (performed : state.perform disksize log p rest stmt = some target) :
    Taken log state (.go p) target := by
  cases stmt with
  | commit | writeLog tail | writeHead | installTrans tail =>
    cases performed
    exact .call todo rfl
  | clear =>
    cases performed
    exact .clear todo
  | finish =>
    cases performed
    exact .finish todo
  | instr instr =>
    have idle' : (state.setTodo p rest).pc p = .idle := by rwa [pc_setTodo]
    simp only [perform] at performed
    cases instr with
    | bread blockno =>
      cases performed
      exact .instr idle todo (.bread blockno) (outcome_bget idle')
    | copy dst src =>
      simp only [exec] at performed
      split at performed
      · rename_i b from_ heldDst heldSrc
        cases performed
        obtain ⟨locked, rfl⟩ := of_held_eq_some heldDst
        obtain ⟨source, rfl⟩ := of_held_eq_some heldSrc
        exact .instr idle todo (.copy locked source) (outcome_bwrite disksize idle' locked _)
      · contradiction
    | head =>
      simp only [exec, map_eq_some_iff] at performed
      obtain ⟨b, held, rfl⟩ := performed
      obtain ⟨locked, start_eq⟩ := of_held_eq_some held
      exact .instr idle todo (.head _) (start_eq ▸ outcome_bwrite disksize idle' locked _)
    | brelse blockno =>
      simp only [exec, map_eq_some_iff] at performed
      obtain ⟨b, held, rfl⟩ := performed
      exact .instr idle todo (.brelse blockno) (outcome_brelse idle' (of_held_eq_some held).1)

theorem taken_of_go (undirty : ∀ b, (state.buf b).valid = false → (state.buf b).dirty = false)
    (went : state.go disksize log p = some target) : Taken log state (.go p) target := by
  unfold go at went
  split at went
  · rename_i b waiting
    simp only [ite_none_right_eq_some, some.injEq] at went
    obtain ⟨unlocked, rfl⟩ := went
    exact .operate rfl (by simp [Event.process, waiting])
      (outcome_fill disksize waiting unlocked (undirty b))
  · rename_i b releasing
    cases went
    exact .operate rfl (by simp [Event.process, releasing]) (outcome_drop releasing)
  · contradiction
  · rename_i idle
    split at went
    · contradiction
    · rename_i stmt rest todo
      exact taken_of_perform idle todo went

theorem alive_of_step {event : Event P} (step_eq : step disksize log state event = some target) :
    state.trap = none := by
  by_contra trapped
  simp [step, trapped] at step_eq

theorem taken_of_step {event : Event P}
    (undirty : ∀ b, (state.buf b).valid = false → (state.buf b).dirty = false)
    (step_eq : step disksize log state event = some target) : Taken log state event target := by
  have alive := alive_of_step step_eq
  unfold step at step_eq
  rw [if_neg (not_not.mpr alive)] at step_eq
  cases event with
  | beginOp p =>
    simp only [ite_none_right_eq_some, some.injEq] at step_eq
    obtain ⟨⟨-, outside, settled, -⟩, rfl⟩ := step_eq
    exact .beginOp outside settled
  | bread p dev blockno =>
    simp only [ite_none_right_eq_some, some.injEq] at step_eq
    obtain ⟨free, rfl⟩ := step_eq
    exact .operate rfl (by simp [Event.process, free.1]) (outcome_bget free.1)
  | modify p blockno data =>
    simp only at step_eq
    split at step_eq
    · rename_i b held
      obtain ⟨locked, rfl⟩ := of_held_eq_some held
      simp only [ite_none_right_eq_some, some.injEq] at step_eq
      obtain ⟨⟨place, -, inOp, home⟩, rfl⟩ := step_eq
      exact .modify place locked inOp home data
    · contradiction
  | logWrite p =>
    simp only at step_eq
    split at step_eq
    · rename_i b modified
      cases step_eq
      exact .logWrite modified
    · contradiction
  | brelse p blockno =>
    simp only [ite_none_right_eq_some, map_eq_some_iff] at step_eq
    obtain ⟨free, b, held, rfl⟩ := step_eq
    exact .operate rfl (by simp [Event.process, free.1])
      (outcome_brelse free.1 (of_held_eq_some held).1)
  | endOp p =>
    simp only [ite_none_right_eq_some, some.injEq] at step_eq
    obtain ⟨⟨free, inOp⟩, rfl⟩ := step_eq
    exact .endOp free inOp
  | go p => exact taken_of_go undirty step_eq

end State

end Xv6.Buffers
