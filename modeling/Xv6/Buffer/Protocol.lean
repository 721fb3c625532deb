import Xv6.Buffer.Coherence
import Xv6.Buffer.Commit

/-!
# The log over the buffer cache

`outstanding` counts the operations in progress, one process at most commits, and no
operation is in progress meanwhile.  So nobody changes a block during a commit, and
what remains of the commit stays `Safe` for the contents of the blocks.
-/

namespace Xv6.Buffers

open Function Xv6.Log Xv6.Redo Xv6.Custody Xv6.Transition

universe u

variable {P : Type u} [DecidableEq P]

namespace State

variable {state target : State P} {p : P} {b : Bufno} {log : Area}
  {store : Option (Blockno × Block)}

/-- The number of processes between `begin_op` and `end_op`. -/
def operations [Fintype P] (state : State P) : Nat :=
  references (fun p => if (state.proc p).inOp then some () else none) ()

theorem operations_setInOp [Fintype P] (state : State P) (p : P) (inOp : Bool) :
    operations (state.setInOp p inOp) + (if (state.proc p).inOp then 1 else 0) =
      operations state + if inOp then 1 else 0 := by
  have changed : (fun q => if ((state.setInOp p inOp).proc q).inOp then some () else none) =
      update (fun q => if (state.proc q).inOp then some () else none) p
        (if inOp then some () else none) :=
    comp_update (fun proc : Proc => if proc.inOp then some () else none) ..
  have moved := references_update (fun q => if (state.proc q).inOp then some () else none) p
    (if inOp then some () else none) ()
  rw [← changed] at moved
  simpa [operations] using moved

/-- The operations in progress, and the transaction they have collected. -/
structure Protocol [Fintype P] (log : Area) (state : State P) : Prop where
  counted : state.outstanding = operations state
  settled : state.committing = true → state.outstanding = 0
  committer : ∀ p, (state.proc p).todo ≠ [] → state.committing = true
  exclusive : ∀ p q, (state.proc p).todo ≠ [] → (state.proc q).todo ≠ [] → p = q
  modified : ∀ p b, state.pc p = .modified b →
    (state.proc p).inOp = true ∧ ¬log.Contains (state.buf b).blockno
  transaction : state.lh.block ≠ [] → Transaction log state.lh

namespace Protocol

variable [Fintype P]

section

variable (protocol : state.Protocol log)

include protocol

omit [DecidableEq P] in
/-- Nobody commits while an operation is in progress. -/
theorem idle (inOp : (state.proc p).inOp = true) :
    state.committing = false ∧ ∀ q, (state.proc q).todo = [] := by
  have positive : 0 < operations state := by
    have operates : (fun p => if (state.proc p).inOp then some () else none) p = some () :=
      if_pos inOp
    exact references_pos operates
  have counted := protocol.counted
  have settled : state.committing = false := by
    by_contra committing
    have := protocol.settled (by simpa using committing)
    omega
  refine ⟨settled, fun q => ?_⟩
  by_contra busy
  rw [protocol.committer q busy] at settled
  contradiction

omit [DecidableEq P] in
/-- The others do not commit. -/
theorem noTodo (busy : (state.proc p).todo ≠ []) {q : P} (ne : q ≠ p) :
    (state.proc q).todo = [] := by
  by_contra busy'
  exact ne (protocol.exclusive q p busy' busy)

omit [DecidableEq P] in
theorem same (same : SameLog state target)
    (modified : ∀ p b, target.pc p = .modified b → (state.proc p).inOp = true ∧
      ¬log.Contains (target.buf b).blockno) :
    target.Protocol log where
  counted := by
    simp only [operations, same.outstanding, same.inOp]
    exact protocol.counted
  settled := by
    rw [same.committing, same.outstanding]
    exact protocol.settled
  committer := by
    simp only [same.todo, same.committing]
    exact protocol.committer
  exclusive := by
    simp only [same.todo]
    exact protocol.exclusive
  modified := by
    simp only [same.inOp]
    exact modified
  transaction := by
    rw [same.lh]
    exact protocol.transaction

/-- A call leaves the log alone. -/
theorem call {contents : Blockno → Block} (coherent : state.view.Coherent contents)
    (effect : Effect state.view p store target.view)
    (calm : ∀ q b, target.pc q = .modified b → state.pc q = .modified b)
    (same : SameLog state target) : target.Protocol log := by
  refine protocol.same same fun q b modified => ?_
  obtain ⟨inOp, home⟩ := protocol.modified q b (calm q b modified)
  have stale := coherent.stale_of_modified (calm q b modified)
  rw [Buf.blockno_of_key (coherent.key_effect effect stale)]
  exact ⟨inOp, home⟩

/-- The only process that may commit goes on. -/
theorem proceed {lh : Header} {committing : Bool} {todo : List Stmt}
    (transaction : lh.block ≠ [] → Transaction log lh)
    (settled : committing = true → state.outstanding = 0)
    (others : ∀ q ≠ p, (state.proc q).todo = []) (own : todo ≠ [] → committing = true) :
    ({ state with lh := lh, committing := committing }.setTodo p todo).Protocol log := by
  let next := { state with lh := lh, committing := committing }
  change (next.setTodo p todo).Protocol log
  have inOp : ∀ q, ((next.setTodo p todo).proc q).inOp = (state.proc q).inOp :=
    proc_update Proc.inOp next rfl
  have pcs : (next.setTodo p todo).pc = state.pc := pc_setTodo ..
  have mover q (busy : ((next.setTodo p todo).proc q).todo ≠ []) : q = p := by
    by_contra ne
    simp [next, setTodo, ne, others q ne] at busy
  refine ⟨?_, settled, fun q busy => ?_, fun q r busyQ busyR => ?_, ?_, transaction⟩
  · simp only [operations, inOp]
    exact protocol.counted
  · obtain rfl := mover q busy
    exact own (by simpa [setTodo] using busy)
  · exact (mover q busyQ).trans (mover r busyR).symm
  · rw [pcs]
    simp only [inOp]
    exact protocol.modified

end

end Protocol

/-- The cache represents the contents of the blocks, and what remains of a commit
keeps them. -/
structure Refines [Fintype P] (log : Area) (state : State P) (contents : Blockno → Block) :
    Prop where
  coherent : state.view.Coherent contents
  protocol : state.Protocol log
  safe : state.trap = none → ∀ p, Safe log (flatten log state.lh (state.proc p).todo) contents

namespace Refines

variable [Fintype P] {contents : Blockno → Block}

/-- A call stops the system, or stores what it says. -/
theorem of_outcome (coherent : state.view.Coherent contents) (protocol : state.Protocol log)
    (outcome : Outcome state p store target)
    (safe : ∀ q, Safe log (flatten log state.lh (state.proc q).todo)
      (replay contents store.toList)) :
    Refines log target contents ∨ Refines log target (replay contents store.toList) := by
  cases outcome with
  | stop =>
    refine .inl ⟨coherent, protocol.same ⟨rfl, rfl, rfl, fun _ => rfl, fun _ => rfl⟩
      protocol.modified, fun alive => ?_⟩
    simp [stop] at alive
  | done effect calm same =>
    refine .inr ⟨coherent.effect effect, protocol.call coherent effect calm same, fun _ q => ?_⟩
    rw [same.lh, same.todo]
    exact safe q

section

variable (refines : Refines log state contents)

include refines

theorem call (alive : state.trap = none) (outcome : Outcome state p none target) :
    Refines log target contents :=
  (of_outcome refines.coherent refines.protocol outcome (refines.safe alive)).elim id id

/-- An operation begins or ends while nobody commits. -/
theorem operate (alive : state.trap = none) {outstanding : Int} {inOp : Bool}
    (settled : state.committing = false)
    (counted : outstanding + (if (state.proc p).inOp then 1 else 0) =
      state.outstanding + if inOp then 1 else 0)
    (left : inOp = false → ∀ b, state.pc p ≠ .modified b) :
    Refines log ({ state with outstanding := outstanding }.setInOp p inOp) contents := by
  have protocol := refines.protocol
  let next := { state with outstanding := outstanding }
  change Refines log (next.setInOp p inOp) contents
  have view_eq : (next.setInOp p inOp).view = state.view := view_update next rfl
  have pcs : (next.setInOp p inOp).pc = state.pc := congrArg View.pc view_eq
  have todo : ∀ q, ((next.setInOp p inOp).proc q).todo = (state.proc q).todo :=
    proc_update Proc.todo next rfl
  have moved : operations (next.setInOp p inOp) + (if (state.proc p).inOp then 1 else 0) =
      operations state + if inOp then 1 else 0 := operations_setInOp next p inOp
  refine ⟨by rw [view_eq]; exact refines.coherent, ⟨?_, ?_, ?_, ?_, fun q b modified => ?_,
    protocol.transaction⟩, fun _ q => ?_⟩
  · have before := protocol.counted
    change outstanding = _
    split_ifs at moved counted <;> omega
  · intro committing
    rw [show (next.setInOp p inOp).committing = false from settled] at committing
    contradiction
  · simp only [todo]
    exact protocol.committer
  · simp only [todo]
    exact protocol.exclusive
  · rw [pcs] at modified
    obtain ⟨operates, home⟩ := protocol.modified q b modified
    refine ⟨?_, home⟩
    by_cases same : q = p
    · subst same
      cases inOp with
      | true => simp [setInOp]
      | false => exact absurd modified (left rfl b)
    · simpa [setInOp, same] using operates
  · rw [todo]
    exact refines.safe alive q

/-- A process of an operation changes a buffer. -/
theorem modify (place : state.pc p = .idle ∨ state.pc p = .modified b)
    (locked : (state.buf b).lock = some p) (inOp : (state.proc p).inOp = true)
    (home : ¬log.Contains (state.buf b).blockno) (data : Block) :
    Refines log ((state.setBuf b { state.buf b with data := data }).setPc p (.modified b))
      (write contents ((state.buf b).blockno, data)) := by
  let buf := { state.buf b with data := data }
  have same : SameLog state ((state.setBuf b buf).setPc p (.modified b)) := sameLog_setPc ..
  have view_eq : ((state.setBuf b buf).setPc p (.modified b)).view =
      state.view.set p (.modified b) b buf := view_setPc ..
  have effect : Effect state.view p (some ((state.buf b).blockno, data))
      ((state.setBuf b buf).setPc p (.modified b)).view := by
    rw [view_eq]
    exact .modify place locked
  refine ⟨refines.coherent.effect effect, refines.protocol.same same fun q b' modified => ?_,
    fun _ q => ?_⟩
  · have key : (((state.setBuf b buf).setPc p (.modified b)).view.buf b').blockno =
        (state.buf b').blockno := by
      rw [view_eq]
      exact Buf.blockno_of_key (View.key_set (by rfl) b')
    rw [key]
    have pcs := congrArg (fun view => view.pc q) view_eq
    by_cases mover : q = p
    · subst mover
      rw [View.pc_set_self] at pcs
      cases pcs.symm.trans modified
      exact ⟨inOp, home⟩
    · rw [View.pc_set_of_ne mover] at pcs
      exact refines.protocol.modified q b' (pcs.symm.trans modified)
  · rw [same.todo, (refines.protocol.idle inOp).2 q]
    trivial

omit [DecidableEq P] in
theorem stopped (message : String) : Refines log (state.stop message) contents := by
  refine ⟨refines.coherent, refines.protocol.same ⟨rfl, rfl, rfl, fun _ => rfl, fun _ => rfl⟩
    refines.protocol.modified, fun alive => ?_⟩
  simp [stop] at alive

/-- `log_write` lists the block and makes its buffer dirty. -/
theorem logWrite (modified : state.pc p = .modified b) :
    Refines log (state.logWrite log p b) contents := by
  have protocol := refines.protocol
  obtain ⟨inOp, home⟩ := protocol.modified p b modified
  rcases logWrite_cases log state p b with ⟨message, target_eq, -⟩ | ⟨lh, target_eq, -, listed⟩
  · rw [target_eq]
    exact refines.stopped message
  · rw [target_eq]
    have transaction : lh.block ≠ [] → Transaction log lh := by
      intro nonempty
      rcases listed with rfl | ⟨unlisted, block_eq, room⟩
      · exact protocol.transaction nonempty
      · have before block (member : block ∈ state.lh.block) : ¬log.Contains block :=
          (protocol.transaction (List.ne_nil_of_mem member)).home block member
        have distinct : state.lh.block.Nodup := by
          by_cases empty : state.lh.block = []
          · rw [empty]
            exact List.nodup_nil
          · exact (protocol.transaction empty).distinct
        refine ⟨room, ?_, ?_⟩
        · rw [block_eq, ← List.concat_eq_append]
          exact distinct.concat unlisted
        · rw [block_eq]
          intro block member
          rcases List.mem_append.mp member with earlier | last
          · exact before block earlier
          · rw [List.mem_singleton.mp last]
            exact home
    have recorded : Protocol log { state with lh := lh } :=
      ⟨protocol.counted, protocol.settled, protocol.committer, protocol.exclusive,
        protocol.modified, transaction⟩
    have pinned : Outcome { state with lh := lh } p none (({ state with lh := lh }.setBuf b
        { state.buf b with dirty := true }).setPc p .idle) := outcome_setPc (.pin modified)
    have coherent : { state with lh := lh }.view.Coherent contents := refines.coherent
    refine (of_outcome coherent recorded pinned fun q => ?_).elim id id
    rw [(protocol.idle inOp).2 q]
    trivial

/-- The committing process goes on without touching a buffer. -/
theorem proceed {lh : Header} {committing : Bool} {todo : List Stmt}
    (transaction : lh.block ≠ [] → Transaction log lh)
    (settled : committing = true → state.outstanding = 0)
    (others : ∀ q ≠ p, (state.proc q).todo = []) (own : todo ≠ [] → committing = true)
    (safe : Safe log (flatten log lh todo) contents) :
    Refines log ({ state with lh := lh, committing := committing }.setTodo p todo) contents := by
  refine ⟨?_, refines.protocol.proceed transaction settled others own, fun _ q => ?_⟩
  · rw [view_setTodo]
    exact refines.coherent
  · by_cases mover : q = p
    · subst mover
      simpa only [setTodo, update_self] using safe
    · simp only [setTodo, update_of_ne mover, others q mover]
      trivial

theorem endOp (alive : state.trap = none) (free : (state.proc p).Free)
    (inOp : (state.proc p).inOp = true) : Refines log (state.endOp p) contents := by
  obtain ⟨settled, noTodo⟩ := refines.protocol.idle inOp
  have left : Refines log (state.leaveOp p) contents :=
    refines.operate alive settled (by simp [inOp]) fun _ b => by simp [free.1]
  have noTodo' (q : P) : ((state.leaveOp p).proc q).todo = [] :=
    (proc_update Proc.todo state (by rfl) q).trans (noTodo q)
  rw [State.endOp, if_neg (by simp [settled])]
  split
  · rename_i last
    exact left.proceed left.protocol.transaction (fun _ => last) (fun q _ => noTodo' q)
      (fun _ => rfl) (safe_commit left.protocol.transaction contents)
  · exact left

/-- The committing process executes an instruction. -/
theorem instr {instr : Instr} {rest : List Stmt} (todo : (state.proc p).todo = .instr instr :: rest)
    (outcome : Outcome (state.setTodo p rest) p store target)
    (safe : Safe log (flatten log state.lh rest) (replay contents store.toList)) :
    Refines log target contents ∨ Refines log target (replay contents store.toList) := by
  have protocol := refines.protocol
  have busy : (state.proc p).todo ≠ [] := by simp [todo]
  have others (q : P) (ne : q ≠ p) := protocol.noTodo busy ne
  refine of_outcome ?_ (protocol.proceed protocol.transaction protocol.settled others
    fun _ => protocol.committer p busy) outcome fun q => ?_
  · rw [view_setTodo]
    exact refines.coherent
  · by_cases mover : q = p
    · subst mover
      simpa only [setTodo, update_self] using safe
    · simp only [setTodo, update_of_ne mover, others q mover]
      trivial

end

end Refines

end State

end Xv6.Buffers
