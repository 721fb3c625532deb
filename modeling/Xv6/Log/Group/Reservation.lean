import Mathlib.Algebra.Order.BigOperators.Group.Finset
import Xv6.Log.Group.Invariant

/-!
# Reservation of log space

`begin_op` admits an operation if the listed blocks and `MAXOPBLOCKS` for every
operation in progress fit into `LOGSIZE`.  But an image built by `mkfs` has
`LOGSIZE` log blocks including the header, so the log holds `LOGSIZE - 1` data
blocks, and `log_write` panics as soon as that many are listed.  Three operations
of `MAXOPBLOCKS` blocks each reach the panic, and if the last of them pass the
unlocked check together, the header comes to list more blocks than the log has.

With one block less per operation the reservation is sufficient: an operation
that ends always leaves at least one reserved block unused.
-/

namespace Xv6.Log

open Function Xv6.Transition List Nat

universe u

variable {P : Type u} [DecidableEq P]

/-! ## What an operation writes -/

/-- The distinct blocks that the current operation of a process has passed to
`log_write`, after one more event. -/
def writesAfter (process : P) (written : List Blockno) : Event P → List Blockno
  | .beginOp other => if other = process then [] else written
  | .logWrite other blockno => if other = process then written.insert blockno else written
  | _ => written

/-- The distinct blocks that the current operation of a process has passed to
`log_write` in a run. -/
def opWrites (process : P) (events : List (Event P)) : List Blockno :=
  events.foldl (writesAfter process) []

theorem opWrites_concat (process : P) (events : List (Event P)) (event : Event P) :
    opWrites process (events ++ [event]) = writesAfter process (opWrites process events) event := by
  simp [opWrites]

/-- Every operation passes at most so many distinct blocks to `log_write`. -/
def AtMost (limit : Nat) (events : List (Event P)) : Prop :=
  ∀ process count, (opWrites process (events.take count)).length ≤ limit

variable {limit : Nat} {events : List (Event P)}

theorem AtMost.whole (atMost : AtMost limit events) (process : P) :
    (opWrites process events).length ≤ limit := by
  have := atMost process events.length
  rwa [take_length] at this

theorem AtMost.of_le_length (short : ∀ process, ∀ count ≤ events.length,
      (opWrites process (events.take count)).length ≤ limit) : AtMost limit events := by
  intro process count
  rcases le_total count events.length with inside | beyond
  · exact short process count inside
  · rw [take_of_length_le beyond, ← take_length (l := events)]
    exact short process events.length le_rfl

theorem AtMost.of_concat {event : Event P} (atMost : AtMost limit (events ++ [event])) :
    AtMost limit events ∧ ∀ process, (opWrites process (events ++ [event])).length ≤ limit := by
  constructor
  · intro process count
    have whole := atMost process (min count events.length)
    rw [take_append_of_le_length (min_le_right ..)] at whole
    rcases le_total count events.length with short | long
    · rwa [min_eq_left short] at whole
    · rw [min_eq_right long, take_length] at whole
      rwa [take_of_length_le long]
  · exact atMost.whole

/-- A block that is about to be recorded and not listed yet. -/
def Pc.pending (listed : List Blockno) : Pc → Nat
  | .logging blockno => if blockno ∈ listed then 0 else 1
  | _ => 0

theorem Pc.pending_le_one (listed : List Blockno) (pc : Pc) : pc.pending listed ≤ 1 := by
  unfold Pc.pending
  split
  · split <;> decide
  · decide

/-- Listing more blocks leaves no more to be recorded. -/
theorem Pc.pending_anti {listed more : List Blockno} (sub : listed ⊆ more) (pc : Pc) :
    pc.pending more ≤ pc.pending listed := by
  cases pc with
  | logging blockno =>
    simp only [Pc.pending]
    by_cases member : blockno ∈ listed
    · simp [sub member]
    · split <;> decide
  | _ => exact le_rfl

/-- What an operation has passed to `log_write` is listed, or about to be recorded. -/
structure Pc.Tracks (listed written : List Blockno) (pc : Pc) : Prop where
  pending : ∀ blockno, pc = .logging blockno → blockno ∈ written
  recorded : ∀ blockno, pc.active = true → blockno ∈ written →
    blockno ∈ listed ∨ pc = .logging blockno

namespace Pc.Tracks

variable {listed more written : List Blockno} {pc : Pc}

theorem of_inactive (inactive : pc.active = false) : pc.Tracks listed written where
  pending := by
    rintro blockno rfl
    contradiction
  recorded := by simp [inactive]

theorem mono (tracks : pc.Tracks listed written) (sub : listed ⊆ more) :
    pc.Tracks more written where
  pending := tracks.pending
  recorded blockno isActive member :=
    (tracks.recorded blockno isActive member).imp_left fun found => sub found

end Pc.Tracks

namespace State

variable {state target : State P} {log : Area} {event : Event P}
  {written written' : P → List Blockno}

/-- The blocks that an operation may still add to the header. -/
def need (written : P → List Blockno) (state : State P) (process : P) : Nat :=
  maxopblocks - (written process).length + (state.pc process).pending state.lh.block

/-- The finite set of operations in progress. -/
def Operations (state : State P) (active : Finset P) : Prop :=
  ∀ process, process ∈ active ↔ (state.pc process).active = true

/-- What is listed and what the operations may add. -/
def demand (written : P → List Blockno) (state : State P) (active : Finset P) : Nat :=
  state.lh.block.length + ∑ process ∈ active, state.need written process

omit [DecidableEq P] in
theorem demand_le (length_le : target.lh.block.length ≤ state.lh.block.length)
    (needs : ∀ process, (state.pc process).active = true →
      target.need written' process ≤ state.need written process)
    (active : Finset P) (members : state.Operations active) :
    target.demand written' active ≤ state.demand written active :=
  Nat.add_le_add length_le (Finset.sum_le_sum fun process member =>
    needs process ((members process).mp member))

/-- The reservation: what is listed and what may be added fits into `LOGSIZE`,
with one block to spare when at most one operation is left. -/
structure Reserved (written : P → List Blockno) (state : State P) : Prop where
  alive : state.trap = none
  tracks : ∀ process, (state.pc process).Tracks state.lh.block (written process)
  room : ∀ active, state.Operations active → state.demand written active ≤ logsize
  spare : ∀ active, state.Operations active → active.card ≤ 1 →
    state.demand written active < logsize

namespace Reserved

omit [DecidableEq P] in
/-- No operation needs more than `MAXOPBLOCKS`. -/
theorem need_le (reserved : Reserved written state) (process : P) :
    state.need written process ≤ maxopblocks := by
  unfold need
  cases pc_eq : state.pc process with
  | logging blockno =>
    have member := (reserved.tracks process).pending blockno pc_eq
    have positive := length_pos_of_mem member
    simp only [Pc.pending, maxopblocks]
    split <;> omega
  | _ => simp [Pc.pending]

omit [DecidableEq P] in
/-- An operation that stays below `MAXOPBLOCKS` always needs a block. -/
theorem card_le_demand (state : State P)
    (limit : ∀ process, (written process).length < maxopblocks) (active : Finset P) :
    state.lh.block.length + active.card ≤ state.demand written active := by
  rw [Finset.card_eq_sum_ones]
  refine Nat.add_le_add_left (Finset.sum_le_sum ?_) _
  intro process _
  have := limit process
  unfold need
  omega

variable {process : P}

section

variable (reserved : Reserved written state)
include reserved

omit [DecidableEq P] in
/-- While an operation is in progress, at least two blocks are free. -/
theorem length_add_two_le (protocol : state.Protocol)
    (limit : ∀ process, (written process).length < maxopblocks)
    (isActive : (state.pc process).active = true) : state.lh.block.length + 2 ≤ logsize := by
  obtain ⟨active, members, -⟩ := protocol.counted
  have positive := Finset.card_pos.mpr ⟨process, (members process).mpr isActive⟩
  have needed := card_le_demand state limit active
  have room := reserved.room active members
  rcases lt_or_ge 1 active.card with several | single
  · omega
  · have := reserved.spare active members single
    omega

omit [DecidableEq P] in
theorem length_lt (protocol : state.Protocol)
    (limit : ∀ process, (written process).length < maxopblocks) :
    state.lh.block.length < logsize := by
  by_cases some_active : ∃ process, (state.pc process).active = true
  · obtain ⟨process, isActive⟩ := some_active
    have := reserved.length_add_two_le protocol limit isActive
    omega
  · have members : state.Operations ∅ := by
      intro process
      simpa using fun isActive => some_active ⟨process, isActive⟩
    simpa [demand] using reserved.spare ∅ members (by simp)

omit [DecidableEq P] in
/-- A step that adds no operation and does not raise the demand. -/
theorem frame (alive : target.trap = none)
    (activity : ∀ process, (target.pc process).active = (state.pc process).active)
    (demands : ∀ active, state.Operations active →
      target.demand written' active ≤ state.demand written active)
    (tracks : ∀ process, (target.pc process).Tracks target.lh.block (written' process)) :
    Reserved written' target := by
  have before active (members : target.Operations active) : state.Operations active := by
    intro process
    rw [members process, activity]
  refine ⟨alive, tracks, fun active members => ?_, fun active members single => ?_⟩
  · exact (demands active (before active members)).trans
      (reserved.room active (before active members))
  · exact (demands active (before active members)).trans_lt
      (reserved.spare active (before active members) single)

/-- One process moves, and no block is dropped from the header. -/
theorem tracks_update {next : Pc} (pc_eq : target.pc = update state.pc process next)
    (sub : state.lh.block ⊆ target.lh.block)
    (others : ∀ other ≠ process, written' other = written other)
    (own : next.Tracks target.lh.block (written' process)) (other : P) :
    (target.pc other).Tracks target.lh.block (written' other) := by
  by_cases same : other = process
  · rw [same, pc_eq, update_self]
    exact own
  · rw [pc_eq, update_of_ne same, others other same]
    exact (reserved.tracks other).mono sub

end

omit [DecidableEq P] in
theorem boot (dev : Dev) : Reserved (fun _ : P => []) (State.boot dev) := by
  have nothing active (members : (State.boot dev : State P).Operations active) : active = ∅ := by
    apply Finset.eq_empty_of_forall_notMem
    intro process member
    exact absurd ((members process).mp member) (by simp [State.boot, Pc.active])
  refine ⟨rfl, fun _ => .of_inactive rfl, fun active members => ?_, fun active members _ => ?_⟩
  · rw [nothing active members]
    exact show 0 + 0 ≤ logsize by decide
  · rw [nothing active members]
    exact show 0 + 0 < logsize by decide

section

variable (reserved : Reserved written state)

include reserved

/-- A process that is not in an operation moves on to another such point. -/
theorem setPc {next : Pc} (inactive : (state.pc process).active = false)
    (after : next.active = false)
    (others : ∀ other ≠ process, written' other = written other) :
    Reserved written' (state.setPc process next) := by
  refine reserved.frame reserved.alive (fun other => ?_) (demand_le le_rfl fun other isActive => ?_)
    (reserved.tracks_update rfl (Subset.refl _) others (.of_inactive after))
  · by_cases same : other = process
    · subst same
      simp [State.setPc, after, inactive]
    · simp [State.setPc, same]
  · have ne : other ≠ process := by
      rintro rfl
      rw [inactive] at isActive
      contradiction
    simp [need, State.setPc, others other ne, ne]

omit [DecidableEq P] in
theorem wakeup : Reserved written state.wakeup := by
  have same process (isActive : (state.pc process).active = true) :
      state.wakeup.pc process = state.pc process := by
    refine if_neg fun asleep => ?_
    rw [asleep] at isActive
    contradiction
  refine reserved.frame reserved.alive state.wakeup_active
    (demand_le le_rfl fun process isActive => ?_) fun process => ?_
  · rw [need, same process isActive]
    exact le_rfl
  · by_cases isActive : (state.pc process).active = true
    · rw [same process isActive]
      exact reserved.tracks process
    · exact .of_inactive (by simpa using isActive)

/-- A successful `begin_op` has found room for `MAXOPBLOCKS` more blocks. -/
theorem enter (protocol : state.Protocol) (idle : state.committing = false)
    (room : ¬state.lh.Full state.outstanding) (inactive : (state.pc process).active = false)
    (pc_eq : target.pc = update state.pc process .inOp) (lh_eq : target.lh = state.lh)
    (alive : target.trap = none) (fresh : written' process = [])
    (others : ∀ other ≠ process, written' other = written other) :
    Reserved written' target := by
  obtain ⟨before, members, card_eq⟩ := protocol.counted
  have absent : process ∉ before := by simp [members, inactive]
  have operations active (targetMembers : target.Operations active) :
      active = insert process before := by
    ext other
    rw [targetMembers other, pc_eq]
    by_cases same : other = process
    · subst same
      simp [Pc.active]
    · simp [same, members]
  have needs : ∑ other ∈ insert process before, target.need written' other ≤
      maxopblocks + before.card * maxopblocks := by
    rw [Finset.sum_insert absent]
    refine Nat.add_le_add ?_ ?_
    · simp [need, pc_eq, Pc.pending]
    · rw [← Finset.sum_const_nat fun _ _ => rfl]
      apply Finset.sum_le_sum
      intro other member
      have ne : other ≠ process := fun same => absent (same ▸ member)
      simpa [need, pc_eq, lh_eq, others other ne, ne] using reserved.need_le other
  have fits : state.lh.block.length + (maxopblocks + before.card * maxopblocks) ≤ logsize := by
    unfold Header.Full at room
    simp only [maxopblocks] at room ⊢
    omega
  have tracks := reserved.tracks_update pc_eq (by rw [lh_eq]; exact Subset.refl _) others
    (by rw [fresh]; exact ⟨by simp, by simp⟩)
  refine ⟨alive, tracks, fun active targetMembers => ?_, fun active targetMembers single => ?_⟩
  · rw [operations active targetMembers, demand, lh_eq]
    exact (Nat.add_le_add_left needs _).trans fits
  · -- The only operation in progress begins with an empty log.
    rw [operations active targetMembers, Finset.card_insert_of_notMem absent] at single
    have none : before.card = 0 := by omega
    rw [operations active targetMembers, demand, lh_eq,
      protocol.resting idle (by rw [card_eq, none]; rfl), length_nil]
    simp only [maxopblocks, logsize] at needs ⊢
    omega

/-- The end of an operation leaves at least one block of its reservation. -/
theorem leave (protocol : state.Protocol)
    (limit : ∀ process, (written process).length < maxopblocks)
    (isActive : (state.pc process).active = true) (next : Pc) (after : next.active = false)
    (pc_eq : target.pc = update state.pc process next) (lh_eq : target.lh = state.lh)
    (alive : target.trap = none) : Reserved written target := by
  obtain ⟨before, members, -⟩ := protocol.counted
  have present : process ∈ before := (members process).mpr isActive
  have operations active (targetMembers : target.Operations active) :
      active = before.erase process := by
    ext other
    rw [targetMembers other, pc_eq]
    by_cases same : other = process
    · subst same
      simp [after]
    · simp [same, members]
  have smaller : target.demand written (before.erase process) < state.demand written before := by
    rw [demand, demand, lh_eq, ← Finset.add_sum_erase before _ present]
    have same : ∑ other ∈ before.erase process, target.need written other =
        ∑ other ∈ before.erase process, state.need written other := by
      apply Finset.sum_congr rfl
      intro other member
      have ne := (Finset.mem_erase.mp member).1
      simp [need, pc_eq, lh_eq, ne]
    have positive : 1 ≤ state.need written process := by
      have := limit process
      unfold need
      omega
    omega
  have fits := smaller.trans_le (reserved.room before members)
  have tracks := reserved.tracks_update pc_eq (by rw [lh_eq]; exact Subset.refl _)
    (fun _ _ => rfl) (.of_inactive after)
  refine ⟨alive, tracks, fun active targetMembers => ?_, fun active targetMembers _ => ?_⟩
  · rw [operations active targetMembers]
    exact fits.le
  · rw [operations active targetMembers]
    exact fits

/-- `log_write` passes its checks, and the block it is about to record comes out
of the reservation of its operation. -/
theorem logWrite (protocol : state.Protocol)
    (limit : ∀ process, (written process).length < maxopblocks) (image : log.size = logsize)
    (inOp : state.pc process = .inOp) (blockno : Blockno)
    (limitAfter : ((written process).insert blockno).length < maxopblocks) :
    Reserved (fun other => writesAfter other (written other) (.logWrite process blockno))
      (state.logWrite log process blockno) := by
  have isActive : (state.pc process).active = true := by rw [inOp, Pc.active]
  have free := reserved.length_add_two_le protocol limit isActive
  have positive := protocol.counted.pos isActive
  have passes : state.logWrite log process blockno = state.setPc process (.logging blockno) := by
    unfold State.logWrite
    rw [if_neg (by omega), if_neg (by omega)]
  rw [passes]
  have recorded := (reserved.tracks process).recorded
  have others other (ne : other ≠ process) : writesAfter other (written other)
      (.logWrite process blockno) = written other := if_neg ne.symm
  have own : writesAfter process (written process) (.logWrite process blockno) =
      (written process).insert blockno := if_pos rfl
  refine reserved.frame reserved.alive (fun other => ?_) (demand_le le_rfl fun other _ => ?_)
    (reserved.tracks_update rfl (Subset.refl _) others ⟨?_, ?_⟩)
  · by_cases same : other = process
    · subst same
      simp [State.setPc, inOp, Pc.active]
    · simp [State.setPc, same]
  · by_cases same : other = process
    · subst same
      -- A block the operation has written before is listed; any other one is counted.
      by_cases known : blockno ∈ written other
      · rcases recorded blockno isActive known with listed | logging
        · simp [need, State.setPc, writesAfter, Pc.pending, known, listed]
        · rw [inOp] at logging
          contradiction
      have bound := Pc.pending_le_one state.lh.block (.logging blockno)
      rw [length_insert_of_not_mem known] at limitAfter
      simp only [need, State.setPc, own, update_self, length_insert_of_not_mem known]
      omega
    · simp [need, State.setPc, others other same, same]
  · rintro logged logging
    cases logging
    simp [own]
  · intro logged _ member
    rw [own, mem_insert_iff] at member
    rcases member with rfl | member
    · exact .inr rfl
    · rcases recorded logged isActive member with listed | logging
      · exact .inl listed
      · rw [inOp] at logging
        contradiction

variable {blockno : Blockno}

/-- Recording a block moves it from the reservation to the header. -/
theorem record (logging : state.pc process = .logging blockno)
    (pc_eq : target.pc = update state.pc process .inOp) (alive : target.trap = none)
    (sub : state.lh.block ⊆ target.lh.block) (listed : blockno ∈ target.lh.block)
    (length_le : target.lh.block.length ≤
      state.lh.block.length + (Pc.logging blockno).pending state.lh.block) :
    Reserved written target := by
  have isActive : (state.pc process).active = true := by rw [logging, Pc.active]
  have activity other : (target.pc other).active = (state.pc other).active := by
    by_cases same : other = process
    · subst same
      rw [pc_eq, update_self, isActive, Pc.active]
    · rw [pc_eq, update_of_ne same]
  refine reserved.frame alive activity (fun active members => ?_)
    (reserved.tracks_update pc_eq sub (fun _ _ => rfl) ⟨by simp, fun logged _ member => .inl ?_⟩)
  · have present : process ∈ active := (members process).mpr isActive
    rw [demand, demand, ← Finset.add_sum_erase active _ present,
      ← Finset.add_sum_erase active _ present]
    have rest : ∑ other ∈ active.erase process, target.need written other ≤
        ∑ other ∈ active.erase process, state.need written other := by
      apply Finset.sum_le_sum
      intro other member
      have ne := (Finset.mem_erase.mp member).1
      have anti := (state.pc other).pending_anti sub
      rw [need, need, pc_eq, update_of_ne ne]
      omega
    have own : target.need written process + (Pc.logging blockno).pending state.lh.block =
        state.need written process := by
      rw [need, need, pc_eq, update_self, logging]
      rfl
    omega
  · rcases (reserved.tracks process).recorded logged isActive member with before | logging'
    · exact sub before
    · cases logging.symm.trans logging'
      exact listed

theorem logRecord (protocol : state.Protocol)
    (limit : ∀ process, (written process).length < maxopblocks)
    (logging : state.pc process = .logging blockno) :
    Reserved written (state.logRecord process blockno) := by
  have isActive : (state.pc process).active = true := by rw [logging, Pc.active]
  have free := reserved.length_add_two_le protocol limit isActive
  unfold State.logRecord
  split
  · rename_i member
    exact reserved.record logging rfl reserved.alive (Subset.refl _) member (Nat.le_add_right ..)
  · rename_i unlisted
    rw [dif_pos (by omega)]
    refine reserved.record logging rfl reserved.alive (subset_append_left ..)
      (mem_append_right _ (mem_singleton_self _)) ?_
    rw [Pc.pending, if_neg unlisted]
    exact (length_append ..).le

theorem endOp (protocol : state.Protocol)
    (limit : ∀ process, (written process).length < maxopblocks) (inOp : state.pc process = .inOp) :
    Reserved written (state.endOp process) := by
  have isActive : (state.pc process).active = true := by rw [inOp, Pc.active]
  have idle := protocol.not_committing isActive
  unfold State.endOp
  rw [if_neg (by simp [idle])]
  split
  · exact reserved.leave protocol limit isActive (.commit .start) rfl rfl rfl reserved.alive
  · have left : Reserved written
        ({ state with outstanding := state.outstanding - 1 }.setPc process .idle) :=
      reserved.leave protocol limit isActive .idle rfl rfl rfl reserved.alive
    exact left.wakeup

omit [DecidableEq P] in
/-- Nothing is reserved while no operation is in progress. -/
theorem quiesce (before : ∀ process, (state.pc process).active = false)
    (after : ∀ process, (target.pc process).active = false) (alive : target.trap = none)
    (length_le : target.lh.block.length ≤ state.lh.block.length) : Reserved written target := by
  refine reserved.frame alive (fun process => by rw [before, after])
    (demand_le length_le fun process isActive => ?_) fun process => .of_inactive (after process)
  rw [before] at isActive
  contradiction

theorem commit (protocol : state.Protocol) {stage : Stage}
    (commits : state.pc process = .commit stage) :
    Reserved written (state.commit log process stage) := by
  have before : ∀ other, (state.pc other).active = false := by
    have counted := protocol.counted
    rw [protocol.drained (protocol.commits process stage commits).committing] at counted
    exact counted.inactive
  have after (next : Pc) (inactive : next.active = false) other :
      (update state.pc process next other).active = false := by
    by_cases same : other = process
    · rw [same, update_self, inactive]
    · rw [update_of_ne same, before]
  cases stage with
  | start =>
    unfold State.commit
    dsimp only
    split <;> exact reserved.quiesce before (after _ rfl) reserved.alive le_rfl
  | logged | headed | cleared => exact reserved.quiesce before (after _ rfl) reserved.alive le_rfl
  | installed => exact reserved.quiesce before (after _ rfl) reserved.alive (zero_le _)
  | finished =>
    have idle : Reserved written ({ state with committing := false }.setPc process .idle) :=
      reserved.quiesce before (after _ rfl) reserved.alive le_rfl
    exact idle.wakeup

theorem beginOp (protocol : state.Protocol)
    (waiting : state.pc process = .idle ∨ state.pc process = .woken) :
    Reserved (fun other => writesAfter other (written other) (.beginOp process))
      (state.beginOp process) := by
  have inactive : (state.pc process).active = false := by
    rcases waiting with idle | woken
    · rw [idle, Pc.active]
    · rw [woken, Pc.active]
  have others other (ne : other ≠ process) : writesAfter other (written other) (.beginOp process) =
      written other := if_neg ne.symm
  unfold State.beginOp
  split
  · exact reserved.setPc inactive rfl others
  · rename_i idle
    split
    · exact reserved.setPc inactive rfl others
    · rename_i room
      exact reserved.enter protocol (by simpa using idle) room inactive rfl rfl reserved.alive
        (if_pos rfl) others

/-- Operations below `MAXOPBLOCKS` keep to their reservation. -/
theorem step (protocol : state.Protocol) (image : log.size = logsize)
    (limit : ∀ process, (written process).length < maxopblocks)
    (limitAfter : ∀ process, (writesAfter process (written process) event).length < maxopblocks)
    (step_eq : State.step log state event = some target) :
    Reserved (fun process => writesAfter process (written process) event) target := by
  obtain ⟨-, taken⟩ := taken_of_step step_eq
  cases taken with
  | beginOp waiting => exact reserved.beginOp protocol waiting
  | kill asleep => exact reserved.setPc (by rw [asleep, Pc.active]) rfl fun _ _ => rfl
  | modify inOp blockno data =>
    exact reserved.frame reserved.alive (fun _ => rfl) (fun _ _ => le_rfl) reserved.tracks
  | @logWrite process inOp blockno =>
    apply reserved.logWrite protocol limit image inOp blockno
    simpa [writesAfter] using limitAfter process
  | logRecord logging => exact reserved.logRecord protocol limit logging
  | endOp inOp => exact reserved.endOp protocol limit inOp
  | commit commits => exact reserved.commit protocol commits

end

end Reserved

/-! ## Runs -/

theorem reserved_of_run {events : List (Event P)} {dev : Dev} (image : log.size = logsize)
    (limit : AtMost (maxopblocks - 1) events)
    (execution : run (step log) (boot dev) events = some state) :
    Reserved (fun process => opWrites process events) state := by
  refine run_induction (fun events (state : State P) => AtMost (maxopblocks - 1) events →
    Reserved (fun process => opWrites process events) state) (fun _ => .boot dev) ?_ execution limit
  intro events middle event target before ih step_eq limit
  obtain ⟨earlier, now⟩ := limit.of_concat
  have reserved := ih earlier
  have limitBefore process : (opWrites process events).length < maxopblocks :=
    lt_of_le_of_lt (earlier.whole process) (by decide)
  simp only [opWrites_concat] at now ⊢
  exact reserved.step (.of_reachable (.of_run before)) image limitBefore
    (fun process => lt_of_le_of_lt (now process) (by decide)) step_eq

/-- The log has not run out of space. -/
structure Sufficient (log : Area) (state : State P) : Prop where
  fits : (state.lh.block.length : Int) ≤ (log.size : Int) - 1
  calm : state.trap ≠ some (.panic "too big a transaction")

/-- On an image built by `mkfs`, the reservation is sufficient for operations of
at most `MAXOPBLOCKS - 1` blocks. -/
theorem sufficient_of_run {events : List (Event P)} {dev : Dev} (image : log.size = logsize)
    (limit : AtMost (maxopblocks - 1) events)
    (execution : run (step log) (boot dev) events = some state) : state.Sufficient log := by
  have reserved := reserved_of_run image limit execution
  have limitNow process : (opWrites process events).length < maxopblocks :=
    Nat.lt_of_le_of_lt (limit.whole process) (by decide)
  have room := reserved.length_lt (.of_reachable (.of_run execution)) limitNow
  refine ⟨by omega, ?_⟩
  rw [reserved.alive]
  nofun

/-- A process passes consecutive blocks to `log_write`. -/
def writeBlocks (process : Fin 3) (first count : Nat) : List (Event (Fin 3)) :=
  (List.range count).flatMap fun index =>
    [.logWrite process (BitVec.ofNat 32 (first + index)), .logRecord process]

/-- Three operations in progress at once. -/
def threeBegin : List (Event (Fin 3)) :=
  [.beginOp 0, .beginOp 1, .beginOp 2]

/-- Each of the three operations writes nine blocks. -/
def threeOfNine : List (Event (Fin 3)) :=
  threeBegin ++ writeBlocks 0 100 9 ++ writeBlocks 1 110 9 ++ writeBlocks 2 120 9

theorem sufficient_threeOfNine :
    AtMost (maxopblocks - 1) threeOfNine ∧
      ∃ state : State (Fin 3), run (step .mkfs) (boot blankDev) threeOfNine = some state ∧
        state.Sufficient .mkfs := by
  have limit : AtMost (maxopblocks - 1) threeOfNine := .of_le_length (by decide +kernel)
  obtain ⟨state, execution⟩ : ∃ state : State (Fin 3),
      run (step .mkfs) (boot blankDev) threeOfNine = some state :=
    Option.isSome_iff_exists.mp (by decide +kernel)
  exact ⟨limit, state, execution, sufficient_of_run rfl limit execution⟩

/-- Two operations of ten blocks, and a third one that writes its tenth. -/
def threeOfTen : List (Event (Fin 3)) :=
  threeBegin ++ writeBlocks 0 100 10 ++ writeBlocks 1 110 10 ++ writeBlocks 2 120 9 ++
    [.logWrite 2 129]

/-- The last two blocks of the three operations pass the check of `log_write`
together. -/
def threeTogether : List (Event (Fin 3)) :=
  threeBegin ++ writeBlocks 0 100 10 ++ writeBlocks 1 110 9 ++ writeBlocks 2 120 9 ++
    [.logWrite 1 119, .logWrite 2 129, .logRecord 1, .logRecord 2]

/-- Operations of `MAXOPBLOCKS` blocks reach the panic, or list a block more than
the log can hold. -/
theorem insufficient_threeOfTen :
    (AtMost maxopblocks threeOfTen ∧
      ∃ state : State (Fin 3), run (step .mkfs) (boot blankDev) threeOfTen = some state ∧
        state.trap = some (.panic "too big a transaction")) ∧
    AtMost maxopblocks threeTogether ∧
      ∃ state : State (Fin 3), run (step .mkfs) (boot blankDev) threeTogether = some state ∧
        state.lh.block.length = Area.mkfs.size := by
  refine ⟨⟨.of_le_length (by decide +kernel), Option.map_eq_some_iff.mp (by decide +kernel)⟩,
    .of_le_length (by decide +kernel), ?_⟩
  have listed : (run (step .mkfs) (boot blankDev) threeTogether).map
      (fun state : State (Fin 3) => state.lh.block.length) = some Area.mkfs.size := by
    decide +kernel
  exact Option.map_eq_some_iff.mp listed

end State

end Xv6.Log
