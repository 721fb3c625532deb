import Mathlib.Data.Fintype.Card
import Xv6.Ide.Core

/-!
# The queued driver refines the synchronous one

At every moment, finishing the requests in the queue one after another as
`memide.c` does gives the buffers and the disk that `memide.c` would have by now.
The request at the head is the one the device works on, so completing it changes
nothing in this account, and a buffer outside of the queue already is what
`memide.c` has made of it.
-/

namespace Xv6.Ide

open Function Xv6.Log Xv6.Transition List Option State Mem Contents

universe u

variable {P : Type u} {n : Nat}

/-! ## Transfers -/

namespace Mem

variable {mem : Mem P n} {b other : Fin n} {queue : List (Fin n)}

/-- Replace a buffer. -/
def setBuf (mem : Mem P n) (b : Fin n) (buf : Buf P) : Mem P n :=
  { mem with bufs := update mem.bufs b buf }

theorem transfer_bufs_of_ne (ne : b ≠ other) : (mem.transfer other).bufs b = mem.bufs b :=
  update_of_ne ne _ _

theorem transfer_setBuf (ne : b ≠ other) (buf : Buf P) :
    (mem.setBuf b buf).transfer other = (mem.transfer other).setBuf b buf := by
  have same : (mem.setBuf b buf).bufs other = mem.bufs other := update_of_ne ne.symm _ _
  unfold transfer
  rw [same]
  simp only [setBuf, setContents, update_comm ne]
  rw [update_of_ne ne.symm]

/-- Transfers of other buffers leave a buffer alone. -/
theorem foldl_transfer_bufs (outside : b ∉ queue) :
    (queue.foldl transfer mem).bufs b = mem.bufs b := by
  induction queue generalizing mem with
  | nil => rfl
  | cons first rest ih =>
    obtain ⟨ne, outside⟩ := not_or.mp (mt mem_cons.mpr outside)
    rw [foldl_cons, ih outside, transfer_bufs_of_ne ne]

theorem foldl_transfer_setBuf (mem : Mem P n) (outside : b ∉ queue) (buf : Buf P) :
    queue.foldl transfer (mem.setBuf b buf) = (queue.foldl transfer mem).setBuf b buf := by
  induction queue generalizing mem with
  | nil => rfl
  | cons first rest ih =>
    obtain ⟨ne, outside⟩ := not_or.mp (mt mem_cons.mpr outside)
    rw [foldl_cons, foldl_cons, transfer_setBuf ne, ih _ outside]

/-- The block of a write may have been written already. -/
theorem transfer_of_written (mem : Mem P n) (dirty : (mem.bufs b).dirty = true) :
    { mem with
      disk := update mem.disk (mem.bufs b).blockno (mem.bufs b).data }.transfer b =
      mem.transfer b := by
  simp [transfer, setContents, dirty, transferred]

theorem runOps_concat (disksize : Nat) (ops : List (Op P n)) (op : Op P n) :
    runOps disksize mem (ops ++ [op]) =
      (runOps disksize mem ops).bind fun next => next.perform disksize op := by
  induction ops generalizing mem with
  | nil =>
    change (mem.perform disksize op).bind Except.ok = mem.perform disksize op
    cases mem.perform disksize op <;> rfl
  | cons first rest ih =>
    simp only [cons_append, runOps]
    cases mem.perform disksize first with
    | error message => rfl
    | ok next => exact ih

end Mem

/-- The address registers hold every block number of the file system. -/
theorem sectorOf_eq {blockno : Blockno} (small : blockno.toNat < fssize) :
    sectorOf blockno = blockno := by
  apply BitVec.eq_of_toNat_eq
  have mask : (0x0fffffff#32).toNat = 2 ^ 28 - 1 := rfl
  rw [sectorOf, BitVec.toNat_and, mask, Nat.and_two_pow_sub_one_eq_mod]
  unfold fssize at small
  omega

theorem command_eq {buf : Contents} (dev : buf.dev = 1) (small : buf.blockno.toNat < fssize) :
    buf.command =
      if buf.dirty then .write true buf.blockno buf.data else .read true buf.blockno := by
  have drive : buf.drive = true := by rw [drive, dev]; rfl
  rw [command, drive, sectorOf_eq small]

/-- A process in `iderw`: its buffer and the number of its request. -/
def Pc.request : Pc n → Option (Fin n × Nat)
  | .idle => none
  | .asleep b request | .ready b request => some (b, request)

/-- The requests considered: for a block of disk 1 that exists. -/
def Legal (disksize : Nat) (state : State P n) : Event P n → Prop
  | .call _ b => (state.bufs b).dev = 1 ∧ (state.bufs b).blockno.toNat < fssize ∧
      (state.bufs b).blockno.toNat < disksize
  | _ => True

instance (disksize : Nat) (state : State P n) : (event : Event P n) →
    Decidable (Legal disksize state event)
  | .call _ _ => inferInstanceAs (Decidable (_ ∧ _ ∧ _))
  | .lock _ _ | .unlock _ _ | .store _ _ _ | .rouse _ | .resume _ | .execute | .intr =>
    .isTrue trivial

namespace State

variable {disksize : Nat} {start : Mem P n} {state : State P n} {queue : List (Fin n)}

/-- The buffers and the disk as `memide.c` has them. -/
def mem (state : State P n) : Mem P n := ⟨state.bufs, state.disks true⟩

/-- The device works on the request at the head of the queue. -/
def Serves (state : State P n) : List (Fin n) → Prop
  | [] => state.device = .idle
  | b :: _ =>
    state.device = .busy (state.bufs b).command ∨
      (state.bufs b).dirty = true ∧ state.device = .done none ∧
        state.disks true (state.bufs b).blockno = (state.bufs b).data ∨
      (state.bufs b).dirty = false ∧
        state.device = .done (some (state.disks true (state.bufs b).blockno))

/-- The requests in the queue, the processes that wait for them, and the account
with `memide.c`; `queue` are the buffers in the queue. -/
structure Queue (disksize : Nat) (start : Mem P n) (state : State P n)
    (queue : List (Fin n)) : Prop where
  linked : Linked state.qnext state.idequeue queue
  nodup : queue.Nodup
  queued : state.queued = state.completed ++ queue
  owned : ∀ b ∈ queue, ∃ p request, (state.bufs b).holder = some p ∧
    (state.pc p).request = some (b, request)
  work : ∀ b ∈ queue, ¬(state.bufs b).Clean ∧ (state.bufs b).dev = 1 ∧
    (state.bufs b).blockno.toNat < fssize
  waits : ∀ p b request, (state.pc p).request = some (b, request) →
    (state.bufs b).holder = some p ∧ state.queued[request]? = some b ∧
      (request < state.completed.length ∧ b ∉ queue ∧ (state.bufs b).Clean ∨
        state.completed.length ≤ request ∧ b ∈ queue)
  mem : start.runOps disksize state.trace = .ok (queue.foldl Mem.transfer state.mem)

/-- The invariant of the driver. -/
structure Invariant (disksize : Nat) (start : Mem P n) (state : State P n)
    (queue : List (Fin n)) : Prop extends state.Queue disksize start queue where
  issued : state.issued = state.completed ++ queue.take 1
  serves : state.Serves queue

namespace Invariant

variable {p : P}

theorem notMem_of_idle (invariant : state.Invariant disksize start queue) {b : Fin n}
    (holds : (state.bufs b).holder = some p) (idle : state.pc p = .idle) : b ∉ queue := by
  intro member
  obtain ⟨owner, request, owns, waits⟩ := invariant.owned b member
  obtain rfl := some.inj (owns.symm.trans holds)
  rw [idle] at waits
  contradiction

theorem notMem_of_free (invariant : state.Invariant disksize start queue) {b : Fin n}
    (free : (state.bufs b).holder = none) : b ∉ queue := by
  intro member
  obtain ⟨owner, request, owns, -⟩ := invariant.owned b member
  rw [free] at owns
  contradiction

variable {request : Nat}

/-- Nobody in `iderw` has a buffer whose holder is idle, or that has no holder. -/
theorem ne_of_waits (invariant : state.Invariant disksize start queue) {b : Fin n}
    (settled : ∀ p, (state.bufs b).holder = some p → state.pc p = .idle) {other : Fin n}
    (waits : (state.pc p).request = some (other, request)) : other ≠ b := by
  rintro rfl
  rw [settled p (invariant.waits p other request waits).1] at waits
  contradiction

/-- A user changes a buffer that is not in the queue. -/
theorem setBuf (invariant : state.Invariant disksize start queue) {b : Fin n} {buf : Buf P}
    {op : Op P n} (outside : b ∉ queue)
    (settled : ∀ p, (state.bufs b).holder = some p → state.pc p = .idle)
    (performs : ∀ mem : Mem P n, mem.bufs b = state.bufs b →
      mem.perform disksize op = .ok (mem.setBuf b buf)) :
    ({ state with bufs := update state.bufs b buf }.record op).Invariant disksize start queue := by
  have others other (member : other ∈ queue) :
      update state.bufs b buf other = state.bufs other := by
    have ne : other ≠ b := by
      rintro rfl
      exact outside member
    exact update_of_ne ne _ _
  refine
    { invariant with
      owned := ?_
      work := ?_
      waits := ?_
      mem := ?_
      serves := ?_ }
  · intro other member
    simp only [record, others other member]
    exact invariant.owned other member
  · intro other member
    simp only [record, others other member]
    exact invariant.work other member
  · intro p other request waits
    simp only [record, update_of_ne (invariant.ne_of_waits settled waits)]
    exact invariant.waits p other request waits
  · have outcome := foldl_transfer_setBuf state.mem outside buf
    simp only [record, runOps_concat, invariant.mem]
    exact (performs _ (foldl_transfer_bufs outside)).trans (congrArg Except.ok outcome.symm)
  · have serves := invariant.serves
    cases queue with
    | nil => exact serves
    | cons head rest =>
      simp only [Serves, record, others head (by simp)]
      exact serves

variable [DecidableEq P]

section

variable (invariant : state.Invariant disksize start queue)

include invariant

/-- A process in `iderw` moves on without leaving it. -/
theorem move {pc : Pc n} (same : pc.request = (state.pc p).request) :
    (state.move p pc).Invariant disksize start queue := by
  have request_eq other : ((state.move p pc).pc other).request = (state.pc other).request := by
    by_cases isSame : other = p
    · subst isSame
      simpa [State.move] using same
    · simp [State.move, isSame]
  refine { invariant with owned := ?_, waits := ?_, serves := invariant.serves }
  · intro b member
    obtain ⟨owner, request, owns, waits⟩ := invariant.owned b member
    exact ⟨owner, request, owns, (request_eq owner).trans waits⟩
  · intro other b request waits
    exact invariant.waits other b request ((request_eq other).symm.trans waits)

/-- A process returns from `iderw`. -/
theorem leave {b : Fin n} (waiting : (state.pc p).request = some (b, request))
    (clean : (state.bufs b).Clean) : (state.move p .idle).Invariant disksize start queue := by
  refine { invariant with owned := ?_, waits := ?_, serves := invariant.serves }
  · intro other member
    obtain ⟨owner, number, owns, waits⟩ := invariant.owned other member
    have ne : owner ≠ p := by
      rintro rfl
      obtain ⟨rfl, -⟩ := Prod.mk.inj (some.inj (waits.symm.trans waiting))
      exact (invariant.work other member).1 clean
    exact ⟨owner, number, owns, by simpa [State.move, ne] using waits⟩
  · intro other buffer number waits
    by_cases same : other = p
    · subst same
      simp [State.move, Pc.request] at waits
    · exact invariant.waits other buffer number (by simpa [State.move, same] using waits)

omit [DecidableEq P] in
/-- What the device does to its disk. -/
theorem execute {command : Command} (busy : state.device = .busy command) :
    (state.execute command).Invariant disksize start queue := by
  cases queue with
  | nil => exact absurd (busy.symm.trans invariant.serves) nofun
  | cons head rest =>
    obtain ⟨-, dev, small⟩ := invariant.work head (by simp)
    have issued : command = (state.bufs head).command := by
      rcases invariant.serves with working | ⟨-, done, -⟩ | ⟨-, done⟩
      · exact Device.busy.inj (busy.symm.trans working)
      · exact absurd (busy.symm.trans done) nofun
      · exact absurd (busy.symm.trans done) nofun
    rw [command_eq dev small] at issued
    cases dirty : (state.bufs head).dirty with
    | false =>
      rw [dirty] at issued
      subst issued
      exact { invariant with serves := .inr (.inr ⟨dirty, rfl⟩) }
    | true =>
      rw [dirty, if_pos rfl] at issued
      subst issued
      -- The block is written before `memide.c` gets to it in the account.
      have mem_eq : (state.execute (.write true (state.bufs head).blockno
          (state.bufs head).data)).mem.transfer head = state.mem.transfer head := by
        rw [← transfer_of_written state.mem dirty]
        simp [execute, mem]
      refine { invariant with mem := ?_, serves := .inr (.inl ⟨dirty, rfl, ?_⟩) }
      · rw [foldl_cons, mem_eq]
        exact invariant.mem
      · simp [execute]

end

end Invariant

namespace Queue

/-- The request at the head of the queue is given to the device. -/
theorem idestart {head : Fin n} (held : state.Queue disksize start (head :: queue))
    (issued : state.issued = state.completed) :
    { state with
      device := .busy (state.bufs head).command
      issued := state.issued ++ [head] }.Invariant disksize start (head :: queue) :=
  { held with
    issued := congrArg (· ++ [head]) issued
    serves := .inl rfl }

end Queue

/-- A process that is woken stays in its request. -/
theorem wakeup_request (state : State P n) (b : Fin n) (p : P) :
    ((state.wakeup b).pc p).request = (state.pc p).request := by
  unfold wakeup
  dsimp only
  cases pc_eq : state.pc p with
  | idle => rfl
  | ready other request => rfl
  | asleep other request =>
    dsimp only
    split
    · rename_i same
      rw [same]
      rfl
    · rfl

variable {head : Fin n} {data : Option Block}

/-- What the interrupt does to the buffer is the transfer of `memide.c`. -/
theorem Invariant.complete_mem [DecidableEq P]
    (invariant : state.Invariant disksize start (head :: queue))
    (done : state.device = .done data) :
    (state.complete head data).mem = state.mem.transfer head := by
  rcases invariant.serves with busy | ⟨dirty, written, disk_eq⟩ | ⟨dirty, fetched⟩
  · exact absurd (done.symm.trans busy) nofun
  · simp [complete, mem, Mem.transfer, Mem.setContents, setContents, wakeup,
      transferred, dirty, ← disk_eq]
  · obtain rfl := Device.done.inj (done.symm.trans fetched)
    simp [complete, mem, Mem.transfer, Mem.setContents, setContents, wakeup, transferred, dirty]

/-- The interrupt completes the request at the head of the queue. -/
theorem Invariant.complete [DecidableEq P]
    (invariant : state.Invariant disksize start (head :: queue))
    (done : state.device = .done data) :
    (state.complete head data).Queue disksize start queue ∧
      (state.complete head data).issued = (state.complete head data).completed := by
  obtain ⟨fresh, nodup⟩ := nodup_cons.mp invariant.nodup
  have queued : state.queued = state.completed ++ [head] ++ queue := by
    rw [invariant.queued]
    simp
  have mem_eq : (state.complete head data).mem = state.mem.transfer head :=
    invariant.complete_mem done
  have request_eq : ∀ p, ((state.complete head data).pc p).request = (state.pc p).request :=
    wakeup_request _ head
  have others b (member : b ∈ queue) : (state.complete head data).bufs b = state.bufs b := by
    have ne : b ≠ head := by
      rintro rfl
      exact fresh member
    exact update_of_ne ne _ _
  refine ⟨⟨invariant.linked.2, nodup, queued, ?_, ?_, ?_, ?_⟩, invariant.issued⟩
  · intro b member
    obtain ⟨p, request, owns, waits⟩ := invariant.owned b (mem_cons_of_mem _ member)
    exact ⟨p, request, by rwa [others b member], (request_eq p).trans waits⟩
  · intro b member
    rw [others b member]
    exact invariant.work b (mem_cons_of_mem _ member)
  · intro p b request waits
    rw [request_eq] at waits
    obtain ⟨holds, number, place⟩ := invariant.waits p b request waits
    have completed_eq : (state.complete head data).completed.length = state.completed.length + 1 :=
      length_append
    by_cases same : b = head
    · subst same
      -- In the rest of the queue the buffer does not occur again.
      have position : request - state.completed.length = 0 := by
        rcases place with ⟨-, outside, -⟩ | ⟨late, -⟩
        · exact absurd (by simp) outside
        · rw [invariant.queued, getElem?_append_right late] at number
          have first : (b :: queue)[0]? = (b :: queue)[request - state.completed.length]? :=
            number.symm
          exact ((getElem?_inj (Nat.succ_pos _) invariant.nodup).mp first).symm
      refine ⟨by simpa [complete, setContents, wakeup] using holds, number, .inl ?_⟩
      refine ⟨by omega, fresh, ?_⟩
      simp [complete, setContents, wakeup, Clean]
    · have buf_eq :
          (state.complete head data).bufs b = state.bufs b := update_of_ne same _ _
      rw [buf_eq, completed_eq]
      refine ⟨holds, number, ?_⟩
      rcases place with ⟨early, outside, clean⟩ | ⟨late, member⟩
      · exact .inl ⟨by omega, fun member => outside (mem_cons_of_mem _ member), clean⟩
      · refine .inr ⟨?_, (mem_cons.mp member).resolve_left same⟩
        refine Nat.lt_of_le_of_ne late fun position => same ?_
        rw [invariant.queued, getElem?_append_right late, position, Nat.sub_self] at number
        exact (some.inj number).symm
  · rw [mem_eq]
    exact invariant.mem

variable {target : State P n}

/-- `ideintr` completes one request and starts the next. -/
theorem Invariant.ideintr [DecidableEq P] (invariant : state.Invariant disksize start queue)
    (done : state.device = .done data) (handled : state.ideintr data = some target) :
    ∃ head rest, queue = head :: rest ∧ target.Invariant disksize start rest := by
  cases queue with
  | nil => exact absurd (done.symm.trans invariant.serves) nofun
  | cons head rest =>
    refine ⟨head, rest, rfl, ?_⟩
    obtain ⟨held, issued⟩ := invariant.complete done
    simp only [ideintr, invariant.linked.1] at handled
    cases rest with
    | nil =>
      rw [held.linked] at handled
      cases handled
      exact { held with issued := issued.trans (append_nil _).symm, serves := rfl }
    | cons next rest =>
      have small := (held.work next (by simp)).2.2
      rw [held.linked.1] at handled
      simp only [idestart, if_neg (Nat.not_le.mpr small)] at handled
      cases handled
      exact held.idestart issued

/-- A request is appended to the queue. -/
theorem Queue.append (held : state.Queue disksize start queue) {b : Fin n} (fresh : b ∉ queue) :
    ∃ appended, (state.record (.rw b)).append b = some appended ∧
      Linked appended.qnext appended.idequeue (queue ++ [b]) ∧
      appended = { state with
        trace := state.trace ++ [.rw b]
        queued := state.queued ++ [b]
        idequeue := appended.idequeue
        qnext := appended.qnext } := by
  have linked := held.linked.update_of_notMem fresh none
  have bound : queue.length < n + 1 := by
    have := held.nodup.length_le_card
    rw [Fintype.card_fin] at this
    omega
  have found : findEnd (update state.qnext b none) state.idequeue (n + 1) none =
      some (queue.getLast?.or none) := Linked.findEnd_eq linked bound
  rw [or_none] at found
  have appended : (state.record (.rw b)).append b = _ := congrArg (Option.map _) found
  exact ⟨_, appended, linked.link held.nodup fresh (update_self _ _ _), rfl⟩

variable {p : P}

/-- `iderw` of `memide.c` accepts the request. -/
theorem Queue.perform_rw (held : state.Queue disksize start queue) {b : Fin n} (fresh : b ∉ queue)
    (holds : (state.bufs b).holder = some p) (work : ¬(state.bufs b).Clean)
    (legal : Legal disksize state (.call p b)) :
    start.runOps disksize (state.trace ++ [.rw b]) =
      .ok ((queue ++ [b]).foldl Mem.transfer state.mem) := by
  have buf_eq : (queue.foldl Mem.transfer state.mem).bufs b = state.bufs b :=
    foldl_transfer_bufs fresh
  have accepted : Mem.iderw disksize (queue.foldl Mem.transfer state.mem) b =
      .ok ((queue.foldl Mem.transfer state.mem).transfer b) := by
    rw [Mem.iderw, buf_eq, holds, if_neg (by simp), if_neg work, if_neg (not_not.mpr legal.1),
      if_neg (Nat.not_le.mpr legal.2.2)]
  rw [runOps_concat, held.mem, foldl_append]
  exact accepted

/-- The caller sleeps behind its request. -/
theorem Queue.enqueue [DecidableEq P] (held : state.Queue disksize start queue) {b : Fin n}
    (fresh : b ∉ queue) (holds : (state.bufs b).holder = some p) (idle : state.pc p = .idle)
    (work : ¬(state.bufs b).Clean) (legal : Legal disksize state (.call p b))
    {head : Option (Fin n)} {qnext : Fin n → Option (Fin n)}
    (linked : Linked qnext head (queue ++ [b])) :
    ({ state with
        trace := state.trace ++ [Op.rw b]
        queued := state.queued ++ [b]
        idequeue := head
        qnext := qnext }.move p (.asleep b state.queued.length)).Queue disksize start
          (queue ++ [b]) := by
  have notIdle : ∀ other buffer request, (state.pc other).request = some (buffer, request) →
      other ≠ p := by
    rintro other buffer request waits rfl
    rw [idle] at waits
    contradiction
  refine ⟨linked, ?_, ?_, ?_, ?_, ?_, held.perform_rw fresh holds work legal⟩
  · rw [← concat_eq_append]
    exact held.nodup.concat fresh
  · simp [State.move, held.queued]
  · intro other member
    rcases mem_append.mp member with member | member
    · obtain ⟨owner, request, owns, waits⟩ := held.owned other member
      have ne := notIdle owner other request waits
      exact ⟨owner, request, owns, by simpa [State.move, ne] using waits⟩
    · obtain rfl := mem_singleton.mp member
      exact ⟨p, state.queued.length, holds, by simp [State.move, Pc.request]⟩
  · intro other member
    rcases mem_append.mp member with member | member
    · exact held.work other member
    · obtain rfl := mem_singleton.mp member
      exact ⟨work, legal.1, legal.2.1⟩
  · intro other buffer request waits
    by_cases same : other = p
    · subst same
      obtain ⟨rfl, rfl⟩ : b = buffer ∧ state.queued.length = request := by
        simpa [State.move, Pc.request] using waits
      refine ⟨holds, by simp [State.move], .inr ⟨?_, by simp⟩⟩
      simp [State.move, held.queued]
    have waits : (state.pc other).request = some (buffer, request) := by
      simpa [State.move, same] using waits
    obtain ⟨owns, number, place⟩ := held.waits other buffer request waits
    have ne : buffer ≠ b := by
      rintro rfl
      exact same (some.inj (owns.symm.trans holds))
    refine ⟨owns, ?_, ?_⟩
    · obtain ⟨bound, -⟩ := List.getElem?_eq_some_iff.mp number
      simpa [State.move, getElem?_append_left bound] using number
    · rcases place with ⟨early, outside, clean⟩ | ⟨late, member⟩
      · exact .inl ⟨early, by simp [outside, ne], clean⟩
      · exact .inr ⟨late, mem_append_left _ member⟩

variable {havedisk1 : Bool}

section

variable (invariant : state.Invariant disksize start queue)

include invariant

/-- A call of `iderw` puts its buffer at the end of the queue and sleeps. -/
theorem Invariant.iderw [DecidableEq P] {b : Fin n} (holds : (state.bufs b).holder = some p)
    (idle : state.pc p = .idle) (legal : Legal disksize state (.call p b))
    (called : state.iderw havedisk1 p b = some target) :
    (∃ message, target = state.stop message) ∨
      target.pc p = .asleep b state.queued.length ∧
        target.Invariant disksize start (queue ++ [b]) := by
  have fresh := invariant.notMem_of_idle holds idle
  unfold State.iderw at called
  split at called
  · cases called
    exact .inl ⟨_, rfl⟩
  · rename_i work
    split at called
    · cases called
      exact .inl ⟨_, rfl⟩
    · obtain ⟨appended, append_eq, linked, fields⟩ := invariant.append fresh
      have enqueued := invariant.enqueue fresh holds idle work legal linked
      rw [append_eq] at called
      simp only [bind_eq_bind, bind_some] at called
      rw [← fields] at enqueued
      have buf_eq : appended.bufs b = state.bufs b := by rw [fields]
      right
      cases queue with
      | nil =>
        have small : ¬fssize ≤ (appended.bufs b).blockno.toNat := by
          rw [buf_eq]
          exact Nat.not_le.mpr legal.2.1
        have device_eq : appended.device = .idle := by
          rw [fields]
          exact invariant.serves
        rw [if_pos linked.1, idestart, if_neg small, device_eq] at called
        cases called
        rw [waitFor, if_neg (by rwa [buf_eq])]
        refine ⟨by simp [State.move], enqueued.idestart ?_⟩
        rw [fields]
        exact invariant.issued.trans (append_nil _)
      | cons head rest =>
        have notHead : appended.idequeue ≠ some b := by
          rw [linked.1]
          rintro same
          exact fresh (by simp [some.inj same])
        rw [if_neg notHead] at called
        cases called
        rw [waitFor, buf_eq, if_neg work]
        refine ⟨by simp [State.move], { enqueued with issued := ?_, serves := ?_ }⟩
        · rw [fields]
          exact invariant.issued
        · rw [fields]
          exact invariant.serves

/-- A process looks at its buffer after `sleep`. -/
theorem Invariant.waitFor [DecidableEq P] {b : Fin n} {request : Nat}
    (ready : state.pc p = .ready b request) :
    (state.waitFor p b request).Invariant disksize start queue := by
  have waiting : (state.pc p).request = some (b, request) := by rw [ready]; rfl
  unfold State.waitFor
  split
  · rename_i clean
    exact invariant.leave waiting clean
  · exact invariant.move waiting.symm

/-- Every step keeps the invariant, for some queue. -/
theorem Invariant.step [DecidableEq P] {event : Event P n} (legal : Legal disksize state event)
    (stepped : state.step havedisk1 event = some target) :
    ∃ queue, target.Invariant disksize start queue := by
  unfold State.step at stepped
  split at stepped
  · contradiction
  · cases event with
    | lock p b =>
      obtain ⟨free, same⟩ := ite_none_right_eq_some.mp stepped
      cases same
      refine ⟨queue, invariant.setBuf (invariant.notMem_of_free free) ?_ ?_⟩
      · intro owner owns
        rw [free] at owns
        contradiction
      · intro mem buf_eq
        simp [Mem.perform, Mem.setHolder, Mem.setBuf, buf_eq]
    | unlock p b | store p b contents =>
      obtain ⟨⟨holds, idle⟩, same⟩ := ite_none_right_eq_some.mp stepped
      cases same
      refine ⟨queue, invariant.setBuf (invariant.notMem_of_idle holds idle) ?_ ?_⟩
      · intro owner owns
        rwa [some.inj (owns.symm.trans holds)]
      · intro mem buf_eq
        simp [Mem.perform, Mem.setHolder, Mem.setContents, Mem.setBuf, buf_eq]
    | call p b =>
      obtain ⟨⟨holds, idle⟩, called⟩ := ite_none_right_eq_some.mp stepped
      rcases invariant.iderw holds idle legal called with ⟨message, rfl⟩ | ⟨-, kept⟩
      · exact ⟨queue, { invariant with serves := invariant.serves }⟩
      · exact ⟨_, kept⟩
    | rouse p =>
      simp only at stepped
      split at stepped
      · rename_i b request asleep
        cases stepped
        exact ⟨queue, invariant.move (by rw [asleep]; rfl)⟩
      · contradiction
    | resume p =>
      simp only at stepped
      split at stepped
      · rename_i b request ready
        cases stepped
        exact ⟨queue, invariant.waitFor ready⟩
      · contradiction
    | execute =>
      simp only at stepped
      split at stepped
      · rename_i command busy
        cases stepped
        exact ⟨queue, invariant.execute busy⟩
      · contradiction
    | intr =>
      simp only at stepped
      split at stepped
      · rename_i data done
        obtain ⟨head, rest, -, kept⟩ := invariant.ideintr done stepped
        exact ⟨rest, kept⟩
      · contradiction

end

end State

theorem invariant_boot (disksize : Nat) (bufs : Fin n → Contents) (disks : Bool → Disk) :
    (boot bufs disks : State P n).Invariant disksize (boot bufs disks).mem [] where
  linked := rfl
  nodup := nodup_nil
  queued := rfl
  owned := nofun
  work := nofun
  waits := nofun
  mem := rfl
  issued := rfl
  serves := rfl

/-! ## The drivers compared -/

/-- The queue runs through distinct buffers, requests are completed in the order in
which they were queued, those completed and the one at the head have been issued, each
once, and what is not in the queue is as `memide.c` has it. -/
structure Refines (disksize : Nat) (start : Mem P n) (state : State P n)
    (queue : List (Fin n)) : Prop where
  linked : Linked state.qnext state.idequeue queue
  nodup : queue.Nodup
  queued : state.queued = state.completed ++ queue
  issued : state.issued = state.completed ++ queue.take 1
  settled : ∃ mem, start.runOps disksize state.trace = .ok mem ∧
    (∀ b ∉ queue, state.bufs b = mem.bufs b) ∧ (queue = [] → state.disks true = mem.disk)

theorem State.Invariant.refines {disksize : Nat} {start : Mem P n} {state : State P n}
    {queue : List (Fin n)} (invariant : state.Invariant disksize start queue) :
    Refines disksize start state queue where
  linked := invariant.linked
  nodup := invariant.nodup
  queued := invariant.queued
  issued := invariant.issued
  settled := by
    refine ⟨_, invariant.mem, ?_, ?_⟩
    · intro b outside
      exact (foldl_transfer_bufs outside : _ = state.mem.bufs b).symm
    · rintro rfl
      rfl

/-- In every run the queued driver refines the one in memory.  A call of `iderw`
sleeps, and returns only when its request has been completed and its buffer is valid
and not dirty. -/
theorem refines_of_run [DecidableEq P] {disksize : Nat} {havedisk1 : Bool}
    {bufs : Fin n → Contents} {disks : Bool → Disk} {events : List (Event P n)}
    {state : State P n}
    (legal : Along (State.step havedisk1) (Legal disksize) (boot bufs disks) events)
    (execution : run (State.step havedisk1) (boot bufs disks) events = some state) :
    (∃ queue, Refines disksize (boot bufs disks : State P n).mem state queue) ∧
      (∀ p b target, Legal disksize state (.call p b) →
        state.step havedisk1 (.call p b) = some target → target.panic = none →
        target.pc p = .asleep b state.queued.length) ∧
      ∀ p b request target, state.pc p = .ready b request →
        state.step havedisk1 (.resume p) = some target → target.pc p = .idle →
        state.completed[request]? = some b ∧ (state.bufs b).valid = true ∧
          (state.bufs b).dirty = false := by
  obtain ⟨queue, invariant⟩ : ∃ queue, state.Invariant disksize (boot bufs disks).mem queue :=
    run_invariant_of_along
      (fun state : State P n => ∃ queue, state.Invariant disksize (boot bufs disks).mem queue)
      ⟨[], invariant_boot disksize bufs disks⟩
      (fun _ _ _ held condition stepped => held.elim fun _ held => held.step condition stepped)
      legal execution
  refine ⟨⟨queue, invariant.refines⟩, ?_, ?_⟩
  · intro p b target isLegal stepped alive
    unfold State.step at stepped
    split at stepped
    · contradiction
    · obtain ⟨⟨holds, idle⟩, called⟩ := Option.ite_none_right_eq_some.mp stepped
      rcases invariant.iderw holds idle isLegal called with ⟨message, rfl⟩ | ⟨asleep, -⟩
      · contradiction
      · exact asleep
  · intro p b request target ready stepped returned
    unfold State.step at stepped
    split at stepped
    · contradiction
    · simp only [ready, Option.some.injEq] at stepped
      subst stepped
      have clean : (state.bufs b).Clean := by
        by_contra notClean
        rw [State.waitFor, if_neg notClean] at returned
        simp [State.move] at returned
      have waiting : (state.pc p).request = some (b, request) := by rw [ready]; rfl
      obtain ⟨-, number, ⟨early, -, -⟩ | ⟨-, member⟩⟩ := invariant.waits p b request waiting
      · rw [invariant.queued, List.getElem?_append_left early] at number
        exact ⟨number, clean⟩
      · exact absurd clean (invariant.work b member).1

/-- Two processes queue a write and a read of the same block; the device serves them in
this order. -/
def queueRun : List (Event (Fin 2) 2) :=
  let block : Contents := ⟨1, 5, false, false, fun _ => 0⟩
  let a : Fin 2 := ⟨0, Nat.zero_lt_two⟩
  let b : Fin 2 := ⟨1, Nat.one_lt_two⟩
  [.lock a a, .store a a { block with dirty := true, data := fun _ => 7 }, .call a a, .lock b b,
    .store b b block, .call b b, .execute, .intr, .resume a, .execute, .intr, .resume b]

theorem refines_queueRun :
    ∃ state : State (Fin 2) 2, run (State.step true)
        (boot (fun _ => ⟨0, 0, false, false, fun _ => 0⟩) fun _ _ _ => 0) queueRun = some state ∧
      state.completed = [0, 1] ∧ (state.bufs 1).data ⟨0, by decide⟩ = 7 ∧
      ∃ queue, Refines 1000
        (boot (fun _ => ⟨0, 0, false, false, fun _ => 0⟩) fun _ _ _ => 0 : State (Fin 2) 2).mem
        state queue := by
  obtain ⟨state, execution, completed_eq, data_eq⟩ : ∃ state ∈ run (State.step true)
      (boot (fun _ => ⟨0, 0, false, false, fun _ => 0⟩) fun _ _ _ => 0) queueRun,
      state.completed = [0, 1] ∧ (state.bufs 1).data ⟨0, by decide⟩ = 7 := by decide +kernel
  exact ⟨state, execution, completed_eq, data_eq,
    (refines_of_run (by decide +kernel) execution).1⟩

end Xv6.Ide
