import Mathlib.Algebra.GroupWithZero.Nat
import Mathlib.Data.Fin.Basic
import Mathlib.Data.List.FinRange
import Xv6.Machine.Int32

/-!
# The process table

`ptable.proc` is a function from its `NPROC` slots to process records, and a
`struct proc *` is an optional slot.  This module embeds the parts of `proc.c`
that read or write the table while `ptable.lock` is held, together with the
stores `fork` makes to its embryo without the lock.  Every loop over the table
visits the slots in index order.

Each operation comes with the one lemma that says what it does to an arbitrary
slot, so later modules never unfold a loop.
-/

namespace Xv6.Process

open Xv6.Int32 List

/-- `NPROC`, the maximum number of processes. -/
def nproc : Nat := 64

instance : NeZero nproc := ⟨by decide⟩

/-- `NOFILE`, the number of open files per process. -/
def nofile : Nat := 16

/-- A position in `ptable.proc`; process pointers are slots. -/
abbrev Slot := Fin nproc

/-- `enum procstate`. -/
inductive ProcState where
  | unused
  | embryo
  | sleeping
  | runnable
  | running
  | zombie
  deriving DecidableEq, Repr

/-- A sleep channel: the address of a process record, as `wait` uses it, or
any other kernel address. -/
inductive Chan where
  | proc (slot : Slot)
  | addr (address : Nat)
  deriving DecidableEq, Repr

/-- `struct proc`.  The saved registers (`tf`, `context`) are represented by
the control state of the kernel thread in `Xv6.Process.Kernel`.  `freed` records that
`freevm` has freed the page directory that `pgdir` still points to. -/
structure Proc where
  sz : Nat
  pgdir : Option Nat
  freed : Bool
  kstack : Option Nat
  state : ProcState
  pid : Int
  parent : Option Slot
  chan : Option Chan
  killed : Bool
  ofile : Fin nofile → Option Nat
  cwd : Option Nat
  name : String
  tickets : Int
  count : Int
  pass : Int

/-- A slot of the zero-initialized table. -/
def Proc.zero : Proc where
  sz := 0
  pgdir := none
  freed := false
  kstack := none
  state := .unused
  pid := 0
  parent := none
  chan := none
  killed := false
  ofile := fun _ => none
  cwd := none
  name := ""
  tickets := 0
  count := 0
  pass := 0

/-- The contents of `ptable.proc`. -/
abbrev Ptable := Slot → Proc

/-- The slots in the order of `for(p = ptable.proc; p < &ptable.proc[NPROC]; p++)`. -/
def slots : List Slot := List.finRange nproc

@[simp]
theorem mem_slots (slot : Slot) : slot ∈ slots := mem_finRange slot

theorem slots_nodup : slots.Nodup := nodup_finRange nproc

/-- The first slot that passes a test. -/
def firstSlot (test : Slot → Bool) : Option Slot := slots.find? test

variable {test : Slot → Bool}

theorem firstSlot_eq_none_iff : firstSlot test = none ↔ ∀ slot, test slot = false := by
  simp [firstSlot]

theorem firstSlot_test {slot : Slot} (found : firstSlot test = some slot) : test slot = true :=
  find?_some found

/-- No earlier slot passes the test of a `firstSlot` search. -/
theorem firstSlot_minimal {slot earlier : Slot} (found : firstSlot test = some slot)
    (before : earlier < slot) : test earlier = false := by
  obtain ⟨-, index, bound, at_index, none_before⟩ :=
    find?_eq_some_iff_getElem.mp found
  have index_eq : index = slot.val := by
    have := congrArg Fin.val at_index
    simpa [slots] using this
  have earlier_lt : earlier.val < index := by
    rw [index_eq]
    exact before
  simpa [slots] using none_before earlier.val earlier_lt

namespace Ptable

/-- Store through the pointer `slot`. -/
def modify (table : Ptable) (slot : Slot) (update : Proc → Proc) : Ptable :=
  fun other => if other = slot then update (table other) else table other

@[simp]
theorem modify_self (table : Ptable) (slot : Slot) (update : Proc → Proc) :
    table.modify slot update slot = update (table slot) :=
  if_pos rfl

@[simp]
theorem modify_of_ne (table : Ptable) {slot other : Slot} (update : Proc → Proc)
    (ne : other ≠ slot) : table.modify slot update other = table other :=
  if_neg ne

theorem modify_apply (table : Ptable) (slot other : Slot) (update : Proc → Proc) :
    table.modify slot update other = if other = slot then update (table other) else table other :=
  rfl

/-- A store that keeps a field. -/
theorem field_modify {α : Type} (field : Proc → α) {table : Ptable} {slot : Slot}
    {update : Proc → Proc} (kept : field (update (table slot)) = field (table slot))
    (other : Slot) : field (table.modify slot update other) = field (table other) := by
  by_cases same : other = slot
  · rw [same, modify_self, kept]
  · rw [modify_of_ne table update same]

/-! ## Waking -/

/-- The process sleeps on the channel. -/
def SleepsOn (table : Ptable) (chan : Option Chan) (slot : Slot) : Prop :=
  (table slot).state = .sleeping ∧ (table slot).chan = chan

instance (table : Ptable) (chan : Option Chan) (slot : Slot) :
    Decidable (table.SleepsOn chan slot) :=
  inferInstanceAs (Decidable (_ ∧ _))

/-- `wakeup1`: make every process that sleeps on the channel runnable. -/
def wakeup1 (table : Ptable) (chan : Option Chan) : Ptable := fun slot =>
  if table.SleepsOn chan slot then { table slot with state := .runnable } else table slot

theorem wakeup1_apply (table : Ptable) (chan : Option Chan) (slot : Slot) :
    table.wakeup1 chan slot =
      { table slot with
        state := if table.SleepsOn chan slot then .runnable else (table slot).state } := by
  unfold wakeup1
  split <;> rfl

theorem wakeup1_state (table : Ptable) (chan : Option Chan) (slot : Slot) :
    (table.wakeup1 chan slot).state =
      if table.SleepsOn chan slot then .runnable else (table slot).state := by
  rw [wakeup1_apply]

/-- Waking a channel changes no state other than `sleeping`. -/
theorem wakeup1_state_eq_iff (table : Ptable) (chan : Option Chan) (slot : Slot)
    {state : ProcState} (not_sleeping : state ≠ .sleeping) (not_runnable : state ≠ .runnable) :
    (table.wakeup1 chan slot).state = state ↔ (table slot).state = state := by
  rw [wakeup1_state]
  split
  · rename_i asleep
    rw [asleep.1]
    exact ⟨fun equal => absurd equal.symm not_runnable, fun equal => absurd equal.symm not_sleeping⟩
  · rfl

/-- The second table differs from the first only in processes that have been
woken, as far as states are concerned. -/
def Wakes (before after : Ptable) : Prop :=
  ∀ slot, (after slot).state = (before slot).state ∨
    (before slot).state = .sleeping ∧ (after slot).state = .runnable

namespace Wakes

variable {before middle after : Ptable}

theorem trans (first : Wakes before middle) (second : Wakes middle after) :
    Wakes before after := by
  intro slot
  rcases first slot with same | ⟨asleep, woken⟩
  · rcases second slot with same' | ⟨asleep, woken⟩
    · exact .inl (same'.trans same)
    · exact .inr ⟨same ▸ asleep, woken⟩
  · rcases second slot with same' | ⟨asleep', -⟩
    · exact .inr ⟨asleep, same'.trans woken⟩
    · rw [woken] at asleep'
      contradiction

variable {slot : Slot} {state : ProcState}

/-- Waking keeps every state other than `sleeping`. -/
theorem keeps (wakes : Wakes before after) (held : (before slot).state = state)
    (not_sleeping : state ≠ .sleeping) : (after slot).state = state := by
  rcases wakes slot with same | ⟨asleep, -⟩
  · exact same.trans held
  · exact absurd (held.symm.trans asleep) not_sleeping

/-- Waking produces no state other than `runnable`. -/
theorem reflects (wakes : Wakes before after) (held : (after slot).state = state)
    (not_runnable : state ≠ .runnable) : (before slot).state = state := by
  rcases wakes slot with same | ⟨-, woken⟩
  · exact same.symm.trans held
  · exact absurd (held.symm.trans woken) not_runnable

/-- Waking puts nobody to sleep. -/
theorem sleepsOn (wakes : Wakes before after) {chan : Option Chan}
    (chan_eq : (after slot).chan = (before slot).chan) (asleep : after.SleepsOn chan slot) :
    before.SleepsOn chan slot :=
  ⟨wakes.reflects asleep.1 (by decide), chan_eq.symm.trans asleep.2⟩

end Wakes

section

variable (table : Ptable)

theorem wakeup1_wakes (chan : Option Chan) :
    Wakes table (table.wakeup1 chan) := by
  intro slot
  rw [wakeup1_state]
  split
  · rename_i asleep
    exact .inr ⟨asleep.1, rfl⟩
  · exact .inl rfl

/-- Nobody sleeps on a channel that has just been woken. -/
theorem not_sleepsOn_wakeup1 (chan : Option Chan) (slot : Slot) :
    ¬(table.wakeup1 chan).SleepsOn chan slot := by
  rintro ⟨asleep, chan_eq⟩
  rw [wakeup1_apply] at chan_eq
  rw [wakeup1_state] at asleep
  split at asleep
  · contradiction
  · rename_i awake
    exact awake ⟨asleep, chan_eq⟩

/-! ## kill -/

/-- The stores of `kill` to the slot it found. -/
def markKilled (proc : Proc) : Proc :=
  { proc with
    killed := true
    state := if proc.state = .sleeping then .runnable else proc.state }

/-- `kill`: the return value and the table.  The scan compares the `pid` of
every slot, whatever its state. -/
def kill (table : Ptable) (pid : Int) : Int × Ptable :=
  match firstSlot fun slot => (table slot).pid = pid with
  | some slot => (0, table.modify slot markKilled)
  | none => (-1, table)

/-- What `kill` does to an arbitrary slot. -/
theorem kill_apply (pid : Int) :
    (∃ slot, (table slot).pid = pid ∧ (∀ earlier < slot, (table earlier).pid ≠ pid) ∧
        table.kill pid = (0, table.modify slot markKilled)) ∨
      (∀ slot, (table slot).pid ≠ pid) ∧ table.kill pid = (-1, table) := by
  unfold kill
  split
  · rename_i slot found
    refine .inl ⟨slot, by simpa using firstSlot_test found, ?_, rfl⟩
    intro earlier before
    simpa using firstSlot_minimal found before
  · rename_i missing
    exact .inr ⟨by simpa using firstSlot_eq_none_iff.mp missing, rfl⟩

/-- `kill` changes no field other than `killed` and `state`. -/
theorem kill_fields (pid : Int) (other : Slot) :
    ∃ killed state, (table.kill pid).2 other =
      { table other with killed := killed, state := state } := by
  rcases table.kill_apply pid with ⟨slot, -, -, kill_eq⟩ | ⟨-, kill_eq⟩
  · rw [kill_eq]
    dsimp only
    rw [modify_apply]
    split <;> exact ⟨_, _, rfl⟩
  · rw [kill_eq]
    exact ⟨_, _, rfl⟩

theorem kill_wakes (pid : Int) : Wakes table (table.kill pid).2 := by
  intro other
  rcases table.kill_apply pid with ⟨slot, -, -, kill_eq⟩ | ⟨-, kill_eq⟩
  · rw [kill_eq]
    by_cases same : other = slot
    · subst same
      by_cases asleep : (table other).state = .sleeping <;> simp [markKilled, asleep]
    · simp [same]
  · simp [kill_eq]

end

/-! ## Allocation -/

/-- The search of `allocproc` for an unused slot. -/
def findUnused (table : Ptable) : Option Slot :=
  firstSlot fun slot => (table slot).state = .unused

variable {table : Ptable} {slot : Slot}

theorem findUnused_state (found : table.findUnused = some slot) : (table slot).state = .unused := by
  simpa using firstSlot_test found

/-- The stores of `allocproc` under the lock. -/
def claim (table : Ptable) (slot : Slot) (pid : Int) : Ptable :=
  table.modify slot fun proc => { proc with state := .embryo, pid := pid }

/-- The end of `allocproc` once `kalloc` has returned a kernel stack. -/
def initEmbryo (table : Ptable) (slot : Slot) (kstack : Nat) : Ptable :=
  table.modify slot fun proc =>
    { proc with kstack := some kstack, tickets := 1, count := 0, pass := 1 }

/-- `allocproc` when `kalloc` has failed: the slot becomes unused again, and
nothing else is reset. -/
def abandonStack (table : Ptable) (slot : Slot) : Ptable :=
  table.modify slot fun proc => { proc with kstack := none, state := .unused }

/-- `fork` when `copyuvm` has failed: the stack is freed and the slot becomes
unused again. -/
def abandonCopy (table : Ptable) (slot : Slot) : Ptable :=
  table.modify slot fun proc => { proc with pgdir := none, kstack := none, state := .unused }

/-- The stores of `fork` to its embryo after `copyuvm` has succeeded. -/
def copyParent (table : Ptable) (child parent : Slot) (pgdir : Nat) : Ptable :=
  table.modify child fun proc =>
    { proc with
      pgdir := some pgdir
      freed := false
      sz := (table parent).sz
      parent := some parent
      ofile := fun fd =>
        if (table parent).ofile fd = none then proc.ofile fd else (table parent).ofile fd
      cwd := (table parent).cwd
      name := (table parent).name }

/-- Change only the `state` of a slot. -/
def setState (table : Ptable) (slot : Slot) (state : ProcState) : Ptable :=
  table.modify slot fun proc => { proc with state := state }

/-! ## exit -/

/-- The body of the loop of `exit` that passes abandoned children to init. -/
def passChild (leaver init : Slot) (table : Ptable) (slot : Slot) : Ptable :=
  if (table slot).parent = some leaver then
    let adopted := table.modify slot fun proc => { proc with parent := some init }
    if (adopted slot).state = .zombie then adopted.wakeup1 (some (.proc init)) else adopted
  else
    table

/-- The loop of `exit` over the table. -/
def reparent (table : Ptable) (leaver init : Slot) : Ptable :=
  slots.foldl (passChild leaver init) table

/-- Some visited child of the leaver is a zombie, so init is woken. -/
def ZombieChildIn (table : Ptable) (leaver : Slot) (visited : List Slot) : Prop :=
  ∃ child ∈ visited, (table child).parent = some leaver ∧ (table child).state = .zombie

instance (table : Ptable) (leaver : Slot) (visited : List Slot) :
    Decidable (table.ZombieChildIn leaver visited) :=
  inferInstanceAs (Decidable (∃ _ ∈ _, _))

/-- The record of a slot after the loop of `exit` has visited some slots. -/
def afterReparent (table : Ptable) (leaver init : Slot) (visited : List Slot)
    (slot : Slot) : Proc :=
  { table slot with
    parent :=
      if slot ∈ visited ∧ (table slot).parent = some leaver then some init
      else (table slot).parent
    state :=
      if table.ZombieChildIn leaver visited ∧ table.SleepsOn (some (.proc init)) slot then
        .runnable
      else (table slot).state }

/-- One visit of the loop: the visited child is adopted, and a zombie child
wakes init. -/
theorem passChild_apply (leaver init visited slot : Slot) (table : Ptable) :
    passChild leaver init table visited slot =
      { table slot with
        parent :=
          if slot = visited ∧ (table slot).parent = some leaver then some init
          else (table slot).parent
        state :=
          if ((table visited).parent = some leaver ∧ (table visited).state = .zombie) ∧
              table.SleepsOn (some (.proc init)) slot then .runnable
          else (table slot).state } := by
  unfold passChild
  by_cases child : (table visited).parent = some leaver
  · by_cases dead : (table visited).state = .zombie <;> by_cases same : slot = visited
    · subst same
      simp [child, dead, wakeup1_apply, SleepsOn]
    · simp [child, dead, same, wakeup1_apply, SleepsOn]
    · subst same
      simp [child, dead]
    · simp [child, dead, same]
  · by_cases same : slot = visited
    · subst same
      simp [child]
    · simp [child, same]

theorem foldl_passChild (leaver init : Slot) (visited : List Slot) (nodup : visited.Nodup)
    (table : Ptable) (slot : Slot) :
    visited.foldl (passChild leaver init) table slot =
      table.afterReparent leaver init visited slot := by
  induction visited generalizing table with
  | nil => simp [afterReparent, ZombieChildIn]
  | cons first rest ih =>
    obtain ⟨fresh, restNodup⟩ := nodup_cons.mp nodup
    rw [foldl_cons, ih restNodup]
    -- The rest of the loop sees the same children: `first` is not among them.
    have zombieRest : (passChild leaver init table first).ZombieChildIn leaver rest ↔
        table.ZombieChildIn leaver rest := by
      refine exists_congr fun child => and_congr_right fun member => ?_
      have ne : child ≠ first := fun equal => fresh (equal ▸ member)
      rw [passChild_apply]
      by_cases asleep : table.SleepsOn (some (.proc init)) child
      · simp only [ne, asleep.1, false_and, if_false]
        split <;> simp
      · simp [ne, asleep]
    have zombieCons : table.ZombieChildIn leaver (first :: rest) ↔
        ((table first).parent = some leaver ∧ (table first).state = .zombie) ∨
          table.ZombieChildIn leaver rest := by
      simp [ZombieChildIn]
    have asleepAfter : (passChild leaver init table first).SleepsOn (some (.proc init)) slot ↔
        table.SleepsOn (some (.proc init)) slot ∧
          ¬((table first).parent = some leaver ∧ (table first).state = .zombie) := by
      unfold SleepsOn
      rw [passChild_apply]
      grind [SleepsOn]
    have parentAfter : (if slot ∈ rest ∧
          (passChild leaver init table first slot).parent = some leaver then some init
        else (passChild leaver init table first slot).parent) =
        if slot ∈ first :: rest ∧ (table slot).parent = some leaver then some init
        else (table slot).parent := by
      rw [passChild_apply]
      by_cases same : slot = first
      · subst same
        simp [fresh]
      · simp [same]
    have stateAfter : (if (passChild leaver init table first).ZombieChildIn leaver rest ∧
          (passChild leaver init table first).SleepsOn (some (.proc init)) slot then
            ProcState.runnable
        else (passChild leaver init table first slot).state) =
        if table.ZombieChildIn leaver (first :: rest) ∧
            table.SleepsOn (some (.proc init)) slot then .runnable
        else (table slot).state := by
      simp only [passChild_apply]
      grind
    unfold afterReparent
    rw [parentAfter, stateAfter, passChild_apply]

section

variable (table : Ptable)

/-- What the loop of `exit` does to an arbitrary slot. -/
theorem reparent_apply (leaver init slot : Slot) :
    table.reparent leaver init slot = table.afterReparent leaver init slots slot :=
  foldl_passChild leaver init slots slots_nodup table slot

theorem reparent_wakes (leaver init : Slot) :
    Wakes table (table.reparent leaver init) := by
  intro slot
  rw [reparent_apply]
  unfold afterReparent
  by_cases woken : table.ZombieChildIn leaver slots ∧ table.SleepsOn (some (.proc init)) slot
  · exact .inr ⟨woken.2.1, by simp [woken]⟩
  · exact .inl (by simp [woken])

/-- The part of `exit` under the lock: wake the parent, pass the children to
init, and become a zombie. -/
def exit (table : Ptable) (leaver init : Slot) : Ptable :=
  ((table.wakeup1 ((table leaver).parent.map .proc)).reparent leaver init).setState leaver .zombie

/-- Waking the parent leaves the zombies of the table as they are. -/
theorem zombieChildIn_wakeup1 (chan : Option Chan) (leaver : Slot) (visited : List Slot) :
    (table.wakeup1 chan).ZombieChildIn leaver visited ↔ table.ZombieChildIn leaver visited := by
  refine exists_congr fun child => and_congr_right fun _ => ?_
  rw [wakeup1_state_eq_iff table chan child (by decide) (by decide), wakeup1_apply]

/-- `exit` passes every child of the leaver to init. -/
theorem exit_parent (leaver init slot : Slot) :
    (table.exit leaver init slot).parent =
      if (table slot).parent = some leaver then some init else (table slot).parent := by
  unfold exit setState
  by_cases same : slot = leaver
  · subst same
    simp [reparent_apply, afterReparent, wakeup1_apply]
  · simp [same, reparent_apply, afterReparent, wakeup1_apply]

/-- `exit` changes no field other than `parent` and `state`. -/
theorem exit_fields (leaver init slot : Slot) :
    ∃ parent state, table.exit leaver init slot =
      { table slot with parent := parent, state := state } := by
  unfold exit setState
  by_cases same : slot = leaver
  · subst same
    rw [modify_self, reparent_apply, afterReparent, wakeup1_apply]
    exact ⟨_, _, rfl⟩
  · rw [modify_of_ne _ _ same, reparent_apply, afterReparent, wakeup1_apply]
    exact ⟨_, _, rfl⟩

@[simp]
theorem exit_state_self (leaver init : Slot) :
    (table.exit leaver init leaver).state = .zombie := by
  simp [exit, setState]

/-- `exit` changes the state of another process only by waking it. -/
theorem exit_state_of_ne {leaver init : Slot} (ne : slot ≠ leaver) :
    (table.exit leaver init slot).state = (table slot).state ∨
      (table slot).state = .sleeping ∧ (table.exit leaver init slot).state = .runnable := by
  simp only [exit, setState, modify_of_ne _ _ ne]
  exact (wakeup1_wakes table _).trans (reparent_wakes _ leaver init) slot

/-- A process that still sleeps after an `exit` sleeps neither on the leaver's
parent nor, if the leaver left a zombie child, on init. -/
theorem exit_asleep {leaver init : Slot} (ne : slot ≠ leaver)
    (asleep : (table.exit leaver init slot).state = .sleeping) :
    (table slot).state = .sleeping ∧ (table slot).chan ≠ (table leaver).parent.map .proc ∧
      (table.ZombieChildIn leaver slots → (table slot).chan ≠ some (.proc init)) := by
  simp only [exit, setState, modify_of_ne _ _ ne, reparent_apply, afterReparent,
    zombieChildIn_wakeup1] at asleep
  split at asleep
  · contradiction
  · rename_i notInit
    rw [wakeup1_state] at asleep
    split at asleep
    · contradiction
    · rename_i notParent
      refine ⟨asleep, fun chan_eq => notParent ⟨asleep, chan_eq⟩, fun zombie chan_eq => ?_⟩
      refine notInit ⟨zombie, ?_, ?_⟩
      · rw [wakeup1_state, if_neg notParent]
        exact asleep
      · rw [wakeup1_apply]
        exact chan_eq

end

/-- The first loop of `exit` that closes every open file, and the release of
the current directory. -/
def closeFiles (table : Ptable) (slot : Slot) : Ptable :=
  table.modify slot fun proc => { proc with ofile := fun _ => none, cwd := none }

/-! ## wait -/

/-- The result of one scan of `wait`. -/
inductive WaitScan where
  | found (child : Slot)
  | finished (havekids : Bool)
  deriving DecidableEq, Repr

/-- The inner loop of `wait`, from the slots still to be visited. -/
def waitScan (table : Ptable) (waiter : Slot) : Bool → List Slot → WaitScan
  | havekids, [] => .finished havekids
  | havekids, slot :: rest =>
    if (table slot).parent ≠ some waiter then waitScan table waiter havekids rest
    else if (table slot).state = .zombie then .found slot
    else waitScan table waiter true rest

variable {waiter : Slot} {havekids : Bool} {visited : List Slot}

theorem waitScan_found {child : Slot}
    (scan : table.waitScan waiter havekids visited = .found child) :
    (table child).parent = some waiter ∧ (table child).state = .zombie := by
  induction visited generalizing havekids with
  | nil => simp [waitScan] at scan
  | cons slot rest ih =>
    simp only [waitScan] at scan
    split at scan
    · exact ih scan
    · rename_i isChild
      split at scan
      · rename_i dead
        cases scan
        exact ⟨not_not.mp isChild, dead⟩
      · exact ih scan

/-- A scan that runs to its end met no zombie child, and reports whether it
met any child. -/
theorem waitScan_finished {result : Bool}
    (scan : table.waitScan waiter havekids visited = .finished result) :
    (∀ slot ∈ visited, (table slot).parent = some waiter → (table slot).state ≠ .zombie) ∧
      (result = true ↔ havekids = true ∨ ∃ slot ∈ visited, (table slot).parent = some waiter) := by
  induction visited generalizing havekids with
  | nil =>
    cases scan
    simp
  | cons slot rest ih =>
    simp only [waitScan] at scan
    split at scan
    · rename_i notChild
      obtain ⟨noZombie, kids⟩ := ih scan
      simpa [kids, notChild] using noZombie
    · rename_i isChild
      rw [not_not] at isChild
      split at scan
      · contradiction
      · rename_i alive
        obtain ⟨noZombie, kids⟩ := ih scan
        simpa [kids, isChild, alive] using noZombie

/-- The scan of `wait` reads only parents and states. -/
theorem waitScan_congr {table' : Ptable} (waiter : Slot)
    (parents : ∀ slot, (table slot).parent = (table' slot).parent)
    (states : ∀ slot, (table slot).state = (table' slot).state) (havekids : Bool)
    (visited : List Slot) :
    table.waitScan waiter havekids visited = table'.waitScan waiter havekids visited := by
  induction visited generalizing havekids with
  | nil => rfl
  | cons slot rest ih => simp only [waitScan, parents, states, ih]

/-- The stores of `wait` to the zombie it has found, after `kfree` of its kernel stack and
`freevm` of its page directory, which leaves the stale pointer in place. -/
def reap (table : Ptable) (child : Slot) : Ptable :=
  table.modify child fun proc =>
    { proc with
      kstack := none, freed := true, pid := 0, parent := none, name := "", killed := false
      state := .unused }

/-- The stores of `sleep` before it enters the scheduler. -/
def goToSleep (table : Ptable) (slot : Slot) (chan : Chan) : Ptable :=
  table.modify slot fun proc => { proc with chan := some chan, state := .sleeping }

/-- `proc->chan = 0` at the end of `sleep`. -/
def clearChan (table : Ptable) (slot : Slot) : Ptable :=
  table.modify slot fun proc => { proc with chan := none }

theorem clearChan_chan (table : Ptable) (slot other : Slot) :
    ∃ chan, table.clearChan slot other = { table other with chan := chan } := by
  rcases eq_or_ne other slot with rfl | ne
  · exact ⟨none, modify_self ..⟩
  · exact ⟨_, modify_of_ne _ _ ne⟩

theorem waitScan_of_chan {table' : Ptable} {waiter : Slot} {havekids : Bool} {visited : List Slot}
    (same : ∀ slot, ∃ chan, table' slot = { table slot with chan := chan }) :
    table'.waitScan waiter havekids visited = table.waitScan waiter havekids visited := by
  apply waitScan_congr
  · intro slot
    obtain ⟨chan, slot_eq⟩ := same slot
    rw [slot_eq]
  · intro slot
    obtain ⟨chan, slot_eq⟩ := same slot
    rw [slot_eq]

/-! ## Tickets -/

/-- The stores of `set_tickets` to the calling process; `none` is the divide
error of `10000/proc->tickets`. -/
def setTickets (table : Ptable) (slot : Slot) (tickets : Int) : Option Ptable :=
  (divide? 10000 tickets).map fun stride =>
    table.modify slot fun proc => { proc with tickets := tickets, pass := stride }

/-- The stores of `scheduler` and `scheduler_b` to the process they dispatch. -/
def charge (table : Ptable) (slot : Slot) : Option Ptable :=
  (divide? 10000 (table slot).tickets).map fun stride =>
    table.modify slot fun proc =>
      { proc with count := wrap (proc.count + 1), pass := wrap (proc.pass + stride) }

theorem charge_eq_some {charged : Ptable} (charge_eq : table.charge slot = some charged) :
    (table slot).tickets ≠ 0 ∧ charged = table.modify slot fun proc =>
      { proc with
        count := wrap (proc.count + 1)
        pass := wrap (proc.pass + (10000 : Int).tdiv (table slot).tickets) } := by
  obtain ⟨quotient, divided, rfl⟩ := Option.map_eq_some_iff.mp charge_eq
  obtain ⟨nonzero, rfl⟩ := divide?_eq_some_iff.mp divided
  exact ⟨nonzero, rfl⟩

/-- The store of `scheduler1` to the process it dispatches. -/
def countRun (table : Ptable) (slot : Slot) : Ptable :=
  table.modify slot fun proc => { proc with count := wrap (proc.count + 1) }

end Ptable

end Xv6.Process
