import Xv6.Process.Rounds

/-!
# A round of the stride scheduler

The first scan of `scheduler` settles on the first process of least pass and keeps
its pid, the second scan dispatches whoever is runnable under that pid, and goes on
behind the process that has switched back.  With pids of their own the dispatched
process is the selected one and no other, unless the division by its tickets faults.
-/

namespace Xv6.Process

open Xv6.Int32 List Ptable Option

variable {slice : Slot → Ptable → Ptable} {table : Ptable} {slot : Slot}

/-- The record of a dispatched process. -/
def dispatchedProc (proc : Proc) : Proc :=
  { proc with
    count := wrap (proc.count + 1)
    pass := wrap (proc.pass + (10000 : Int).tdiv proc.tickets)
    state := .running }

/-- The table in which a dispatched process begins to run: the records of all other
processes are as before. -/
def dispatchedTable (table : Ptable) (slot : Slot) : Ptable :=
  table.modify slot dispatchedProc

/-- What happens to the table while a process runs gives new processes only pids
that no process in use has. -/
def FreshPids (slice : Slot → Ptable → Ptable) : Prop :=
  ∀ slot table other, (slice slot table other).state ≠ .unused →
    (slice slot table other).pid = (table other).pid ∨
      ∀ used, (table used).state ≠ .unused → (table used).pid ≠ (slice slot table other).pid

/-- A round dispatches nobody exactly if nobody is runnable, and otherwise the first
process of least pass and nobody else, with the stores to its own record only. -/
structure RoundCorrect (slice : Slot → Ptable → Ptable) (table final : Ptable)
    (dispatched : List Slot) : Prop where
  idle : dispatched = [] ↔ ∀ slot, (table slot).state ≠ .runnable
  kept : dispatched = [] → final = table
  selected : ∀ slot, IsLeast table slots slot →
    dispatched = [slot] ∧ final = slice slot (dispatchedTable table slot)

/-- The selected process has tickets, and while it runs no process behind it that
had its pid before becomes runnable. -/
structure Unmistakable (slice : Slot → Ptable → Ptable) (table : Ptable) (slot : Slot) :
    Prop where
  tickets : (table slot).tickets ≠ 0
  own : ∀ other, slot < other → (table other).pid = (table slot).pid →
    ¬Matches (slice slot (dispatchedTable table slot)) (table slot).pid other

/-- The stores of a dispatch. -/
theorem charge_setState (nonzero : (table slot).tickets ≠ 0) :
    (table.charge slot).map (fun charged => charged.setState slot .running) =
      some (dispatchedTable table slot) := by
  have divided : divide? 10000 (table slot).tickets =
      some ((10000 : Int).tdiv (table slot).tickets) :=
    divide?_eq_some_iff.mpr ⟨nonzero, rfl⟩
  rw [charge, divided, map_some, map_some]
  congr 1
  funext other
  by_cases same : other = slot
  · subst same
    simp [setState, dispatchedTable, dispatchedProc]
  · simp [setState, dispatchedTable, same]

theorem charge_eq_none_iff : table.charge slot = none ↔ (table slot).tickets = 0 := by
  simp [charge]

/-- There is one first process of least pass. -/
theorem IsLeast.unique {other : Slot} (least : IsLeast table slots slot)
    (least' : IsLeast table slots other) : slot = other := by
  obtain ⟨before, after, split, first⟩ := least.first
  obtain ⟨before', after', split', first'⟩ := least'.first
  rcases split_cases (split.symm.trans split') with ⟨-, same, -⟩ | ⟨between, rfl⟩ | ⟨between, rfl⟩
  · exact same
  · have below := first other (by simp) least'.runnable
    exact absurd (least'.least slot (mem_slots slot) least.runnable) (not_le.mpr below)
  · have below := first' slot (by simp) least.runnable
    exact absurd (least.least other (mem_slots other) least'.runnable) (not_le.mpr below)

/-- The slots behind a slot. -/
theorem mem_behind_iff {before after : List Slot} (split : slots = before ++ slot :: after)
    (other : Slot) : other ∈ after ↔ slot < other := by
  have ordered : slots.Pairwise (· < ·) := pairwise_lt_finRange nproc
  rw [split, pairwise_append, pairwise_cons] at ordered
  obtain ⟨-, ⟨behind, -⟩, front⟩ := ordered
  refine ⟨behind other, ?_⟩
  intro above
  have member : other ∈ before ++ slot :: after := split ▸ mem_slots other
  rcases mem_append.mp member with member | member
  · exact absurd (front other member slot (by simp)) (lt_asymm above)
  · rcases mem_cons.mp member with same | member
    · exact absurd above (same ▸ lt_irrefl _)
    · exact member

/-- A scan that dispatches nobody meets nobody. -/
theorem not_matches_of_dispatchLoop {wPid : Int} {visited : List Slot} {final : Ptable}
    (nobody : dispatchLoop slice wPid visited table = some (final, [])) :
    ∀ slot ∈ visited, ¬Matches table wPid slot := by
  induction visited with
  | nil => simp
  | cons first rest ih =>
    by_cases isMatch : Matches table wPid first
    · obtain ⟨charged, later, -, -, dispatched⟩ := dispatchLoop_cons_of_matches isMatch nobody
      contradiction
    rw [dispatchLoop, if_neg isMatch] at nobody
    intro slot member
    rcases mem_cons.mp member with rfl | member
    · exact isMatch
    · exact ih nobody slot member

/-- The second scan from the selected process on. -/
theorem dispatchLoop_at_selected {before after : List Slot} (distinct : DistinctPids table)
    (ready : (table slot).state = .runnable) (split : slots = before ++ slot :: after) :
    dispatchLoop slice (table slot).pid slots table = if (table slot).tickets = 0 then none
      else (dispatchLoop slice (table slot).pid after
        (slice slot (dispatchedTable table slot))).map fun rest => (rest.1, slot :: rest.2) := by
  have skipped : ∀ other ∈ before, ¬Matches table (table slot).pid other := by
    rintro other member ⟨otherReady, same⟩
    have nodup := slots_nodup
    rw [split, nodup_append] at nodup
    exact nodup.2.2 other member slot (by simp) (distinct other slot otherReady ready same)
  rw [split, dispatchLoop_append_of_not_matches _ skipped, dispatchLoop, if_pos ⟨ready, rfl⟩]
  by_cases none : (table slot).tickets = 0
  · rw [charge_eq_none_iff.mpr none, if_pos none]
    rfl
  · obtain ⟨charged, charge_eq, switched⟩ := map_eq_some_iff.mp (charge_setState none)
    rw [charge_eq, if_neg none, ← switched, bind_eq_bind, bind_some]
    generalize slice slot (charged.setState slot .running) = next
    cases dispatchLoop slice (table slot).pid after next <;> rfl

/-- The second scan dispatches the selected process alone exactly if it cannot be
mistaken. -/
theorem dispatchLoop_eq_singleton_iff {final : Ptable} (distinct : DistinctPids table)
    (fresh : FreshPids slice) (ready : (table slot).state = .runnable) :
    dispatchLoop slice (table slot).pid slots table = some (final, [slot]) ↔
      Unmistakable slice table slot ∧ final = slice slot (dispatchedTable table slot) := by
  obtain ⟨before, after, split⟩ := append_of_mem (mem_slots slot)
  rw [dispatchLoop_at_selected distinct ready split]
  -- A new process behind the selected one has another pid, because that one is in use.
  have own : (∀ other, slot < other → (table other).pid = (table slot).pid →
      ¬Matches (slice slot (dispatchedTable table slot)) (table slot).pid other) ↔
      ∀ other ∈ after, ¬Matches (slice slot (dispatchedTable table slot))
        (table slot).pid other := by
    constructor
    · intro old other member isMatch
      have above := (mem_behind_iff split other).mp member
      rcases fresh slot (dispatchedTable table slot) other (by rw [isMatch.1]; decide) with
        same | unused
      · refine old other above ?_ isMatch
        rw [dispatchedTable, modify_of_ne _ _ above.ne'] at same
        exact same.symm.trans isMatch.2
      · refine unused slot (by simp [dispatchedTable, dispatchedProc]) ?_
        rw [isMatch.2]
        simp [dispatchedTable, dispatchedProc]
    · intro new other above _
      exact new other ((mem_behind_iff split other).mpr above)
  split
  · rename_i none
    simp only [reduceCtorEq, false_iff, not_and]
    intro unmistakable
    exact absurd none unmistakable.tickets
  · rename_i nonzero
    constructor
    · intro result
      obtain ⟨rest, rest_eq, pair_eq⟩ := map_eq_some_iff.mp result
      obtain ⟨found, dispatched⟩ := rest
      cases pair_eq
      have nobody := not_matches_of_dispatchLoop rest_eq
      rw [dispatchLoop_of_not_matches nobody] at rest_eq
      cases rest_eq
      exact ⟨⟨nonzero, own.mpr nobody⟩, rfl⟩
    · rintro ⟨unmistakable, rfl⟩
      rw [dispatchLoop_of_not_matches (own.mp unmistakable.own)]
      rfl

/-- A round of `scheduler` is correct exactly if the process it selects cannot be
mistaken. -/
theorem roundCorrect_iff (distinct : DistinctPids table)
    (nonneg : ∀ slot, (table slot).state = .runnable → 0 ≤ (table slot).pass)
    (fresh : FreshPids slice) (wPid : Int) :
    (∃ final left dispatched, schedulerRound slice wPid table = some (final, left, dispatched) ∧
        RoundCorrect slice table final dispatched) ↔
      ∀ slot, IsLeast table slots slot → Unmistakable slice table slot := by
  rcases select_spec table wPid nonneg with ⟨idle, -⟩ | ⟨slot, least, selected⟩
  · refine iff_of_true ?_ fun slot least => absurd least.runnable (idle slot)
    exact ⟨table, _, [], schedulerRound_of_idle idle wPid, ⟨fun _ => idle, fun _ => rfl⟩,
      fun _ => rfl, fun slot least => absurd least.runnable (idle slot)⟩
  · constructor
    · rintro ⟨final, left, dispatched, round_eq, correct⟩ other otherLeast
      cases least.unique otherLeast
      obtain ⟨rfl, -⟩ := correct.selected slot least
      rw [schedulerRound, selected] at round_eq
      obtain ⟨⟨after, slots⟩, loop_eq, pair_eq⟩ := Option.map_eq_some_iff.mp round_eq
      cases pair_eq
      exact ((dispatchLoop_eq_singleton_iff distinct fresh least.runnable).mp loop_eq).1
    · intro unmistakable
      have loop_eq := (dispatchLoop_eq_singleton_iff distinct fresh least.runnable).mpr
        ⟨unmistakable slot least, rfl⟩
      refine ⟨_, _, [slot], by rw [schedulerRound, selected, loop_eq]; rfl, ⟨?_, ?_⟩, ?_, ?_⟩
      · intro empty
        exact absurd empty (List.cons_ne_nil slot [])
      · intro idle
        exact absurd least.runnable (idle slot)
      · intro empty
        exact absurd empty (List.cons_ne_nil slot [])
      · intro other otherLeast
        rw [least.unique otherLeast]
        exact ⟨rfl, rfl⟩

/-- A yielding process gives nobody a pid. -/
theorem freshPids_yieldSlice : FreshPids yieldSlice := by
  intro slot table other _
  by_cases same : other = slot
  · subst same
    simp [yieldSlice, setState]
  · simp [yieldSlice, setState, same]

/-- A round of a full table in which all passes are equal. -/
theorem roundCorrect_crowd :
    ∃ final left dispatched,
      schedulerRound yieldSlice 7 crowd = some (final, left, dispatched) ∧
        RoundCorrect yieldSlice crowd final dispatched := by
  refine (roundCorrect_iff (by decide +kernel) (by decide +kernel) freshPids_yieldSlice 7).mpr ?_
  intro slot _
  have tickets : ∀ slot, (crowd slot).tickets ≠ 0 := by decide +kernel
  have apart : ∀ slot other : Slot, slot < other → (crowd other).pid ≠ (crowd slot).pid := by
    decide +kernel
  exact ⟨tickets slot, fun other above same => absurd same (apart slot other above)⟩

/-- A table with one runnable process that has no tickets. -/
def noTickets : Ptable := fun slot =>
  if slot = 0 then { Proc.zero with pid := 1, state := .runnable } else Proc.zero

/-- The division by the tickets of the selected process faults, so nobody is
dispatched although a process is runnable. -/
theorem schedulerRound_noTickets :
    DistinctPids noTickets ∧ (∀ slot, 0 ≤ (noTickets slot).pass) ∧
      (noTickets 0).state = .runnable ∧ schedulerRound yieldSlice 0 noTickets = none := by
  decide +kernel

end Xv6.Process
