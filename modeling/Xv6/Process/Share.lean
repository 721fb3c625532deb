import Xv6.Process.Rounds
import Xv6.Stride.Ledger

/-!
# Proportional share under the stride scheduler

Rounds of `scheduler` on one CPU, with an arbitrary environment: what happens
while a dispatched process runs, and between two rounds, is only required to
leave the accounting of the observed processes alone and to return them to
`RUNNABLE`.  Other processes may come and go.

A round of the code is a round of least-first service on the observed processes
(`round_of_schedulerRound`), so the bounds of `Xv6.Stride` apply.
-/

namespace Xv6.Process

open Xv6.Int32 Xv6.Stride List Ptable Option

/-! ## Rounds of the scheduler -/

/-- What the rest of the system does: while a process runs, and between the
rounds. -/
structure Environment where
  slice : Nat → Slot → Ptable → Ptable
  idle : Nat → Ptable → Ptable

/-- The outer loop of `scheduler`: the table and `w_pid` after a number of
rounds, and the slots dispatched so far. -/
def rounds (env : Environment) (wPid : Int) (table : Ptable) :
    Nat → Option (Ptable × Int × List Slot)
  | 0 => some (table, wPid, [])
  | number + 1 => do
      let (current, selected, earlier) ← rounds env wPid table number
      let (next, selected, dispatched) ←
        schedulerRound (env.slice number) selected (env.idle number current)
      some (next, selected, earlier ++ dispatched)

/-- A process that is ready again, with its accounting as before. -/
structure Ready (before after : Proc) : Prop where
  state : after.state = .runnable
  pid : after.pid = before.pid
  tickets : after.tickets = before.tickets
  pass : after.pass = before.pass

/-- A slice returns every observed process to `RUNNABLE`. -/
def SliceKeeps (members : Set Slot) (slice : Slot → Ptable → Ptable) : Prop :=
  ∀ slot table, (∀ member ∈ members, (table member).state =
      if member = slot then .running else .runnable) →
    ∀ member ∈ members, Ready (table member) (slice slot table member)

/-- The environment leaves the observed processes ready. -/
structure Environment.Keeps (env : Environment) (members : Set Slot) : Prop where
  slice : ∀ number, SliceKeeps members (env.slice number)
  idle : ∀ number table, (∀ member ∈ members, (table member).state = .runnable) →
    ∀ member ∈ members, Ready (table member) (env.idle number table member)

/-- The observed processes are runnable, and have their initial identifiers and
tickets. -/
def Tracks (members : Set Slot) (start table : Ptable) : Prop :=
  ∀ member ∈ members, (table member).state = .runnable ∧
    (table member).pid = (start member).pid ∧ (table member).tickets = (start member).tickets

/-- Other runnable processes have non-negative passes and identifiers of their
own. -/
def Bystanders (members : Set Slot) (start table : Ptable) : Prop :=
  ∀ slot ∉ members, (table slot).state = .runnable →
    0 ≤ (table slot).pass ∧ ∀ member ∈ members, (table slot).pid ≠ (start member).pid

/-- The stride of a process, `10000/tickets`. -/
def stride (table : Ptable) (slot : Slot) : Int :=
  10000 / (table slot).tickets

/-! ## The second scan -/

section Scan

variable {members : Set Slot} {start table final : Ptable} {slice : Slot → Ptable → Ptable}
  {wPid : Int} {dispatched : List Slot}

/-- One dispatch and the slice that follows it. -/
theorem dispatch_members (keeps : SliceKeeps members slice) (tracks : Tracks members start table)
    (slot : Slot) {count pass : Proc → Int} :
    let next := slice slot ((table.modify slot fun proc =>
      { proc with count := count proc, pass := pass proc }).setState slot .running)
    Tracks members start next ∧ ∀ member ∈ members,
      (next member).pass = if member = slot then pass (table member) else (table member).pass := by
  have switched : ∀ member ∈ members, (((table.modify slot fun proc =>
      { proc with count := count proc, pass := pass proc }).setState slot .running) member).state =
        if member = slot then .running else .runnable := by
    intro member inside
    by_cases same : member = slot
    · simp [setState, same]
    · simp [setState, same, (tracks member inside).1]
  have returned := keeps slot _ switched
  refine ⟨fun member inside => ⟨(returned member inside).state, ?_, ?_⟩, fun member inside => ?_⟩
  · rw [(returned member inside).pid, ← (tracks member inside).2.1]
    by_cases same : member = slot <;> simp [setState, same]
  · rw [(returned member inside).tickets, ← (tracks member inside).2.2]
    by_cases same : member = slot <;> simp [setState, same]
  · rw [(returned member inside).pass]
    by_cases same : member = slot <;> simp [setState, same]

/-- What the second scan does to the observed processes: the one with the
selected identifier is charged and dispatched once, the others are left alone. -/
theorem dispatchLoop_members (keeps : SliceKeeps members slice) {visited : List Slot}
    (nodup : visited.Nodup) (tracks : Tracks members start table)
    (result : dispatchLoop slice wPid visited table = some (final, dispatched)) :
    Tracks members start final ∧ ∀ member ∈ members,
      ((member ∈ visited ∧ (start member).pid = wPid) ∧
        (final member).pass =
          wrap ((table member).pass + (10000 : Int).tdiv (start member).tickets) ∧
        dispatched.count member = 1) ∨
      (¬(member ∈ visited ∧ (start member).pid = wPid) ∧
        (final member).pass = (table member).pass ∧ dispatched.count member = 0) := by
  induction visited generalizing table dispatched with
  | nil =>
    cases result
    exact ⟨tracks, fun member _ => .inr ⟨by simp, rfl, rfl⟩⟩
  | cons slot rest ih =>
    obtain ⟨fresh, restNodup⟩ := nodup_cons.mp nodup
    by_cases isMatch : Matches table wPid slot
    · obtain ⟨charged, later, charge_eq, loop_eq, rfl⟩ :=
        dispatchLoop_cons_of_matches isMatch result
      obtain ⟨-, rfl⟩ := charge_eq_some charge_eq
      -- After the slice every observed process is ready again.
      obtain ⟨ready, charge⟩ := dispatch_members keeps tracks slot
      obtain ⟨tracksFinal, effect⟩ := ih restNodup ready loop_eq
      refine ⟨tracksFinal, fun member inside => ?_⟩
      have pass_eq := charge member inside
      by_cases same : member = slot
      · subst same
        obtain ⟨⟨visited, -⟩, -⟩ | ⟨-, final_eq, count_eq⟩ := effect member inside
        · exact absurd visited fresh
        · refine .inl ⟨⟨by simp, ?_⟩, ?_, ?_⟩
          · exact (tracks member inside).2.1.symm.trans isMatch.2
          · rw [final_eq, pass_eq, if_pos rfl, (tracks member inside).2.2]
          · rw [count_cons_self, count_eq]
      · rw [if_neg same] at pass_eq
        rw [← pass_eq, count_cons_of_ne (Ne.symm same), mem_cons, or_iff_right same]
        exact effect member inside
    · rw [dispatchLoop, if_neg isMatch] at result
      obtain ⟨tracksFinal, effect⟩ := ih restNodup tracks result
      refine ⟨tracksFinal, fun member inside => ?_⟩
      have other : member ∈ slot :: rest ∧ (start member).pid = wPid ↔
          member ∈ rest ∧ (start member).pid = wPid := by
        apply and_congr_left
        intro named
        rw [mem_cons]
        apply or_iff_right
        rintro rfl
        obtain ⟨ready, pid_eq, -⟩ := tracks member inside
        exact isMatch ⟨ready, pid_eq.trans named⟩
      rw [other]
      exact effect member inside

end Scan

/-! ## Rounds as least-first service -/

section Rounds

variable {members : Set Slot} {start table final : Ptable} {slice : Slot → Ptable → Ptable}
  {wPid selected : Int} {dispatched : List Slot}

/-- The passes of a table, with the numbers of dispatches in a list. -/
def ledger (table : Ptable) (dispatched : List Slot) : Ledger Slot Int where
  pass := fun slot => (table slot).pass
  count := fun slot => dispatched.count slot

/-- The first scan selects an observed process with the least pass, or none of
the observed processes. -/
theorem select_members (tracks : Tracks members start table)
    (distinct : ∀ first ∈ members, ∀ second ∈ members,
      (start first).pid = (start second).pid → first = second)
    (nonneg : ∀ member ∈ members, 0 ≤ (table member).pass)
    (bystanders : Bystanders members start table) (wPid : Int) :
    ∃ served : Option Slot,
      (∀ least, served = some least → least ∈ members ∧
        ∀ member ∈ members, (table least).pass ≤ (table member).pass) ∧
      ∀ member ∈ members, (start member).pid = select table wPid ↔ served = some member := by
  have nonnegAll slot (ready : (table slot).state = .runnable) : 0 ≤ (table slot).pass := by
    by_cases inside : slot ∈ members
    · exact nonneg slot inside
    · exact (bystanders slot inside ready).1
  rcases select_spec table wPid nonnegAll with ⟨idle, -⟩ | ⟨slot, least, select_eq⟩
  · refine ⟨none, nofun, fun member inside => ?_⟩
    exact absurd (tracks member inside).1 (idle member)
  · rw [select_eq]
    by_cases inside : slot ∈ members
    · refine ⟨some slot, ?_, fun member memberInside => ?_⟩
      · rintro _ ⟨⟩
        exact ⟨inside, fun member memberInside =>
          least.least member (mem_slots member) (tracks member memberInside).1⟩
      · rw [(tracks slot inside).2.1, some.injEq]
        constructor
        · exact fun same => distinct slot inside member memberInside same.symm
        · rintro rfl
          rfl
    · refine ⟨none, nofun, fun member memberInside => ?_⟩
      have foreign := (bystanders slot inside least.runnable).2 member memberInside
      exact iff_of_false (Ne.symm foreign) nofun

/-- A round of `scheduler` is a round of least-first service, as long as the
passes fit into an `int`. -/
theorem round_of_schedulerRound (keeps : SliceKeeps members slice)
    (tracks : Tracks members start table)
    (tickets : ∀ member ∈ members, 0 < (start member).tickets)
    (distinct : ∀ first ∈ members, ∀ second ∈ members,
      (start first).pid = (start second).pid → first = second)
    (nonneg : ∀ member ∈ members, 0 ≤ (table member).pass)
    (bystanders : Bystanders members start table)
    (result : schedulerRound slice wPid table = some (final, selected, dispatched))
    (fits : ∀ member ∈ members, dispatched.count member = 1 →
      (table member).pass + stride start member ≤ intMax)
    (earlier : List Slot) :
    Tracks members start final ∧
      Round members (stride start) (ledger table earlier)
        (ledger final (earlier ++ dispatched)) := by
  obtain ⟨⟨other, later⟩, loop_eq, result_eq⟩ := map_eq_some_iff.mp result
  cases result_eq
  obtain ⟨served, least, named⟩ := select_members tracks distinct nonneg bystanders wPid
  obtain ⟨tracksFinal, effect⟩ := dispatchLoop_members keeps slots_nodup tracks loop_eq
  refine ⟨tracksFinal, served, least, fun member inside => ?_⟩
  have stride_eq : (10000 : Int).tdiv (start member).tickets = stride start member :=
    Int.tdiv_eq_ediv_of_nonneg (by decide)
  have stride_nonneg : 0 ≤ stride start member :=
    Int.ediv_nonneg (by decide) (tickets member inside).le
  have chosen : (member ∈ slots ∧ (start member).pid = select table wPid) ↔
      served = some member := by
    rw [named member inside]
    exact and_iff_right (mem_slots member)
  have effect := effect member inside
  rw [chosen, stride_eq] at effect
  simp only [ledger, count_append]
  rcases effect with ⟨isServed, pass_eq, count_eq⟩ | ⟨unserved, pass_eq, count_eq⟩
  · have room := fits member inside count_eq
    have nonneg := nonneg member inside
    rw [if_pos isServed, if_pos isServed, pass_eq, count_eq, wrap_eq_self (by omega) room]
    exact ⟨rfl, rfl⟩
  · rw [if_neg unserved, if_neg unserved, pass_eq, count_eq, Int.add_zero]
    exact ⟨rfl, rfl⟩

end Rounds

/-! ## Whole runs -/

/-- The observed processes at the start. -/
structure Workload (members : Set Slot) (start : Ptable) : Prop where
  runnable : ∀ member ∈ members, (start member).state = .runnable
  tickets : ∀ member ∈ members, 1 ≤ (start member).tickets ∧ (start member).tickets ≤ 10000
  distinct : ∀ first ∈ members, ∀ second ∈ members,
    (start first).pid = (start second).pid → first = second
  nonneg : ∀ member ∈ members, 0 ≤ (start member).pass

section Runs

variable {members : Set Slot} {start table : Ptable} {env : Environment} {wPid selected : Int}
  {dispatched : List Slot}

theorem rounds_succ {number : Nat}
    (result : rounds env wPid start (number + 1) = some (table, selected, dispatched)) :
    ∃ current before earlier later, rounds env wPid start number = some (current, before, earlier) ∧
      schedulerRound (env.slice number) before (env.idle number current) =
        some (table, selected, later) ∧ dispatched = earlier ++ later := by
  simp only [rounds, bind_eq_bind, bind_eq_some_iff, Prod.exists] at result
  obtain ⟨current, before, earlier, previous, next, chosen, later, round, rfl, rfl, rfl⟩ := result
  exact ⟨current, before, earlier, later, previous, round, rfl⟩

/-- After any number of rounds the observed processes have paid for their
dispatches, and their passes are no further apart than at the start or than one
stride. -/
theorem balanced_of_rounds (workload : Workload members start) (keeps : env.Keeps members)
    {bound : Int} (spread : Spread members (fun slot => (start slot).pass) bound)
    (small : ∀ member ∈ members, stride start member ≤ bound) {number : Nat}
    (bystanders : ∀ earlier < number, ∀ current before dispatched,
      rounds env wPid start earlier = some (current, before, dispatched) →
      Bystanders members start (env.idle earlier current))
    (result : rounds env wPid start number = some (table, selected, dispatched))
    (fits : ∀ member ∈ members,
      (start member).pass + dispatched.count member * stride start member ≤ intMax) :
    Tracks members start table ∧
      Paid members (stride start) (fun slot => (start slot).pass) (ledger table dispatched) ∧
      Spread members (fun slot => (table slot).pass) bound := by
  have positive member (inside : member ∈ members) : 0 ≤ stride start member :=
    Int.ediv_nonneg (by decide) (by have := workload.tickets member inside; omega)
  induction number generalizing table selected dispatched with
  | zero =>
    cases result
    refine ⟨fun member inside => ⟨workload.runnable member inside, rfl, rfl⟩, ?_, spread⟩
    intro member _
    simp [ledger]
  | succ number ih =>
    obtain ⟨current, before, earlier, later, previous, round, rfl⟩ := rounds_succ result
    obtain ⟨tracks, paid, spread⟩ := ih
      (fun earlier less => bystanders earlier (by omega)) previous (fun member inside => by
        have total := fits member inside
        have more : (earlier.count member : Int) * stride start member ≤
            ((earlier ++ later).count member : Int) * stride start member := by
          refine Int.mul_le_mul_of_nonneg_right ?_ (positive member inside)
          simp
        omega)
    -- Between the rounds nothing changes for the observed processes.
    have ready := keeps.idle number current fun member inside => (tracks member inside).1
    have tracksIdle : Tracks members start (env.idle number current) :=
      fun member inside => ⟨(ready member inside).state,
        (ready member inside).pid.trans (tracks member inside).2.1,
        (ready member inside).tickets.trans (tracks member inside).2.2⟩
    have paidIdle : Paid members (stride start) (fun slot => (start slot).pass)
        (ledger (env.idle number current) earlier) :=
      fun member inside => (ready member inside).pass.trans (paid member inside)
    have spreadIdle : Spread members (ledger (env.idle number current) earlier).pass bound := by
      intro first firstInside second secondInside
      simp only [ledger, (ready first firstInside).pass, (ready second secondInside).pass]
      exact spread first firstInside second secondInside
    have nonneg member (inside : member ∈ members) : 0 ≤ (env.idle number current member).pass := by
      have paid_eq := paidIdle member inside
      simp only [ledger] at paid_eq
      rw [paid_eq]
      exact Int.add_nonneg (workload.nonneg member inside)
        (Int.mul_nonneg (Int.natCast_nonneg _) (positive member inside))
    have room member (inside : member ∈ members) (once : later.count member = 1) :
        (env.idle number current member).pass + stride start member ≤ intMax := by
      have paid_eq := paidIdle member inside
      have total := fits member inside
      simp only [ledger, nsmul_eq_mul] at paid_eq
      rw [count_append, once] at total
      push_cast at total
      rw [Int.add_mul] at total
      omega
    obtain ⟨tracksFinal, served⟩ := round_of_schedulerRound (keeps.slice number) tracksIdle
      (fun member inside => by have := workload.tickets member inside; omega)
      workload.distinct nonneg (bystanders number (by omega) current before earlier previous)
      round room earlier
    exact ⟨tracksFinal, paidIdle.round served, spreadIdle.round positive small served⟩

/-- Stride proportional share: the spread of the passes of the observed
processes stays within the initial spread and the largest stride, and their
numbers of dispatches are in proportion up to twice that bound. -/
theorem proportional_share (workload : Workload members start) (keeps : env.Keeps members)
    {initial largest : Int}
    (spread : ∀ first ∈ members, ∀ second ∈ members,
      (start first).pass - (start second).pass ≤ initial)
    (strides : ∀ member ∈ members, stride start member ≤ largest) {number : Nat}
    (bystanders : ∀ earlier < number, ∀ current before dispatched,
      rounds env wPid start earlier = some (current, before, dispatched) →
      Bystanders members start (env.idle earlier current))
    (result : rounds env wPid start number = some (table, selected, dispatched))
    (fits : ∀ member ∈ members,
      (start member).pass + dispatched.count member * stride start member ≤ 2 ^ 31 - 1) :
    (∀ first ∈ members, ∀ second ∈ members,
      (table first).pass - (table second).pass ≤ max initial largest) ∧
    ∀ first ∈ members, ∀ second ∈ members,
      |(dispatched.count first : Int) * stride start first -
        dispatched.count second * stride start second| ≤ 2 * max initial largest := by
  have bounded : Spread members (fun slot => (start slot).pass) (max initial largest) :=
    fun first firstInside second secondInside =>
      (spread first firstInside second secondInside).trans (le_max_left _ _)
  obtain ⟨-, paid, spreadNow⟩ := balanced_of_rounds workload keeps bounded
    (fun member inside => (strides member inside).trans (le_max_right _ _)) bystanders result fits
  refine ⟨spreadNow, fun first firstInside second secondInside => ?_⟩
  have share := paid.share_le bounded spreadNow firstInside secondInside
  rw [two_mul]
  exact share

end Runs

/-- Every process uses up its slice, and nothing else happens. -/
def computeBound : Environment where
  slice := fun _ slot table => table.setState slot .runnable
  idle := fun _ table => table

theorem workload_crowd : Workload Set.univ crowd where
  runnable _ _ := rfl
  tickets member _ := by
    have := member.isLt
    simp only [crowd, nproc] at this ⊢
    omega
  distinct first _ second _ same := by
    simp only [crowd] at same
    exact Fin.ext (by omega)
  nonneg _ _ := show (0 : Int) ≤ 1 by decide

theorem keeps_computeBound : computeBound.Keeps Set.univ where
  slice _ slot table states member inside := by
    have state_eq := states member inside
    by_cases same : member = slot
    · subst same
      constructor <;> simp [computeBound, setState]
    · constructor <;> simp [computeBound, setState, same, state_eq]
  idle _ table runnable member inside := ⟨runnable member inside, rfl, rfl, rfl⟩

/-- The bounds after three rounds of a full table. -/
theorem proportional_share_crowd :
    ∃ table selected, rounds computeBound 0 crowd 3 = some (table, selected, [0, 1, 2]) ∧
      (∀ first ∈ Set.univ, ∀ second ∈ Set.univ,
        (table first).pass - (table second).pass ≤ max 0 10000) ∧
      ∀ first ∈ Set.univ, ∀ second ∈ Set.univ,
        |(([0, 1, 2] : List Slot).count first : Int) * stride crowd first -
          ([0, 1, 2] : List Slot).count second * stride crowd second| ≤ 2 * max 0 10000 := by
  obtain ⟨⟨table, selected, dispatched⟩, result, rfl⟩ : ∃ result ∈ rounds computeBound 0 crowd 3,
      result.2.2 = [0, 1, 2] := by decide +kernel
  have small : ∀ member : Slot, stride crowd member ≤ 10000 := by decide +kernel
  have fits : ∀ member : Slot, (crowd member).pass +
      ([0, 1, 2] : List Slot).count member * stride crowd member ≤ 2 ^ 31 - 1 := by
    decide +kernel
  exact ⟨table, selected, result, proportional_share workload_crowd keeps_computeBound
    (fun _ _ _ _ => le_rfl) (fun member _ => small member)
    (fun _ _ _ _ _ _ slot outside => absurd trivial outside) result fun member _ => fits member⟩

end Xv6.Process
