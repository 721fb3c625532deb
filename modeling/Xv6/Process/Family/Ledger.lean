import Xv6.Process.Family.Kinship

/-!
# The ledger of the family

What a run does to custody, recorded by process identifiers: births, waits,
exits and adoptions.  An identifier is fresh until the `fork` that allocated it
completes, and nothing is recorded under a fresh identifier.  Every process is
born once and reaped at most once, and the ledger of every living process is
balanced.
-/

namespace Xv6.Process

open Xv6.Int32 Xv6.Custody Xv6.Transition Change

universe u

/-- No process has had the identifier yet: it has not been handed out, or an
embryo has it. -/
def Ptable.Fresh (table : Ptable) (nextpid pid : Int) : Prop :=
  nextpid ≤ pid ∨ ∃ slot, (table slot).state = .embryo ∧ (table slot).pid = pid

theorem PidTable.eq_of_pid_eq {table : Ptable} {nextpid : Int} (pids : PidTable table nextpid)
    {first second : Slot} (inUse : (table first).state ≠ .unused)
    (pid_eq : (table first).pid = (table second).pid) : first = second :=
  pids.distinct first second pid_eq (pids.named first inUse).ne'

theorem Ptable.Fresh.pid_ne {table : Ptable} {nextpid pid : Int}
    (fresh : table.Fresh nextpid pid) (pids : PidTable table nextpid) {slot : Slot}
    (settled : (table slot).state.Settled) : (table slot).pid ≠ pid := by
  rintro rfl
  rcases fresh with ahead | ⟨other, embryo, pid_eq⟩
  · have := (pids.bound slot).2
    omega
  · have same : slot = other := pids.eq_of_pid_eq settled.notUnused pid_eq.symm
    subst same
    exact settled.notEmbryo embryo

/-- A fresh identifier was fresh before. -/
theorem Ptable.Fresh.before {view target : View} {call : Option Call} {pid : Int}
    (fresh : target.table.Fresh target.nextpid pid) (effect : Effect view call target)
    (forks : Forks view.table view.activity) (forward : view.nextpid ≤ target.nextpid) :
    view.table.Fresh view.nextpid pid := by
  rcases fresh with ahead | ⟨slot, embryo, pid_eq⟩
  · exact .inl (forward.trans ahead)
  · cases effect.tenures forks slot with
    | kept same settled used =>
      refine .inr ⟨slot, ?_, same.symm.trans pid_eq⟩
      by_contra notEmbryo
      have inUse := used (by rw [embryo]; decide)
      exact (settled ⟨inUse, notEmbryo⟩).notEmbryo embryo
    | vacated dead unused =>
      rw [embryo] at unused
      contradiction
    | claimed vacant handedOut => exact .inl (handedOut.symm.trans pid_eq).le

theorem Effect.initproc_eq {view target : View} {call : Option Call}
    (effect : Effect view call target) : target.initproc = view.initproc := by
  cases effect with
  | quiet quiet => exact quiet.initproc
  | reap quiet dead => exact quiet.initproc
  | _ => rfl

namespace Kernel

variable {C : Type u} {kernel target : Kernel C} {kind : SchedKind}
  {memory : Boot} {events : List (Event C)} {event : Event C}

/-! ## Steps that keep the family in order -/

/-- The invariants that hold in every state of a run with few identifiers. -/
structure Family (kernel : Kernel C) : Prop where
  occupancy : Occupancy kernel
  lineage : Lineage kernel.view
  pids : PidTable kernel.table kernel.nextpid

namespace Family

variable (family : Family kernel) {slot parent : Slot}
include family

/-- Init is nobody's child. -/
theorem ne_initproc_of_kin (kin : kernel.table.kin slot = some parent) :
    slot ≠ kernel.initproc := by
  rintro rfl
  have parent_eq := (Proc.kin_of_settled (Proc.settled_of_kin kin)).symm.trans kin
  have root := ((family.lineage.member kernel.initproc).first rfl).2.2
  exact absurd (root.symm.trans parent_eq) (by simp)

/-- Every other process has a parent, which lives. -/
theorem kin_of_settled (settled : (kernel.table slot).state.Settled)
    (notInit : slot ≠ kernel.initproc) :
    ∃ parent, kernel.table.kin slot = some parent ∧ kernel.table.Lives parent := by
  have present : (kernel.table slot).state.Alive ∨ (kernel.table slot).state = .zombie := by
    cases state : (kernel.table slot).state with
    | unused => exact absurd state settled.notUnused
    | embryo => exact absurd state settled.notEmbryo
    | zombie => exact .inr rfl
    | sleeping | runnable | running => exact .inl (by decide)
  obtain ⟨parent, parent_eq, lives⟩ := family.lineage.parentAlive slot notInit present
  exact ⟨parent, (Proc.kin_of_settled settled).trans parent_eq, lives⟩

theorem lives_of_kin (kin : kernel.table.kin slot = some parent) : kernel.table.Lives parent := by
  obtain ⟨guardian, guardian_eq, lives⟩ :=
    family.kin_of_settled (Proc.settled_of_kin kin) (family.ne_initproc_of_kin kin)
  have same : guardian = parent := Option.some.inj (guardian_eq.symm.trans kin)
  exact same ▸ lives

theorem wards_eq_empty (dead : ¬kernel.table.Lives slot) : wards kernel.table.kin slot = ∅ := by
  ext child
  simp only [mem_wards, Finset.notMem_empty, iff_false]
  exact fun kin => dead (family.lives_of_kin kin)

end Family

variable [DecidableEq C]

/-- A step of such a run. -/
structure FamilyStep (kind : SchedKind) (kernel : Kernel C) (event : Event C)
    (target : Kernel C) : Prop where
  step_eq : step kind kernel event = some target
  effect : Effect kernel.view (kernel.call event) target.view
  kinship : KinStep kernel.table (kernel.kinChange event) target.table
  before : Family kernel
  after : Family target
  forward : kernel.nextpid ≤ target.nextpid

theorem family_of_run (twoScans : kind ≠ .schedulerB)
    (execution : run (step kind) (boot memory) events = some kernel)
    (few : 1 + (countAlong (step kind) allocates (boot memory) events : Int) < intMax) :
    Family kernel where
  occupancy := Occupancy.of_reachable twoScans (.of_run execution)
  lineage := lineage_of_reachable twoScans (.of_run execution)
  pids := pidTable_of_run twoScans execution few

/-- Induction along a run with few identifiers. -/
theorem family_induction (twoScans : kind ≠ .schedulerB)
    (property : List (Event C) → Kernel C → Prop) (initial : property [] (boot memory))
    (extend : ∀ events kernel event target,
      run (step kind) (boot memory) events = some kernel → property events kernel →
      FamilyStep kind kernel event target → property (events ++ [event]) target)
    (execution : run (step kind) (boot memory) events = some kernel)
    (few : 1 + (countAlong (step kind) allocates (boot memory) events : Int) < intMax) :
    property events kernel := by
  have conditional : 1 + (countAlong (step kind) allocates (boot memory) events : Int) < intMax →
      property events kernel := by
    refine run_induction (fun events (kernel : Kernel C) =>
      1 + (countAlong (step kind) allocates (boot memory) events : Int) < intMax →
        property events kernel) (fun _ => initial) ?_ execution
    intro events kernel event target run_eq ih step_eq few
    have whole := run_concat_eq_some_iff.mpr ⟨kernel, run_eq, step_eq⟩
    have single : run (step kind) kernel [event] = some target := by simp [run, step_eq]
    have forward := nextpid_le_of_run twoScans run_eq single few
    have fewBefore : 1 +
        (countAlong (step kind) allocates (boot memory) events : Int) < intMax := by
      rw [countAlong_append run_eq] at few
      omega
    have before := family_of_run twoScans run_eq fewBefore
    exact extend events kernel event target run_eq (ih fewBefore)
      { step_eq := step_eq
        effect := effect_of_step before.occupancy twoScans step_eq
        kinship := kinStep_of_step before.occupancy before.lineage twoScans step_eq
        before := before
        after := family_of_run twoScans whole few
        forward := forward }
  exact conditional few

namespace FamilyStep

variable (taken : FamilyStep kind kernel event target)
include taken

/-- A slot that stays in use keeps its identifier. -/
theorem pid_eq {slot : Slot} (inUse : (kernel.table slot).state ≠ .unused)
    (still : (target.table slot).state ≠ .unused) :
    (target.table slot).pid = (kernel.table slot).pid := by
  cases taken.effect.tenures taken.before.occupancy.forks slot with
  | kept pid_eq settled used => exact pid_eq
  | vacated dead unused => exact absurd unused still
  | claimed vacant pid_eq => exact absurd vacant inUse

/-- A living process keeps its identifier. -/
theorem pid_eq_of_lives {slot : Slot} (lives : kernel.table.Lives slot) :
    (target.table slot).pid = (kernel.table slot).pid := by
  have tenant : kernel.view.table.Tenant slot (kernel.table slot).pid := ⟨lives.settled, rfl⟩
  exact (tenant.of_alive lives taken.effect taken.before.occupancy.forks).pid_eq

theorem initproc_eq : target.initproc = kernel.initproc :=
  taken.effect.initproc_eq

theorem fresh_before {pid : Int} (fresh : target.table.Fresh target.nextpid pid) :
    kernel.table.Fresh kernel.nextpid pid :=
  fresh.before taken.effect taken.before.occupancy.forks taken.forward

end FamilyStep

/-! ## The ledger of a process -/

/-- The process has the role in the change of custody that an event makes. -/
def involves (role : Role) (pid : Int) (kernel : Kernel C) (event : Event C) : Bool :=
  ((kernel.kinChange event).part role).any fun slot => (kernel.table slot).pid = pid

/-- The number of orphans a process adopts in an event. -/
def adopts (pid : Int) (kernel : Kernel C) (event : Event C) : Nat :=
  if involves .heir pid kernel event then (kernel.kinChange event).passed kernel.table.kin else 0

omit [DecidableEq C] in
theorem involves_eq_true_iff {role : Role} {pid : Int} :
    involves role pid kernel event = true ↔
      ∃ slot, (kernel.kinChange event).part role = some slot ∧ (kernel.table slot).pid = pid := by
  cases part_eq : (kernel.kinChange event).part role <;> simp [involves, part_eq]

omit [DecidableEq C] in
/-- A process is known by its slot. -/
theorem involves_pid (family : Family kernel) {slot : Slot}
    (inUse : (kernel.table slot).state ≠ .unused) (role : Role) :
    involves role (kernel.table slot).pid kernel event =
      decide ((kernel.kinChange event).part role = some slot) := by
  rw [Bool.eq_iff_iff, involves_eq_true_iff, decide_eq_true_iff]
  constructor
  · rintro ⟨other, part_eq, pid_eq⟩
    rw [part_eq, family.pids.eq_of_pid_eq inUse pid_eq.symm]
  · intro part_eq
    exact ⟨slot, part_eq, rfl⟩

/-- The number of events of a run in which a process has a role. -/
def count (kind : SchedKind) (memory : Boot) (events : List (Event C)) (role : Role)
    (pid : Int) : Nat :=
  countAlong (step kind) (involves role pid) (boot memory) events

/-- The number of orphans a process has adopted in a run. -/
def adoptions (kind : SchedKind) (memory : Boot) (events : List (Event C)) (pid : Int) : Nat :=
  sumAlong (step kind) (adopts pid) (boot memory) events

namespace FamilyStep

variable (taken : FamilyStep kind kernel event target)
include taken

theorem embryo_of_gain {forker child : Slot}
    (gain : kernel.kinChange event = .gain forker child) :
    (kernel.table child).state = .embryo := by
  rcases kernel.kinChange_cases event with keep | ⟨_, _, release⟩ | ⟨slot, embryo, copied, gain'⟩ |
    ⟨_, pass⟩
  · cases gain.symm.trans keep
  · cases gain.symm.trans release
  · cases gain.symm.trans gain'
    exact taken.before.occupancy.forks.embryo forker child (by rw [copied]; rfl)
  · cases gain.symm.trans pass

/-- Nothing happens to a process whose identifier is still fresh afterwards. -/
theorem not_involves {pid : Int} (fresh : target.table.Fresh target.nextpid pid) (role : Role) :
    involves role pid kernel event = false := by
  have freshBefore := taken.fresh_before fresh
  have living : ∀ {slot}, kernel.table.Lives slot → (kernel.table slot).pid ≠ pid :=
    fun lives => freshBefore.pid_ne taken.before.pids lives.settled
  have allowed := taken.kinship.allowed
  rw [← Bool.not_eq_true, involves_eq_true_iff]
  rintro ⟨slot, part_eq, pid_eq⟩
  cases change : kernel.kinChange event with
  | keep => cases role <;> simp [change, part] at part_eq
  | gain forker child =>
    rw [change] at allowed
    cases role <;> simp [change, part] at part_eq
    · exact living allowed.1 (part_eq ▸ pid_eq)
    · -- The newcomer is alive afterwards, with the identifier of the embryo.
      subst part_eq
      have lives : target.table.Lives child := by
        rw [taken.kinship.lives, change]
        exact .inl rfl
      have inUse : (kernel.table child).state ≠ .unused := by
        rw [taken.embryo_of_gain change]
        decide
      apply fresh.pid_ne taken.after.pids lives.settled
      rw [taken.pid_eq inUse lives.settled.notUnused, pid_eq]
  | release waiter child =>
    rw [change] at allowed
    cases role <;> simp [change, part] at part_eq
    · exact living allowed.1 (part_eq ▸ pid_eq)
    · subst part_eq
      refine freshBefore.pid_ne taken.before.pids ?_ pid_eq
      exact Proc.settled_of_kin allowed.2
  | handOver leaver heir =>
    rw [change] at allowed
    cases role <;> simp [change, part] at part_eq
    · exact living allowed.1 (part_eq ▸ pid_eq)
    · exact living allowed.2.1 (part_eq ▸ pid_eq)

end FamilyStep

/-- What a run has recorded about the processes: nothing under a fresh identifier,
at most one birth and one reaping of each process, and a balanced ledger for every
living process. -/
structure Ledger (kind : SchedKind) (memory : Boot) (events : List (Event C))
    (kernel : Kernel C) : Prop where
  fresh : ∀ pid, kernel.table.Fresh kernel.nextpid pid →
    (∀ role, count kind memory events role pid = 0) ∧ adoptions kind memory events pid = 0
  bornOnce : ∀ pid, count kind memory events .newcomer pid ≤ 1
  reapedOnce : ∀ pid, count kind memory events .dismissed pid ≤ 1
  gone : ∀ pid, 0 < count kind memory events .dismissed pid →
    kernel.table.Gone pid ∧ pid < kernel.nextpid
  balanced : ∀ slot, kernel.table.Lives slot →
    count kind memory events .releaser (kernel.table slot).pid +
        (wards kernel.table.kin slot).card =
      count kind memory events .gainer (kernel.table slot).pid +
        adoptions kind memory events (kernel.table slot).pid

namespace FamilyStep

variable (taken : FamilyStep kind kernel event target)
include taken

/-- The ledger of a process that lives on is balanced by the change of custody. -/
theorem balance {slot : Slot} (lives : kernel.table.Lives slot)
    (stays : (kernel.kinChange event).part .leaver ≠ some slot) :
    (wards target.table.kin slot).card +
        (involves .releaser (kernel.table slot).pid kernel event).toNat =
      (wards kernel.table.kin slot).card +
        (involves .gainer (kernel.table slot).pid kernel event).toNat +
        adopts (kernel.table slot).pid kernel event := by
  have inUse := lives.settled.notUnused
  have card_eq := card_wards_apply taken.kinship.allowed stays
  rw [← taken.kinship.kin] at card_eq
  simp only [adopts, involves_pid taken.before inUse, decide_eq_true_iff, Bool.toNat,
    Bool.cond_decide]
  exact card_eq

/-- A process that lives after a step has been born in it or lived before. -/
theorem lives_cases {slot : Slot} (lives : target.table.Lives slot) :
    (∃ forker, kernel.kinChange event = .gain forker slot) ∨
      kernel.table.Lives slot ∧ (kernel.kinChange event).part .leaver ≠ some slot := by
  rw [taken.kinship.lives] at lives
  cases change : kernel.kinChange event with
  | keep | release waiter child =>
    rw [change] at lives
    exact .inr ⟨lives, by simp [part]⟩
  | gain forker child =>
    rw [change] at lives
    rcases lives with rfl | lives
    · exact .inl ⟨forker, rfl⟩
    · exact .inr ⟨lives, by simp [part]⟩
  | handOver leaver heir =>
    rw [change] at lives
    obtain ⟨ne, lives⟩ := lives
    exact .inr ⟨lives, by simpa [part] using ne.symm⟩

end FamilyStep

theorem count_concat (execution : run (step kind) (boot memory) events = some kernel)
    (step_eq : step kind kernel event = some target) (role : Role) (pid : Int) :
    count kind memory (events ++ [event]) role pid =
      count kind memory events role pid + (involves role pid kernel event).toNat :=
  countAlong_concat execution step_eq

theorem adoptions_concat (execution : run (step kind) (boot memory) events = some kernel)
    (step_eq : step kind kernel event = some target) (pid : Int) :
    adoptions kind memory (events ++ [event]) pid =
      adoptions kind memory events pid + adopts pid kernel event :=
  sumAlong_concat execution step_eq

namespace Ledger

theorem boot (memory : Boot) : Ledger kind memory [] (Kernel.boot memory : Kernel C) where
  fresh _ _ := ⟨fun _ => rfl, rfl⟩
  bornOnce _ := Nat.zero_le 1
  reapedOnce _ := Nat.zero_le 1
  gone _ reaped := absurd reaped (Nat.lt_irrefl 0)
  balanced slot _ := by
    rfl

section Step

variable (ledger : Ledger kind memory events kernel)
  (execution : run (step kind) (Kernel.boot memory) events = some kernel)
  (taken : FamilyStep kind kernel event target)
include ledger execution taken

theorem fresh_step {pid : Int} (fresh : target.table.Fresh target.nextpid pid) :
    (∀ role, count kind memory (events ++ [event]) role pid = 0) ∧
      adoptions kind memory (events ++ [event]) pid = 0 := by
  obtain ⟨counts, adopted⟩ := ledger.fresh pid (taken.fresh_before fresh)
  constructor
  · intro role
    rw [count_concat execution taken.step_eq, taken.not_involves fresh, counts role]
    rfl
  · rw [adoptions_concat execution taken.step_eq, adopts, taken.not_involves fresh, adopted]
    rfl

/-- The embryo of a completed `fork` had a fresh identifier. -/
theorem bornOnce_step (pid : Int) :
    count kind memory (events ++ [event]) .newcomer pid ≤ 1 := by
  rw [count_concat execution taken.step_eq]
  cases born : involves .newcomer pid kernel event with
  | false => exact ledger.bornOnce pid
  | true =>
    obtain ⟨child, part_eq, pid_eq⟩ := involves_eq_true_iff.mp born
    rcases kernel.kinChange_cases event with keep | ⟨_, _, release⟩ | ⟨forker, _, _, gain⟩ |
      ⟨_, pass⟩
    · simp [keep, part] at part_eq
    · simp [release, part] at part_eq
    · simp only [gain, part, Option.some.injEq] at part_eq
      subst part_eq
      have embryo := taken.embryo_of_gain gain
      rw [(ledger.fresh pid (.inr ⟨_, embryo, pid_eq⟩)).1]
      rfl
    · simp [pass, part] at part_eq

/-- A process that has been reaped is gone, so nobody finds it again. -/
theorem reaped_step (pid : Int) :
    count kind memory (events ++ [event]) .dismissed pid ≤ 1 ∧
      (0 < count kind memory (events ++ [event]) .dismissed pid →
        target.table.Gone pid ∧ pid < target.nextpid) := by
  rw [count_concat execution taken.step_eq]
  have forks := taken.before.occupancy.forks
  cases reaped : involves .dismissed pid kernel event with
  | false =>
    refine ⟨ledger.reapedOnce pid, fun earlier => ?_⟩
    obtain ⟨gone, old⟩ := ledger.gone pid earlier
    exact ⟨gone.effect old taken.effect forks, old.trans_le taken.forward⟩
  | true =>
    obtain ⟨child, part_eq, pid_eq⟩ := involves_eq_true_iff.mp reaped
    rcases kernel.kinChange_cases event with keep | ⟨waiter, _, release⟩ | ⟨_, _, _, gain⟩ |
      ⟨_, pass⟩
    · simp [keep, part] at part_eq
    · simp only [release, part, Option.some.injEq] at part_eq
      subst part_eq
      have allowed := taken.kinship.allowed
      rw [release] at allowed
      have settled := Proc.settled_of_kin allowed.2
      have first : count kind memory events .dismissed pid = 0 := by
        by_contra earlier
        have gone := (ledger.gone pid (Nat.pos_of_ne_zero earlier)).1
        exact gone _ settled.notUnused pid_eq
      have tenant : kernel.view.table.Tenant _ pid := ⟨settled, pid_eq⟩
      have old : pid < kernel.nextpid := pid_eq ▸ (taken.before.pids.bound _).2
      refine ⟨by simp [first], fun _ => ⟨?_, old.trans_le taken.forward⟩⟩
      rcases tenant.effect taken.effect forks taken.before.pids with still | gone
      · -- A process that has been released would have no parent.
        have notInit := taken.before.ne_initproc_of_kin allowed.2
        rw [← taken.initproc_eq] at notInit
        obtain ⟨parent, kin, -⟩ := taken.after.kin_of_settled still.settled notInit
        rw [taken.kinship.kin, release] at kin
        simp [apply] at kin
      · exact gone
    · simp [gain, part] at part_eq
    · simp [pass, part] at part_eq

theorem balanced_step {slot : Slot} (lives : target.table.Lives slot) :
    count kind memory (events ++ [event]) .releaser (target.table slot).pid +
        (wards target.table.kin slot).card =
      count kind memory (events ++ [event]) .gainer (target.table slot).pid +
        adoptions kind memory (events ++ [event]) (target.table slot).pid := by
  rw [count_concat execution taken.step_eq, count_concat execution taken.step_eq,
    adoptions_concat execution taken.step_eq]
  rcases taken.lives_cases lives with ⟨forker, gain⟩ | ⟨livesBefore, stays⟩
  · -- A newborn process has done nothing yet and has no children.
    have embryo := taken.embryo_of_gain gain
    have inUse : (kernel.table slot).state ≠ .unused := by
      rw [embryo]
      decide
    have allowed := taken.kinship.allowed
    rw [gain] at allowed
    obtain ⟨forkerLives, absent, free⟩ := allowed
    obtain ⟨counts, adopted⟩ := ledger.fresh _ (.inr ⟨slot, embryo, rfl⟩)
    have other : forker ≠ slot := by
      rintro rfl
      exact absent forkerLives
    have childless : wards target.table.kin slot = ∅ := by
      rw [taken.kinship.kin, gain, wards_gain free, if_neg other,
        taken.before.wards_eq_empty absent]
    rw [taken.pid_eq inUse lives.settled.notUnused, counts, counts, adopted, childless]
    simp [adopts, involves_pid taken.before inUse, gain, part, other]
  · have balanced := ledger.balanced slot livesBefore
    have balance := taken.balance livesBefore stays
    rw [taken.pid_eq_of_lives livesBefore]
    omega

end Step

end Ledger

theorem ledger_of_run (twoScans : kind ≠ .schedulerB)
    (execution : run (step kind) (boot memory) events = some kernel)
    (few : 1 + (countAlong (step kind) allocates (boot memory) events : Int) < intMax) :
    Ledger kind memory events kernel := by
  refine family_induction twoScans (Ledger kind memory) (.boot memory) ?_ execution few
  intro events kernel event target execution ledger taken
  exact
    { fresh := fun _ => ledger.fresh_step execution taken
      bornOnce := ledger.bornOnce_step execution taken
      reapedOnce := fun pid => (ledger.reaped_step execution taken pid).1
      gone := fun pid => (ledger.reaped_step execution taken pid).2
      balanced := fun _ => ledger.balanced_step execution taken }

end Kernel

end Xv6.Process
