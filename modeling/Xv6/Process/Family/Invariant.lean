import Xv6.Process.Family.Effect
import Xv6.Process.Family.Pids

/-!
# The family invariant

`Lineage` relates parents, open files and the stages of `fork`; `PidTable` is
the invariant of the identifiers.  Both are preserved by every effect, the
second as long as the identifier counter does not overflow.
-/

namespace Xv6.Process

open Xv6.Int32 Ptable Option Function View

/-- An embryo that has received nothing from its parent yet. -/
def Proc.Unborn (proc : Proc) : Prop :=
  proc.parent = none ∧ ∀ fd, proc.ofile fd = none

/-- What the stage of a `fork` in progress says about its embryo. -/
def View.Stage (view : View) (slot : Slot) : Prop :=
  match view.activity slot with
  | .claimed child => (view.table child).Unborn
  | .stacked child => (view.table child).Unborn ∧ view.activity child = .user
  | .copied child => (view.table child).parent = some slot
  | .user | .exiting => True

/-- A stage depends only on the activity of its process, and on the record and
the activity of its embryo. -/
theorem View.Stage.congr {view target : View} {slot : Slot} (stage : view.Stage slot)
    (activity : target.activity slot = view.activity slot)
    (child : ∀ child, (view.activity slot).child = some child →
      (target.table child).parent = (view.table child).parent ∧
        (target.table child).ofile = (view.table child).ofile ∧
        target.activity child = view.activity child) : target.Stage slot := by
  unfold Stage at stage ⊢
  rw [activity]
  cases building : view.activity slot with
  | user => trivial
  | exiting => trivial
  | claimed embryo | stacked embryo | copied embryo =>
    obtain ⟨parent_eq, ofile_eq, activity_eq⟩ := child embryo (by rw [building]; rfl)
    rw [building] at stage
    simpa only [Proc.Unborn, parent_eq, ofile_eq, activity_eq] using stage

/-- What holds of the record of one process. -/
structure Proc.Member (init slot : Slot) (activity : Activity) (proc : Proc) : Prop where
  first : slot = init → proc.state.Alive ∧ activity ≠ .exiting ∧ proc.parent = none
  notSelf : proc.parent ≠ some slot
  orphan : proc.state = .unused → proc.parent = none
  closed : proc.state = .unused ∨ proc.state = .zombie ∨ activity = .exiting →
    ∀ fd, proc.ofile fd = none

theorem Proc.Member.relax {init slot : Slot} {proc : Proc} {before after : Activity}
    (member : proc.Member init slot before) (exits : after = .exiting → before = .exiting) :
    proc.Member init slot after where
  first same := by
    obtain ⟨alive, stays, root⟩ := member.first same
    exact ⟨alive, mt exits stays, root⟩
  notSelf := member.notSelf
  orphan := member.orphan
  closed gone := member.closed (gone.imp_right (Or.imp_right exits))

/-- The invariant of parents and open files.  The last field says that no
parent sleeps in `wait` while it has a zombie child. -/
structure Lineage (view : View) : Prop where
  member : ∀ slot, (view.table slot).Member view.initproc slot (view.activity slot)
  parentAlive : ∀ slot ≠ view.initproc,
    (view.table slot).state.Alive ∨ (view.table slot).state = .zombie →
    ∃ parent, (view.table slot).parent = some parent ∧ (view.table parent).state.Alive
  stage : ∀ slot, view.Stage slot
  awake : ∀ slot, view.table.SleepsOn (some (.proc slot)) slot →
    ¬view.table.HasZombieChild slot

namespace Lineage

variable {view target : View}

theorem initAlive (lineage : Lineage view) : (view.table view.initproc).state.Alive :=
  ((lineage.member _).first rfl).1

theorem initStays (lineage : Lineage view) : view.activity view.initproc ≠ .exiting :=
  ((lineage.member _).first rfl).2.1

theorem steady (lineage : Lineage view) (steady : Steady view target) : Lineage target := by
  have alive_iff slot : (target.table slot).state.Alive ↔ (view.table slot).state.Alive := by
    rcases steady.state slot with same | ⟨before, after⟩
    · rw [same]
    · exact iff_of_true after before
  have unused slot (after : (target.table slot).state = .unused) :
      (view.table slot).state = .unused := by
    rcases steady.state slot with same | ⟨-, living⟩
    · rwa [← same]
    · rw [after] at living
      exact absurd living (by decide)
  constructor
  · intro slot
    have member := lineage.member slot
    rw [steady.initproc, steady.activity]
    refine ⟨fun same => ?_, ?_, fun free => ?_, fun gone => ?_⟩
    · obtain ⟨before, stays, root⟩ := member.first same
      exact ⟨(alive_iff slot).mpr before, stays, (steady.parent slot).trans root⟩
    · rw [steady.parent]
      exact member.notSelf
    · rw [steady.parent]
      exact member.orphan (unused slot free)
    · rw [steady.ofile]
      exact member.closed (gone.imp (unused slot) (Or.imp_left (steady.zombie_iff slot).mp))
  · intro slot notInit present
    rw [steady.initproc] at notInit
    rw [steady.parent]
    obtain ⟨parent, parent_eq, parentAlive⟩ := lineage.parentAlive slot notInit
      (present.imp (alive_iff slot).mp (steady.zombie_iff slot).mp)
    exact ⟨parent, parent_eq, (alive_iff parent).mpr parentAlive⟩
  · intro slot
    apply (lineage.stage slot).congr (by rw [steady.activity])
    intro child _
    exact ⟨steady.parent child, steady.ofile child, by rw [steady.activity]⟩
  · intro slot sleeps
    rw [steady.hasZombieChild_iff]
    rcases steady.asleep slot sleeps with before | noZombie
    · exact lineage.awake slot before
    · exact noZombie

variable {slot other child : Slot}

/-- A `fork` in progress builds no slot that is not an embryo. -/
theorem ne_of_builds (forks : Forks view.table view.activity)
    (state : (view.table slot).state ≠ .embryo)
    (builds : (view.activity other).child = some child) : child ≠ slot := by
  rintro rfl
  exact state (forks.embryo other child builds)

variable {update : Proc → Proc} {activity : Slot → Activity}

/-- A change of a slot that is neither asleep nor a zombie afterwards. -/
theorem change (lineage : Lineage view) {nextpid : Int}
    (own : (update (view.table slot)).Member view.initproc slot (activity slot))
    (awake : (update (view.table slot)).state ≠ .sleeping)
    (undead : (update (view.table slot)).state ≠ .zombie)
    (living : (view.table slot).state.Alive → (update (view.table slot)).state.Alive)
    (guardian : slot ≠ view.initproc → (update (view.table slot)).state.Alive →
      ∃ parent, (update (view.table slot)).parent = some parent ∧ (view.table parent).state.Alive)
    (exits : ∀ other, activity other = .exiting → other = slot ∨ view.activity other = .exiting)
    (stage : ∀ other, Stage
      ⟨view.table.modify slot update, activity, nextpid, view.initproc⟩ other) :
    Lineage ⟨view.table.modify slot update, activity, nextpid, view.initproc⟩ := by
  have alive other (before : (view.table other).state.Alive) :
      (view.table.modify slot update other).state.Alive := by
    by_cases same : other = slot
    · subst same
      simpa using living before
    · simpa [same] using before
  refine ⟨fun other => ?_, fun other notInit present => ?_, stage, ?_⟩
  · by_cases same : other = slot
    · subst same
      simpa using own
    · simpa [same] using
        (lineage.member other).relax fun exiting => (exits other exiting).resolve_left same
  · by_cases same : other = slot
    · subst same
      simp only [modify_self] at present ⊢
      obtain ⟨parent, parent_eq, before⟩ := guardian notInit (present.resolve_right undead)
      exact ⟨parent, parent_eq, alive parent before⟩
    · simp only [modify_of_ne _ _ same] at present ⊢
      obtain ⟨parent, parent_eq, before⟩ := lineage.parentAlive other notInit present
      exact ⟨parent, parent_eq, alive parent before⟩
  · rintro other ⟨sleeping, chan_eq⟩ ⟨child, isChild, dead⟩
    have ne : other ≠ slot := by
      rintro rfl
      exact awake (by simpa using sleeping)
    have childNe : child ≠ slot := by
      rintro rfl
      exact undead (by simpa using dead)
    simp only [modify_of_ne _ _ ne] at sleeping chan_eq
    simp only [modify_of_ne _ _ childNe] at isChild dead
    exact lineage.awake other ⟨sleeping, chan_eq⟩ ⟨child, isChild, dead⟩

/-- A change of a slot that holds no living process before and after. -/
theorem modifyDormant (lineage : Lineage view) {nextpid : Int}
    (before : ¬(view.table slot).state.Alive) (after : (update (view.table slot)).state = .unused ∨
      (update (view.table slot)).state = .embryo)
    (notSelf : (update (view.table slot)).parent ≠ some slot)
    (orphan : (update (view.table slot)).state = .unused → (update (view.table slot)).parent = none)
    (closed : (update (view.table slot)).state = .unused ∨ activity slot = .exiting →
      ∀ fd, (update (view.table slot)).ofile fd = none)
    (exits : ∀ other, activity other = .exiting → view.activity other = .exiting)
    (stage : ∀ other, Stage
      ⟨view.table.modify slot update, activity, nextpid, view.initproc⟩ other) :
    Lineage ⟨view.table.modify slot update, activity, nextpid, view.initproc⟩ := by
  have dormant : ¬(update (view.table slot)).state.Alive ∧
      (update (view.table slot)).state ≠ .zombie := by
    rcases after with unused | embryo
    · rw [unused]
      decide
    · rw [embryo]
      decide
  refine lineage.change ⟨fun same => ?_, notSelf, orphan, fun gone => ?_⟩
    (fun sleeping => dormant.1 (.inl sleeping)) dormant.2 (fun alive => absurd alive before)
    (fun _ alive => absurd alive dormant.1) (fun other exiting => .inr (exits other exiting)) stage
  · exact absurd ((lineage.member slot).first same).1 before
  · exact closed (gone.imp_right fun exiting => exiting.resolve_left dormant.2)

theorem reap (lineage : Lineage view) (forks : Forks view.table view.activity)
    (dead : (view.table child).state = .zombie) :
    Lineage { view with table := view.table.reap child } := by
  refine lineage.modifyDormant ?_ (.inl rfl) nofun (fun _ => rfl) ?_ (fun _ => id) ?_
  · rw [dead]
    decide
  · exact fun _ => (lineage.member child).closed (.inr (.inl dead))
  · intro other
    refine (lineage.stage other).congr rfl fun built builds => ?_
    have ne : built ≠ child := ne_of_builds forks (by simp [dead]) builds
    simp [ne]

/-- The stages of `fork` make no process exit. -/
theorem exiting_of_update {next : Activity} (stays : next ≠ .exiting)
    (exiting : Function.update activity slot next other = .exiting) :
    activity other = .exiting := by
  rw [update_apply] at exiting
  split at exiting
  · exact absurd exiting stays
  · exact exiting

section

variable (lineage : Lineage view)

include lineage

theorem claim (forks : Forks view.table view.activity)
    (running : (view.table slot).state = .running) (unused : (view.table child).state = .unused) :
    Lineage
      { view with
        table := view.table.claim child view.nextpid
        activity := Function.update view.activity slot (.claimed child)
        nextpid := wrap (view.nextpid + 1) } := by
  have orphan := (lineage.member child).orphan unused
  refine lineage.modifyDormant ?_ (.inr rfl) ?_ nofun ?_ (fun _ => exiting_of_update (by simp)) ?_
  · rw [unused]
    decide
  · simp [orphan]
  · exact fun _ => (lineage.member child).closed (.inl unused)
  · intro other
    by_cases same : other = slot
    · subst same
      simpa [Stage, Proc.Unborn, orphan] using (lineage.member child).closed (.inl unused)
    apply (lineage.stage other).congr (by simp [same])
    intro built builds
    have ne : built ≠ child := ne_of_builds forks (by simp [unused]) builds
    have ne' : built ≠ slot := ne_of_builds forks (by simp [running]) builds
    simp [ne, ne']

/-- What the first two stages of `fork` know of the embryo. -/
theorem unborn_of_started
    (started : view.activity slot = .claimed child ∨ view.activity slot = .stacked child) :
    (view.table child).Unborn := by
  have stage := lineage.stage slot
  unfold Stage at stage
  rcases started with claimed | stacked
  · rw [claimed] at stage
    exact stage
  · rw [stacked] at stage
    exact stage.1

/-- The stage of every other `fork` survives a change of this one's embryo. -/
theorem stage_of_ne (forks : Forks view.table view.activity)
    (running : (view.table slot).state = .running)
    (building : (view.activity slot).child = some child)
    (activities : ∀ third ≠ slot, activity third = view.activity third ∨ third = child ∧
      activity third = .user)
    (ne : other ≠ slot) :
    Stage { view with table := view.table.modify child update, activity := activity } other := by
  rcases activities other ne with unchanged | ⟨-, user⟩
  · apply (lineage.stage other).congr unchanged
    intro built builds
    have builtNe : built ≠ child := by
      rintro rfl
      exact ne (forks.builder other slot built builds building)
    have builtNe' : built ≠ slot := ne_of_builds forks (by simp [running]) builds
    have unchanged' := activities built builtNe'
    simpa [builtNe] using unchanged'
  · simp [Stage, user]

section

variable (forks : Forks view.table view.activity)
include forks

section

variable (running : (view.table slot).state = .running)
include running

/-- The stages when a `fork` goes on and changes its embryo. -/
theorem stage_update {next : Activity} (building : (view.activity slot).child = some child)
    (own : Stage { view with
      table := view.table.modify child update
      activity := Function.update view.activity slot next } slot) (other : Slot) :
    Stage { view with
      table := view.table.modify child update
      activity := Function.update view.activity slot next } other := by
  by_cases same : other = slot
  · exact same ▸ own
  · exact lineage.stage_of_ne forks running building (fun _ ne => .inl (update_of_ne ne ..)) same

/-- A failed `fork` gives its embryo up. -/
theorem abandon
    (started : view.activity slot = .claimed child ∨ view.activity slot = .stacked child)
    (unused : (update (view.table child)).state = .unused)
    (parent_eq : (update (view.table child)).parent = (view.table child).parent)
    (ofile_eq : (update (view.table child)).ofile = (view.table child).ofile) :
    Lineage
      { view with
        table := view.table.modify child update
        activity := Function.update view.activity slot .user } := by
  have building : (view.activity slot).child = some child := by
    rcases started with claimed | stacked
    · rw [claimed, Activity.child]
    · rw [stacked, Activity.child]
  have unborn := lineage.unborn_of_started started
  refine lineage.modifyDormant ?_ (.inl unused) ?_ (fun _ => parent_eq.trans unborn.1) ?_
    (fun _ => exiting_of_update (by simp)) ?_
  · rw [forks.embryo slot child building]
    decide
  · simp [parent_eq, unborn.1]
  · rw [ofile_eq]
    exact fun _ => unborn.2
  · exact lineage.stage_update forks running building (by simp [Stage])

theorem stack (claimed : view.activity slot = .claimed child) (kstack : Nat) :
    Lineage
      { view with
        table := view.table.initEmbryo child kstack
        activity :=
          Function.update (Function.update view.activity child .user) slot (.stacked child) } := by
  have building : (view.activity slot).child = some child := by rw [claimed, Activity.child]
  have embryo := forks.embryo slot child building
  have unborn := lineage.unborn_of_started (.inl claimed)
  have ne : child ≠ slot := ne_of_builds forks (by simp [running]) building
  refine lineage.modifyDormant ?_ (.inr embryo) ?_ (fun _ => unborn.1) (fun _ => unborn.2) ?_ ?_
  · rw [embryo]
    decide
  · simp [unborn.1]
  · intro other exiting
    exact exiting_of_update (by simp) (exiting_of_update (by simp) exiting)
  · intro other
    by_cases same : other = slot
    · subst same
      simpa [Stage, ne, Proc.Unborn] using unborn
    refine lineage.stage_of_ne forks running building (fun third thirdNe => ?_) same
    rw [update_of_ne thirdNe, update_apply]
    split
    · exact .inr ⟨‹_›, rfl⟩
    · exact .inl rfl

/-- `fork` copies open files only into an embryo that is not exiting. -/
theorem copy (stacked : view.activity slot = .stacked child) (pgdir : Nat) :
    Lineage
      { view with
        table := view.table.copyParent child slot pgdir
        activity := Function.update view.activity slot (.copied child) } := by
  have building : (view.activity slot).child = some child := by rw [stacked, Activity.child]
  have embryo := forks.embryo slot child building
  have ne : child ≠ slot := ne_of_builds forks (by simp [running]) building
  have user : view.activity child = .user := by
    have stage := lineage.stage slot
    unfold Stage at stage
    rw [stacked] at stage
    exact stage.2
  refine lineage.modifyDormant ?_ (.inr embryo) ?_ ?_ ?_ (fun _ => exiting_of_update (by simp)) ?_
  · rw [embryo]
    decide
  · simpa using ne.symm
  · simp [embryo]
  · simp [embryo, ne, user]
  · exact lineage.stage_update forks running building (by simp [Stage])

/-- The child of a finished `fork` starts with a living parent. -/
theorem ready (copied : view.activity slot = .copied child) :
    Lineage
      { view with
        table := view.table.setState child .runnable
        activity := Function.update view.activity slot .user } := by
  have building : (view.activity slot).child = some child := by rw [copied, Activity.child]
  have embryo := forks.embryo slot child building
  have parent_eq : (view.table child).parent = some slot := by
    have stage := lineage.stage slot
    unfold Stage at stage
    rw [copied] at stage
    exact stage
  have member := lineage.member child
  have exits : ∀ other, Function.update view.activity slot .user other = .exiting →
      view.activity other = .exiting := fun _ => exiting_of_update (by simp)
  have dormant : ¬(view.table child).state.Alive := by
    rw [embryo]
    decide
  refine lineage.change ⟨fun same => ?_, member.notSelf, by simp, fun gone => ?_⟩ (by simp)
    (by simp) (fun _ => .inr (.inl rfl)) (fun _ _ => ?_)
    (fun other exiting => .inr (exits other exiting)) ?_
  · exact absurd (member.first same).1 dormant
  · simp only [reduceCtorEq, false_or] at gone
    exact member.closed (.inr (.inr (exits child gone)))
  · exact ⟨slot, parent_eq, .inr (.inr running)⟩
  · exact lineage.stage_update forks running building (by simp [Stage])

/-- Stores to the descriptor table of a running process, which is not exiting
afterwards or has closed all its files. -/
theorem storeFiles (state_eq : (update (view.table slot)).state = .running)
    (parent_eq : (update (view.table slot)).parent = (view.table slot).parent)
    (others : ∀ other ≠ slot, activity other = view.activity other)
    (own : activity slot = .user ∨ activity slot = .exiting ∧ slot ≠ view.initproc ∧
      ∀ fd, (update (view.table slot)).ofile fd = none) :
    Lineage { view with table := view.table.modify slot update, activity := activity } := by
  have member := lineage.member slot
  refine lineage.change ⟨fun same => ?_, ?_, ?_, fun gone => ?_⟩ ?_ ?_
    (fun _ => .inr (.inr state_eq)) ?_ (fun other exiting => ?_) fun other => ?_
  · refine ⟨.inr (.inr state_eq), ?_, parent_eq.trans (member.first same).2.2⟩
    rcases own with user | ⟨-, notInit, -⟩
    · simp [user]
    · exact absurd same notInit
  · rw [parent_eq]
    exact member.notSelf
  · simp [state_eq]
  · rcases own with user | ⟨-, -, closed⟩
    · simp [state_eq, user] at gone
    · exact closed
  · simp [state_eq]
  · simp [state_eq]
  · rw [parent_eq]
    exact fun notInit _ => lineage.parentAlive slot notInit (.inl (.inr (.inr running)))
  · refine or_iff_not_imp_left.mpr fun ne => ?_
    rwa [← others other ne]
  · by_cases same : other = slot
    · subst same
      unfold Stage
      rcases own with user | ⟨exiting, -, -⟩
      · simp [user]
      · simp [exiting]
    · apply (lineage.stage other).congr (others other same)
      intro child builds
      have ne : child ≠ slot := ne_of_builds forks (by simp [running]) builds
      simp [others child ne, ne]

theorem setOfile (user : view.activity slot = .user) (fd : Fin nofile) (file : Option Nat) :
    Lineage
      { view with
        table := view.table.modify slot fun proc =>
          { proc with ofile := fun other => if other = fd then file else proc.ofile other } } :=
  lineage.storeFiles forks running running rfl (fun _ _ => rfl) (.inl user)

theorem closeFiles (notInit : slot ≠ view.initproc) :
    Lineage
      { view with
        table := view.table.closeFiles slot
        activity := Function.update view.activity slot .exiting } :=
  lineage.storeFiles forks running running rfl (fun _ ne => update_of_ne ne ..)
    (.inr ⟨update_self .., notInit, fun _ => rfl⟩)

end

end

/-- `exit` wakes the parent before the leaver becomes its zombie, and init if it
inherits a zombie. -/
theorem exit (running : (view.table slot).state = .running)
    (exiting : view.activity slot = .exiting) :
    Lineage { view with table := view.table.exit slot view.initproc } := by
  have notInit : slot ≠ view.initproc := by
    rintro rfl
    exact lineage.initStays exiting
  obtain ⟨parent, parent_eq, -⟩ :=
    lineage.parentAlive slot notInit (.inl (.inr (.inr running)))
  have alive other (ne : other ≠ slot) (before : (view.table other).state.Alive) :
      (view.table.exit slot view.initproc other).state.Alive := by
    rcases view.table.exit_state_of_ne ne with same | ⟨-, woken⟩
    · rwa [same]
    · exact .inr (.inl woken)
  have unchanged other state (ne : other ≠ slot)
      (after : (view.table.exit slot view.initproc other).state = state)
      (awake : state ≠ .runnable) : (view.table other).state = state := by
    rcases view.table.exit_state_of_ne ne with same | ⟨-, woken⟩
    · exact same.symm.trans after
    · exact absurd (after.symm.trans woken) awake
  have ofile_eq other : (view.table.exit slot view.initproc other).ofile =
      (view.table other).ofile := by
    obtain ⟨_, _, record_eq⟩ := view.table.exit_fields slot view.initproc other
    rw [record_eq]
  constructor
  · intro other
    have member := lineage.member other
    refine ⟨fun same => ?_, ?_, fun unused => ?_, fun gone => ?_⟩
    · obtain ⟨before, stays, root⟩ := member.first same
      refine ⟨alive _ (by rintro rfl; exact notInit same) before, stays, ?_⟩
      simp [exit_parent, root]
    · simp only [exit_parent]
      split
      · rename_i isChild
        intro self
        rw [(member.first (some.inj self).symm).2.2] at isChild
        contradiction
      · exact member.notSelf
    · have ne : other ≠ slot := by
        rintro rfl
        simp at unused
      have orphan := member.orphan (unchanged other _ ne unused (by decide))
      simp [exit_parent, orphan]
    · simp only [ofile_eq]
      by_cases same : other = slot
      · subst same
        exact member.closed (.inr (.inr exiting))
      · refine member.closed (gone.imp ?_ (Or.imp_left ?_))
        · exact fun unused => unchanged other _ same unused (by decide)
        · exact fun dead => unchanged other _ same dead (by decide)
  · intro other otherNe present
    have presentBefore : (view.table other).state.Alive ∨ (view.table other).state = .zombie := by
      by_cases same : other = slot
      · rw [same]
        exact .inl (.inr (.inr running))
      · rcases view.table.exit_state_of_ne same with equal | ⟨sleeping, -⟩
        · rwa [equal] at present
        · exact .inl (.inl sleeping)
    obtain ⟨former, former_eq, formerAlive⟩ := lineage.parentAlive other otherNe presentBefore
    simp only [exit_parent, former_eq, some.injEq]
    split
    · exact ⟨_, rfl, alive _ notInit.symm lineage.initAlive⟩
    · rename_i formerNe
      exact ⟨former, rfl, alive former formerNe formerAlive⟩
  · intro other
    have stage := lineage.stage other
    unfold Stage at stage ⊢
    cases building : view.activity other with
    | user => trivial
    | exiting => trivial
    | claimed child =>
      rw [building] at stage
      exact ⟨by simp [exit_parent, stage.1], by simpa [ofile_eq] using stage.2⟩
    | stacked child =>
      rw [building] at stage
      exact ⟨⟨by simp [exit_parent, stage.1.1], by simpa [ofile_eq] using stage.1.2⟩, stage.2⟩
    | copied child =>
      rw [building] at stage
      have ne : other ≠ slot := by
        rintro rfl
        rw [exiting] at building
        contradiction
      simp [exit_parent, stage, ne]
  · rintro other ⟨sleeping, chan_eq⟩ ⟨child, isChild, dead⟩
    have ne : other ≠ slot := by
      rintro rfl
      simp at sleeping
    obtain ⟨_, _, record_eq⟩ := view.table.exit_fields slot view.initproc other
    have chan_before : (view.table other).chan = some (.proc other) := by
      simpa only [record_eq] using chan_eq
    obtain ⟨asleep, notParent, notInit'⟩ := view.table.exit_asleep ne sleeping
    rw [parent_eq, chan_before] at notParent
    simp only [exit_parent] at isChild
    by_cases same : child = slot
    · -- The leaver is the zombie: its parent has just been woken.
      subst same
      rw [if_neg (lineage.member child).notSelf, parent_eq] at isChild
      rw [some.inj isChild] at notParent
      exact notParent rfl
    have deadBefore := unchanged child _ same dead (by decide)
    split at isChild
    · -- A zombie child of the leaver: init has just been woken.
      rename_i wasChild
      have isInit := some.inj isChild
      exact notInit' ⟨child, mem_slots child, wasChild, deadBefore⟩ (by rw [chan_before, isInit])
    · exact lineage.awake other ⟨asleep, chan_before⟩ ⟨child, isChild, deadBefore⟩

theorem effect (forks : Forks view.table view.activity) {call : Option Call}
    (effect : Effect view call target) : Lineage target := by
  cases effect with
  | quiet quiet => exact lineage.steady quiet.toSteady
  | kill slot pid => exact lineage.steady (.kill view pid)
  | setOfile running user fd file => exact lineage.setOfile forks running user fd file
  | closeFiles running notInit => exact lineage.closeFiles forks running notInit
  | exit running exiting => exact lineage.exit running exiting
  | reap quiet dead =>
    exact (lineage.steady quiet.toSteady).reap (quiet.forks forks) dead
  | claim running found => exact lineage.claim forks running (findUnused_state found)
  | abandonStack running claimed =>
    exact lineage.abandon forks running (.inl claimed) rfl rfl rfl
  | abandonCopy running stacked =>
    exact lineage.abandon forks running (.inr stacked) rfl rfl rfl
  | stack running claimed kstack => exact lineage.stack forks running claimed kstack
  | copy running stacked pgdir => exact lineage.copy forks running stacked pgdir
  | ready running copied => exact lineage.ready forks running copied

end

end Lineage

namespace PidTable

variable {view target : View}

section

variable (pids : PidTable view.table view.nextpid)

include pids

theorem steady (steady : Steady view target) : PidTable target.table target.nextpid := by
  rw [steady.nextpid]
  apply pids.keep steady.pid
  intro slot inUse unused
  rcases steady.state slot with same | ⟨alive, -⟩
  · exact inUse (same.trans unused)
  · rw [unused] at alive
    exact absurd alive (by decide)

theorem exit {slot : Slot} (running : (view.table slot).state = .running) :
    PidTable (view.table.exit slot view.initproc) view.nextpid := by
  refine pids.keep (fun other => ?_) fun other inUse unused => ?_
  · obtain ⟨_, _, record_eq⟩ := view.table.exit_fields slot view.initproc other
    rw [record_eq]
  · have ne : other ≠ slot := by
      rintro rfl
      rw [running] at unused
      contradiction
    rcases view.table.exit_state_of_ne ne with same | ⟨sleeping, -⟩
    · exact inUse (same.trans unused)
    · rw [unused] at sleeping
      contradiction

/-- Identifiers stay distinct while the counter does not overflow. -/
theorem effect (forks : Forks view.table view.activity) {call : Option Call}
    (effect : Effect view call target)
    (room : target.nextpid ≠ view.nextpid → view.nextpid < intMax) :
    PidTable target.table target.nextpid := by
  cases effect with
  | quiet quiet => exact pids.steady quiet.toSteady
  | kill slot pid => exact pids.steady (.kill view pid)
  | setOfile | closeFiles | abandonStack | abandonCopy | stack | copy =>
    dsimp only [closeFiles, abandonStack, abandonCopy, initEmbryo, copyParent]
    apply pids.modify <;> simp
  | exit running exiting => exact pids.exit running
  | reap quiet dead => exact (pids.steady quiet.toSteady).reap _
  | @claim slot child running found =>
    have positive := pids.positive
    have room := room (wrap_add_one_ne view.nextpid)
    have next_eq : wrap (view.nextpid + 1) = view.nextpid + 1 := wrap_eq_self (by omega) (by omega)
    rw [next_eq]
    exact pids.claim child
  | @ready slot child running copied =>
    have embryo := forks.embryo slot child (by rw [copied, Activity.child])
    dsimp only [setState]
    apply pids.modify <;> simp [embryo]

end

end PidTable

end Xv6.Process
