import Xv6.Locks.Ownership
import Xv6.Process.Sleep.Core

/-!
# No wakeup is lost

A process that has seen the condition false holds `lk` until it holds
`ptable.lock`, and `ptable.lock` until it is asleep.  A waker that has made the
condition true holds `lk` until it has scanned the table, and the scan needs
`ptable.lock`.  So a process that goes to sleep in spite of a true condition is
always followed by the scan of the waker that made it true: `Delivered` states
this for every moment, and it leaves no sleeper behind when both locks are free.
-/

namespace Xv6.Process.Sleep

open Xv6.Locks Ptable Option State
open Xv6.Transition

universe u v

/-- The locks a process holds inside of its loop. -/
def Sleeper.holds (lk lock : Lock) : Sleeper → Prop
  | .idle | .entering | .asleep => False
  | .testing | .calling | .leaving => lock = lk
  | .handover => lock = lk ∨ lock = .ptable
  | .drowsy | .rising => lock = .ptable

/-- The locks a waker holds. -/
def Waker.holds (lk lock : Lock) : Waker → Prop
  | .idle | .entering => False
  | .changing | .raised | .woken => lock = lk
  | .waking => lock = lk ∨ lock = .ptable

/-- The places of `sleep` inside of `if(lk != &ptable.lock)`. -/
def Sleeper.guarded : Sleeper → Bool
  | .calling | .handover => true
  | .idle | .entering | .testing | .drowsy | .asleep | .rising | .leaving => false

/-- The process has seen the condition false and is on its way to sleep. -/
def Sleeper.sinking : Sleeper → Bool
  | .calling | .handover | .drowsy => true
  | .idle | .entering | .testing | .asleep | .rising | .leaving => false

/-- The waker has made the condition true and not yet scanned the table. -/
def Waker.pending : Waker → Bool
  | .raised | .waking => true
  | .idle | .entering | .changing | .woken => false

theorem Sleeper.holds_of_sinking {pc : Sleeper} (lk : Lock) (sinking : pc.sinking = true) :
    pc.holds lk lk ∨ pc.holds lk .ptable := by
  cases pc <;> simp_all [Sleeper.sinking, Sleeper.holds]

variable {pc : Waker}

theorem Waker.holds_of_atWork {lk lock : Lock} (atWork : pc.atWork = true) (same : lock = lk) :
    pc.holds lk lock := by
  cases pc <;> simp_all [Waker.atWork, Waker.holds]

theorem Waker.holds_of_pending (lk : Lock) (pending : pc.pending = true) : pc.holds lk lk := by
  cases pc <;> simp_all [Waker.pending, Waker.holds]

namespace State

variable {W : Type u} {D : Type v}

/-- The locks everyone must hold. -/
def claims (state : State W D) (lk : Lock) : Holder W → Lock → Prop
  | .sleeper slot, lock => (state.sleeper slot).holds lk lock
  | .waker waker, lock => (state.waker waker).holds lk lock
  | .scheduler, _ => False

@[simp]
theorem claims_moveSleeper_self (state : State W D) (lk lock : Lock) (slot : Slot) (pc : Sleeper) :
    (state.moveSleeper slot pc).claims lk (.sleeper slot) lock ↔ pc.holds lk lock := by
  simp [claims, moveSleeper]

variable {holder : Holder W}

theorem claims_moveSleeper_of_ne (state : State W D) (lk lock : Lock) {slot : Slot} (pc : Sleeper)
    (ne : holder ≠ .sleeper slot) :
    (state.moveSleeper slot pc).claims lk holder lock ↔ state.claims lk holder lock := by
  cases holder with
  | sleeper other =>
    have ne' : other ≠ slot := fun same => ne (by rw [same])
    simp [claims, moveSleeper, ne']
  | waker _ => rfl
  | scheduler => rfl

variable [DecidableEq W]

@[simp]
theorem claims_moveWaker_self (state : State W D) (lk lock : Lock) (waker : W) (pc : Waker) :
    (state.moveWaker waker pc).claims lk (.waker waker) lock ↔ pc.holds lk lock := by
  simp [claims, moveWaker]

theorem claims_moveWaker_of_ne (state : State W D) (lk lock : Lock) {waker : W} (pc : Waker)
    (ne : holder ≠ .waker waker) :
    (state.moveWaker waker pc).claims lk holder lock ↔ state.claims lk holder lock := by
  cases holder with
  | sleeper _ => rfl
  | waker other =>
    have ne' : other ≠ waker := fun same => ne (by rw [same])
    simp [claims, moveWaker, ne']
  | scheduler => rfl

end State

namespace Site

variable {W : Type u} {D : Type v}

/-- The process sleeps on the channel, or is on its way there. -/
def Missed (site : Site D) (state : State W D) (slot : Slot) : Prop :=
  (state.sleeper slot).sinking = true ∨
    state.sleeper slot = .asleep ∧ state.table.SleepsOn (some site.chan) slot

/-- Everyone holds the locks that its place in the code needs; the branches of
`if(lk != &ptable.lock)` are entered for another lock only; and while the
condition is true, a waker is about to scan the table or nobody needs it. -/
structure Safe (site : Site D) (state : State W D) : Prop where
  owned : Owned state.locks (state.claims site.lk)
  guarded : ∀ slot, (state.sleeper slot).guarded = true → site.lk ≠ .ptable
  waking : ∀ waker, state.waker waker = .waking → site.lk ≠ .ptable
  delivered : site.condition state.data = true →
    (∃ waker, (state.waker waker).pending = true) ∨ ∀ slot, ¬site.Missed state slot

namespace Safe

variable {site : Site D} {state : State W D}

theorem start (site : Site D) (table : Ptable) (data : D) :
    site.Safe (State.start W table data) where
  owned holder lock claimed := by cases holder <;> exact claimed.elim
  guarded _ := nofun
  waking _ := nofun
  delivered _ := .inr fun _ missed => by simp [Missed, State.start, Sleeper.sinking] at missed

variable (safe : site.Safe state)

include safe

variable {waker : W}

/-- A process on its way to sleep excludes a waker that holds both locks. -/
theorem not_sinking_of_claims (lk : state.claims site.lk (.waker waker) site.lk)
    (ptable : state.claims site.lk (.waker waker) .ptable) (slot : Slot) :
    (state.sleeper slot).sinking ≠ true := by
  intro sinking
  have ne : Holder.sleeper slot ≠ Holder.waker waker := nofun
  rcases Sleeper.holds_of_sinking site.lk sinking with holds | holds
  · exact safe.owned.not_claims_of_ne (safe.owned _ _ lk) ne holds
  · exact safe.owned.not_claims_of_ne (safe.owned _ _ ptable) ne holds

variable {slot : Slot} {table : Ptable} {locks : Lock → Option (Holder W)}

/-- One process moves in its loop.  Only one that was on its way to sleep may
come closer to it while the condition is true. -/
theorem moveSleeper {pc : Sleeper}
    (move : Move state.locks locks (state.claims site.lk) (.sleeper slot) (pc.holds site.lk))
    (guarded : pc.guarded = true → site.lk ≠ .ptable)
    (elsewhere : ∀ other ≠ slot, table other = state.table other)
    (sinks : site.condition state.data = true → pc.sinking = true ∨ pc = .asleep →
      (state.sleeper slot).sinking = true) :
    site.Safe ({ state with table := table, locks := locks }.moveSleeper slot pc) where
  owned := by
    refine Owned.of_move move (fun other lock ne claimed => ?_) (fun lock claimed => ?_)
    · exact (claims_moveSleeper_of_ne _ _ _ _ ne).mp claimed
    · exact (claims_moveSleeper_self _ _ _ _ _).mp claimed
  guarded := by
    intro other
    by_cases same : other = slot
    · simpa [State.moveSleeper, same] using guarded
    · simpa [State.moveSleeper, same] using safe.guarded other
  waking := safe.waking
  delivered := by
    intro holds
    apply (safe.delivered holds).imp_right
    intro none_missed other missed
    by_cases same : other = slot
    · subst same
      refine none_missed other (.inl (sinks holds ?_))
      simp only [Missed, State.moveSleeper, Function.update_self] at missed
      exact missed.imp_right And.left
    · apply none_missed other
      simpa [Missed, State.moveSleeper, SleepsOn, same, elsewhere other same] using missed

variable [DecidableEq W]

variable {data : D}

/-- One waker moves.  It may give up its scan only when nobody needs it. -/
theorem moveWaker {pc : Waker}
    (move : Move state.locks locks (state.claims site.lk) (.waker waker) (pc.holds site.lk))
    (waking : pc = .waking → site.lk ≠ .ptable) (delivered : pc.pending = true ∨
      (∀ slot, ¬site.Missed { state with table := table } slot) ∨
      (state.waker waker).pending = false ∧ data = state.data ∧ table = state.table) :
    site.Safe ({ state with table := table, locks := locks, data := data }.moveWaker waker pc) where
  owned := by
    refine Owned.of_move move (fun other lock ne claimed => ?_) (fun lock claimed => ?_)
    · exact (claims_moveWaker_of_ne _ _ _ _ ne).mp claimed
    · exact (claims_moveWaker_self _ _ _ _ _).mp claimed
  guarded := safe.guarded
  waking := by
    intro other
    by_cases same : other = waker
    · simpa [State.moveWaker, same] using waking
    · simpa [State.moveWaker, same] using safe.waking other
  delivered := by
    intro holds
    rcases delivered with pending | none_missed | ⟨calm, rfl, rfl⟩
    · exact .inl ⟨waker, by simpa [State.moveWaker] using pending⟩
    · exact .inr none_missed
    · apply (safe.delivered holds).imp_left
      rintro ⟨other, pending⟩
      have ne : other ≠ waker := by
        rintro rfl
        rw [calm] at pending
        contradiction
      exact ⟨other, by simpa [State.moveWaker, ne] using pending⟩

omit [DecidableEq W] in
/-- Nobody moves, the condition does not become true and nobody in the loop
falls asleep. -/
theorem environment (condition : site.condition data = true → site.condition state.data = true)
    (asleep : ∀ slot, state.sleeper slot = .asleep → table.SleepsOn (some site.chan) slot →
      state.table.SleepsOn (some site.chan) slot) :
    site.Safe { state with table := table, data := data } where
  owned := safe.owned
  guarded := safe.guarded
  waking := safe.waking
  delivered := by
    intro holds
    apply (safe.delivered (condition holds)).imp_right
    intro none_missed slot missed
    apply none_missed slot
    exact missed.imp_right fun ⟨pc_eq, sleeps⟩ => ⟨pc_eq, asleep slot pc_eq sleeps⟩

/-! ## Steps -/

variable {target : State W D}

omit [DecidableEq W] in
/-- Every step of a process in its loop. -/
theorem sleeperStep (step : site.sleeperStep state slot = some target) : site.Safe target := by
  have claims (lock : Lock) : (state.sleeper slot).holds site.lk lock →
      state.claims site.lk (.sleeper slot) lock := id
  have guarded := safe.guarded slot
  unfold Site.sleeperStep at step
  cases pc_eq : state.sleeper slot <;> simp only [pc_eq] at step claims guarded
  case idle =>
    obtain ⟨-, step⟩ := ite_none_right_eq_some.mp step
    cases step
    exact safe.moveSleeper (.stay safe.owned nofun) nofun (fun _ _ => rfl)
      (by simp [Sleeper.sinking])
  case entering =>
    obtain ⟨free, rfl⟩ := map_acquire_eq_some_iff.mp step
    refine safe.moveSleeper (.acquire safe.owned (safe.owned.not_claims_of_free free) ?_) nofun
      (fun _ _ => rfl) (by simp [Sleeper.sinking])
    exact fun lock holds => .inl holds
  case testing =>
    split at step
    · cases step
      exact safe.moveSleeper (.stay safe.owned claims) nofun (fun _ _ => rfl)
        (by simp [Sleeper.sinking])
    · rename_i unmet
      split at step
      · rename_i same
        cases step
        refine safe.moveSleeper (.stay safe.owned fun lock holds => claims lock ?_) nofun
          (fun _ _ => rfl) (fun met => absurd met unmet)
        exact Eq.trans holds same.symm
      · rename_i apart
        cases step
        exact safe.moveSleeper (.stay safe.owned claims) (fun _ => apart) (fun _ _ => rfl)
          (fun met => absurd met unmet)
  case calling =>
    obtain ⟨free, rfl⟩ := map_acquire_eq_some_iff.mp step
    refine safe.moveSleeper (.acquire safe.owned (safe.owned.not_claims_of_free free) ?_)
      (fun _ => guarded rfl) (fun _ _ => rfl) (by simp [Sleeper.sinking, pc_eq])
    exact fun lock holds => holds.symm.imp_right (claims lock)
  case handover =>
    cases step
    have held := safe.owned _ _ (claims site.lk (.inl rfl))
    refine safe.moveSleeper (.giveAway safe.owned held ?_ none) nofun (fun _ _ => rfl)
      (by simp [Sleeper.sinking, pc_eq])
    rintro lock rfl
    exact ⟨(guarded rfl).symm, claims .ptable (.inr rfl)⟩
  case drowsy =>
    cases step
    have held := safe.owned _ _ (claims .ptable rfl)
    exact safe.moveSleeper (.giveAway safe.owned held nofun (some .scheduler)) nofun
      (fun _ ne => if_neg ne) (by simp [Sleeper.sinking, pc_eq])
  case asleep => cases step
  case rising =>
    split at step
    · rename_i same
      cases step
      refine safe.moveSleeper (.stay safe.owned fun lock holds => claims lock ?_) nofun
        (fun _ ne => if_neg ne) (by simp [Sleeper.sinking])
      exact Eq.trans holds same
    · cases step
      have held := safe.owned _ _ (claims .ptable rfl)
      exact safe.moveSleeper (.giveAway safe.owned held nofun none) nofun
        (fun _ ne => if_neg ne) (by simp [Sleeper.sinking])
  case leaving =>
    cases step
    have held := safe.owned _ _ (claims site.lk rfl)
    exact safe.moveSleeper (.giveAway safe.owned held nofun none) nofun (fun _ _ => rfl)
      (by simp [Sleeper.sinking])

/-- Every step of a waker. -/
theorem wakerStep (step : site.wakerStep state waker = some target) : site.Safe target := by
  have claims (lock : Lock) : (state.waker waker).holds site.lk lock →
      state.claims site.lk (.waker waker) lock := id
  -- With both locks held, the scan finds everyone who needs it.
  have scanned (both : ∀ lock, lock = site.lk ∨ lock = .ptable →
      (state.waker waker).holds site.lk lock) (slot : Slot) :
      ¬site.Missed { state with table := state.table.wakeup1 (some site.chan) } slot := by
    rintro (sinking | ⟨-, asleep⟩)
    · exact safe.not_sinking_of_claims (both _ (.inl rfl)) (both _ (.inr rfl)) slot sinking
    · exact not_sleepsOn_wakeup1 _ _ _ asleep
  unfold Site.wakerStep at step
  cases pc_eq : state.waker waker <;> simp only [pc_eq] at step claims scanned
  case idle =>
    cases step
    exact safe.moveWaker (.stay safe.owned nofun) nofun (.inr (.inr ⟨by rw [pc_eq]; rfl, rfl, rfl⟩))
  case entering =>
    obtain ⟨free, rfl⟩ := map_acquire_eq_some_iff.mp step
    refine safe.moveWaker (.acquire safe.owned (safe.owned.not_claims_of_free free) ?_) nofun
      (.inr (.inr ⟨by rw [pc_eq]; rfl, rfl, rfl⟩))
    exact fun lock holds => .inl holds
  case changing =>
    cases step
    have held := safe.owned _ _ (claims site.lk rfl)
    exact safe.moveWaker (.giveAway safe.owned held nofun none) nofun
      (.inr (.inr ⟨by rw [pc_eq]; rfl, rfl, rfl⟩))
  case raised =>
    split at step
    · rename_i same
      cases step
      refine safe.moveWaker (.stay safe.owned claims) nofun (.inr (.inl (scanned ?_)))
      exact fun lock either => either.elim id (·.trans same.symm)
    · rename_i apart
      obtain ⟨free, rfl⟩ := map_acquire_eq_some_iff.mp step
      refine safe.moveWaker (.acquire safe.owned (safe.owned.not_claims_of_free free) ?_)
        (fun _ => apart) (.inl rfl)
      exact fun lock holds => holds.symm.imp_right (claims lock)
  case waking =>
    cases step
    have held := safe.owned _ _ (claims .ptable (.inr rfl))
    refine safe.moveWaker (.giveAway safe.owned held ?_ none) nofun
      (.inr (.inl (scanned fun _ either => either)))
    rintro lock rfl
    exact ⟨safe.waking waker pc_eq, claims site.lk (.inl rfl)⟩
  case woken =>
    cases step
    have held := safe.owned _ _ (claims site.lk rfl)
    exact safe.moveWaker (.giveAway safe.owned held nofun none) nofun
      (.inr (.inr ⟨by rw [pc_eq]; rfl, rfl, rfl⟩))

theorem step {event : Event W D}
    (step : site.step state event = some target) : site.Safe target := by
  cases event with
  | sleeper slot => exact safe.sleeperStep step
  | giveUp slot =>
    obtain ⟨⟨pc_eq, -⟩, step⟩ := ite_none_right_eq_some.mp step
    cases step
    refine safe.moveSleeper (.stay safe.owned fun lock holds => ?_) nofun (fun _ _ => rfl)
      (by simp [Sleeper.sinking])
    rw [claims, pc_eq]
    exact holds
  | consume slot data =>
    obtain ⟨⟨-, condition⟩, step⟩ := ite_none_right_eq_some.mp step
    cases step
    exact safe.environment condition fun _ _ asleep => asleep
  | waker waker => exact safe.wakerStep step
  | change waker data =>
    obtain ⟨atWork, step⟩ := ite_none_right_eq_some.mp step
    split at step
    · cases step
      refine safe.moveWaker (.stay safe.owned fun lock holds => ?_) nofun (.inl rfl)
      exact Waker.holds_of_atWork atWork holds
    · rename_i unraised
      cases step
      refine safe.environment (fun holds => ?_) fun _ _ asleep => asleep
      simpa [holds] using unraised
  | dispatch slot =>
    obtain ⟨⟨free, -, -⟩, step⟩ := ite_none_right_eq_some.mp step
    cases step
    have unclaimed holder : ¬state.claims site.lk holder .ptable := by
      intro claimed
      have held := safe.owned holder .ptable claimed
      rcases free with free | scheduled
      · rw [free] at held
        contradiction
      · rw [scheduled] at held
        cases held
        exact claimed
    exact safe.moveSleeper (.acquire safe.owned unclaimed fun lock holds => .inl holds) nofun
      (fun _ ne => if_neg ne) (by simp [Sleeper.sinking])
  | schedRelease =>
    obtain ⟨held, step⟩ := ite_none_right_eq_some.mp step
    cases step
    have move : Move state.locks (state.release .ptable).locks (state.claims site.lk)
        .scheduler fun _ => False :=
      .giveAway safe.owned held nofun none
    exact ⟨.of_move move (fun _ _ _ claimed => claimed) nofun, safe.guarded, safe.waking,
      safe.delivered⟩
  | kill pid =>
    obtain ⟨-, step⟩ := ite_none_right_eq_some.mp step
    cases step
    refine safe.environment id fun slot _ asleep =>
      (kill_wakes state.table pid).sleepsOn ?_ asleep
    obtain ⟨_, _, record_eq⟩ := state.table.kill_fields pid slot
    rw [record_eq]
  | wakeup chan =>
    obtain ⟨-, step⟩ := ite_none_right_eq_some.mp step
    cases step
    refine safe.environment id fun slot _ asleep =>
      (wakeup1_wakes state.table chan).sleepsOn ?_ asleep
    rw [wakeup1_apply]
  | other slot proc =>
    obtain ⟨⟨-, idle⟩, step⟩ := ite_none_right_eq_some.mp step
    cases step
    apply safe.environment id
    intro other pc_eq asleep
    have ne : other ≠ slot := by
      rintro rfl
      rw [idle] at pc_eq
      contradiction
    simpa [SleepsOn, ne] using asleep

end Safe

/-- When both locks are free and the condition is true, nobody who waits for it
sleeps on the channel. -/
def NoLostWakeup (site : Site D) (state : State W D) : Prop :=
  state.locks site.lk = none → state.locks .ptable = none →
    site.condition state.data = true →
      ∀ slot, state.sleeper slot = .asleep → ¬state.table.SleepsOn (some site.chan) slot

variable [DecidableEq W]

/-- No interleaving of any number of sleepers and wakers loses a wakeup, whether
they use `ptable.lock` or another lock. -/
theorem noLostWakeup_of_reachable (site : Site D) (table : Ptable) (data : D)
    {state : State W D} (reach : Reachable site.step (State.start W table data) state) :
    site.NoLostWakeup state := by
  have safe : site.Safe state :=
    reach.invariant site.Safe (Safe.start site table data)
      (fun _ _ _ safe step => safe.step step)
  intro free _ holds slot pc_eq asleep
  rcases safe.delivered holds with ⟨waker, pending⟩ | none_missed
  · exact safe.owned.not_claims_of_free free (.waker waker)
      (Waker.holds_of_pending site.lk pending)
  · exact none_missed slot (.inr ⟨pc_eq, asleep⟩)

/-- Consumers of a counter, with a lock of its own. -/
def counter : Site Nat where
  lk := .other
  chan := .addr 0
  condition value := decide (0 < value)

/-- The process of slot 1 has released the lock and not yet fallen asleep when the
waker takes the lock and increments the counter. -/
def race : List (Event Unit Nat) :=
  List.replicate 5 (.sleeper 1) ++ [.waker (), .waker (), .change () 1] ++
    [.sleeper 1, .schedRelease] ++ List.replicate 3 (.waker ())

theorem noLostWakeup_race :
    ∃ state : State Unit Nat,
      run counter.step
        (State.start Unit (fun _ => { Proc.zero with state := .running }) 0) race = some state ∧
      (state.locks .other = none ∧ state.locks .ptable = none ∧ state.data = 1 ∧
        state.sleeper 1 = .asleep) ∧
      ¬state.table.SleepsOn (some (.addr 0)) 1 := by
  obtain ⟨state, execution, lk, ptable, data, pc_eq⟩ : ∃ state ∈ run counter.step
      (State.start Unit (fun _ => { Proc.zero with state := .running }) 0) race,
      state.locks .other = none ∧ state.locks .ptable = none ∧ state.data = 1 ∧
      state.sleeper 1 = .asleep := by decide +kernel
  refine ⟨state, execution, ⟨lk, ptable, data, pc_eq⟩, ?_⟩
  exact noLostWakeup_of_reachable counter _ 0 (.of_run execution) lk ptable
    (by simp [counter, data]) 1 pc_eq

end Site

end Xv6.Process.Sleep
