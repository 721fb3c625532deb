import Mathlib.Tactic.Common
import Xv6.Spinlock.Core

/-!
# The interrupt flag across locks and context switches

The count of a cpu is the depth of the thread that runs there: `sched` and the scheduler
switch only with the one lock `ptable.lock`, which passes to the other thread, so the
count is right again for that one.  The flag at the outermost `pushcli` of a thread is in
`intena` of its cpu while the thread runs, and in the variable `intena` of `sched` while
it does not.
-/

namespace Xv6.Spinlock

open Function Xv6.Transition Option State

universe u v w

/-! ## One cpu -/

namespace Cpu

variable {cpu target : Cpu}

theorem popcli_of_off (off : cpu.interrupts = false) (positive : 0 < cpu.ncli) :
    cpu.popcli = .ok { cpu with
      ncli := cpu.ncli - 1, interrupts := decide (cpu.ncli - 1 = 0) && cpu.intena } := by
  have enough : ¬cpu.ncli - 1 < 0 := by omega
  rw [popcli, if_neg (by simp [off]), if_neg enough]

theorem popcli_eq_ok_iff :
    cpu.popcli = .ok target ↔ cpu.interrupts = false ∧ 0 < cpu.ncli ∧
      target = { cpu with
        ncli := cpu.ncli - 1, interrupts := decide (cpu.ncli - 1 = 0) && cpu.intena } := by
  constructor
  · intro popped
    unfold popcli at popped
    split at popped
    · contradiction
    · rename_i off
      split at popped
      · contradiction
      · cases popped
        exact ⟨by simpa using off, by omega, rfl⟩
  · rintro ⟨off, positive, rfl⟩
    exact popcli_of_off off positive

end Cpu

variable {C : Type u} {P : Type v} {L : Type w}

/-! ## The invariant -/

/-- What holds of a cpu and the thread that runs there. -/
structure Runs (locks : L → Option C) (c : C) (cpu : Cpu) (thread : Thread C P)
    (kthread : Kthread L) : Prop where
  depth : cpu.ncli = kthread.depth
  off : 0 < kthread.depth → cpu.interrupts = false
  holds : ∀ lk, lk ∈ kthread.held ↔ locks lk = some c
  nodup : kthread.held.Nodup
  own : ∀ c', thread = .scheduler c' → c' = c
  active : kthread.place.onCpu = true
  kept : ∀ p flag, thread = .process p → kthread.place ≠ .resuming →
    kthread.outermost = some flag → 0 < kthread.depth → cpu.intena = flag

/-- What holds of a thread while it is switched out. -/
structure Rests (thread : Thread C P) (kthread : Kthread L) : Prop where
  idle : kthread.place.onCpu = false → kthread.held = [] ∧ kthread.pushes = 0
  saved : ∀ p flag, thread = .process p → kthread.place = .switched ∨ kthread.place = .resuming →
    kthread.outermost = some flag → kthread.intena = flag
  fresh : kthread.place = .fresh → kthread.outermost = none

/-- What holds between the cpus, the threads and the locks at every moment. -/
structure Valid (state : State C P L) : Prop where
  cpus : ∀ c, Runs state.locks c (state.cpus c) (state.running c) (state.current c)
  threads : ∀ thread, Rests thread (state.threads thread)
  distinct : ∀ c c', state.running c = state.running c' → c = c'
  parked : ∀ c, state.running c ≠ .scheduler c →
    (state.threads (.scheduler c)).place = .switched

variable {locks : L → Option C} {c : C} {cpu : Cpu} {thread next : Thread C P}
  {kthread new : Kthread L}

theorem Rests.of_active (active : kthread.place.onCpu = true)
    (settled : kthread.place ≠ .resuming) : Rests thread kthread where
  idle off := by simp [off] at active
  saved _ _ _ switched := by
    rcases switched with switched | resuming
    · simp [switched, Place.onCpu] at active
    · exact absurd resuming settled
  fresh fresh := by simp [fresh, Place.onCpu] at active

/-- Another thread, or the same one in another place, with the same locks and depth. -/
theorem Runs.pass (runs : Runs locks c cpu thread kthread) (held : new.held = kthread.held)
    (depth : new.depth = kthread.depth) (own : ∀ c', next = .scheduler c' → c' = c)
    (active : new.place.onCpu = true)
    (kept : ∀ p flag, next = .process p → new.place ≠ .resuming → new.outermost = some flag →
      cpu.intena = flag) : Runs locks c cpu next new where
  depth := by rw [depth, runs.depth]
  off := by
    rw [depth]
    exact runs.off
  holds := by
    rw [held]
    exact runs.holds
  nodup := held ▸ runs.nodup
  own := own
  active := active
  kept p flag same settled recorded _ := kept p flag same settled recorded

namespace Valid

variable {state : State C P L}

theorem start (interrupts : C → Bool) : Valid (State.start interrupts : State C P L) where
  cpus c := ⟨rfl, nofun, by simp [State.start, State.current], .nil,
    fun c' same => by simpa [State.start] using same.symm, rfl,
    fun _ _ same => by simp [State.start] at same⟩
  threads _ := ⟨fun _ => ⟨rfl, rfl⟩, fun _ _ _ _ => nofun, fun _ => rfl⟩
  distinct c c' same := by simpa [State.start] using same
  parked _ ne := absurd rfl ne

variable (valid : Valid state)

include valid

/-- A thread that runs on no cpu. -/
theorem apart_of_off (off : (state.threads thread).place.onCpu = false)
    (c : C) : state.running c ≠ thread := by
  rintro rfl
  have active := (valid.cpus c).active
  rw [State.current, off] at active
  contradiction

/-! ## Steps of one thread -/

variable [DecidableEq C] [DecidableEq P]

/-- The thread on one cpu changes its own state, that of the cpu, and locks which no other
thread holds. -/
theorem move (runs : Runs locks c cpu (state.running c) kthread)
    (settled : kthread.place ≠ .resuming)
    (others : ∀ c' lk, c' ≠ c → (locks lk = some c' ↔ state.locks lk = some c')) :
    Valid (setCurrent { state with
      cpus := update state.cpus c cpu, locks := locks } c kthread) := by
  set target := setCurrent { state with
    cpus := update state.cpus c cpu, locks := locks } c kthread
  refine ⟨fun c' => ?_, fun thread => ?_, valid.distinct, fun c' ne => ?_⟩
  · by_cases eq : c' = c
    · subst eq
      have mine : target.current c' = kthread := update_self ..
      have cpu_eq : target.cpus c' = cpu := update_self ..
      rw [mine, cpu_eq]
      exact runs
    · have theirs : target.current c' = state.current c' :=
        update_of_ne (fun same => eq (valid.distinct c' c same)) ..
      have cpu_eq : target.cpus c' = state.cpus c' := update_of_ne eq ..
      have before := valid.cpus c'
      rw [theirs, cpu_eq]
      exact { before with holds := fun lk => (before.holds lk).trans (others c' lk eq).symm }
  · by_cases eq : thread = state.running c
    · subst eq
      have mine : target.threads (state.running c) = kthread := update_self ..
      rw [mine]
      exact .of_active runs.active settled
    · have theirs : target.threads thread = state.threads thread := update_of_ne eq ..
      rw [theirs]
      exact valid.threads thread
  · have parked := valid.parked c' ne
    -- the scheduler of another cpu does not run here
    have off : (state.threads (.scheduler c')).place.onCpu = false := by rw [parked]; rfl
    have same : target.threads (.scheduler c') = state.threads (.scheduler c') :=
      update_of_ne (valid.apart_of_off off c).symm ..
    rw [same, parked]

/-- `pushcli` by the thread on a cpu. -/
theorem pushcli (ready : (state.current c).place = .ready)
    (depth : kthread.depth = (state.current c).depth + 1)
    (held : kthread.held = (state.current c).held) (active : kthread.place.onCpu = true)
    (settled : kthread.place ≠ .resuming) : Valid (state.pushcli c kthread) := by
  have before := valid.cpus c
  have count := before.depth
  refine valid.move ⟨?_, fun _ => rfl, ?_, ?_, before.own, active, ?_⟩ settled fun _ _ _ => Iff.rfl
  · simp only [Cpu.pushcli]
    rw [count]
    exact congrArg Nat.cast depth.symm
  · simp only [held]
    exact before.holds
  · simp only [held]
    exact before.nodup
  · intro p flag runs _ outermost _
    simp only [Cpu.pushcli, count]
    simp only [Kthread.record] at outermost
    by_cases outer : (state.current c).depth = 0
    · rw [if_pos outer] at outermost
      rw [if_pos (by rw [outer]; rfl)]
      exact some.inj outermost
    · rw [if_neg outer] at outermost
      rw [if_neg (by omega)]
      exact before.kept p flag runs (by simp [ready]) outermost (by omega)

/-- `popcli` by the thread on a cpu. -/
theorem popcli {target : State C P L} (step : state.popcli c kthread = some target)
    (settledBefore : (state.current c).place ≠ .resuming)
    (depth : (state.current c).depth = kthread.depth + 1)
    (held : kthread.held = (state.current c).held)
    (outermost : kthread.outermost = (state.current c).outermost)
    (active : kthread.place.onCpu = true) (settled : kthread.place ≠ .resuming) : Valid target := by
  have before := valid.cpus c
  have count := before.depth
  unfold State.popcli at step
  cases popped : (state.cpus c).popcli with
  | error text => simp [popped] at step
  | ok cpu =>
    simp only [popped] at step
    cases step
    obtain ⟨off, positive, rfl⟩ := Cpu.popcli_eq_ok_iff.mp popped
    refine valid.move ⟨?_, ?_, ?_, ?_, before.own, active, ?_⟩ settled fun _ _ _ => Iff.rfl
    · simp only
      omega
    · intro nested
      have inner : ¬(state.cpus c).ncli - 1 = 0 := by omega
      simp [inner]
    · simp only [held]
      exact before.holds
    · simp only [held]
      exact before.nodup
    · intro p flag runs _ recorded _
      rw [outermost] at recorded
      exact before.kept p flag runs settledBefore recorded (by omega)

theorem acquire {lk : L} (ready : (state.current c).place = .ready) :
    Valid (state.pushcli c { state.current c with place := .acquiring lk }) := by
  refine valid.pushcli ready ?_ rfl rfl (by simp)
  simp [Kthread.depth, Place.pushed, ready]

section Locks

variable [DecidableEq L]

variable {lk : L}

/-- The thread on a cpu takes or gives up a lock, without `pushcli` and `popcli`. -/
theorem moveLock {kthread : Kthread L} {holder : Option C}
    (settledBefore : (state.current c).place ≠ .resuming)
    (depth : kthread.depth = (state.current c).depth)
    (outermost : kthread.outermost = (state.current c).outermost)
    (holds : ∀ other, other ∈ kthread.held ↔ update state.locks lk holder other = some c)
    (others : ∀ c', c' ≠ c → (holder = some c' ↔ state.locks lk = some c'))
    (nodup : kthread.held.Nodup) (active : kthread.place.onCpu = true)
    (settled : kthread.place ≠ .resuming) :
    Valid ((state.setLock lk holder).setCurrent c kthread) := by
  have before := valid.cpus c
  have runs : Runs (update state.locks lk holder) c (state.cpus c) (state.running c)
      kthread := by
    refine ⟨?_, ?_, holds, nodup, before.own, active, ?_⟩
    · rw [depth, before.depth]
    · rw [depth]
      exact before.off
    · rw [outermost, depth]
      exact fun p flag runs _ => before.kept p flag runs settledBefore
  have moved := valid.move runs settled fun c' other ne => ?_
  · rwa [update_eq_self] at moved
  · by_cases eq : other = lk
    · rw [eq, update_self]
      exact others c' ne
    · rw [update_of_ne eq]

/-- The lock is taken, and the open `pushcli` of `acquire` becomes that of the lock. -/
theorem locked (acquiring : (state.current c).place = .acquiring lk)
    (free : state.locks lk = none) :
    Valid ((state.setLock lk (some c)).setCurrent c
      { state.current c with place := .ready, held := lk :: (state.current c).held }) := by
  have before := valid.cpus c
  have new : lk ∉ (state.current c).held := by
    rw [before.holds, free]
    simp
  refine valid.moveLock (by simp [acquiring]) ?_ rfl (fun other => ?_) (fun c' ne => ?_)
    (List.nodup_cons.mpr ⟨new, before.nodup⟩) rfl (by simp)
  · simp only [Kthread.depth, acquiring, Place.pushed, List.length_cons]
    omega
  · by_cases eq : other = lk
    · simp [eq]
    · simp [eq, before.holds]
  · simp [free, Ne.symm ne]

/-- The lock is given up, and its `pushcli` becomes an open one of `release`. -/
theorem release (ready : (state.current c).place = .ready)
    (mem : lk ∈ (state.current c).held) :
    Valid ((state.setLock lk none).setCurrent c
      { state.current c with
        place := .releasing, held := (state.current c).held.erase lk }) := by
  have before := valid.cpus c
  have held := (before.holds lk).mp mem
  have positive := List.length_pos_of_mem mem
  refine valid.moveLock (by simp [ready]) ?_ rfl (fun other => ?_) (fun c' ne => ?_)
    (before.nodup.erase lk) rfl (by simp)
  · simp only [Kthread.depth, ready, Place.pushed, List.length_erase_of_mem mem]
    omega
  · rw [before.nodup.mem_erase_iff]
    by_cases eq : other = lk
    · simp [eq]
    · simp [eq, before.holds]
  · simp [held, Ne.symm ne]

end Locks

theorem interrupts (ready : (state.current c).place = .ready)
    (outside : (state.current c).depth = 0) (enabled : Bool) :
    Valid (state.setCpu c { state.cpus c with interrupts := enabled }) := by
  have before := valid.cpus c
  have still : state.setCpu c { state.cpus c with interrupts := enabled } =
      (state.setCpu c { state.cpus c with interrupts := enabled }).setCurrent c
        (state.current c) := by
    simp [setCpu, setCurrent, setThread, State.current]
  rw [still]
  refine valid.move { before with off := fun nested => ?_ } (by simp [ready]) fun _ _ _ => Iff.rfl
  rw [outside] at nested
  exact absurd nested (Nat.lt_irrefl 0)

/-- The end of `sched` puts the flag of the thread into the record of the new cpu. -/
theorem resume (resuming : (state.current c).place = .resuming) :
    Valid ((state.setCpu c { state.cpus c with intena := (state.current c).intena }).setCurrent c
      { state.current c with place := .ready }) := by
  have before := valid.cpus c
  have same : ({ state.current c with place := .ready } : Kthread L).depth =
      (state.current c).depth := by
    simp [Kthread.depth, Place.pushed, resuming]
  refine valid.move ⟨?_, ?_, before.holds, before.nodup, before.own, rfl, ?_⟩ (by simp)
    fun _ _ _ => Iff.rfl
  · rw [same]
    exact before.depth
  · rw [same]
    exact before.off
  · exact fun p flag runs _ recorded _ =>
      (valid.threads _).saved p flag runs (.inr resuming) recorded

/-! ## Context switches -/

variable {ptable : L}

/-- One thread leaves a cpu to another one, which ran nowhere. -/
theorem handover {gone : Kthread L} (runs : Runs state.locks c (state.cpus c) next new)
    (left : Rests (state.running c) gone) (arrived : Rests next new)
    (apart : ∀ c', state.running c' ≠ next)
    (parked : next ≠ .scheduler c → gone.place = .switched ∧ state.running c = .scheduler c) :
    Valid (((state.setThread (state.running c) gone).setThread next new).swtch c next) := by
  set target := ((state.setThread (state.running c) gone).setThread next new).swtch c next
  have here : target.running c = next := update_self ..
  have there (c' : C) (ne : c' ≠ c) : target.running c' = state.running c' := update_of_ne ne ..
  have new_eq : target.threads next = new := update_self ..
  have gone_eq : target.threads (state.running c) = gone :=
    (update_of_ne (apart c) ..).trans (update_self ..)
  have others (thread : Thread C P) (ne : thread ≠ next) (ne' : thread ≠ state.running c) :
      target.threads thread = state.threads thread :=
    (update_of_ne ne ..).trans (update_of_ne ne' ..)
  refine ⟨fun c' => ?_, fun thread => ?_, fun first second same => ?_, fun c' ne => ?_⟩
  · by_cases eq : c' = c
    · subst eq
      rw [State.current, here, new_eq]
      exact runs
    · rw [State.current, there c' eq,
        others _ (apart c') fun same => eq (valid.distinct c' c same)]
      exact valid.cpus c'
  · by_cases eq : thread = next
    · rw [eq, new_eq]
      exact arrived
    · by_cases eq' : thread = state.running c
      · rw [eq', gone_eq]
        exact left
      · rw [others thread eq eq']
        exact valid.threads thread
  · by_cases eq : first = c
    · by_cases eq' : second = c
      · rw [eq, eq']
      · rw [eq, here, there second eq'] at same
        exact absurd same.symm (apart second)
    · by_cases eq' : second = c
      · rw [eq', here, there first eq] at same
        exact absurd same (apart first)
      · rw [there first eq, there second eq'] at same
        exact valid.distinct first second same
  · by_cases eq : c' = c
    · subst eq
      rw [here] at ne
      obtain ⟨switched, was⟩ := parked ne
      rw [← was, gone_eq, switched]
    · rw [there c' eq] at ne
      rw [others _ (fun same => eq (runs.own c' same.symm))
        fun same => eq ((valid.cpus c).own c' same.symm)]
      exact valid.parked c' ne

variable {p : P}

/-- A process leaves its cpu to the scheduler. -/
theorem sched (runs : state.running c = .process p)
    (ready : (state.current c).place = .ready) (held : (state.current c).held = [ptable])
    (pushes : (state.current c).pushes = 0) :
    Valid (((state.setThread (.process p)
      { state.current c with
        place := .switched, held := [], intena := (state.cpus c).intena }).setThread (.scheduler c)
      { state.threads (.scheduler c) with place := .ready, held := [ptable] }).swtch c
      (.scheduler c)) := by
  have before := valid.cpus c
  have depth : (state.current c).depth = 1 := by
    simp [Kthread.depth, held, pushes, ready, Place.pushed]
  have parked := valid.parked c (by simp [runs])
  have off : (state.threads (.scheduler c)).place.onCpu = false := by rw [parked]; rfl
  obtain ⟨-, idle⟩ := (valid.threads (.scheduler c)).idle off
  rw [← runs]
  refine valid.handover (before.pass held.symm ?_ (fun c' same => ?_) rfl nofun)
    ⟨fun _ => ⟨rfl, pushes⟩, fun q flag was _ recorded => ?_, nofun⟩
    (.of_active rfl (by simp)) (valid.apart_of_off off) fun ne => absurd rfl ne
  · rw [depth]
    simp [Kthread.depth, idle, Place.pushed]
  · exact (Thread.scheduler.inj same).symm
  · exact before.kept q flag was (by simp [ready]) recorded (by omega)

/-- The scheduler leaves its cpu to a process that has been switched out, or to a new one. -/
theorem dispatch {place : Place L} (runs : state.running c = .scheduler c)
    (ready : (state.current c).place = .ready) (held : (state.current c).held = [ptable])
    (pushes : (state.current c).pushes = 0) (off : (state.threads (.process p)).place.onCpu = false)
    (arrives : place = .ready ∧ (state.threads (.process p)).place = .fresh ∨
      place = .resuming ∧ (state.threads (.process p)).place = .switched) :
    Valid (((state.setThread (.scheduler c)
      { state.current c with place := .switched, held := [] }).setThread (.process p)
      { state.threads (.process p) with held := [ptable], place := place }).swtch c
      (.process p)) := by
  have depth : (state.current c).depth = 1 := by
    simp [Kthread.depth, held, pushes, ready, Place.pushed]
  have rests := valid.threads (.process p)
  obtain ⟨-, idle⟩ := rests.idle off
  have settled : place.onCpu = true ∧ place.pushed = 0 := by
    rcases arrives with ⟨rfl, -⟩ | ⟨rfl, -⟩ <;> exact ⟨rfl, rfl⟩
  rw [← runs]
  refine valid.handover
    ((valid.cpus c).pass held.symm ?_ nofun settled.1 fun q flag same first recorded => ?_)
    ⟨fun _ => ⟨rfl, pushes⟩, fun q flag was => ?_, nofun⟩ ?_ (valid.apart_of_off off)
    fun _ => ⟨rfl, runs⟩
  · rw [depth]
    simp [Kthread.depth, idle, settled.2]
  · rcases arrives with ⟨-, fresh⟩ | ⟨rfl, -⟩
    · simp [rests.fresh fresh] at recorded
    · exact absurd rfl first
  · rw [runs] at was
    contradiction
  · rcases arrives with ⟨rfl, -⟩ | ⟨rfl, switched⟩
    · exact .of_active rfl (by simp)
    · exact ⟨nofun, fun q flag same _ => rests.saved q flag same (.inl switched), nofun⟩

/-- The slot of a process that runs on no cpu is taken by a new one. -/
theorem allocproc (off : (state.threads (.process p)).place.onCpu = false) :
    Valid (state.setThread (.process p)
      { state.threads (.process p) with place := .fresh, outermost := none }) := by
  set target := state.setThread (.process p)
    { state.threads (.process p) with place := .fresh, outermost := none }
  have others (thread : Thread C P) (ne : thread ≠ .process p) :
      target.threads thread = state.threads thread := update_of_ne ne ..
  refine ⟨fun c' => ?_, fun thread => ?_, valid.distinct, fun c' ne => ?_⟩
  · have current : target.current c' = state.current c' := others _ (valid.apart_of_off off c')
    rw [current]
    exact valid.cpus c'
  · by_cases eq : thread = .process p
    · have new_eq : target.threads thread =
          { state.threads (.process p) with place := .fresh, outermost := none } := by
        rw [eq]
        exact update_self ..
      rw [new_eq]
      exact ⟨fun _ => (valid.threads _).idle off, by simp, fun _ => rfl⟩
    · rw [others thread eq]
      exact valid.threads thread
  · exact valid.parked c' ne

/-! ## Every step -/

theorem step [DecidableEq L] {event : Event C P L} {target : State C P L}
    (step : step ptable state event = some target) : Valid target := by
  cases event with
  | acquire c lk =>
    obtain ⟨⟨ready, -⟩, step⟩ := ite_none_right_eq_some.mp step
    cases step
    exact valid.acquire ready
  | locked c =>
    simp only [Spinlock.step] at step
    split at step
    · rename_i lk acquiring
      obtain ⟨free, step⟩ := ite_none_right_eq_some.mp step
      cases step
      exact valid.locked acquiring free
    · contradiction
  | release c lk =>
    obtain ⟨⟨ready, mem, -⟩, step⟩ := ite_none_right_eq_some.mp step
    cases step
    exact valid.release ready mem
  | released c =>
    obtain ⟨releasing, step⟩ := ite_none_right_eq_some.mp step
    refine valid.popcli step (by simp [releasing]) ?_ rfl rfl rfl (by simp)
    simp [Kthread.depth, releasing, Place.pushed]
  | pushcli c =>
    obtain ⟨ready, step⟩ := ite_none_right_eq_some.mp step
    cases step
    refine valid.pushcli ready ?_ rfl (valid.cpus c).active (by simp [ready])
    simp only [Kthread.depth]
    omega
  | popcli c =>
    obtain ⟨⟨ready, pushed⟩, step⟩ := ite_none_right_eq_some.mp step
    refine valid.popcli step (by simp [ready]) ?_ rfl rfl (valid.cpus c).active (by simp [ready])
    simp only [Kthread.depth]
    omega
  | interrupts c enabled =>
    obtain ⟨⟨ready, outside⟩, step⟩ := ite_none_right_eq_some.mp step
    cases step
    exact valid.interrupts ready outside enabled
  | sched c =>
    simp only [Spinlock.step] at step
    split at step
    · contradiction
    · rename_i p runs
      obtain ⟨⟨ready, held, pushes, -⟩, step⟩ := ite_none_right_eq_some.mp step
      cases step
      exact valid.sched runs ready held pushes
  | resume c =>
    obtain ⟨resuming, step⟩ := ite_none_right_eq_some.mp step
    cases step
    exact valid.resume resuming
  | dispatch c p =>
    obtain ⟨⟨runs, ready, held, pushes, off⟩, step⟩ := ite_none_right_eq_some.mp step
    cases step
    refine valid.dispatch runs ready held pushes off ?_
    cases place_eq : (state.threads (.process p)).place <;> rw [place_eq] at off
    case switched => exact .inr ⟨by simp, rfl⟩
    case fresh => exact .inl ⟨by simp, rfl⟩
    all_goals contradiction
  | allocproc p =>
    obtain ⟨off, step⟩ := ite_none_right_eq_some.mp step
    cases step
    exact valid.allocproc off

end Valid

/-! ## Every run -/

/-- The thread calls `popcli` next: in `release`, or after a `pushcli` of its own. -/
def Kthread.AtPopcli (thread : Kthread L) : Prop :=
  thread.place = .releasing ∨ thread.place = .ready ∧ 0 < thread.pushes

/-- The discipline: interrupts are off within sections, `ncli` counts the locks held by the
running thread and its open calls of `pushcli`, `popcli` does not panic, and the `popcli` that
ends the section of a process restores the flag that its outermost `pushcli` has seen. -/
structure Disciplined (state : State C P L) : Prop where
  off : ∀ c, 0 < (state.cpus c).ncli → (state.cpus c).interrupts = false
  count : ∀ c, (state.cpus c).ncli = (state.current c).depth
  holds : ∀ c lk, lk ∈ (state.current c).held ↔ state.locks lk = some c
  nodup : ∀ c, (state.current c).held.Nodup
  pops : ∀ c, (state.current c).AtPopcli → ∃ cpu, (state.cpus c).popcli = .ok cpu
  restores : ∀ c p flag cpu, state.running c = .process p → (state.current c).AtPopcli →
    (state.current c).outermost = some flag → (state.cpus c).popcli = .ok cpu →
    cpu.ncli = 0 → cpu.interrupts = flag

theorem Kthread.AtPopcli.depth_pos {thread : Kthread L} (popcli : thread.AtPopcli) :
    0 < thread.depth ∧ thread.place ≠ .resuming := by
  rcases popcli with releasing | ⟨ready, pushed⟩
  · simp [Kthread.depth, releasing, Place.pushed]
  · simp only [Kthread.depth, ready]
    exact ⟨by omega, by simp⟩

theorem Valid.disciplined {state : State C P L} (valid : Valid state) : Disciplined state where
  off := by
    intro c nested
    rw [(valid.cpus c).depth] at nested
    exact (valid.cpus c).off (by omega)
  count c := (valid.cpus c).depth
  holds c := (valid.cpus c).holds
  nodup c := (valid.cpus c).nodup
  pops := by
    intro c popcli
    have count := (valid.cpus c).depth
    have nested := popcli.depth_pos.1
    exact ⟨_, Cpu.popcli_of_off ((valid.cpus c).off nested) (by omega)⟩
  restores := by
    intro c p flag cpu runs popcli recorded popped last
    obtain ⟨nested, settled⟩ := popcli.depth_pos
    obtain ⟨-, -, rfl⟩ := Cpu.popcli_eq_ok_iff.mp popped
    simp only at last
    simp [last, (valid.cpus c).kept p flag runs settled recorded nested]

variable [DecidableEq C] [DecidableEq P]

theorem disciplined_of_reachable [DecidableEq L] (ptable : L) (interrupts : C → Bool)
    {state : State C P L} (reach : Reachable (step ptable) (.start interrupts) state) :
    Disciplined state := by
  have valid : Valid state :=
    reach.invariant Valid (.start interrupts) fun _ _ _ valid step => valid.step step
  exact valid.disciplined

/-- A process yields on one cpu and is resumed on another one, where it is about to give up
`ptable.lock`. -/
def migration : List (Event Bool Unit Unit) :=
  [.interrupts false true, .acquire false (), .locked false, .dispatch false (),
    .release false (), .released false, .acquire false (), .locked false, .sched false,
    .release false (), .released false, .acquire true (), .locked true, .dispatch true (),
    .resume true, .release true ()]

/-- Interrupts are enabled again, although they were disabled on the second cpu. -/
theorem disciplined_migration :
    ∃ state, run (step ()) (State.start fun _ : Bool => false) migration = some state ∧
      (state.running true = .process () ∧ (state.current true).place = .releasing ∧
        (state.current true).outermost = some true ∧ (state.cpus true).ncli = 1) ∧
      Disciplined state := by
  obtain ⟨state, execution, values⟩ : ∃ state ∈ run (step ()) (State.start fun _ : Bool => false)
      migration, state.running true = .process () ∧ (state.current true).place = .releasing ∧
      (state.current true).outermost = some true ∧ (state.cpus true).ncli = 1 := by
    decide +kernel
  exact ⟨state, execution, values, disciplined_of_reachable () _ (.of_run execution)⟩

end Xv6.Spinlock
