import Xv6.Custody.References
import Xv6.FileSystem.Reuse.Effect

/-!
# The life of an inode number

From the `iput` that frees the inode to the `create` that uses its number again and
the processes that then lock the new inode, the processes that have to do with the
number are known at every moment; the others leave it alone.

What can go wrong is that `create` finds `I_VALID` in the slot that `iput` has not
cleared yet.  So the life of the number is followed along the runs in which no process
tests `I_VALID` while an `iput` is freeing the inode.
-/

namespace Xv6.FileSystem.Reuse

open Function Prog Transition Custody Option State

variable {P : Type}

/-! ## Steps -/

namespace State

@[simp]
theorem record_fs (state : State P) (p : P) : (state.record p).fs = state.fs := by
  unfold record
  split <;> rfl

@[simp]
theorem record_pc (state : State P) (p : P) : (state.record p).pc = state.pc := by
  unfold record
  split <;> rfl

theorem record_eq {state : State P} {p : P}
    (other : ∀ request ip, state.pc p ≠ .created request ip) : state.record p = state := by
  unfold record
  split
  · rename_i request ip place
    exact absurd place (other request ip)
  · rfl

variable [DecidableEq P]

/-- The state after a step of a process. -/
def moved (state : State P) (p : P) (next : Pc) (fs : Fs) : State P :=
  { state.record p with fs := fs, pc := update state.pc p next }

end State

/-- No process tests `I_VALID` of an inode that an `iput` is freeing. -/
def Undisturbed (state : State P) : Event P → Prop
  | .go p =>
    match state.pc p with
    | .locked _ ip => ∀ q, (state.pc q).freeing ≠ some ip
    | _ => True
  | _ => True

instance [Fintype P] (state : State P) : (event : Event P) → Decidable (Undisturbed state event)
  | .go p =>
    match place : state.pc p with
    | .locked goal ip =>
      decidable_of_iff (∀ q, (state.pc q).freeing ≠ some ip)
        (by simp only [Undisturbed, place])
    | .idle | .enter _ | .trunc _ _ | .clear _ | .cleared _ | .leave _ | .scan _ _
    | .claimed _ _ | .got _ _ | .loading _ _ | .loaded _ _ | .fields _ _ | .updating _ _
    | .dots _ _ _ | .created _ _ | .holds _ | .kept _ => .isTrue (by simp only [Undisturbed, place])
  | .create _ _ | .lookup _ _ | .relock _ => .isTrue trivial

theorem Undisturbed.apart {state : State P} {p : P} (undisturbed : Undisturbed state (.go p))
    (goal : Option Request) (ip : Islot) (place : state.pc p = .locked goal ip) (q : P) :
    (state.pc q).freeing ≠ some ip := by
  simp only [Undisturbed, place] at undisturbed
  exact undisturbed q

variable [DecidableEq P]

/-- An undisturbed step of a process. -/
structure Taken (state : State P) (p : P) (next : Pc) (fs : Fs) : Prop where
  effect : Effect state.fs (state.pc p) next fs
  linked : ∀ ip, state.pc p = .idle → next.slot = some ip →
    state.linked (fs.icache ip).inum = true
  apart : ∀ goal ip, state.pc p = .locked goal ip → ∀ q, (state.pc q).freeing ≠ some ip

theorem perform_cases {state target : State P} {p : P} {prog : FsM Pc}
    (performed : state.perform p prog = some target) :
    (∃ message, target = { state with trap := some message }) ∨
      ∃ next fs, Runs prog state.fs next fs ∧
        target = { state with fs := fs, pc := update state.pc p next } := by
  unfold State.perform at performed
  split at performed
  · rename_i next fs ran
    exact .inr ⟨next, fs, ran, (some.inj performed).symm⟩
  · exact .inl ⟨_, (some.inj performed).symm⟩
  · cases performed

theorem Gets.inum {fs target : Fs} {inum : Nat} {ip : Islot} (gets : Gets fs inum ip target) :
    (target.icache ip).inum = inum := by
  cases gets with
  | found used dev named => simpa using named
  | recycled => simp

theorem taken_of_go {state target : State P} {p : P} (undisturbed : Undisturbed state (.go p))
    (performed : (state.record p).perform p (sectionOf (state.pc p)) = some target) :
    (∃ message, target = { state with trap := some message }) ∨
      ∃ next fs, Taken state p next fs ∧ target = state.moved p next fs := by
  by_cases returns : ∃ request ip, state.pc p = .created request ip
  · obtain ⟨request, ip, place⟩ := returns
    rw [place] at performed
    cases performed
    refine .inr ⟨.holds ip, state.fs, ⟨?_, by simp [place], undisturbed.apart⟩, ?_⟩
    · rw [place]
      exact .created
    · simp [moved]
  have kept := record_eq fun request ip place => returns ⟨request, ip, place⟩
  rw [kept] at performed
  rcases perform_cases performed with stopped | ⟨next, fs, ran, rfl⟩
  · exact .inl stopped
  · refine .inr ⟨next, fs, ⟨(yields_section _).of_runs ran, ?_, undisturbed.apart⟩, ?_⟩
    · intro ip idle
      rw [idle] at ran
      cases runs_stop.mp ran
    · rw [moved, kept]

/-- The machine stops, or one process takes a step. -/
theorem taken_of_step {state target : State P} {event : Event P}
    (undisturbed : Undisturbed state event) (step : state.step event = some target) :
    (∃ message, target = { state with trap := some message }) ∨
      ∃ p next fs, Taken state p next fs ∧ target = state.moved p next fs := by
  unfold State.step at step
  split at step
  · cases step
  cases event with
  | go p =>
    rcases taken_of_go undisturbed step with stopped | ⟨next, fs, taken⟩
    · exact .inl stopped
    · exact .inr ⟨p, next, fs, taken⟩
  | create p request =>
    dsimp only at step
    split at step
    · rename_i idle
      cases step
      have effect : Effect state.fs (state.pc p) (.scan request 1) state.fs := idle ▸ .create
      refine .inr ⟨p, _, _, ⟨effect, by simp [Pc.slot], by simp [idle]⟩, ?_⟩
      rw [moved, record_eq (by simp [idle])]
      rfl
    · cases step
  | lookup p inum =>
    dsimp only at step
    split at step
    · rename_i idle
      split at step
      · rename_i linked
        rcases perform_cases step with stopped | ⟨next, fs, ran, rfl⟩
        · exact .inl stopped
        · simp only [lookupSection, runs_bind, runs_pure] at ran
          obtain ⟨ip, _, got, rfl, rfl⟩ := ran
          have gets := gets_of_iget got
          refine .inr ⟨p, _, _, ⟨by rw [idle]; exact .lookup gets, ?_, by simp [idle]⟩, ?_⟩
          · intro other _ slot
            cases slot
            rw [gets.inum, linked]
          · rw [moved, record_eq (by simp [idle])]
      · cases step
    · cases step
  | relock p =>
    dsimp only at step
    split at step
    · rename_i ip kept
      cases step
      have effect : Effect state.fs (state.pc p) (.got none ip) state.fs := kept ▸ .relock
      refine .inr ⟨p, _, _, ⟨effect, by simp [kept], by simp [kept]⟩, ?_⟩
      rw [moved, record_eq (by simp [kept])]
      rfl
    · cases step

/-! ## The reference counts -/

theorem slot_moved (state : State P) (p : P) (next : Pc) (fs : Fs) :
    (fun q => ((state.moved p next fs).pc q).slot) =
      update (fun q => (state.pc q).slot) p next.slot := by
  funext q
  by_cases eq : q = p
  · subst eq
    simp [moved]
  · simp [moved, eq]

section Books

variable [Fintype P] {n : Nat} {extra : Islot → Nat} {state : State P} {p : P} {next : Pc} {fs : Fs}

/-- The cache: the references are those of the processes and, on other inodes, some that are
kept elsewhere; no inode has two slots. -/
structure Books (n : Nat) (extra : Islot → Nat) (state : State P) : Prop where
  counted : ∀ ip, (state.fs.icache ip).ref =
    extra ip + references (fun p => (state.pc p).slot) ip
  dev : ∀ ip, 0 < (state.fs.icache ip).ref → (state.fs.icache ip).dev = rootdev
  unique : ∀ ip other, 0 < (state.fs.icache ip).ref → 0 < (state.fs.icache other).ref →
    (state.fs.icache ip).inum = (state.fs.icache other).inum → ip = other
  apart : ∀ ip, 0 < extra ip → (state.fs.icache ip).inum ≠ n

omit [DecidableEq P] in
theorem Books.used (books : Books n extra state) {q : P} {ip : Islot}
    (slot : (state.pc q).slot = some ip) : 0 < (state.fs.icache ip).ref := by
  have counted := books.counted ip
  have pos : 0 < references (fun p => (state.pc p).slot) ip := references_pos slot
  omega

omit [DecidableEq P] in
/-- A slot in use for the number belongs to a process. -/
theorem Books.owner (books : Books n extra state) {ip : Islot}
    (used : 0 < (state.fs.icache ip).ref) (named : (state.fs.icache ip).inum = n) :
    ∃ q, (state.pc q).slot = some ip := by
  by_contra nobody
  have none : references (fun p => (state.pc p).slot) ip = 0 :=
    references_eq_zero_iff.mpr fun q slot => nobody ⟨q, slot⟩
  have counted := books.counted ip
  exact books.apart ip (by omega) named

omit [DecidableEq P] in
/-- A slot that comes into use stands for another inode than the slots in use. -/
theorem Books.distinct (books : Books n extra state)
    (effect : Effect state.fs (state.pc p) next fs) {ip other : Islot}
    (used : 0 < (state.fs.icache ip).ref) (unused : ¬0 < (state.fs.icache other).ref)
    (taken : 0 < (fs.icache other).ref) : (fs.icache ip).inum ≠ (fs.icache other).inum := by
  obtain ⟨-, -, fresh⟩ := effect.fresh_of_used (Int.not_lt.mp unused) taken
  rw [(effect.identity used).2]
  exact fresh ip used (books.dev ip used)

theorem Books.moved (books : Books n extra state) (effect : Effect state.fs (state.pc p) next fs) :
    Books n extra (state.moved p next fs) where
  counted ip := by
    have balance := effect.ref ip
    have counted := books.counted ip
    have update := references_update (fun q => (state.pc q).slot) p next.slot ip
    rw [slot_moved]
    change (fs.icache ip).ref = _
    split at balance <;> split at balance <;> simp_all <;> omega
  dev ip used := by
    by_cases before : 0 < (state.fs.icache ip).ref
    · exact (effect.identity before).1.trans (books.dev ip before)
    · exact (effect.fresh_of_used (Int.not_lt.mp before) used).1
  unique ip other used usedOther same := by
    by_cases before : 0 < (state.fs.icache ip).ref
    · by_cases beforeOther : 0 < (state.fs.icache other).ref
      · refine books.unique ip other before beforeOther ?_
        rw [← (effect.identity before).2, ← (effect.identity beforeOther).2]
        exact same
      · exact absurd same (books.distinct effect before beforeOther usedOther)
    obtain ⟨-, slot, -⟩ := effect.fresh_of_used (Int.not_lt.mp before) used
    by_cases beforeOther : 0 < (state.fs.icache other).ref
    · exact absurd same.symm (books.distinct effect beforeOther before used)
    · obtain ⟨-, slotOther, -⟩ := effect.fresh_of_used (Int.not_lt.mp beforeOther) usedOther
      exact some.inj (slot.symm.trans slotOther)
  apart ip outside := by
    have counted := books.counted ip
    have used : 0 < (state.fs.icache ip).ref := by omega
    exact (effect.identity used).2.trans_ne (books.apart ip outside)

end Books

theorem claim_of_claimed {fs target : Fs} {pc : Pc} {request : Request} {n : Nat}
    (effect : Effect fs pc (.claimed request n) target) :
    pc = .scan request n ∧ (fs.inodes n).type = .free ∧
      target = fs.setDinode n (Dinode.zero request.type) := by
  cases effect with
  | claim unused => exact ⟨rfl, unused, rfl⟩
  | cached _ next_eq | validate next_eq =>
    exact absurd next_eq.symm (Pc.after_ne_claimed _ _ _ _)
  | update linking | dotUpdate linking =>
    rcases linking with ⟨place, dots⟩ | created
    · cases dots
    · cases created

/-! ## The stages of a life -/

/-- The stages: `iput` frees the inode, nobody has the number, `ialloc` has given the number to
a process, `create` builds the inode, and the inode is there. -/
inductive Phase (P : Type) where
  | dying (a : P)
  | free
  | reserved (b : P) (request : Request)
  | creating (b : P) (request : Request)
  | made (type : FileType)

namespace Phase

/-- Where `iput` is until the inode is marked free on disk. -/
def Dying (inode : Inode) : Pc → Prop
  | .enter _ | .trunc _ _ => inode.type ≠ .free
  | .clear _ => True
  | .cleared _ => inode.type = .free
  | _ => False

/-- Where `create` is once it has tested `I_VALID`, and how far the inode has come. -/
def Creating (request : Request) (dinode : Dinode) (inode : Inode) : Pc → Prop
  | .loading goal _ => goal = some request
  | .loaded goal _ => goal = some request ∧ inode.type = request.type
  | .fields asked _ => asked = request ∧ inode.valid = true ∧ inode.type = request.type
  | .updating asked _ =>
    asked = request ∧ inode.valid = true ∧ inode.type = request.type ∧ inode.nlink = 1
  | .dots asked _ _ | .created asked _ =>
    asked = request ∧ inode.valid = true ∧ inode.type = request.type ∧ inode.nlink = 1 ∧
      dinode.nlink = 1
  | _ => False

/-- Where a process is that has looked up the new inode. -/
def Uses (type : FileType) (inode : Inode) : Pc → Prop
  | .enter _ | .kept _ => True
  | .got goal _ | .locked goal _ | .loading goal _ => goal = none
  | .loaded goal _ => goal = none ∧ inode.type = type ∧ inode.nlink = 1
  | .holds _ => inode.valid = true
  | _ => False

/-- What a process with a reference to the inode does. -/
def Role (dinode : Dinode) (inode : Inode) (q : P) (pc : Pc) : Phase P → Prop
  | .dying a => q = a ∧ inode.valid = true ∧ inode.nlink = 0 ∧ Dying inode pc
  | .free => ∃ ip, pc = .leave ip
  | .reserved b request => (∃ ip, pc = .leave ip) ∨
      q = b ∧ ∃ ip, pc = .got (some request) ip ∨ pc = .locked (some request) ip
  | .creating b request => q = b ∧ Creating request dinode inode pc
  | .made type => Uses type inode pc

/-- What is on disk. -/
def Disk (dinode : Dinode) : Phase P → Prop
  | .dying _ => dinode.type ≠ .free
  | .free => dinode.type = .free
  | .reserved _ request | .creating _ request => dinode.type = request.type
  | .made type => type ≠ .free ∧ dinode.type = type ∧ dinode.nlink = 1

/-- What is in the cache while no `iput` is about to leave. -/
def Cached (inode : Inode) : Phase P → Prop
  | .dying _ | .free | .creating _ _ => True
  | .reserved _ _ => inode.valid = false
  | .made type => inode.valid = true → inode.type = type ∧ inode.nlink = 1

/-- The type of the inode that was made. -/
def recorded : Phase P → Option FileType
  | .made type => some type
  | _ => none

end Phase

/-- The life of the number. -/
structure Life (n : Nat) (phase : Phase P) (state : State P) : Prop where
  role : ∀ q ip, (state.pc q).slot = some ip → (state.fs.icache ip).inum = n →
    phase.Role (state.fs.inodes n) (core (state.fs.icache ip)) q (state.pc q)
  claims : ∀ q request, state.pc q = .claimed request n → phase = .reserved q request
  disk : phase.Disk (state.fs.inodes n)
  cached : ∀ ip, 0 < (state.fs.icache ip).ref → (state.fs.icache ip).inum = n →
    (∀ q, state.pc q ≠ .leave ip) → phase.Cached (core (state.fs.icache ip))
  made : state.made n = phase.recorded
  unlinked : phase.recorded = none → state.linked n = false

/-! ## Steps -/

section Moved

variable {n : Nat} {extra : Islot → Nat} {state : State P} {p q : P} {next : Pc} {fs : Fs}
  {phase phase' : Phase P}

theorem moved_pc_of_ne (ne : q ≠ p) : (state.moved p next fs).pc q = state.pc q :=
  update_of_ne ne ..

@[simp]
theorem moved_pc_self : (state.moved p next fs).pc p = next :=
  update_self ..

theorem record_of_not_created (other : ∀ request ip, state.pc p = .created request ip →
    (state.fs.icache ip).inum ≠ n) :
    (state.moved p next fs).made n = state.made n ∧
      (state.moved p next fs).linked n = state.linked n := by
  unfold moved State.record
  split
  · rename_i request ip place
    have ne : n ≠ (state.fs.icache ip).inum := fun eq => other request ip place eq.symm
    exact ⟨update_of_ne ne .., update_of_ne ne ..⟩
  · exact ⟨rfl, rfl⟩

variable [Fintype P]

/-- What a step has to show: about the process itself, the others, the disk and the cache. -/
theorem Life.advance (life : Life n phase state) (books : Books n extra state)
    (effect : Effect state.fs (state.pc p) next fs) (recorded : phase'.recorded = phase.recorded)
    (unfinished : ∀ request ip, state.pc p = .created request ip → (state.fs.icache ip).inum ≠ n)
    (own : ∀ ip, next.slot = some ip → (fs.icache ip).inum = n →
      phase'.Role (fs.inodes n) (core (fs.icache ip)) p next)
    (others : ∀ q ip, q ≠ p → (state.pc q).slot = some ip → (state.fs.icache ip).inum = n →
      phase.Role (state.fs.inodes n) (core (state.fs.icache ip)) q (state.pc q) →
        phase'.Role (fs.inodes n) (core (fs.icache ip)) q (state.pc q))
    (claims : ∀ request, next = .claimed request n → phase' = .reserved p request)
    (claimed : ∀ q request, q ≠ p → phase = .reserved q request → phase' = .reserved q request)
    (disk : phase'.Disk (fs.inodes n))
    (cached : ∀ ip, 0 < (fs.icache ip).ref → (fs.icache ip).inum = n → next ≠ .leave ip →
      (∀ q ≠ p, state.pc q ≠ .leave ip) → phase'.Cached (core (fs.icache ip))) :
    Life n phase' (state.moved p next fs) where
  role q ip slot named := by
    by_cases eq : q = p
    · subst eq
      rw [moved_pc_self] at slot ⊢
      exact own ip slot named
    · rw [moved_pc_of_ne eq] at slot ⊢
      have before := (effect.identity (books.used slot)).2.symm.trans named
      exact others q ip eq slot before (life.role q ip slot before)
  claims q request place := by
    by_cases eq : q = p
    · subst eq
      rw [moved_pc_self] at place
      exact claims request place
    · rw [moved_pc_of_ne eq] at place
      exact claimed q request eq (life.claims q request place)
  disk := disk
  cached ip used named nobody := by
    refine cached ip used named (fun leaves => nobody p (moved_pc_self.trans leaves)) ?_
    exact fun q ne leaves => nobody q ((moved_pc_of_ne ne).trans leaves)
  made := by rw [recorded, ← life.made, (record_of_not_created unfinished).1]
  unlinked none := by
    rw [(record_of_not_created unfinished).2]
    exact life.unlinked (recorded ▸ none)

omit [DecidableEq P] in
/-- A slot that is in use for the number after a step was so before, or the process has just
taken it. -/
theorem used_before (effect : Effect state.fs (state.pc p) next fs) {ip : Islot}
    (used : 0 < (fs.icache ip).ref) (named : (fs.icache ip).inum = n)
    (kept : next.slot ≠ some ip ∨ (state.pc p).slot = some ip) (books : Books n extra state) :
    0 < (state.fs.icache ip).ref ∧ (state.fs.icache ip).inum = n := by
  have before : 0 < (state.fs.icache ip).ref := by
    rcases kept with other | same
    · by_contra unused
      exact other (effect.fresh_of_used (Int.not_lt.mp unused) used).2.1
    · exact books.used same
  exact ⟨before, (effect.identity before).2.symm.trans named⟩

/-- A step that has nothing to do with the number. -/
theorem Life.frame (life : Life n phase state) (books : Books n extra state)
    (effect : Effect state.fs (state.pc p) next fs)
    (before : ∀ ip, (state.pc p).slot = some ip → (state.fs.icache ip).inum ≠ n)
    (after : ∀ ip, next.slot = some ip → (fs.icache ip).inum ≠ n)
    (unclaimed : ∀ request, next ≠ .claimed request n) :
    Life n phase (state.moved p next fs) := by
  have inodes : fs.inodes n = state.fs.inodes n := by
    rcases effect.inodes n with same | ⟨ip, slot, named⟩ | ⟨request, claims⟩
    · exact same
    · exact absurd named (before ip slot)
    · exact absurd claims (unclaimed request)
  have same : ∀ ip, 0 < (state.fs.icache ip).ref → (state.fs.icache ip).inum = n →
      core (fs.icache ip) = core (state.fs.icache ip) := by
    refine fun ip used named => effect.core_of_ne (fun slot => before ip slot named) fun slot => ?_
    exact after ip slot ((effect.identity used).2.trans named)
  refine life.advance books effect rfl (fun request ip place => before ip (by rw [place]; rfl))
    (fun ip slot named => absurd named (after ip slot)) ?_
    (fun request claims => absurd claims (unclaimed request)) (fun _ _ _ => id)
    (inodes ▸ life.disk) ?_
  · intro q ip _ slot named role
    rwa [inodes, same ip (books.used slot) named]
  · intro ip used named _ nobody
    have kept : next.slot ≠ some ip := fun slot => after ip slot named
    obtain ⟨used, named⟩ := used_before effect used named (.inl kept) books
    rw [same ip used named]
    refine life.cached ip used named fun q leaves => ?_
    by_cases eq : q = p
    · exact before ip (by rw [← eq, leaves]; rfl) named
    · exact nobody q eq leaves

/-- A step of a process with a reference to the inode. -/
theorem Life.act (life : Life n phase state) (books : Books n extra state)
    (effect : Effect state.fs (state.pc p) next fs) {ip : Islot}
    (slot : (state.pc p).slot = some ip) (named : (state.fs.icache ip).inum = n)
    (recorded : phase'.recorded = phase.recorded)
    (unfinished : ∀ request, state.pc p ≠ .created request ip)
    (own : next = .idle ∨ phase'.Role (fs.inodes n) (core (fs.icache ip)) p next)
    (others : ∀ q ≠ p, (state.pc q).slot = some ip →
      phase.Role (state.fs.inodes n) (core (state.fs.icache ip)) q (state.pc q) →
        phase'.Role (fs.inodes n) (core (fs.icache ip)) q (state.pc q))
    (claimed : ∀ q request, q ≠ p → phase = .reserved q request → phase' = .reserved q request)
    (disk : phase'.Disk (fs.inodes n))
    (cached : next ≠ .leave ip → (∀ q ≠ p, state.pc q ≠ .leave ip) →
      phase'.Cached (core (fs.icache ip))) :
    Life n phase' (state.moved p next fs) := by
  have used := books.used slot
  have self other (used' : 0 < (state.fs.icache other).ref)
      (named' : (state.fs.icache other).inum = n) : other = ip :=
    books.unique other ip used' used (named'.trans named.symm)
  have keeps other (slot' : next.slot = some other) : other = ip := by
    rcases effect.slot_cases with same | none | ⟨inum, got, gets, places⟩
    · exact some.inj (slot'.symm.trans (same.trans slot))
    · rw [none] at slot'
      cases slot'
    · rcases places with ⟨request, place, -⟩ | ⟨place, -⟩ <;> rw [place] at slot <;> cases slot
  refine life.advance books effect recorded ?_ ?_ ?_ ?_ claimed disk ?_
  · intro request other place
    rw [place] at slot
    obtain rfl : other = ip := some.inj slot
    exact absurd place (unfinished request)
  · intro other slot' _
    obtain rfl := keeps other slot'
    rcases own with rfl | role
    · cases slot'
    · exact role
  · intro q other ne slot' named' role
    obtain rfl := self other (books.used slot') named'
    exact others q ne slot' role
  · intro request claims
    rw [claims] at effect
    rw [(claim_of_claimed effect).1] at slot
    cases slot
  · intro other used' named'
    have kept : next.slot ≠ some other ∨ (state.pc p).slot = some other := by
      by_cases taken : next.slot = some other
      · exact .inr (keeps other taken ▸ slot)
      · exact .inl taken
    obtain ⟨used', named'⟩ := used_before effect used' named' kept books
    obtain rfl := self other used' named'
    exact cached

end Moved

end Xv6.FileSystem.Reuse
