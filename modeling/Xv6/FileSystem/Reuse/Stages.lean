import Xv6.FileSystem.Reuse.Life

/-!
# From one stage to the next

What an undisturbed step does in each stage: the steps of `iput` until it has left the
slot, those of `create` from `ialloc` until it returns, and those of the processes that
look up the new inode.
-/

namespace Xv6.FileSystem.Reuse

open Prog Transition Custody Option Phase

variable {P : Type} [DecidableEq P] [Fintype P] {n : Nat} {extra : Islot → Nat}
  {state : State P} {p a : P} {next : Pc} {fs : Fs} {ip : Islot} {request : Request}

theorem core_setInode_self (fs : Fs) (ip : Islot) (change : Inode → Inode) :
    core ((fs.setInode ip change).icache ip) = core (change (fs.icache ip)) := by
  rw [Fs.icache_setInode_self]

theorem inodes_iupdate {fs : Fs} {dinode : Dinode} (named : (fs.icache ip).inum = n) :
    (fs.setDinode (fs.icache ip).inum dinode).inodes n = dinode := by
  rw [named, Fs.inodes_setDinode_self]

omit [DecidableEq P] in
theorem ref_eq_one (books : Books n extra state) (slot : (state.pc p).slot = some ip)
    (named : (state.fs.icache ip).inum = n)
    (only : ∀ q, (state.pc q).slot = some ip → q = p) : (state.fs.icache ip).ref = 1 := by
  have outside : extra ip = 0 := by
    by_contra some
    exact books.apart ip (Nat.pos_of_ne_zero some) named
  have one : references (fun q => (state.pc q).slot) ip = 1 := references_eq_one slot only
  rw [books.counted ip, outside, one]
  rfl

/-! ## Freeing -/

/-- `iput` works on the inode until it is marked free on disk. -/
theorem Life.dying (life : Life n (.dying a) state) (books : Books n extra state)
    (effect : Effect state.fs (state.pc p) next fs) (slot : (state.pc p).slot = some ip)
    (named : (state.fs.icache ip).inum = n) :
    ∃ phase : Phase P, Life n phase (state.moved p next fs) := by
  obtain ⟨rfl, valid, nlink, place⟩ := life.role p ip slot named
  have ref := ref_eq_one books slot named fun q held => (life.role q ip held named).1
  have go (phase : Phase P) (recorded : phase.recorded = none)
      (cached : phase.Cached (core (fs.icache ip))) (disk : phase.Disk (fs.inodes n))
      (own : phase.Role (fs.inodes n) (core (fs.icache ip)) p next) :
      ∃ phase : Phase P, Life n phase (state.moved p next fs) := by
    refine ⟨phase, life.act books effect slot named recorded (fun request created => ?_)
      (.inr own) (fun q ne _ role => absurd role.1 ne) (fun q request _ eq => ?_) disk
      fun _ _ => cached⟩
    · rw [created] at place
      exact place
    · cases eq
  generalize state.pc p = pc at effect slot place
  cases effect with
  | free =>
    exact go (.dying p) rfl trivial life.disk ⟨rfl, valid, nlink, place⟩
  | drop kept =>
    cases slot
    exact absurd ⟨ref, valid, nlink⟩ kept
  | truncate same =>
    refine go (.dying p) rfl trivial (by rw [same.inodes]; exact life.disk) ?_
    rw [same.core]
    exact ⟨rfl, valid, nlink, place⟩
  | truncated =>
    cases slot
    rw [inodes_iupdate named] at go
    exact go (.dying p) rfl trivial place ⟨rfl, valid, nlink, trivial⟩
  | clear =>
    cases slot
    refine go (.dying p) rfl trivial life.disk ?_
    rw [core_setInode_self]
    exact ⟨rfl, valid, nlink, rfl⟩
  | cleared =>
    cases slot
    rw [inodes_iupdate named] at go
    exact go .free rfl trivial place ⟨_, rfl⟩
  | _ => exact place.elim

theorem leave_of_leave {fs target : Fs} {next : Pc} (effect : Effect fs (.leave ip) next target) :
    next = .idle ∧ target = fs.setInode ip fun inode =>
      { inode with valid := false, ref := inode.ref - 1 } := by
  cases effect with
  | leave => exact ⟨rfl, rfl⟩

variable {phase : Phase P}

/-- `iput` leaves the slot with `I_VALID` cleared. -/
theorem Life.leave (life : Life n phase state) (books : Books n extra state)
    (effect : Effect state.fs (state.pc p) next fs) (slot : (state.pc p).slot = some ip)
    (named : (state.fs.icache ip).inum = n) (leaves : ∃ ip, state.pc p = .leave ip)
    (stage : phase = .free ∨ ∃ b request, phase = .reserved b request) :
    Life n phase (state.moved p next fs) := by
  obtain ⟨other, leaves⟩ := leaves
  obtain rfl : other = ip := by
    rw [leaves] at slot
    exact some.inj slot
  have gone := effect
  rw [leaves] at gone
  obtain ⟨rfl, rfl⟩ := leave_of_leave gone
  refine life.act books effect slot named rfl (by simp [leaves]) (.inl rfl) ?_ (fun _ _ _ => id)
    life.disk ?_
  · rcases stage with rfl | ⟨b, request, rfl⟩ <;> exact fun _ _ _ => id
  · rcases stage with rfl | ⟨b, request, rfl⟩
    · exact fun _ _ => trivial
    · intro _ _
      rw [core_setInode_self]
      rfl

/-! ## Creating -/

/-- `ialloc` takes the number. -/
theorem Life.claim (life : Life n phase state) (books : Books n extra state)
    (effect : Effect state.fs (state.pc p) next fs) (claims : next = .claimed request n) :
    Life n (.reserved p request) (state.moved p next fs) := by
  subst claims
  obtain ⟨place, unused, rfl⟩ := claim_of_claimed effect
  have stage : phase = .free := by
    have disk := life.disk
    cases phase with
    | free => rfl
    | dying a => exact absurd unused disk
    | reserved b request | creating b request =>
      exact absurd (disk.symm.trans unused) request.allocated
    | made type => exact absurd (disk.2.1.symm.trans unused) disk.1
  subst stage
  refine life.advance books effect rfl (by simp [place]) (by simp [Pc.slot])
    (fun q ip _ _ _ role => .inl role) ?_ (fun q request _ eq => by cases eq) ?_ ?_
  · rintro asked ⟨⟩
    rfl
  · rw [Fs.inodes_setDinode_self]
    rfl
  · -- a slot in use belongs to a process that is about to leave
    intro ip used named _ nobody
    obtain ⟨q, slot⟩ := books.owner used named
    obtain ⟨other, leaves⟩ := life.role q ip slot named
    have own : q ≠ p := by
      rintro rfl
      rw [place] at leaves
      cases leaves
    rw [leaves] at slot
    cases slot
    exact absurd leaves (nobody q own)

variable {b : P}

/-- `create` waits for the sleep-lock and tests `I_VALID` when no `iput` is freeing the inode. -/
theorem Life.reserved (life : Life n (.reserved b request) state) (books : Books n extra state)
    (taken : Taken state p next fs) (slot : (state.pc p).slot = some ip)
    (named : (state.fs.icache ip).inum = n) :
    ∃ phase : Phase P, Life n phase (state.moved p next fs) := by
  have effect := taken.effect
  rcases life.role p ip slot named with leaves | ⟨rfl, other, place⟩
  · exact ⟨_, life.leave books effect slot named leaves (.inr ⟨b, request, rfl⟩)⟩
  obtain rfl : other = ip := by
    rcases place with place | place <;> rw [place] at slot <;> exact some.inj slot
  have stays q (nobody : (∀ q ≠ p, state.pc q ≠ .leave other)) : state.pc q ≠ .leave other := by
    by_cases eq : q = p
    · rw [eq]
      rcases place with place | place <;> rw [place] <;> exact Pc.noConfusion
    · exact nobody q eq
  rcases place with place | place
  · have locks := effect
    rw [place] at locks
    cases locks with
    | lock same =>
      refine ⟨.reserved p request, life.act books effect slot named rfl (by simp [place])
        (.inr (.inr ⟨rfl, other, .inr rfl⟩)) (fun _ _ _ => id) (fun _ _ _ => id)
        (by rw [same.inodes]; exact life.disk) fun _ nobody => ?_⟩
      rw [same.core]
      exact life.cached other (books.used slot) named fun q => stays q nobody
  · have apart : ∀ q, state.pc q ≠ .leave other := fun q leaves =>
      taken.apart _ other place q (by rw [leaves]; rfl)
    have tests := effect
    rw [place] at tests
    cases tests with
    | cached valid =>
      have stale : (state.fs.icache other).valid = false :=
        life.cached other (books.used slot) named apart
      rw [stale] at valid
      cases valid
    | miss =>
      refine ⟨.creating p request, life.act books effect slot named rfl (by simp [place])
        (.inr ⟨rfl, rfl⟩) (fun q ne held role => ?_) (fun q asked ne eq => ?_) life.disk
        fun _ _ => trivial⟩
      · rcases role with ⟨left, leaves⟩ | ⟨eq, -⟩
        · rw [leaves] at held
          cases held
          exact absurd leaves (apart q)
        · exact absurd eq ne
      · cases eq
        exact absurd rfl ne

/-- `create` loads the inode, sets its fields and writes it to disk. -/
theorem Life.creating (life : Life n (.creating b request) state) (books : Books n extra state)
    (effect : Effect state.fs (state.pc p) next fs) (slot : (state.pc p).slot = some ip)
    (named : (state.fs.icache ip).inum = n)
    (unfinished : ∀ request, state.pc p ≠ .created request ip) :
    ∃ phase : Phase P, Life n phase (state.moved p next fs) := by
  obtain ⟨rfl, place⟩ := life.role p ip slot named
  have disk : (state.fs.inodes n).type = request.type := life.disk
  have go (disk : (fs.inodes n).type = request.type)
      (own : Creating request (fs.inodes n) (core (fs.icache ip)) next) :
      ∃ phase : Phase P, Life n phase (state.moved p next fs) := by
    refine ⟨.creating p request, life.act books effect slot named rfl unfinished
      (.inr ⟨rfl, own⟩) (fun q ne _ role => absurd role.1 ne) (fun q request _ eq => ?_) disk
      fun _ _ => trivial⟩
    cases eq
  generalize state.pc p = pc at effect slot place unfinished
  cases effect with
  | load =>
    cases slot
    refine go disk ⟨place, ?_⟩
    rw [core_setInode_self]
    exact (congrArg (fun inum => (state.fs.inodes inum).type) named).trans disk
  | validate next_eq =>
    cases slot
    obtain ⟨rfl, type⟩ := place
    subst next_eq
    refine go disk ?_
    rw [core_setInode_self]
    exact ⟨rfl, rfl, type⟩
  | fields =>
    cases slot
    obtain ⟨rfl, valid, type⟩ := place
    refine go disk ?_
    rw [core_setInode_self]
    exact ⟨rfl, valid, type, rfl⟩
  | update linking =>
    cases slot
    obtain ⟨rfl, valid, type, nlink⟩ := place
    rw [inodes_iupdate named] at go
    refine go type ?_
    rcases linking with ⟨place, rfl⟩ | rfl <;> exact ⟨rfl, valid, type, nlink, nlink⟩
  | dot same =>
    rw [same.core, same.inodes] at go
    exact go disk place
  | dotUpdate linking =>
    cases slot
    obtain ⟨rfl, valid, type, nlink, -⟩ := place
    rw [inodes_iupdate named] at go
    refine go type ?_
    rcases linking with ⟨place, rfl⟩ | rfl <;> exact ⟨rfl, valid, type, nlink, nlink⟩
  | created =>
    cases slot
    exact absurd rfl (unfinished _)
  | _ => exact place.elim

/-! ## The new inode -/

omit [DecidableEq P] [Fintype P] in
/-- When `create` is about to return, the inode is the one that was asked for. -/
theorem Life.created (life : Life n phase state) (place : state.pc p = .created request ip)
    (named : (state.fs.icache ip).inum = n) :
    phase = .creating p request ∧ Creating request (state.fs.inodes n)
      (core (state.fs.icache ip)) (.created request ip) := by
  have role := life.role p ip (by rw [place]; rfl) named
  rw [place] at role
  cases phase with
  | creating b asked =>
    obtain ⟨rfl, rfl, rest⟩ := role
    exact ⟨rfl, rfl, rest⟩
  | dying a => exact role.2.2.2.elim
  | free => cases role.choose_spec
  | reserved b asked =>
    rcases role with ⟨_, leaves⟩ | ⟨-, _, gets | locks⟩
    · cases leaves
    · cases gets
    · cases locks
  | made type => exact role.elim

/-- `create` returns. -/
theorem Life.returned (life : Life n phase state) (books : Books n extra state)
    (effect : Effect state.fs (state.pc p) next fs) (place : state.pc p = .created request ip)
    (named : (state.fs.icache ip).inum = n) :
    Life n (.made request.type) (state.moved p next fs) := by
  obtain ⟨rfl, -, valid, type, nlink, nlinkDisk⟩ := life.created place named
  have used : 0 < (state.fs.icache ip).ref := books.used (q := p) (by rw [place]; rfl)
  rw [place] at effect
  cases effect with
  | created =>
    refine ⟨fun q other slot namedOther => ?_, fun q asked claims => ?_,
      ⟨request.allocated, life.disk, nlinkDisk⟩, fun other usedOther namedOther _ _ => ?_,
      ?_, fun none => ?_⟩
    · by_cases eq : q = p
      · rw [eq, moved_pc_self] at slot ⊢
        cases slot
        exact valid
      · rw [moved_pc_of_ne eq] at slot
        exact absurd (life.role q other slot namedOther).1 eq
    · by_cases eq : q = p
      · rw [eq, moved_pc_self] at claims
        cases claims
      · rw [moved_pc_of_ne eq] at claims
        cases life.claims q asked claims
    · obtain rfl := books.unique other ip usedOther used (namedOther.trans named.symm)
      exact ⟨type, nlink⟩
    · unfold State.moved State.record
      rw [place]
      simp [named, recorded]
    · cases none

/-- A change of the slot that the processes bear that have looked up the inode. -/
structure Suits (type : FileType) (before after : Inode) : Prop where
  keeps : before.valid = true → after.valid = true
  right : before.type = type ∧ before.nlink = 1 → after.type = type ∧ after.nlink = 1

variable {type : FileType}

theorem Suits.uses {before after : Inode} (suits : Suits type before after) {pc : Pc}
    (uses : Uses type before pc) : Uses type after pc := by
  cases pc with
  | loaded goal ip => exact ⟨uses.1, suits.right uses.2⟩
  | holds ip => exact suits.keeps uses
  | _ => exact uses

omit [DecidableEq P] [Fintype P] in
theorem Life.not_leave (life : Life n (.made type) state) (named : (state.fs.icache ip).inum = n)
    (q : P) : state.pc q ≠ .leave ip := by
  intro leaves
  have uses := life.role q ip (by rw [leaves]; rfl) named
  rw [leaves] at uses
  exact uses

/-- A step of a process that has looked up the inode. -/
theorem Life.used (life : Life n (.made type) state) (books : Books n extra state)
    (effect : Effect state.fs (state.pc p) next fs) (slot : (state.pc p).slot = some ip)
    (named : (state.fs.icache ip).inum = n) : Life n (.made type) (state.moved p next fs) := by
  have uses : Uses type (core (state.fs.icache ip)) (state.pc p) := life.role p ip slot named
  have cached := life.cached ip (books.used slot) named (life.not_leave named)
  have go (inodes : fs.inodes n = state.fs.inodes n)
      (suits : Suits type (core (state.fs.icache ip)) (core (fs.icache ip)))
      (own : next = .idle ∨ Uses type (core (fs.icache ip)) next)
      (cached : Cached (core (fs.icache ip)) (.made type : Phase P)) :
      Life n (.made type) (state.moved p next fs) := by
    refine life.act books effect slot named rfl (fun request created => ?_) own
      (fun q _ _ role => suits.uses role) (fun q request _ eq => ?_)
      (by rw [inodes]; exact life.disk) fun _ _ => cached
    · rw [created] at uses
      exact uses
    · cases eq
  generalize state.pc p = pc at effect slot uses
  cases effect with
  | free _ valid nlink =>
    cases slot
    exact absurd ((cached valid).2.symm.trans nlink) (by decide)
  | drop =>
    cases slot
    rw [core_setInode_self] at go
    exact go rfl ⟨id, id⟩ (.inl rfl) cached
  | lock same =>
    rw [same.core] at go
    exact go (by rw [same.inodes]) ⟨id, id⟩ (.inr uses) cached
  | cached valid next_eq =>
    cases slot
    obtain rfl : _ = none := uses
    subst next_eq
    exact go rfl ⟨id, id⟩ (.inr valid) cached
  | miss => exact go rfl ⟨id, id⟩ (.inr uses) cached
  | load =>
    cases slot
    have right := life.disk.2
    rw [← named] at right
    rw [core_setInode_self] at go
    exact go rfl ⟨id, fun _ => right⟩ (.inr ⟨uses, right⟩) fun _ => right
  | validate next_eq =>
    cases slot
    obtain ⟨rfl, right⟩ := uses
    subst next_eq
    rw [core_setInode_self] at go
    exact go rfl ⟨fun _ => rfl, id⟩ (.inr rfl) fun _ => right
  | unlock same =>
    rw [same.core] at go
    exact go (by rw [same.inodes]) ⟨id, id⟩ (.inr trivial) cached
  | put => exact go rfl ⟨id, id⟩ (.inr trivial) cached
  | relock => exact go rfl ⟨id, id⟩ (.inr rfl) cached
  | _ => exact uses.elim

/-! ## Taking a reference -/

/-- `create` takes the slot, which `iput` may not have left, or a process looks up the inode. -/
theorem Life.got (life : Life n phase state) (books : Books n extra state)
    (effect : Effect state.fs (state.pc p) next fs) (gets : Gets state.fs n ip fs)
    (stage : (∃ request, state.pc p = .claimed request n ∧ phase = .reserved p request ∧
        next = .got (some request) ip) ∨
      ∃ type, state.pc p = .idle ∧ phase = .made type ∧ next = .got none ip) :
    Life n phase (state.moved p next fs) := by
  have places : (∀ request ip, state.pc p ≠ .created request ip) ∧ (∀ ip, state.pc p ≠ .leave ip) ∧
      (∀ request, next ≠ .claimed request n) ∧ next.slot = some ip := by
    rcases stage with ⟨request, place, -, rfl⟩ | ⟨type, place, -, rfl⟩ <;> simp [place, Pc.slot]
  obtain ⟨unfinished, stays, unclaimed, taken⟩ := places
  have inodes : fs.inodes = state.fs.inodes := by
    cases gets with
    | found | recycled => rfl
  refine life.advance books effect rfl (fun request other place => absurd place
    (unfinished request other)) ?_ ?_ (fun request claims => absurd claims (unclaimed request))
    (fun _ _ _ => id) (by rw [inodes]; exact life.disk) ?_
  · intro other _ _
    rcases stage with ⟨request, -, rfl, rfl⟩ | ⟨type, -, rfl, rfl⟩
    · exact .inr ⟨rfl, ip, .inl rfl⟩
    · exact rfl
  · intro q other _ slot named role
    rw [inodes]
    by_cases eq : other = ip
    · subst eq
      cases gets with
      | found =>
        rw [core_setInode_self]
        rcases stage with ⟨request, -, rfl, rfl⟩ | ⟨type, -, rfl, rfl⟩
        · exact role
        · exact Suits.uses ⟨id, id⟩ role
      | recycled fresh empty =>
        have used := books.used slot
        omega
    · rwa [gets.core_of_ne fun same => eq (some.inj same).symm]
  · intro other used named _ nobody
    have vacant q : state.pc q ≠ .leave other := by
      by_cases eq : q = p
      · rw [eq]
        exact stays other
      · exact nobody q eq
    by_cases eq : other = ip
    · subst eq
      cases gets with
      | found usedBefore dev namedBefore =>
        rw [core_setInode_self]
        have cached := life.cached other usedBefore namedBefore vacant
        rcases stage with ⟨request, -, rfl, rfl⟩ | ⟨type, -, rfl, rfl⟩ <;> exact cached
      | recycled =>
        rw [core_setInode_self]
        rcases stage with ⟨request, -, rfl, rfl⟩ | ⟨type, -, rfl, rfl⟩
        · rfl
        · exact Bool.noConfusion
    · have ne : some ip ≠ some other := fun same => eq (some.inj same).symm
      rw [gets.core_of_ne ne]
      obtain ⟨used, named⟩ := used_before effect used named (.inl (taken.trans_ne ne)) books
      exact life.cached other used named vacant

/-! ## The stages -/

theorem Life.moved (life : Life n phase state) (books : Books n extra state)
    (taken : Taken state p next fs) : ∃ phase : Phase P, Life n phase (state.moved p next fs) := by
  have effect := taken.effect
  by_cases before : ∃ ip, (state.pc p).slot = some ip ∧ (state.fs.icache ip).inum = n
  · obtain ⟨ip, slot, named⟩ := before
    by_cases created : ∃ request, state.pc p = .created request ip
    · obtain ⟨request, place⟩ := created
      exact ⟨_, life.returned books effect place named⟩
    cases phase with
    | dying a => exact life.dying books effect slot named
    | free => exact ⟨_, life.leave books effect slot named (life.role p ip slot named) (.inl rfl)⟩
    | reserved b request => exact life.reserved books taken slot named
    | creating b request =>
      exact life.creating books effect slot named fun request place => created ⟨request, place⟩
    | made type => exact ⟨_, life.used books effect slot named⟩
  by_cases after : ∃ ip, next.slot = some ip ∧ (fs.icache ip).inum = n
  · obtain ⟨ip, slot, named⟩ := after
    rcases effect.slot_cases with same | none | ⟨inum, other, gets, places⟩
    · rw [same] at slot
      have kept := (effect.identity (books.used slot)).2
      exact absurd ⟨ip, slot, kept.symm.trans named⟩ before
    · rw [none] at slot
      cases slot
    · obtain rfl : other = ip := by
        rcases places with ⟨request, -, rfl⟩ | ⟨-, rfl⟩ <;> exact some.inj slot
      obtain rfl : inum = n := gets.inum.symm.trans named
      refine ⟨phase, life.got books effect gets ?_⟩
      rcases places with ⟨request, place, rfl⟩ | ⟨idle, rfl⟩
      · exact .inl ⟨request, place, life.claims p request place, rfl⟩
      · have linked := taken.linked other idle rfl
        rw [named] at linked
        cases phase with
        | made type => exact .inr ⟨type, idle, rfl, rfl⟩
        | _ => exact absurd (life.unlinked rfl) (by simp [linked])
  by_cases claims : ∃ request, next = .claimed request n
  · obtain ⟨request, claims⟩ := claims
    exact ⟨_, life.claim books effect claims⟩
  · exact ⟨phase, life.frame books effect (fun ip slot named => before ⟨ip, slot, named⟩)
      (fun ip slot named => after ⟨ip, slot, named⟩) fun request next_eq =>
        claims ⟨request, next_eq⟩⟩

end Xv6.FileSystem.Reuse
