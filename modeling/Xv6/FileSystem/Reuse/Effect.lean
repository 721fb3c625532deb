import Xv6.FileSystem.Inode
import Xv6.FileSystem.Reuse.Core

/-!
# What a step does to the inodes

Blocks, sizes and sleep-locks do not decide what type an inode has.  Here the steps
are inverted once, with what they do to the fields that do: the identity of a cache
slot, its reference count, `I_VALID`, the type and the link count.
-/

namespace Xv6.FileSystem.Reuse

open Xv6.Log (Blockno)
open Prog Transition Fs Pc

/-- An in-core inode without what a step may change on the side. -/
def core (inode : Inode) : Inode :=
  { inode with size := 0, addrs := fun _ => 0, major := 0, minor := 0, locked := false }

/-- Two states agree on the dinodes and on the cores of the in-core inodes. -/
structure Same (fs target : Fs) : Prop where
  inodes : target.inodes = fs.inodes
  core : ∀ ip, core (target.icache ip) = core (fs.icache ip)

namespace Same

variable {fs target : Fs} (same : Same fs target) (ip : Islot)

theorem refl (fs : Fs) : Same fs fs :=
  ⟨rfl, fun _ => rfl⟩

theorem of_eq (icache : target.icache = fs.icache) (inodes : target.inodes = fs.inodes) :
    Same fs target :=
  ⟨inodes, fun ip => by rw [icache]⟩

theorem setInode {change : Inode → Inode}
    (kept : Reuse.core (change (fs.icache ip)) = Reuse.core (fs.icache ip)) :
    Same fs (fs.setInode ip change) := by
  refine ⟨rfl, fun other => ?_⟩
  by_cases eq : other = ip
  · rw [eq, icache_setInode_self, kept]
  · rw [icache_setInode_of_ne eq]

theorem trans {middle : Fs} (first : Same fs middle) (second : Same middle target) :
    Same fs target :=
  ⟨second.inodes.trans first.inodes, fun ip => (second.core ip).trans (first.core ip)⟩

include same

theorem dev : (target.icache ip).dev = (fs.icache ip).dev :=
  (congrArg Inode.dev (same.core ip) :)

theorem inum : (target.icache ip).inum = (fs.icache ip).inum :=
  (congrArg Inode.inum (same.core ip) :)

theorem ref : (target.icache ip).ref = (fs.icache ip).ref :=
  (congrArg Inode.ref (same.core ip) :)

end Same

instance : Std.Refl Same := ⟨Same.refl⟩

instance : IsTrans Fs Same := ⟨fun _ _ _ => Same.trans⟩

theorem keeps_same_balloc : Keeps Same balloc := by
  refine keeps_bind keeps_reading fun found => ?_
  cases found with
  | none => exact keeps_stop
  | some b =>
    refine keeps_bind (keeps_update fun _ => Same.of_eq rfl rfl) fun _ => ?_
    exact keeps_bind (keeps_update fun _ => Same.of_eq rfl rfl) fun _ => keeps_pure

theorem keeps_same_bfree (block : Blockno) : Keeps Same (bfree block) :=
  keeps_bind keeps_ensure fun _ => keeps_update fun _ => Same.of_eq rfl rfl

theorem keeps_same_bmap_zero (ip : Islot) : Keeps Same (bmap ip 0) := by
  refine keeps_bind keeps_reading fun addr => keeps_ite ?_ keeps_pure
  refine keeps_bind keeps_same_balloc fun block => ?_
  exact keeps_bind (keeps_update fun _ => Same.setInode ip rfl) fun _ => keeps_pure

/-! ## Places of a process -/

namespace Pc

/-- The slot to which the process has a reference. -/
def slot : Pc → Option Islot
  | .idle | .scan _ _ | .claimed _ _ => none
  | .enter ip | .trunc ip _ | .clear ip | .cleared ip | .leave ip | .got _ ip | .locked _ ip
  | .loading _ ip | .loaded _ ip | .fields _ ip | .updating _ ip | .dots _ ip _ | .created _ ip
  | .holds ip | .kept ip => some ip

/-- The slot that an `iput` is freeing: it is between its two sections of `icache.lock`. -/
def freeing : Pc → Option Islot
  | .trunc ip _ | .clear ip | .cleared ip | .leave ip => some ip
  | _ => none

/-- The process has the inode of the new directory, or of the new file, on disk. -/
def linking (request : Request) (ip : Islot) (pc : Pc) : Prop :=
  (∃ place, pc = .dots request ip place) ∨ pc = .created request ip

@[simp]
theorem slot_after (goal : Option Request) (ip : Islot) : (after goal ip).slot = some ip := by
  cases goal with
  | none => rfl
  | some request => rfl

theorem after_ne_claimed (goal : Option Request) (ip : Islot) (request : Request) (inum : Nat) :
    after goal ip ≠ .claimed request inum := by
  cases goal with
  | none => exact Pc.noConfusion
  | some => exact Pc.noConfusion

theorem slot_of_linking {pc : Pc} {request : Request} {ip : Islot}
    (linking : pc.linking request ip) : pc.slot = some ip := by
  rcases linking with ⟨place, rfl⟩ | rfl <;> rfl

end Pc

/-! ## Effects -/

/-- A reference to an inode number is taken: the slot is that of the number, or it was empty. -/
inductive Gets (fs : Fs) (inum : Nat) (ip : Islot) : Fs → Prop
  | found (used : 0 < (fs.icache ip).ref) (dev : (fs.icache ip).dev = rootdev)
      (named : (fs.icache ip).inum = inum) :
      Gets fs inum ip (fs.setInode ip fun inode => { inode with ref := inode.ref + 1 })
  | recycled (fresh : ∀ other, 0 < (fs.icache other).ref →
        ¬((fs.icache other).dev = rootdev ∧ (fs.icache other).inum = inum))
      (empty : (fs.icache ip).ref = 0) :
      Gets fs inum ip (fs.setInode ip fun inode =>
        { inode with dev := rootdev, inum := inum, ref := 1, valid := false })

/-- What a step of a process does. -/
inductive Effect (fs : Fs) : Pc → Pc → Fs → Prop
  | free {ip} (ref : (fs.icache ip).ref = 1) (valid : (fs.icache ip).valid = true)
      (nlink : (fs.icache ip).nlink = 0) :
      Effect fs (.enter ip) (.trunc ip (.direct directs)) fs
  | drop {ip} (kept : ¬((fs.icache ip).ref = 1 ∧ (fs.icache ip).valid = true ∧
        (fs.icache ip).nlink = 0)) :
      Effect fs (.enter ip) .idle
        (fs.setInode ip fun inode => { inode with ref := inode.ref - 1 })
  | truncate {ip before after target} (same : Same fs target) :
      Effect fs (.trunc ip before) (.trunc ip after) target
  | truncated {ip place} : Effect fs (.trunc ip place) (.clear ip)
      (fs.setDinode (fs.icache ip).inum (fs.icache ip).toDinode)
  | clear {ip} : Effect fs (.clear ip) (.cleared ip)
      (fs.setInode ip fun inode => { inode with type := .free })
  | cleared {ip} : Effect fs (.cleared ip) (.leave ip)
      (fs.setDinode (fs.icache ip).inum (fs.icache ip).toDinode)
  | leave {ip} : Effect fs (.leave ip) .idle
      (fs.setInode ip fun inode => { inode with valid := false, ref := inode.ref - 1 })
  | pass {request inum} : Effect fs (.scan request inum) (.scan request (inum + 1)) fs
  | claim {request inum} (unused : (fs.inodes inum).type = .free) :
      Effect fs (.scan request inum) (.claimed request inum)
        (fs.setDinode inum (Dinode.zero request.type))
  | iget {request inum ip target} (gets : Gets fs inum ip target) :
      Effect fs (.claimed request inum) (.got (some request) ip) target
  | lock {goal ip target} (same : Same fs target) :
      Effect fs (.got goal ip) (.locked goal ip) target
  | cached {goal ip next} (valid : (fs.icache ip).valid = true)
      (next_eq : next = Pc.after goal ip) : Effect fs (.locked goal ip) next fs
  | miss {goal ip} (invalid : (fs.icache ip).valid = false) :
      Effect fs (.locked goal ip) (.loading goal ip) fs
  | load {goal ip} : Effect fs (.loading goal ip) (.loaded goal ip)
      (fs.setInode ip fun inode => { inode with toDinode := fs.inodes inode.inum })
  | validate {goal ip next} (next_eq : next = Pc.after goal ip) :
      Effect fs (.loaded goal ip) next
        (fs.setInode ip fun inode => { inode with valid := true })
  | fields {request ip} : Effect fs (.fields request ip) (.updating request ip)
      (fs.setInode ip fun inode =>
        { inode with major := request.major, minor := request.minor, nlink := 1 })
  | update {request ip next} (linking : next.linking request ip) :
      Effect fs (.updating request ip) next
        (fs.setDinode (fs.icache ip).inum (fs.icache ip).toDinode)
  | dot {request ip before after target} (same : Same fs target) :
      Effect fs (.dots request ip before) (.dots request ip after) target
  | dotUpdate {request ip place next} (linking : next.linking request ip) :
      Effect fs (.dots request ip place) next
        (fs.setDinode (fs.icache ip).inum (fs.icache ip).toDinode)
  | created {request ip} : Effect fs (.created request ip) (.holds ip) fs
  | unlock {ip target} (same : Same fs target) : Effect fs (.holds ip) (.kept ip) target
  | put {ip} : Effect fs (.kept ip) (.enter ip) fs
  | relock {ip} : Effect fs (.kept ip) (.got none ip) fs
  | create {request} : Effect fs .idle (.scan request 1) fs
  | lookup {inum ip target} (gets : Gets fs inum ip target) :
      Effect fs .idle (.got none ip) target

/-! ## Inversion -/

section Inversion

variable {fs : Fs} {ip : Islot}

theorem gets_of_iget {target : Fs} {inum : Nat} (ran : Runs (iget rootdev inum) fs ip target) :
    Gets fs inum ip target := by
  rcases runs_iget ran with ⟨used, dev, named, rfl⟩ | ⟨fresh, empty, rfl⟩
  · exact .found used dev named
  · exact .recycled fresh empty

theorem yields_bfree (block : Blockno) : Yields (bfree block) fs fun _ target => Same fs target :=
  yields_of_runs fun _ _ => keeps_same_bfree block _ _ _

theorem yields_trunc (place : Trunc) :
    Yields (truncSection ip place) fs (Effect fs (.trunc ip place)) := by
  cases place with
  | direct rest =>
    cases rest with
    | nil =>
      exact .reading
        (.ite (fun _ => Effect.truncate (.refl fs)) fun _ => Effect.truncate (.refl fs))
    | cons index rest =>
      refine .reading (.ite (fun _ => Effect.truncate (.refl fs)) fun _ => ?_)
      exact .bind (yields_bfree _) fun _ _ same => Effect.truncate same
  | table addr rest =>
    cases rest with
    | nil => exact .bind (yields_bfree addr) fun _ _ same => Effect.truncate same
    | cons index rest =>
      refine .reading (.bind (.whenever (fun _ => yields_bfree _) fun _ => Same.refl fs) ?_)
      exact fun _ _ same => Effect.truncate same
  | unmap index rest | unmapTable | size => exact .update (Effect.truncate (.setInode ip rfl))
  | update => exact .update Effect.truncated

theorem yields_dots (request : Request) (place : Dot) :
    Yields (dotSection request ip place) fs (Effect fs (.dots request ip place)) := by
  cases place with
  | map second =>
    refine .bind (yields_of_runs fun _ _ => keeps_same_bmap_zero ip _ _ _) fun _ _ same => ?_
    exact Effect.dot same
  | write second block => exact .update (Effect.dot (.of_eq rfl rfl))
  | size second => exact .update (Effect.dot (.setInode ip rfl))
  | update second => exact .update (Effect.dotUpdate (by cases second <;> simp [linking]))

/-- What a step of a process does. -/
theorem yields_section (pc : Pc) : Yields (sectionOf pc) fs (Effect fs pc) := by
  cases pc with
  | idle => exact trivial
  | enter ip =>
    refine .reading (.ite (fun last => Effect.free last.1 last.2.1 last.2.2) fun kept => ?_)
    exact .update (Effect.drop kept)
  | trunc ip place => exact yields_trunc place
  | clear ip => exact .update Effect.clear
  | cleared ip => exact .update Effect.cleared
  | leave ip => exact .update Effect.leave
  | scan request inum =>
    refine .reading (.ite (fun _ => trivial) fun _ => .ite (fun unused => ?_) fun _ => Effect.pass)
    exact .update (Effect.claim unused)
  | claimed request inum =>
    exact .bind (yields_of_runs fun _ _ => gets_of_iget) fun _ _ gets => Effect.iget gets
  | got goal ip =>
    exact .checked fun _ => .checked fun _ => .update (Effect.lock (.setInode ip rfl))
  | locked goal ip =>
    refine .reading (.ite (fun valid => Effect.cached valid rfl) fun invalid => ?_)
    exact Effect.miss (Bool.eq_false_iff.mpr invalid)
  | loading goal ip => exact .update Effect.load
  | loaded goal ip => exact .update (Yields.checked fun _ => Effect.validate rfl)
  | fields request ip => exact .update Effect.fields
  | updating request ip => exact .update (Effect.update (by split <;> simp [linking]))
  | dots request ip place => exact yields_dots request place
  | created request ip => exact Effect.created
  | holds ip =>
    refine .bind (yields_of_runs fun _ _ => runs_iunlock.mp) fun _ _ unlocked => ?_
    obtain ⟨-, -, rfl⟩ := unlocked
    exact Effect.unlock (.setInode ip rfl)
  | kept ip => exact Effect.put

end Inversion

/-! ## References and identities -/

section References

variable {fs target : Fs} {pc next : Pc} {inum : Nat} {ip : Islot}

theorem Gets.ref (gets : Gets fs inum ip target) (other : Islot) :
    (target.icache other).ref = (fs.icache other).ref + if some ip = some other then 1 else 0 := by
  by_cases eq : other = ip
  · subst eq
    cases gets with
    | found => simp
    | recycled fresh empty => simp [empty]
  · cases gets with
    | found | recycled => simp [icache_setInode_of_ne eq, Ne.symm eq]

variable {change : Inode → Inode}

theorem ref_setInode {difference : Int}
    (changed : (change (fs.icache ip)).ref = (fs.icache ip).ref + difference) (other : Islot) :
    ((fs.setInode ip change).icache other).ref =
      (fs.icache other).ref + if some ip = some other then difference else 0 := by
  by_cases eq : other = ip
  · subst eq
    simp [changed]
  · simp [icache_setInode_of_ne eq, Ne.symm eq]

/-- The reference counts follow the references of the process. -/
theorem Effect.ref (effect : Effect fs pc next target) (other : Islot) :
    (target.icache other).ref + (if pc.slot = some other then 1 else 0) =
      (fs.icache other).ref + (if next.slot = some other then 1 else 0) := by
  cases effect with
  | free | pass | miss | created | put | relock | create => rfl
  | cached _ next_eq => rw [next_eq, slot_after]; rfl
  | truncate same | dot same | lock same | unlock same => rw [same.ref]; rfl
  | truncated | cleared | claim => rfl
  | update linking | dotUpdate linking => rw [slot_of_linking linking]; rfl
  | iget gets | lookup gets =>
    rw [gets.ref other]
    simp [Pc.slot]
  | drop | leave =>
    rw [ref_setInode Int.sub_eq_add_neg other]
    change _ + (if some _ = some other then -1 else 0) + (if some _ = some other then 1 else 0) =
      _ + 0
    split <;> omega
  | clear | load | fields =>
    rw [ref_setInode (Int.add_zero _).symm other]
    simp [Pc.slot]
  | validate next_eq =>
    rw [ref_setInode (Int.add_zero _).symm other, next_eq, slot_after]
    simp [Pc.slot]

variable {other : Islot}

theorem core_setInode_of_ne (ne : some ip ≠ some other) :
    core ((fs.setInode ip change).icache other) = core (fs.icache other) := by
  rw [icache_setInode_of_ne fun eq => ne (congrArg some eq.symm)]

theorem Gets.core_of_ne (gets : Gets fs inum ip target) (ne : some ip ≠ some other) :
    core (target.icache other) = core (fs.icache other) := by
  cases gets with
  | found | recycled => exact core_setInode_of_ne ne

/-- Slots to which the process has no reference stay as they are. -/
theorem Effect.core_of_ne (effect : Effect fs pc next target) (before : pc.slot ≠ some other)
    (after : next.slot ≠ some other) : core (target.icache other) = core (fs.icache other) := by
  cases effect with
  | free | pass | miss | created | put | relock | create | cached => rfl
  | truncate same | dot same | lock same | unlock same => exact same.core other
  | truncated | cleared | claim | update | dotUpdate => rfl
  | iget gets | lookup gets => exact gets.core_of_ne after
  | drop | leave | clear | load | fields | validate => exact core_setInode_of_ne before

theorem identity_setInode (dev : (change (fs.icache ip)).dev = (fs.icache ip).dev)
    (inum : (change (fs.icache ip)).inum = (fs.icache ip).inum) (other : Islot) :
    ((fs.setInode ip change).icache other).dev = (fs.icache other).dev ∧
      ((fs.setInode ip change).icache other).inum = (fs.icache other).inum := by
  by_cases eq : other = ip
  · subst eq
    simp [dev, inum]
  · simp [icache_setInode_of_ne eq]

theorem Gets.identity (gets : Gets fs inum ip target) (used : 0 < (fs.icache other).ref) :
    (target.icache other).dev = (fs.icache other).dev ∧
      (target.icache other).inum = (fs.icache other).inum := by
  cases gets with
  | found => exact identity_setInode rfl rfl other
  | recycled fresh empty =>
    have ne : other ≠ ip := by
      rintro rfl
      omega
    rw [icache_setInode_of_ne ne]
    exact ⟨rfl, rfl⟩

/-- A slot in use keeps the inode that it stands for. -/
theorem Effect.identity (effect : Effect fs pc next target) (used : 0 < (fs.icache other).ref) :
    (target.icache other).dev = (fs.icache other).dev ∧
      (target.icache other).inum = (fs.icache other).inum := by
  cases effect with
  | free | pass | miss | created | put | relock | create | cached => exact ⟨rfl, rfl⟩
  | truncate same | dot same | lock same | unlock same =>
    exact ⟨same.dev other, same.inum other⟩
  | truncated | cleared | claim | update | dotUpdate => exact ⟨rfl, rfl⟩
  | iget gets | lookup gets => exact gets.identity used
  | drop | leave | clear | load | fields | validate => exact identity_setInode rfl rfl other

theorem setDinode_cases (m : Nat) (dinode : Dinode) (inum : Nat) :
    (fs.setDinode m dinode).inodes inum = fs.inodes inum ∨ m = inum := by
  by_cases eq : inum = m
  · exact .inr eq.symm
  · exact .inl (inodes_setDinode_of_ne eq dinode)

section

variable (effect : Effect fs pc next target)
include effect

/-- A dinode is written by a process with a reference to the inode, or by `ialloc`. -/
theorem Effect.inodes (inum : Nat) :
    target.inodes inum = fs.inodes inum ∨ (∃ ip, pc.slot = some ip ∧ (fs.icache ip).inum = inum) ∨
      ∃ request, next = .claimed request inum := by
  cases effect with
  | free | pass | miss | created | put | relock | create | cached => exact .inl rfl
  | truncate same | dot same | lock same | unlock same => exact .inl (by rw [same.inodes])
  | truncated | cleared | update | dotUpdate =>
    rcases setDinode_cases _ _ inum with same | named
    · exact .inl same
    · exact .inr (.inl ⟨_, rfl, named⟩)
  | claim =>
    rcases setDinode_cases _ _ inum with same | named
    · exact .inl same
    · exact .inr (.inr ⟨_, congrArg (claimed _) named⟩)
  | iget gets | lookup gets =>
    cases gets with
    | found => exact .inl rfl
    | recycled => exact .inl rfl
  | drop | leave | clear | load | fields | validate => exact .inl rfl

/-- A process keeps its reference, gives it up, or takes one. -/
theorem Effect.slot_cases :
    next.slot = pc.slot ∨ next.slot = none ∨
      ∃ inum ip, Gets fs inum ip target ∧
        ((∃ request, pc = .claimed request inum ∧ next = .got (some request) ip) ∨
          pc = .idle ∧ next = .got none ip) := by
  cases effect with
  | free | miss | created | put | relock | lock | unlock | truncate | truncated | cleared | clear
  | load | fields | dot => exact .inl rfl
  | cached _ next_eq | validate next_eq => exact .inl (next_eq ▸ slot_after _ _)
  | pass | create | claim | drop | leave => exact .inr (.inl rfl)
  | update linking | dotUpdate linking => exact .inl (slot_of_linking linking)
  | iget gets => exact .inr (.inr ⟨_, _, gets, .inl ⟨_, rfl, rfl⟩⟩)
  | lookup gets => exact .inr (.inr ⟨_, _, gets, .inr ⟨rfl, rfl⟩⟩)

/-- A slot comes into use only for an inode that has no slot. -/
theorem Effect.fresh_of_used {ip : Islot}
    (before : (fs.icache ip).ref ≤ 0) (after : 0 < (target.icache ip).ref) :
    (target.icache ip).dev = rootdev ∧ next.slot = some ip ∧
      ∀ other, 0 < (fs.icache other).ref → (fs.icache other).dev = rootdev →
        (fs.icache other).inum ≠ (target.icache ip).inum := by
  have balance := effect.ref ip
  have taken : next.slot = some ip ∧ pc.slot ≠ some ip := by
    by_cases gained : next.slot = some ip
    · refine ⟨gained, fun had => ?_⟩
      rw [if_pos had] at balance
      omega
    · split at balance <;> omega
  rcases effect.slot_cases with same | none | ⟨inum, slot, gets, places⟩
  · exact absurd (same.symm.trans taken.1) taken.2
  · rw [none] at taken
    cases taken.1
  · have next_slot : next.slot = some slot := by
      rcases places with ⟨request, -, rfl⟩ | ⟨-, rfl⟩ <;> rfl
    obtain rfl : slot = ip := Option.some.inj (next_slot.symm.trans taken.1)
    cases gets with
    | found used => omega
    | recycled fresh empty =>
      refine ⟨by simp, next_slot, fun other used dev same => ?_⟩
      exact fresh other used ⟨dev, by simpa using same⟩

end

end References

end Xv6.FileSystem.Reuse
