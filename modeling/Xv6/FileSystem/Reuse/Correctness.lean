import Xv6.FileSystem.Reuse.Stages

/-!
# The new inode has the type that was asked for

The life of the number along every undisturbed run, from the `iput` that frees the
inode, and the run in which `create` tests `I_VALID` too early.
-/

namespace Xv6.FileSystem.Reuse

open Prog Transition Custody

variable {P : Type} [DecidableEq P] [Fintype P] {n : Nat} {extra : Islot → Nat}
  {state : State P}

/-- One process is about to call `iput` on the last reference to an inode without links, and
the others have no call in progress. -/
structure Start (n : Nat) (a : P) (ip : Islot) (state : State P) : Prop where
  iput : state.pc a = .enter ip
  idle : ∀ q ≠ a, state.pc q = .idle
  named : (state.fs.icache ip).inum = n
  last : (state.fs.icache ip).ref = 1
  valid : (state.fs.icache ip).valid = true
  nlink : (state.fs.icache ip).nlink = 0
  type : (state.fs.icache ip).type ≠ .free
  disk : (state.fs.inodes n).type ≠ .free
  ref : ∀ ip, 0 ≤ (state.fs.icache ip).ref
  dev : ∀ ip, 0 < (state.fs.icache ip).ref → (state.fs.icache ip).dev = rootdev
  unique : ∀ ip other, 0 < (state.fs.icache ip).ref → 0 < (state.fs.icache other).ref →
    (state.fs.icache ip).inum = (state.fs.icache other).inum → ip = other
  unmade : state.made n = none
  unlinked : state.linked n = false

namespace Start

variable {a : P} {ip : Islot}

omit [Fintype P] in
theorem only (start : Start n a ip state) {q : P} {other : Islot}
    (slot : (state.pc q).slot = some other) : q = a := by
  by_contra ne
  rw [start.idle q ne] at slot
  cases slot

theorem books (start : Start n a ip state) :
    Books n (fun other => if other = ip then 0 else (state.fs.icache other).ref.toNat) state where
  counted other := by
    by_cases eq : other = ip
    · subst eq
      have one : references (fun q => (state.pc q).slot) other = 1 := by
        exact references_eq_one (by rw [start.iput]; rfl) fun q slot => start.only slot
      rw [if_pos rfl, one, start.last]
      rfl
    have none : references (fun q => (state.pc q).slot) other = 0 := by
      refine references_eq_zero_iff.mpr fun q slot => ?_
      obtain rfl := start.only slot
      rw [start.iput] at slot
      exact eq (Option.some.inj slot).symm
    rw [if_neg eq, none, Int.toNat_of_nonneg (start.ref other)]
    exact (Int.add_zero _).symm
  dev := start.dev
  unique := start.unique
  apart other outside named := by
    by_cases eq : other = ip
    · rw [if_pos eq] at outside
      cases outside
    · rw [if_neg eq] at outside
      refine eq (start.unique other ip (by omega) (by rw [start.last]; decide) ?_)
      exact named.trans start.named.symm

omit [Fintype P] in
theorem life (start : Start n a ip state) : Life n (.dying a) state where
  role q other slot _ := by
    obtain rfl := start.only slot
    rw [start.iput] at slot ⊢
    cases slot
    exact ⟨rfl, start.valid, start.nlink, start.type⟩
  claims q request place := by
    by_cases eq : q = a
    · rw [eq, start.iput] at place
      cases place
    · rw [start.idle q eq] at place
      cases place
  disk := start.disk
  cached _ _ _ _ := trivial
  made := start.unmade
  unlinked _ := start.unlinked

end Start

/-- In every undisturbed run, a `create` that was given the number of the freed inode returns
with the type that it asked for, in core and on disk, and whoever locks the inode later sees
that type. -/
theorem type_of_run {a : P} {ip : Islot} {target : State P} {events : List (Event P)}
    (start : Start n a ip state) (undisturbed : Along State.step Undisturbed state events)
    (execution : run State.step state events = some target) :
    (∀ p request slot, target.pc p = .created request slot →
      (target.fs.icache slot).inum = n →
        (target.fs.icache slot).type = request.type ∧
          (target.fs.inodes n).type = request.type) ∧
    ∀ type, target.made n = some type → (target.fs.inodes n).type = type ∧
      ∀ p slot, target.pc p = .holds slot → (target.fs.icache slot).inum = n →
        (target.fs.icache slot).type = type := by
  have invariant : (∃ extra, Books n extra target) ∧ ∃ phase, Life n phase target := by
    refine run_invariant_of_along
      (fun state => (∃ extra, Books n extra state) ∧ ∃ phase, Life n phase state)
      ⟨⟨_, start.books⟩, _, start.life⟩ ?_ undisturbed execution
    rintro state event target ⟨⟨extra, books⟩, phase, life⟩ undisturbed step
    rcases taken_of_step undisturbed step with ⟨message, rfl⟩ | ⟨p, next, fs, taken, rfl⟩
    · exact ⟨⟨extra, books.counted, books.dev, books.unique, books.apart⟩, phase,
        life.role, life.claims, life.disk, life.cached, life.made, life.unlinked⟩
    · exact ⟨⟨extra, books.moved taken.effect⟩, life.moved books taken⟩
  obtain ⟨⟨extra, books⟩, phase, life⟩ := invariant
  constructor
  · intro p request slot place named
    obtain ⟨rfl, -, -, type, -⟩ := life.created place named
    exact ⟨type, life.disk⟩
  · intro type recorded
    obtain rfl : phase = .made type := by
      have same := life.made.symm.trans recorded
      cases phase with
      | made type' => rw [Option.some.inj same]
      | _ => cases same
    refine ⟨life.disk.2.1, fun p slot place named => ?_⟩
    have held : (target.pc p).slot = some slot := by rw [place]; rfl
    have valid := life.role p slot held named
    rw [place] at valid
    exact (life.cached slot (books.used held) named (life.not_leave named) valid).1

/-! ## Two processes -/

/-- A disk with the root directory and one file, whose last link is gone and to which the
process `false` has the last reference. -/
def lastReference : State Bool where
  fs :=
    { sb := ⟨1000, 941, 3⟩
      inodes := fun inum =>
        if inum = 1 then { Dinode.zero .dir with nlink := 1 } else Dinode.zero .file
      bitmap := fun _ => false
      data := fun _ _ => 0
      icache := fun ip =>
        if ip = 0 then
          { Inode.zero with
            type := .file, dev := rootdev, inum := 2, ref := 1, valid := true }
        else Inode.zero }
  pc := fun p => if p then .idle else .enter 0
  linked := fun inum => inum == 1
  made := fun _ => none
  trap := none

/-- A file is asked for. -/
def fileRequest : Request where
  type := .file
  major := 0
  minor := 0
  parent := 1
  allocated := by decide

theorem start_lastReference : Start 2 false 0 lastReference where
  iput := rfl
  idle q ne := by
    cases q with
    | false => exact absurd rfl ne
    | true => rfl
  named := rfl
  last := rfl
  valid := rfl
  nlink := rfl
  type := by decide
  disk := by decide
  ref := by decide +kernel
  dev := by decide +kernel
  unique := by decide +kernel
  unmade := rfl
  unlinked := rfl

/-- The steps of `iput` until it takes `icache.lock` again. -/
def freeSteps : List (Event Bool) :=
  List.replicate 18 (.go false)

/-- `ialloc` and `iget` of `create`, and the rest of `create` for a file whose slot has
`I_VALID` set. -/
def createSteps : List (Event Bool) :=
  .create true fileRequest :: List.replicate 8 (.go true)

/-- The run in which `create` comes after `iput`; it reads the inode from disk, and `ilock`
later finds it in the cache. -/
def afterwards : List (Event Bool) :=
  freeSteps ++ [.go false] ++ createSteps ++ List.replicate 3 (.go true) ++
    [.lookup false 2, .go false, .go false]

theorem type_of_afterwards :
    ∃ target, run State.step lastReference afterwards = some target ∧
      target.made 2 = some .file ∧ (target.fs.inodes 2).type = .file ∧
      ∀ p slot, target.pc p = .holds slot → (target.fs.icache slot).inum = 2 →
        (target.fs.icache slot).type = .file := by
  obtain ⟨target, execution, made⟩ : ∃ target ∈ run State.step lastReference afterwards,
      target.made 2 = some .file := by decide +kernel
  have undisturbed : Along State.step Undisturbed lastReference afterwards := by decide +kernel
  obtain ⟨-, later⟩ := type_of_run start_lastReference undisturbed execution
  obtain ⟨disk, held⟩ := later .file made
  exact ⟨target, execution, made, disk, held⟩

/-- `create` runs while `iput` waits for `icache.lock`: it finds `I_VALID` and the type that
`iput` has cleared, and marks the inode free on disk. -/
theorem type_lost :
    ∃ target, run State.step lastReference (freeSteps ++ createSteps) = some target ∧
      target.made 2 = some .file ∧ (target.fs.inodes 2).type = .free ∧
      (target.fs.icache 0).type = .free := by
  have seen : ∃ target ∈ run State.step lastReference (freeSteps ++ createSteps),
      target.made 2 = some .file ∧ (target.fs.inodes 2).type = .free ∧
      (target.fs.icache 0).type = .free := by decide +kernel
  exact seen

end Xv6.FileSystem.Reuse
